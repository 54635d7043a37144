import Assortment.Proofs.Storage.Binding
import Assortment.Proofs.Storage.Precision
import Assortment.Storage.Wire

/-!
# Statements on a wire

Whole microseconds are what a wire can carry: an instant comes back as it was sent exactly if it is aligned to them, and
otherwise from less than a microsecond away. The statement of a mutation with plain names arrives over a session that
has not fixed other types for its text, each value under its own type, and a null is a null under every type.
-/

namespace Assortment.Storage
open Assortment.Text Assortment.Time

/-! ## Instants -/

/-- The start of 2000 is a whole number of microseconds, so it does not matter that a wire counts from there, nor
in which direction it drops what lies below a microsecond. -/
theorem ofMicros?_micros_iff {t : Instant} : Wire.ofMicros? (Wire.micros t) = some t ↔ Aligned t := by
  have hdvd : (1000 : Int) ∣ t.nanos - Wire.wireEpoch ↔ t.nanos % 1000 = 0 := by
    rw [Wire.wireEpoch]
    omega
  rw [Wire.ofMicros?, Instant.ofNanos?_eq_some, aligned_iff, ← hdvd, Wire.micros]
  constructor
  · intro h
    exact ⟨(t.nanos - Wire.wireEpoch).tdiv 1000, by omega⟩
  · intro h
    rw [Int.tdiv_mul_cancel h]
    omega

/-- Dropping what lies below a microsecond leads towards zero, by less than a microsecond. -/
theorem tdiv_mul_cases (n : Int) :
    (0 ≤ n ∧ n.tdiv 1000 * 1000 ≤ n ∧ n < n.tdiv 1000 * 1000 + 1000 ∧ 0 ≤ n.tdiv 1000)
      ∨ (n ≤ 0 ∧ n ≤ n.tdiv 1000 * 1000 ∧ n.tdiv 1000 * 1000 < n + 1000 ∧ n.tdiv 1000 ≤ 0) := by
  rcases Int.eq_nat_or_neg n with ⟨k, rfl | rfl⟩
  · rw [Int.tdiv_eq_ediv_of_nonneg (by omega)]
    omega
  · rw [Int.neg_tdiv, Int.tdiv_eq_ediv_of_nonneg (by omega)]
    omega

theorem exists_ofMicros?_micros (t : Instant) :
    ∃ u, Wire.ofMicros? (Wire.micros t) = some u ∧ (t.nanos - u.nanos).natAbs < 1000 := by
  have hmin := t.min_le
  have hmax := t.le_max
  -- what is dropped leads towards the start of 2000, and so not out of the range of instants
  have hbounds : minNanos ≤ Wire.wireEpoch + (t.nanos - Wire.wireEpoch).tdiv 1000 * 1000
      ∧ Wire.wireEpoch + (t.nanos - Wire.wireEpoch).tdiv 1000 * 1000 ≤ maxNanos
      ∧ (t.nanos - (Wire.wireEpoch + (t.nanos - Wire.wireEpoch).tdiv 1000 * 1000)).natAbs < 1000 := by
    have hcases := tdiv_mul_cases (t.nanos - Wire.wireEpoch)
    simp only [minNanos, maxNanos, Wire.wireEpoch] at *
    omega
  exact ⟨⟨_, hbounds.1, hbounds.2.1⟩, Instant.ofNanos?_eq_some.2 rfl, hbounds.2.2⟩

/-! ## Values -/

/-- What a value can arrive as: itself, or an instant that is less than a microsecond away if it was not a whole one. -/
inductive Value.Arrives : Value → Value → Prop where
  | same {v : Value} : v.IsAligned → Arrives v v
  | rounded {t u : Instant} : ¬ Aligned t → (t.nanos - u.nanos).natAbs < 1000 →
      Arrives (.timestamp (some t)) (.timestamp (some u))

namespace Value

variable {v : Value}

/-- An aligned value arrives as it was sent. -/
theorem IsAligned.receive? (h : v.IsAligned) : Wire.receive? v.type v = some v := by
  unfold Wire.receive?
  rw [if_pos rfl]
  cases v with
  | timestamp o =>
      cases o with
      | none => rfl
      | some t => simp [ofMicros?_micros_iff.2 (h t rfl)]
  | _ => rfl

theorem delivered_eq_floorMicro (v : Value) : Wire.delivered v = v.floorMicro := by
  cases v <;> rfl

theorem isAligned_of_isNull (h : v.isNull = true) : v.IsAligned := by
  cases v with
  | timestamp o => simp_all [isNull]
  | _ => simp

/-- A value arrives under its own type. -/
theorem exists_receive? (v : Value) : ∃ w, Wire.receive? v.type v = some w ∧ v.Arrives w := by
  by_cases ha : v.IsAligned
  · exact ⟨v, ha.receive?, .same ha⟩
  · cases v with
    | timestamp o =>
        cases o with
        | none => exact absurd (isAligned_of_isNull rfl) ha
        | some t =>
            obtain ⟨u, hu, hnear⟩ := exists_ofMicros?_micros t
            refine ⟨.timestamp (some u), ?_, .rounded (by simpa using ha) hnear⟩
            simp [Wire.receive?, hu]
    | _ => exact absurd (by simp) ha

end Value

/-! ## Texts -/

theorem Sql.IsWord.nul_not_mem {cs : List Char} (h : Sql.IsWord cs) : '\x00' ∉ cs := by
  intro hmem
  have hchar := h.chars _ hmem
  revert hchar
  decide

theorem Sql.nul_not_mem_of_isPlain {name : String} (h : Sql.isPlain name = true) : '\x00' ∉ name.toList :=
  (Sql.isWord_of_isPlain h).nul_not_mem

namespace Statement

theorem nul_not_mem_placeholderChars (n : Nat) : '\x00' ∉ placeholderChars n :=
  (Sql.isWord_placeholderChars n).nul_not_mem

theorem nul_not_mem_commaChars {items : List (List Char)} (h : ∀ item ∈ items, '\x00' ∉ item) :
    '\x00' ∉ commaChars items := by
  fun_induction commaChars items with
  | case1 => simp
  | case2 a => exact h a List.mem_cons_self
  | case3 a b rest ih =>
      obtain ⟨ha, hrest⟩ := List.forall_mem_cons.1 h
      simp [ha, ih hrest]

variable {table keyColumn : String} {columns : List String}

theorem nul_not_mem_insertChars (ht : Sql.isPlain table = true) (hc : ∀ c ∈ columns, Sql.isPlain c = true) :
    '\x00' ∉ insertChars table columns := by
  have hnames : '\x00' ∉ commaChars (columns.map String.toList) :=
    nul_not_mem_commaChars (List.forall_mem_map.2 fun c h => Sql.nul_not_mem_of_isPlain (hc c h))
  have hplaceholders : '\x00' ∉ commaChars (placeholders columns.length) :=
    nul_not_mem_commaChars (List.forall_mem_map.2 fun i _ => nul_not_mem_placeholderChars (i + 1))
  unfold insertChars
  simp [Sql.nul_not_mem_of_isPlain ht, hnames, hplaceholders]

theorem nul_not_mem_assignmentChars (hc : Sql.isPlain keyColumn = true) (n : Nat) :
    '\x00' ∉ assignmentChars keyColumn n := by
  simp [assignmentChars, Sql.nul_not_mem_of_isPlain hc, nul_not_mem_placeholderChars]

theorem nul_not_mem_updateChars (ht : Sql.isPlain table = true) (hk : Sql.isPlain keyColumn = true)
    (hc : ∀ c ∈ columns, Sql.isPlain c = true) : '\x00' ∉ updateChars table keyColumn columns := by
  have hassignments : '\x00' ∉ commaChars (columns.mapIdx fun i c => assignmentChars c (i + 1)) := by
    refine nul_not_mem_commaChars fun item hitem => ?_
    obtain ⟨i, hi, rfl⟩ := List.mem_mapIdx.1 hitem
    exact nul_not_mem_assignmentChars (hc _ (List.getElem_mem hi)) _
  unfold updateChars
  simp [Sql.nul_not_mem_of_isPlain ht, hassignments, nul_not_mem_assignmentChars hk]

end Statement

/-! ## Statements -/

namespace Wire

variable {σ : Type} {session : Session σ} {text : String} {values : List Value}

theorem exists_mapM_receive? (values : List Value) :
    ∃ received, ((values.map Value.type).zip values).mapM (fun p => receive? p.1 p.2) = some received
      ∧ List.Forall₂ Value.Arrives values received := by
  induction values with
  | nil => exact ⟨[], rfl, .nil⟩
  | cons v vs ih =>
      obtain ⟨w, hw, harrives⟩ := v.exists_receive?
      obtain ⟨ws, hws, hall⟩ := ih
      exact ⟨w :: ws, by simp [List.mapM_cons, hw, hws], .cons harrives hall⟩

/-- Whether a session has not prepared the text of a statement, or with the types that its values have. -/
def Suits (session : Session σ) (statement : Statement) : Prop :=
  ∀ types, session.prepared.lookup statement.text = some types →
    statement.values?.map (List.map Value.type) = some types

/-- Whether a statement and its values arrive over a session, which then has the types of the values for its text. -/
def Carries (session : Session σ) (statement : Statement) : Prop :=
  ∃ values received session', statement.values? = some values
    ∧ transmit? session statement = some (.run statement.text received, session')
    ∧ session'.prepared.lookup statement.text = some (values.map Value.type)
    ∧ List.Forall₂ Value.Arrives values received

theorem Suits.carries (h : Suits session (.run text values)) (htext : '\x00' ∉ text.toList) :
    Carries session (.run text values) := by
  have htypes : typesFor session text values = values.map Value.type := by
    unfold typesFor
    cases hlookup : session.prepared.lookup text with
    | none => rfl
    | some types => exact (Option.some.inj (h types hlookup)).symm
  obtain ⟨received, hreceived, harrives⟩ := exists_mapM_receive? values
  refine ⟨values, received, { session with prepared := session.prepared.touch text (values.map Value.type) }, rfl, ?_,
    Prepared.lookup_touch _ _ _, harrives⟩
  simp only [transmit?, if_neg htext, htypes, hreceived, Option.map_some, Statement.text]

theorem bytes?_of_isNull {v : Value} (h : v.isNull = true) : bytes? v = none := by
  cases v <;> simp_all [Value.isNull, bytes?]

/-- A null is a null under every type. -/
theorem receive?_of_isNull {v : Value} (h : v.isNull = true) (type : ColumnType) :
    receive? type v = some (.null type) := by
  by_cases htype : v.type = type
  · subst htype
    rw [(Value.isAligned_of_isNull h).receive?, ← Value.eq_null_of_isNull h]
  · simp [receive?, htype, bytes?_of_isNull h]

end Wire

namespace Mutation

variable {m : Mutation} {σ : Type} {session : Wire.Session σ}

theorem IsPlain.nul_not_mem_text (h : m.IsPlain) : '\x00' ∉ m.statement.text.toList := by
  unfold statement
  cases m.kind with
  | insert => simpa [Statement.text] using Statement.nul_not_mem_insertChars h.table h.columns
  | update =>
      obtain ⟨hkey, hcolumns⟩ := List.forall_mem_cons.1 h.columns
      simpa [Statement.text] using Statement.nul_not_mem_updateChars h.table hkey hcolumns

theorem exists_statement_eq_run (m : Mutation) : ∃ text values, m.statement = .run text values := by
  unfold statement
  cases m.kind <;> exact ⟨_, _, rfl⟩

theorem IsPlain.carries (h : m.IsPlain) (hsuits : Wire.Suits session m.statement) :
    Wire.Carries session m.statement := by
  obtain ⟨text, values, hstatement⟩ := m.exists_statement_eq_run
  have htext := h.nul_not_mem_text
  rw [hstatement] at hsuits htext ⊢
  exact hsuits.carries htext

/-- What is written at stored precision comes over a wire and back as it was. -/
theorem Precise.crosses (h : m.Precise) :
    ∀ v ∈ m.key :: m.values.map (·.2), Wire.receive? v.type v = some v ∧ Wire.delivered v = v := by
  intro v hv
  have hv : v.IsAligned := h v hv
  exact ⟨hv.receive?, v.delivered_eq_floorMicro.trans hv.floorMicro_eq⟩

end Mutation

end Assortment.Storage
