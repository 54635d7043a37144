import Assortment.Text.Ratio
import Mathlib.Data.List.Induction

/-!
# The texts of ratios

Which texts are read as a ratio, given as a grammar that builds a text from its left end together with what it
stands for. Reading finds exactly the texts of the grammar, with the ratio that each of them spells.
-/

namespace Assortment.Text.Ratio

variable {cs ds : List Char} {c : Char} {n : Nat} {z : Int} {q : Rat}

/-! ## Numerals without a sign -/

/-- What a numeral spells that starts with a digit and goes on with digits and low lines. A further digit makes
ten times as much of what is in front of it, a low line makes nothing of it. -/
inductive SpellsNat : List Char → Nat → Prop where
  | digit {c : Char} : c.isDigit = true → SpellsNat [c] (c.toNat - '0'.toNat)
  | nextDigit {cs : List Char} {n : Nat} {c : Char} : SpellsNat cs n → c.isDigit = true →
      SpellsNat (cs ++ [c]) (10 * n + (c.toNat - '0'.toNat))
  | lowLine {cs : List Char} {n : Nat} : SpellsNat cs n → SpellsNat (cs ++ ['_']) n

theorem SpellsNat.ne_nil (h : SpellsNat cs n) : cs ≠ [] := by
  cases h <;> simp

theorem SpellsNat.exists_head (h : SpellsNat cs n) : ∃ c rest, cs = c :: rest ∧ c.isDigit = true := by
  induction h with
  | @digit c hc => exact ⟨c, [], rfl, hc⟩
  | nextDigit _ _ ih | lowLine _ ih =>
      obtain ⟨c, rest, rfl, hc⟩ := ih
      exact ⟨c, _, rfl, hc⟩

theorem SpellsNat.of_mem (h : SpellsNat cs n) (hc : c ∈ cs) : c.isDigit = true ∨ c = '_' := by
  induction h with
  | digit hd => exact .inl (List.mem_singleton.1 hc ▸ hd)
  | nextDigit _ hd ih =>
      rcases List.mem_append.1 hc with hc | hc
      · exact ih hc
      · exact .inl (List.mem_singleton.1 hc ▸ hd)
  | lowLine _ ih =>
      rcases List.mem_append.1 hc with hc | hc
      · exact ih hc
      · exact .inr (List.mem_singleton.1 hc)

theorem magnitude?_digit (hc : c.isDigit = true) : magnitude? [c] = some (c.toNat - '0'.toNat) := by
  simp [magnitude?, hc, digitsValue, Nat.ofDigitChars]

theorem digitsValue_filter_append (cs : List Char) (hc : c.isDigit = true) :
    digitsValue ((cs ++ [c]).filter Char.isDigit)
      = 10 * digitsValue (cs.filter Char.isDigit) + (c.toNat - '0'.toNat) := by
  have hlast : [c].filter Char.isDigit = [c] := by simp [hc]
  rw [List.filter_append, hlast, digitsValue, Nat.ofDigitChars_append]
  rfl

/-- What one more character at its end makes of a numeral. -/
theorem magnitude?_append (h : cs ≠ []) (c : Char) : magnitude? (cs ++ [c])
    = if c.isDigit then (magnitude? cs).map fun n => 10 * n + (c.toNat - '0'.toNat)
      else if c = '_' then magnitude? cs else none := by
  obtain ⟨first, hfirst⟩ := Option.isSome_iff_exists.1 (List.isSome_head?.2 h)
  have hhead : (cs ++ [c]).head? = cs.head? := by rw [List.head?_append, hfirst, Option.some_or]
  unfold magnitude?
  rw [hhead, List.all_append, ← Bool.and_assoc]
  by_cases hd : c.isDigit = true
  · rw [digitsValue_filter_append cs hd]
    simp only [List.all_cons, hd, Bool.true_or, List.all_nil, Bool.and_true, if_true]
    split <;> rfl
  · by_cases hl : c = '_'
    · subst hl
      simp
    · simp [hd, hl]

/-- A numeral without a sign is read exactly if it spells a number. -/
theorem magnitude?_eq_some_iff : magnitude? cs = some n ↔ SpellsNat cs n := by
  constructor
  · intro h
    induction cs using List.reverseRecOn generalizing n with
    | nil => cases h
    | append_singleton cs c ih =>
        by_cases hcs : cs = []
        · subst hcs
          by_cases hc : c.isDigit = true
          · rw [List.nil_append, magnitude?_digit hc] at h
            cases h
            exact .digit hc
          · simp [magnitude?, hc] at h
        · rw [magnitude?_append hcs] at h
          split at h
          · rename_i hc
            obtain ⟨m, hm, rfl⟩ := Option.map_eq_some_iff.1 h
            exact .nextDigit (ih hm) hc
          · split at h
            · rename_i hl
              subst hl
              exact .lowLine (ih h)
            · cases h
  · intro h
    induction h with
    | digit hc => exact magnitude?_digit hc
    | nextDigit hcs hc ih => rw [magnitude?_append hcs.ne_nil, if_pos hc, ih, Option.map_some]
    | lowLine hcs ih => rw [magnitude?_append hcs.ne_nil, ih]; rfl

/-! ## Numerals with a sign -/

/-- What a numeral spells that may have one sign in front. -/
inductive SpellsInt : List Char → Int → Prop where
  | unsigned {cs : List Char} {n : Nat} : SpellsNat cs n → SpellsInt cs n
  | plus {cs : List Char} {n : Nat} : SpellsNat cs n → SpellsInt ('+' :: cs) n
  | minus {cs : List Char} {n : Nat} : SpellsNat cs n → SpellsInt ('-' :: cs) (-n)

theorem integer?_minus (cs : List Char) :
    integer? ('-' :: cs) = (magnitude? cs).map fun (n : Nat) => -(n : Int) := by
  rw [integer?]
  cases magnitude? cs <;> rfl

theorem integer?_of_digit (hc : c.isDigit = true) (cs : List Char) :
    integer? (c :: cs) = (magnitude? (c :: cs)).map Int.ofNat := by
  unfold integer?
  split
  -- A digit is no sign.
  · rename_i he
    cases he
    cases hc
  · rename_i he
    cases he
    cases hc
  · rfl

/-- A numeral is read exactly if it spells an integer. -/
theorem integer?_eq_some_iff : integer? cs = some z ↔ SpellsInt cs z := by
  constructor
  · intro h
    unfold integer? at h
    split at h
    · rename_i ds
      cases hn : magnitude? ds with
      | none => rw [hn] at h; cases h
      | some n =>
          rw [hn] at h
          cases h
          exact .minus (magnitude?_eq_some_iff.1 hn)
    · obtain ⟨n, hn, rfl⟩ := Option.map_eq_some_iff.1 h
      exact .plus (magnitude?_eq_some_iff.1 hn)
    · obtain ⟨n, hn, rfl⟩ := Option.map_eq_some_iff.1 h
      exact .unsigned (magnitude?_eq_some_iff.1 hn)
  · intro h
    cases h with
    | unsigned hcs =>
        obtain ⟨c, rest, rfl, hc⟩ := hcs.exists_head
        rw [integer?_of_digit hc, magnitude?_eq_some_iff.2 hcs]
        rfl
    | plus hcs =>
        rw [integer?, magnitude?_eq_some_iff.2 hcs]
        rfl
    | minus hcs => rw [integer?_minus, magnitude?_eq_some_iff.2 hcs, Option.map_some]

theorem SpellsNat.no_slash (h : SpellsNat cs n) : '/' ∉ cs := by
  intro hm
  rcases h.of_mem hm with hd | hl
  · cases hd
  · cases hl

theorem SpellsInt.no_slash (h : SpellsInt cs z) : '/' ∉ cs := by
  intro hm
  cases h with
  | unsigned hcs => exact hcs.no_slash hm
  | plus hcs | minus hcs =>
      rcases List.mem_cons.1 hm with he | hm
      · cases he
      · exact hcs.no_slash hm

/-! ## Ratios -/

/-- What a text spells that is a numeral, or two numerals with a slash between them. -/
inductive Spells : List Char → Rat → Prop where
  | whole {cs : List Char} {z : Int} : SpellsInt cs z → Spells cs z
  | fraction {cs ds : List Char} {n d : Int} : SpellsInt cs n → SpellsInt ds d → d ≠ 0 →
      Spells (cs ++ '/' :: ds) (n / d)

theorem bne_of_no_slash (h : '/' ∉ cs) : ∀ c ∈ cs, (c != '/') = true :=
  fun _ hc => bne_iff_ne.2 fun he => h (he ▸ hc)

theorem decodeChars?_of_no_slash (h : '/' ∉ cs) :
    decodeChars? cs = (integer? cs).map fun (z : Int) => (z : Rat) := by
  have hd : cs.dropWhile (· != '/') = [] := by
    rw [← List.append_nil cs, List.dropWhile_append_of_pos (bne_of_no_slash h)]
    rfl
  simp only [decodeChars?, hd]

/-- A text is read as two numerals at its first slash. -/
theorem decodeChars?_of_slash (h : '/' ∉ cs) (ds : List Char) : decodeChars? (cs ++ '/' :: ds)
    = (integer? cs).bind fun n => (integer? ds).bind fun d =>
        if d = 0 then none else some ((n : Rat) / (d : Rat)) := by
  have hdrop : (cs ++ '/' :: ds).dropWhile (· != '/') = '/' :: ds := by
    rw [List.dropWhile_append_of_pos (bne_of_no_slash h)]
    rfl
  have htake : (cs ++ '/' :: ds).takeWhile (· != '/') = cs := by
    rw [List.takeWhile_append_of_pos (bne_of_no_slash h)]
    simp
  simp only [decodeChars?, hdrop, htake, Rat.divInt_eq_div]
  cases integer? cs <;> cases integer? ds <;> rfl

/-- A text is read as a ratio exactly if it spells it. -/
theorem decode?_eq_some_iff {s : String} : decode? s = some q ↔ Spells s.toList q := by
  rw [decode?]
  generalize s.toList = cs
  constructor
  · intro h
    by_cases hslash : '/' ∈ cs
    · obtain ⟨cs, ds, rfl, hcs⟩ := List.eq_append_cons_of_mem hslash
      rw [decodeChars?_of_slash hcs] at h
      obtain ⟨n, hn, h⟩ := Option.bind_eq_some_iff.1 h
      obtain ⟨d, hd, h⟩ := Option.bind_eq_some_iff.1 h
      split at h
      · cases h
      · rename_i h0
        cases h
        exact .fraction (integer?_eq_some_iff.1 hn) (integer?_eq_some_iff.1 hd) h0
    · rw [decodeChars?_of_no_slash hslash] at h
      obtain ⟨z, hz, rfl⟩ := Option.map_eq_some_iff.1 h
      exact .whole (integer?_eq_some_iff.1 hz)
  · intro h
    cases h with
    | whole hz => rw [decodeChars?_of_no_slash hz.no_slash, integer?_eq_some_iff.2 hz, Option.map_some]
    | fraction hn hd h0 =>
        rw [decodeChars?_of_slash hn.no_slash, integer?_eq_some_iff.2 hn, integer?_eq_some_iff.2 hd]
        exact if_neg h0

end Assortment.Text.Ratio
