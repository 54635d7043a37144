import Assortment.Proofs.Storage.Key
import Assortment.Proofs.Storage.Publish
import Mathlib.Data.List.Basic

/-!
# A store under typed keys

The database finds a row by the text of its key. As long as the keys of each table are of one type, no nulls and no
JSON with numbers that are not whole, it might as well find the row by the key itself: every plan has the same result,
and leaves the same rows under the same keys.
-/

namespace Assortment.Storage

instance (type : ColumnType) (v : Value) : Decidable (v.IsKey type) :=
  decidable_of_iff (v.type = type ∧ v.isNull = false ∧ v.isWhole = true)
    ⟨fun h => ⟨h.1, h.2.1, h.2.2⟩, fun h => ⟨h.type_eq, h.notNull, h.whole⟩⟩

/-- Whether the key of a mutation is one of its table. -/
def Mutation.Fits (keyType : String → ColumnType) (m : Mutation) : Prop := m.key.IsKey (keyType m.table)

def Plan.Fits (keyType : String → ColumnType) (plan : Plan) : Prop := ∀ m ∈ plan.mutations, m.Fits keyType

/-! ## The typed store -/

/-- Rows by table and key, where keys are told apart as values. -/
abbrev TypedRows := String → Value → Option Row

namespace TypedRows

def put (rows : TypedRows) (m : Mutation) (row : Row) : TypedRows :=
  Function.update rows m.table (Function.update (rows m.table) m.key (some row))

def change (rows : TypedRows) (m : Mutation) : Except StorageError TypedRows :=
  match m.kind, rows m.table m.key with
  | .insert, some _ => .error (.keyTaken m.table m.key.written)
  | .insert, none => .ok (rows.put m (Row.assign ∅ ((m.keyColumn, m.key) :: m.values)))
  | .update, found =>
      if m.values = [] then .error (.nothingToWrite m.table m.key.written)
      else match found with
        | none => .error (.noSuchRow m.table m.key.written)
        | some row => .ok (rows.put m (row.assign m.values))

theorem put_apply (rows : TypedRows) (m : Mutation) (row : Row) (t : String) (key : Value) :
    rows.put m row t key = if t = m.table ∧ key = m.key then some row else rows t key := by
  unfold put
  by_cases ht : t = m.table
  · subst ht
    by_cases hk : key = m.key
    · simp [hk]
    · simp [hk]
  · simp [ht]

/-- Carries out mutations up to the first that fails. -/
def changeAll (rows : TypedRows) : List Mutation → Except StorageError TypedRows
  | [] => .ok rows
  | m :: ms =>
      match rows.change m with
      | .ok changed => changed.changeAll ms
      | .error e => .error e

end TypedRows

/-- A store that finds a row by table and key. -/
@[ext]
structure TypedStore where
  rows : TypedRows
  opened : Nat
  armed : Bool

namespace TypedStore

/-- Commits a plan: the rows are those after all of its mutations, or the ones before if one fails. -/
def apply (store : TypedStore) (plan : Plan) : Except StorageError Unit × TypedStore :=
  if plan.mutations = [] then (.ok (), store)
  else
    let begun := { store with opened := store.opened + 1 }
    if store.armed then (.error Database.injectedFailure, { begun with armed := false })
    else match store.rows.changeAll plan.mutations with
      | .ok rows => (.ok (), { begun with rows := rows })
      | .error e => (.error e, begun)

def arm (store : TypedStore) : TypedStore := { store with armed := true }

def clear (store : TypedStore) : TypedStore := { store with rows := fun _ _ => none }

end TypedStore

/-! ## The typed view -/

/-- The rows that are kept under the texts of the keys of each table, by key. -/
def Rows.typed (keyType : String → ColumnType) (rows : Rows) : TypedRows := fun t key =>
  if key.IsKey (keyType t) then rows[(⟨t, key.written⟩ : Address)]? else none

/-- Whether rows are kept under nothing but texts of keys. -/
def Rows.Keyed (keyType : String → ColumnType) (rows : Rows) : Prop :=
  ∀ t text row, rows[(⟨t, text⟩ : Address)]? = some row → ∃ key : Value, key.IsKey (keyType t) ∧ key.written = text

def Database.typed (keyType : String → ColumnType) (db : Database) : TypedStore :=
  ⟨db.rows.typed keyType, db.opened, db.armed⟩

variable {keyType : String → ColumnType} {m m' : Mutation} {rows rows' : Rows} {row : Row} {db : Database} {plan : Plan}

/-- Two keys of a table are kept apart just if they are different. -/
theorem Mutation.Fits.address_eq_iff (h : m.Fits keyType) {t : String} {key : Value} (hkey : key.IsKey (keyType t)) :
    m.address = ⟨t, key.written⟩ ↔ t = m.table ∧ key = m.key := by
  constructor
  · intro he
    obtain ⟨ht, hw⟩ := Address.mk.inj he
    subst ht
    exact ⟨rfl, (hkey.written_inj h).1 hw.symm⟩
  · rintro ⟨rfl, rfl⟩
    rfl

namespace Rows

theorem typed_of_fits (rows : Rows) (h : m.Fits keyType) : rows.typed keyType m.table m.key = rows[m.address]? :=
  if_pos h

theorem typed_insert (rows : Rows) (row : Row) (h : m.Fits keyType) :
    Rows.typed keyType (rows.insert m.address row) = (rows.typed keyType).put m row := by
  funext t key
  rw [TypedRows.put_apply, typed, typed]
  by_cases hkey : key.IsKey (keyType t)
  · rw [if_pos hkey, if_pos hkey, getElem?_insert]
    simp only [h.address_eq_iff hkey]
  · have hne : ¬ (t = m.table ∧ key = m.key) := by
      rintro ⟨rfl, rfl⟩
      exact hkey h
    rw [if_neg hkey, if_neg hkey, if_neg hne]

theorem change_typed (rows : Rows) (h : m.Fits keyType) :
    (rows.typed keyType).change m = (rows.change m).map (Rows.typed keyType) := by
  unfold TypedRows.change change
  rw [typed_of_fits rows h]
  cases m.kind with
  | insert =>
      cases rows[m.address]? with
      | none => exact congrArg Except.ok (typed_insert rows _ h).symm
      | some row => rfl
  | update =>
      by_cases hv : m.values = []
      · simp [hv, Except.map]
      · cases rows[m.address]? with
        | none => simp [hv, Except.map]
        | some row => simp [hv, Except.map, typed_insert rows _ h]

theorem changeAll_typed {ms : List Mutation} (rows : Rows) (h : ∀ m ∈ ms, m.Fits keyType) :
    (rows.typed keyType).changeAll ms = (rows.changeAll ms).map (Rows.typed keyType) := by
  induction ms generalizing rows with
  | nil => rfl
  | cons m ms ih =>
      obtain ⟨hm, hms⟩ := List.forall_mem_cons.1 h
      rw [TypedRows.changeAll, changeAll, change_typed rows hm]
      cases rows.change m with
      | error e => rfl
      | ok changed => exact ih changed hms

theorem Keyed.change (hk : rows.Keyed keyType) (h : m.Fits keyType) (hc : rows.change m = .ok rows') :
    rows'.Keyed keyType := by
  intro t text row hr
  by_cases ha : m.address = ⟨t, text⟩
  · cases ha
    exact ⟨m.key, h, rfl⟩
  · rw [getElem?_change hc ha] at hr
    exact hk t text row hr

/-- What is kept under the texts of keys is all there under the keys. -/
theorem Keyed.getElem?_eq_some_iff (hk : rows.Keyed keyType) {t text : String} :
    rows[(⟨t, text⟩ : Address)]? = some row
      ↔ ∃ key : Value, key.written = text ∧ rows.typed keyType t key = some row := by
  constructor
  · intro hr
    obtain ⟨key, hkey, rfl⟩ := hk t text row hr
    exact ⟨key, rfl, (if_pos hkey).trans hr⟩
  · rintro ⟨key, rfl, hr⟩
    rw [typed] at hr
    split at hr
    · exact hr
    · cases hr

end Rows

/-! ## Plans -/

namespace Database

theorem apply_typed (db : Database) (h : plan.Fits keyType) :
    (db.typed keyType).apply plan = ((db.apply plan).1, (db.apply plan).2.typed keyType) := by
  unfold TypedStore.apply
  by_cases hp : plan.mutations = []
  · rw [if_pos hp, apply_of_nil hp]
  · rw [if_neg hp]
    cases ha : db.armed with
    | true =>
        rw [apply_of_armed hp ha]
        simp [typed, ha]
    | false =>
        have hchanged := Rows.changeAll_typed db.rows h
        cases hc : db.rows.changeAll plan.mutations with
        | ok copy =>
            rw [apply_of_changeAll_ok hp ha hc]
            simp [hchanged, hc, typed, ha, Except.map]
        | error e =>
            rw [apply_of_changeAll_error hp ha hc]
            simp [hchanged, hc, typed, ha, Except.map]

theorem keyed_apply (hk : db.rows.Keyed keyType) (h : plan.Fits keyType) :
    (db.apply plan).2.rows.Keyed keyType := by
  rcases db.rows_apply plan with hrows | hrows
  · rw [hrows]
    exact hk
  · exact Rows.changeAll_keeps (fun m hm _ _ hc hkeyed => hkeyed.change (h m hm) hc) hrows hk

end Database

/-! ## Operations -/

/-- What can be asked of a store: to commit a plan, to let the next commit fail, or to forget all rows. -/
inductive Operation where
  | commit (plan : Plan)
  | arm
  | clear

def Operation.Fits (keyType : String → ColumnType) : Operation → Prop
  | commit plan => plan.Fits keyType
  | arm | clear => True

/-- A way to keep rows, with states of type `σ`. -/
structure Keeper (σ : Type) where
  apply : σ → Plan → Except StorageError Unit × σ
  arm : σ → σ
  clear : σ → σ

/-- The results of the commits among several operations, and the state after all of them. -/
def Keeper.run {σ : Type} (keeper : Keeper σ) (s : σ) : List Operation → List (Except StorageError Unit) × σ
  | [] => ([], s)
  | .commit plan :: ops =>
      let (result, s) := keeper.apply s plan
      let (results, s) := keeper.run s ops
      (result :: results, s)
  | .arm :: ops => keeper.run (keeper.arm s) ops
  | .clear :: ops => keeper.run (keeper.clear s) ops

def Database.keeper : Keeper Database := ⟨Database.apply, Database.arm, Database.clear⟩

def TypedStore.keeper : Keeper TypedStore := ⟨TypedStore.apply, TypedStore.arm, TypedStore.clear⟩

namespace Database

theorem clear_typed (db : Database) : db.clear.typed keyType = (db.typed keyType).clear := by
  have hrows : Rows.typed keyType ∅ = fun _ _ => none := by
    funext t key
    simp [Rows.typed]
  exact TypedStore.ext hrows rfl rfl

theorem keyed_clear (db : Database) : db.clear.rows.Keyed keyType :=
  fun t text row h => by simp [clear] at h

theorem run_typed {ops : List Operation} (hk : db.rows.Keyed keyType) (h : ∀ op ∈ ops, op.Fits keyType) :
    TypedStore.keeper.run (db.typed keyType) ops = ((keeper.run db ops).1, (keeper.run db ops).2.typed keyType)
      ∧ (keeper.run db ops).2.rows.Keyed keyType := by
  induction ops generalizing db with
  | nil => exact ⟨rfl, hk⟩
  | cons op ops ih =>
      obtain ⟨hop, hops⟩ := List.forall_mem_cons.1 h
      cases op with
      | commit plan =>
          obtain ⟨hrun, hkeyed⟩ := ih (keyed_apply hk hop) hops
          refine ⟨?_, hkeyed⟩
          have happly : TypedStore.keeper.apply (db.typed keyType) plan
              = ((db.apply plan).1, (db.apply plan).2.typed keyType) := apply_typed db hop
          simp only [Keeper.run, happly, hrun]
          rfl
      | arm =>
          have harm : db.arm.rows.Keyed keyType := hk
          exact ih harm hops
      | clear =>
          obtain ⟨hrun, hkeyed⟩ := ih (keyed_clear db) hops
          rw [clear_typed] at hrun
          exact ⟨hrun, hkeyed⟩

end Database

/-- Among values of one type that are no nulls each has its own text, if JSON has no numbers but whole ones. So
mutations whose keys are such values of their tables write the same row just if they name the same table and key, and
whatever is asked of a database with such keys comes to the same as with a store that finds its rows by the keys
themselves. -/
theorem keys_kept_apart (keyType : String → ColumnType) :
    (∀ v w : Value, v.type = w.type → v.isNull = false → w.isNull = false → v.isWhole = true → w.isWhole = true →
      v.written = w.written → v = w)
    ∧ (∀ m m' : Mutation, m.Fits keyType → m'.Fits keyType →
      (m.address = m'.address ↔ m.table = m'.table ∧ m.key = m'.key))
    ∧ ∀ (db : Database) (ops : List Operation), db.rows.Keyed keyType → (∀ op ∈ ops, op.Fits keyType) →
      (Database.keeper.run db ops).1 = (TypedStore.keeper.run (db.typed keyType) ops).1
      ∧ (Database.keeper.run db ops).2.typed keyType = (TypedStore.keeper.run (db.typed keyType) ops).2
      ∧ (Database.keeper.run db ops).2.rows.Keyed keyType
      ∧ ∀ t text row, (Database.keeper.run db ops).2.row? t text = some row
        ↔ ∃ key : Value, key.written = text
          ∧ ((Database.keeper.run db ops).2.typed keyType).rows t key = some row := by
  refine ⟨fun v w => Value.eq_of_written_eq, fun m m' h h' => ?_, fun db ops hkeyed hops => ?_⟩
  · rw [eq_comm (a := m.table), eq_comm (a := m.key)]
    exact h.address_eq_iff h'
  · obtain ⟨hrun, hafter⟩ := Database.run_typed hkeyed hops
    rw [hrun]
    exact ⟨rfl, rfl, hafter, fun t text row => hafter.getElem?_eq_some_iff⟩

/-- A weight under a JSON key. -/
def Mutation.tag (key : Text.Json) : Mutation :=
  ⟨.insert, "tags", "tag", .json (some key), [("weight", .json (some (.float 0.5 (by decide))))]⟩

/-- The number one and the text that says so are two keys. Those of one type are told apart, but a number and a text
could be written alike. -/
theorem keys_kept_apart_tags :
    (Mutation.tag (.str "1")).address ≠ (Mutation.tag (.int 1)).address
      ∧ (Value.int (some 1)).written = (Value.text (some "1")).written
      ∧ (TypedStore.keeper.run (Database.typed (fun _ => .json) ∅) [
          .commit ⟨[.tag (.str "1"), .tag (.int 1)]⟩, .arm, .commit ⟨[.tag .null]⟩, .commit ⟨[.tag (.str "1")]⟩]).1
        = [.ok (), .error Database.injectedFailure, .error (.keyTaken "tags" "\"1\"")] := by
  have hfits : ∀ key : Text.Json, key.isWhole = true → (Mutation.tag key).Fits fun _ => .json :=
    fun _ h => ⟨rfl, rfl, h⟩
  obtain ⟨_, hapart, hall⟩ := keys_kept_apart fun _ => .json
  obtain ⟨hresults, _⟩ := hall ∅ [
      .commit ⟨[.tag (.str "1"), .tag (.int 1)]⟩, .arm, .commit ⟨[.tag .null]⟩, .commit ⟨[.tag (.str "1")]⟩]
    (Database.keyed_clear ∅) (by
      simpa [Operation.Fits, Plan.Fits] using
        ⟨⟨hfits (.str "1") rfl, hfits (.int 1) rfl⟩, hfits .null rfl, hfits (.str "1") rfl⟩)
  refine ⟨fun he => ?_, by decide +kernel, hresults.symm.trans (by decide +kernel)⟩
  have hkeys := ((hapart _ _ (hfits _ rfl) (hfits _ rfl)).1 he).2
  revert hkeys
  decide

end Assortment.Storage
