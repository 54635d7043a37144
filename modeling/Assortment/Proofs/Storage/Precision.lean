import Assortment.Storage.Mutation

/-!
# Values at stored precision

Instants are stored in whole microseconds. A value without other instants passes through storage unchanged.
-/

namespace Assortment.Storage
open Assortment.Text Assortment.Time

/-- A whole number of microseconds, and so kept by storage. -/
def Aligned (t : Instant) : Prop := t.floorMicro = t

theorem aligned_iff {t : Instant} : Aligned t ↔ t.nanos % 1000 = 0 := by
  rw [Aligned, Instant.ext_iff, Instant.floorMicro_nanos]
  omega

theorem aligned_floorMicro (t : Instant) : Aligned t.floorMicro :=
  t.floorMicro_floorMicro

namespace Value

/-- A value whose instant, if it has one, is aligned. -/
def IsAligned (v : Value) : Prop := ∀ t, v.timestamp? = some t → Aligned t

@[simp]
theorem isAligned_timestamp {o : Option Instant} :
    (timestamp o).IsAligned ↔ ∀ t, o = some t → Aligned t := Iff.rfl

@[simp]
theorem isAligned_text (o : Option String) : (text o).IsAligned := by simp [IsAligned, timestamp?]

@[simp]
theorem isAligned_int (o : Option Int64) : (int o).IsAligned := by simp [IsAligned, timestamp?]

@[simp]
theorem isAligned_json (o : Option Json) : (json o).IsAligned := by simp [IsAligned, timestamp?]

@[simp]
theorem isAligned_uuid (o : Option Uuid) : (uuid o).IsAligned := by simp [IsAligned, timestamp?]

/-- A value at stored precision. -/
def floorMicro : Value → Value
  | timestamp v => timestamp (v.map Instant.floorMicro)
  | v => v

theorem IsAligned.floorMicro_eq {v : Value} (h : v.IsAligned) : v.floorMicro = v := by
  cases v with
  | timestamp o =>
      cases o with
      | none => rfl
      | some t => simp [floorMicro, show t.floorMicro = t from h t rfl]
  | _ => rfl

end Value

/-- A mutation all of whose values are aligned, that of the key included. -/
def Mutation.Precise (m : Mutation) : Prop := ∀ v ∈ m.key :: m.values.map (·.2), v.IsAligned

theorem Mutation.precise_iff {m : Mutation} :
    m.Precise ↔ m.key.IsAligned ∧ ∀ v ∈ m.values, v.2.IsAligned := by
  simp only [Precise, List.forall_mem_cons, List.forall_mem_map]

end Assortment.Storage
