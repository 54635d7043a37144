/-!
# Instants

An instant is a whole number of nanoseconds since the start of 1970, UTC, within the range that the
calendar covers. The range is linear: every day has 86400 seconds and every second 10^9 nanoseconds, and the
encodings of a leap second, in which a last second of a minute counts on past 10^9 nanoseconds, are not
instants here. Storage keeps microseconds: `Instant.floorMicro` is the last whole microsecond that is not
after an instant.
-/
namespace Assortment.Time

/-- The earliest instant, in nanoseconds: the start of the year -262143. -/
def minNanos : Int := -8334601228800 * 1000000000

/-- The latest instant, in nanoseconds: the last one of the year 262142. -/
def maxNanos : Int := 8210266876799 * 1000000000 + 999999999

/-- A point in time, in nanoseconds since the start of 1970. -/
@[ext]
structure Instant where
  nanos : Int
  min_le : minNanos ≤ nanos
  le_max : nanos ≤ maxNanos
deriving DecidableEq

namespace Instant

instance : LE Instant := ⟨fun a b => a.nanos ≤ b.nanos⟩
instance : LT Instant := ⟨fun a b => a.nanos < b.nanos⟩

theorem le_def {a b : Instant} : a ≤ b ↔ a.nanos ≤ b.nanos := Iff.rfl
theorem lt_def {a b : Instant} : a < b ↔ a.nanos < b.nanos := Iff.rfl

instance (a b : Instant) : Decidable (a ≤ b) := decidable_of_iff _ le_def.symm
instance (a b : Instant) : Decidable (a < b) := decidable_of_iff _ lt_def.symm

def epoch : Instant := ⟨0, by decide, by decide⟩

instance : Inhabited Instant := ⟨epoch⟩

/-- The instant with the given count, if it lies in the range. -/
def ofNanos? (n : Int) : Option Instant :=
  if h : minNanos ≤ n ∧ n ≤ maxNanos then some ⟨n, h.1, h.2⟩ else none

/-- Whole seconds since the start of 1970, rounded down. -/
def seconds (t : Instant) : Int := t.nanos / 1000000000

/-- Nanoseconds since the last whole second. -/
def subsecond (t : Instant) : Nat := (t.nanos % 1000000000).toNat

/-- The instant at stored precision: the digits below a microsecond are dropped. -/
def floorMicro (t : Instant) : Instant where
  nanos := t.nanos - t.nanos % 1000
  min_le := by have := t.min_le; simp only [minNanos] at *; omega
  le_max := by have := t.le_max; omega

/-- The instant that lies the given number of nanoseconds later, if it is in the range. -/
def shift? (t : Instant) (delta : Int) : Option Instant :=
  ofNanos? (t.nanos + delta)

@[simp]
theorem floorMicro_nanos (t : Instant) : t.floorMicro.nanos = t.nanos - t.nanos % 1000 := rfl

theorem floorMicro_floorMicro (t : Instant) : t.floorMicro.floorMicro = t.floorMicro := by
  ext
  simp only [floorMicro_nanos]
  omega

theorem floorMicro_le (t : Instant) : t.floorMicro ≤ t := by
  rw [le_def, floorMicro_nanos]
  omega

theorem ofNanos?_eq_some {n : Int} {t : Instant} : ofNanos? n = some t ↔ t.nanos = n := by
  unfold ofNanos?
  split
  · rename_i h
    constructor
    · intro he; cases he; rfl
    · intro he; subst he; rfl
  · rename_i h
    constructor
    · intro he; cases he
    · intro he; subst he; exact absurd ⟨t.min_le, t.le_max⟩ h

theorem ofNanos?_eq_none {n : Int} : ofNanos? n = none ↔ n < minNanos ∨ maxNanos < n := by
  unfold ofNanos?
  split
  · rename_i h; simp only [reduceCtorEq, false_iff]; omega
  · rename_i h; simp only [true_iff]; omega

end Instant

end Assortment.Time
