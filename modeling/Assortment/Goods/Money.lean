import Assortment.Text.Numeral

/-!
# Exact amounts of money

An amount is a ratio, and no operation rounds. Only the displayed text is rounded, to cents, a half
going away from zero. Storage keeps an amount as two 64-bit integers, so an amount is storable when
both parts of its reduced form fit.
-/
namespace Assortment.Goods
open Assortment.Text

/-- The ratio of two integers, a zero denominator counting as one. -/
def ratio (n d : Int64) : Rat :=
  Rat.divInt n.toInt (if d = 0 then 1 else d.toInt)

/-- The given integer as a 64-bit one, if it fits. -/
def fit64? (n : Int) : Option Int64 :=
  if Int64.minValue.toInt ≤ n ∧ n ≤ Int64.maxValue.toInt then some (Int64.ofInt n) else none

theorem fit64?_eq_some {n : Int} {w : Int64} : fit64? n = some w ↔ w.toInt = n := by
  unfold fit64?
  split
  · rename_i h
    constructor
    · intro he
      cases he
      exact Int64.toInt_ofInt_of_le h.1 (Int.lt_add_one_of_le h.2)
    · rintro rfl
      rw [Int64.ofInt_toInt]
  · rename_i h
    constructor
    · intro he; cases he
    · rintro rfl
      exact absurd ⟨w.minValue_le_toInt, w.toInt_le⟩ h

/-- The given number as a byte, if it fits. -/
def fitByte? (n : Nat) : Option UInt8 :=
  if n < UInt8.size then some (UInt8.ofNat n) else none

/-- The nearest integer, a half going away from zero. -/
def roundHalfAway (q : Rat) : Int :=
  q.num.sign * ((2 * q.num.natAbs + q.den) / (2 * q.den) : Nat)

@[ext]
structure Money where
  amount : Rat
deriving DecidableEq

namespace Money

def zero : Money := ⟨0⟩

instance : Inhabited Money := ⟨zero⟩

/-- The amount `n / d`, a zero denominator counting as one. -/
def ofParts (n d : Int64) : Money := ⟨ratio n d⟩

/-- The numerator of the reduced amount, if it fits in 64 bits. -/
def numerator? (m : Money) : Option Int64 := fit64? m.amount.num

/-- The positive denominator of the reduced amount, if it fits in 64 bits. -/
def denominator? (m : Money) : Option Int64 := fit64? m.amount.den

/-- Both parts of the reduced amount, if both fit in 64 bits. -/
def storable? (m : Money) : Option (Int64 × Int64) :=
  match m.numerator?, m.denominator? with
  | some n, some d => some (n, d)
  | _, _ => none

/-- The parts that are stored are those of the reduced amount. -/
theorem storable?_eq_some {m : Money} {n d : Int64} :
    m.storable? = some (n, d) ↔ n.toInt = m.amount.num ∧ d.toInt = m.amount.den := by
  rw [← fit64?_eq_some, ← fit64?_eq_some, storable?, numerator?, denominator?]
  cases fit64? m.amount.num <;> cases fit64? (m.amount.den : Int) <;> simp

/-- An amount is made again by its parts. -/
theorem ofParts_of_storable {m : Money} {n d : Int64} (h : m.storable? = some (n, d)) :
    ofParts n d = m := by
  obtain ⟨hn, hd⟩ := storable?_eq_some.1 h
  have h0 : d ≠ 0 := by
    rintro rfl
    exact m.amount.den_nz (Int.ofNat_eq_zero.1 hd.symm)
  apply Money.ext
  simp only [ofParts, ratio, h0, ↓reduceIte, hn, hd]
  exact Rat.num_divInt_den m.amount

def isZero (m : Money) : Bool := m.amount == 0

def isPositive (m : Money) : Bool := decide (0 < m.amount)

def isNegative (m : Money) : Bool := decide (m.amount < 0)

instance : LE Money := ⟨fun a b => a.amount ≤ b.amount⟩
instance : LT Money := ⟨fun a b => a.amount < b.amount⟩

theorem le_def {a b : Money} : a ≤ b ↔ a.amount ≤ b.amount := Iff.rfl
theorem lt_def {a b : Money} : a < b ↔ a.amount < b.amount := Iff.rfl

instance (a b : Money) : Decidable (a ≤ b) := decidable_of_iff _ le_def.symm
instance (a b : Money) : Decidable (a < b) := decidable_of_iff _ lt_def.symm

instance : Add Money := ⟨fun a b => ⟨a.amount + b.amount⟩⟩
instance : Sub Money := ⟨fun a b => ⟨a.amount - b.amount⟩⟩

@[simp]
theorem amount_add (a b : Money) : (a + b).amount = a.amount + b.amount := rfl

@[simp]
theorem amount_sub (a b : Money) : (a - b).amount = a.amount - b.amount := rfl

def scale (m : Money) (factor : Rat) : Money := ⟨m.amount * factor⟩

def percentOf (m : Money) (percentage : Rat) : Money := m.scale (percentage / 100)

def lessPercent (m : Money) (percentage : Rat) : Money := m - m.percentOf percentage

/-- The amount in whole cents, a half going away from zero. -/
def cents (m : Money) : Int := roundHalfAway (m.amount * 100)

/-- The cents that make no whole unit, as a byte. -/
def looseCents? (c : Int) : Option UInt8 := fitByte? (c.natAbs % 100)

/-- The text of a number of cents: a minus if there are fewer than none, the whole part, two digits. -/
def centsChars (c : Int) : List Char :=
  (if c < 0 then ['-'] else []) ++ natDigits (c.natAbs / 100)
    ++ '.' :: paddedDigits 2 ((looseCents? c).getD 0).toNat

def text (m : Money) : String := String.ofList (centsChars m.cents)

end Money

end Assortment.Goods
