import Assortment.Goods.Money
import Mathlib.Algebra.Order.Field.Rat
import Mathlib.Data.Int.Order.Units
import Mathlib.Data.Rat.Lemmas
import Mathlib.RingTheory.Coprime.Lemmas
import Mathlib.RingTheory.Int.Basic
import Mathlib.Tactic.FieldSimp
import Mathlib.Tactic.Linarith
import Mathlib.Tactic.Positivity

/-!
# The parts of an amount

An amount that two 64-bit integers make is kept as one fraction, so amounts are equal and ordered as the fractions
are. Its parts in lowest terms fit in 64 bits again, but for a part of 2 to the 63rd that only gets there by losing
a minus.
-/

namespace Assortment.Goods

/-- What a denominator counts as. -/
def divisor (d : Int64) : Int := if d = 0 then 1 else d.toInt

variable {n d n₁ d₁ n₂ d₂ a b : Int64} {m : Money}

theorem divisor_ne_zero (d : Int64) : divisor d ≠ 0 := by
  unfold divisor
  split
  · decide
  · rename_i h
    exact fun h0 => h (Int64.toInt_inj.1 h0)

theorem divisor_eq_toInt (h : d ≠ 0) : divisor d = d.toInt :=
  if_neg h

theorem divisor_eq_of_neg (h : divisor d < 0) : divisor d = d.toInt := by
  apply divisor_eq_toInt
  rintro rfl
  exact absurd h (by decide)

theorem divisor_bounds (d : Int64) : -2 ^ 63 ≤ divisor d ∧ divisor d < 2 ^ 63 := by
  unfold divisor
  split
  · decide
  · exact ⟨d.le_toInt, d.toInt_lt⟩

namespace Money

/-! ## Lowest terms -/

theorem amount_ofParts (n d : Int64) : (ofParts n d).amount = n.toInt / divisor d :=
  Rat.divInt_eq_div _ _

/-- The given parts are one multiple of the parts in lowest terms. -/
theorem exists_factor (n d : Int64) : ∃ c : Int, c ≠ 0
    ∧ n.toInt = c * (ofParts n d).amount.num ∧ divisor d = c * (ofParts n d).amount.den := by
  obtain ⟨c, hn, hd⟩ := Rat.num_den_mk (divisor_ne_zero d) (rfl : (ofParts n d).amount = _)
  refine ⟨c, ?_, hn, hd⟩
  rintro rfl
  exact divisor_ne_zero d (by rw [hd, Int.zero_mul])

/-- The parts that are stored are the integers of which the fraction is in lowest terms. -/
theorem storable?_ofParts_eq_some_iff : (ofParts n d).storable? = some (a, b)
    ↔ 0 < b.toInt ∧ a.toInt.gcd b.toInt = 1 ∧ a.toInt * divisor d = n.toInt * b.toInt := by
  have hd := divisor_ne_zero d
  rw [storable?_eq_some]
  constructor
  · rintro ⟨ha, hb⟩
    have hpos : 0 < b.toInt := by
      rw [hb]
      exact Int.natCast_pos.2 (ofParts n d).amount.den_pos
    have hsame : Rat.divInt a.toInt b.toInt = Rat.divInt n.toInt (divisor d) := by
      rw [ha, hb]
      exact Rat.num_divInt_den _
    refine ⟨hpos, ?_, (Rat.divInt_eq_divInt_iff hpos.ne' hd).1 hsame⟩
    rw [ha, hb]
    exact (ofParts n d).amount.reduced
  · rintro ⟨hpos, hlowest, hcross⟩
    have hsame : (ofParts n d).amount = a.toInt / b.toInt := by
      rw [← Rat.divInt_eq_div]
      exact ((Rat.divInt_eq_divInt_iff hpos.ne' hd).2 hcross).symm
    rw [hsame]
    exact ⟨(Rat.num_div_eq_of_coprime hpos hlowest).symm, (Rat.den_div_eq_of_coprime hpos hlowest).symm⟩

/-! ## Parts that do not fit -/

/-- Whether a number fits in 64 bits. -/
def InRange (z : Int) : Prop := -2 ^ 63 ≤ z ∧ z < 2 ^ 63

theorem fit64?_eq_none {z : Int} : fit64? z = none ↔ ¬ InRange z := by
  rw [fit64?, Int64.toInt_minValue, Int64.toInt_maxValue, InRange]
  split <;> simp <;> omega

theorem storable?_eq_none_iff : m.storable? = none ↔ ¬ InRange m.amount.num ∨ ¬ InRange m.amount.den := by
  rw [← fit64?_eq_none, ← fit64?_eq_none, storable?, numerator?, denominator?]
  cases fit64? m.amount.num <;> cases fit64? (m.amount.den : Int) <;> simp

/-- A number that does not fit is brought into range by no factor but minus one, and only if it is the first that is
too large. -/
theorem not_inRange_iff {c z : Int} (hc : c ≠ 0) (h : InRange (c * z)) : ¬ InRange z ↔ c = -1 ∧ z = 2 ^ 63 := by
  obtain ⟨hmin, hmax⟩ := h
  unfold InRange
  constructor
  · intro hz
    have hgrow : z.natAbs ≤ (c * z).natAbs := by
      rw [Int.natAbs_mul]
      exact Nat.le_mul_of_pos_left _ (Int.natAbs_pos.2 hc)
    have hz : z = 2 ^ 63 := by omega
    subst hz
    exact ⟨by omega, rfl⟩
  · rintro ⟨rfl, rfl⟩
    omega

theorem odd_of_coprime {z : Int} (h : (2 ^ 63 : Int).gcd z = 1) : Odd z := by
  have hz : IsCoprime (2 ^ 63) z := Int.isCoprime_iff_gcd_eq_one.2 h
  exact Int.isCoprime_two_left.1 (hz.of_isCoprime_of_dvd_left (dvd_pow_self 2 (by decide)))

/-- Only a unit divides both a power of two and an odd number. -/
theorem unit_of_odd {c z w : Int} (hz : c * z = -2 ^ 63) (hw : Odd (c * w)) : c = 1 ∨ c = -1 := by
  have hodd : Odd c := (Int.odd_mul.1 hw).1
  have hcoprime : IsCoprime c (2 ^ 63) := (Int.isCoprime_two_right.2 hodd).pow_right
  have hdvd : c ∣ 2 ^ 63 := ⟨-z, by rw [mul_neg, hz, neg_neg]⟩
  exact Int.isUnit_iff.1 (hcoprime.isUnit_of_dvd' dvd_rfl hdvd)

theorem storable?_ofParts_eq_none_iff : (ofParts n d).storable? = none
    ↔ (d = Int64.minValue ∧ Odd n.toInt) ∨ (n = Int64.minValue ∧ d.toInt < 0 ∧ Odd d.toInt) := by
  obtain ⟨c, hc, hn, hd⟩ := exists_factor n d
  have hpos : 0 < ((ofParts n d).amount.den : Int) := Int.natCast_pos.2 (ofParts n d).amount.den_pos
  have hlowest : (ofParts n d).amount.num.gcd (ofParts n d).amount.den = 1 := (ofParts n d).amount.reduced
  rw [storable?_eq_none_iff, not_inRange_iff hc (hn ▸ ⟨n.le_toInt, n.toInt_lt⟩),
    not_inRange_iff hc (hd ▸ divisor_bounds d), ← Int64.toInt_inj, ← Int64.toInt_inj, Int64.toInt_minValue]
  generalize (ofParts n d).amount.num = a at *
  generalize ((ofParts n d).amount.den : Int) = b at *
  constructor
  · rintro (⟨rfl, rfl⟩ | ⟨rfl, rfl⟩)
    · have hdivisor : divisor d = d.toInt := divisor_eq_of_neg (by omega)
      have hodd : Odd (-b) := (odd_of_coprime hlowest).neg
      refine .inr ⟨by omega, by omega, ?_⟩
      rwa [← hdivisor, hd, neg_one_mul]
    · have hdivisor : divisor d = d.toInt := divisor_eq_of_neg (by omega)
      have hodd : Odd (-a) := (odd_of_coprime (Int.gcd_comm a _ ▸ hlowest)).neg
      refine .inl ⟨by omega, ?_⟩
      rwa [hn, neg_one_mul]
  · rintro (⟨hmin, hodd⟩ | ⟨hmin, hneg, hodd⟩)
    · have hdivisor : divisor d = d.toInt := divisor_eq_toInt (fun h => by simp [h] at hmin)
      have hb : c * b = -2 ^ 63 := by omega
      rcases unit_of_odd hb (hn ▸ hodd) with rfl | rfl
      · omega
      · exact .inr ⟨rfl, by omega⟩
    · have hdivisor : divisor d = d.toInt := divisor_eq_toInt (fun h => by simp [h] at hneg)
      have ha : c * a = -2 ^ 63 := by omega
      have hodd : Odd (c * b) := by rwa [← hd, hdivisor]
      rcases unit_of_odd ha hodd with rfl | rfl
      · omega
      · exact .inl ⟨rfl, by omega⟩

/-! ## Equality and order -/

theorem ofParts_eq_iff : ofParts n₁ d₁ = ofParts n₂ d₂ ↔ n₁.toInt * divisor d₂ = n₂.toInt * divisor d₁ := by
  rw [Money.ext_iff]
  exact Rat.divInt_eq_divInt_iff (divisor_ne_zero d₁) (divisor_ne_zero d₂)

theorem ofParts_scale {k : Int} (hn : n₂.toInt = k * n₁.toInt) (hd : divisor d₂ = k * divisor d₁) :
    ofParts n₂ d₂ = ofParts n₁ d₁ := by
  rw [ofParts_eq_iff, hn, hd]
  ring

/-- To compare integers, both fractions are multiplied by the squares of the denominators, which have no sign. -/
theorem ofParts_lt_iff : ofParts n₁ d₁ < ofParts n₂ d₂
    ↔ n₁.toInt * divisor d₁ * divisor d₂ ^ 2 < n₂.toInt * divisor d₂ * divisor d₁ ^ 2 := by
  have h₁ : (divisor d₁ : Rat) ≠ 0 := Int.cast_ne_zero.2 (divisor_ne_zero d₁)
  have h₂ : (divisor d₂ : Rat) ≠ 0 := Int.cast_ne_zero.2 (divisor_ne_zero d₂)
  have hsquare : (0 : Rat) < (divisor d₁ * divisor d₂) ^ 2 := by positivity
  have hleft : (n₁.toInt : Rat) / divisor d₁ * (divisor d₁ * divisor d₂) ^ 2
      = n₁.toInt * divisor d₁ * divisor d₂ ^ 2 := by field_simp
  have hright : (n₂.toInt : Rat) / divisor d₂ * (divisor d₁ * divisor d₂) ^ 2
      = n₂.toInt * divisor d₂ * divisor d₁ ^ 2 := by field_simp
  rw [lt_def, amount_ofParts, amount_ofParts, ← mul_lt_mul_iff_of_pos_right hsquare, hleft, hright]
  exact_mod_cast Iff.rfl

end Money

/-- The amount that two 64-bit integers make, a zero denominator counting as one throughout. Its parts are the one
fraction in lowest terms, over a denominator above zero, and there are none just if a given part is the least number
and the other one, odd, loses its minus with it. Amounts are the same if the cross products are, so multiplying
both parts makes no difference, and are ordered as the fractions are. An amount of any size that has parts is made by
them. -/
theorem parts_canonical :
    (∀ n d : Int64,
      (∀ a b, (Money.ofParts n d).storable? = some (a, b)
        ↔ 0 < b.toInt ∧ a.toInt.gcd b.toInt = 1 ∧ a.toInt * divisor d = n.toInt * b.toInt)
      ∧ ((Money.ofParts n d).storable? = none
        ↔ (d = Int64.minValue ∧ Odd n.toInt) ∨ (n = Int64.minValue ∧ d.toInt < 0 ∧ Odd d.toInt)))
    ∧ (∀ n₁ d₁ n₂ d₂ : Int64,
      (Money.ofParts n₁ d₁ = Money.ofParts n₂ d₂ ↔ n₁.toInt * divisor d₂ = n₂.toInt * divisor d₁)
      ∧ (∀ k : Int, n₂.toInt = k * n₁.toInt → divisor d₂ = k * divisor d₁ →
        Money.ofParts n₁ d₁ = Money.ofParts n₂ d₂)
      ∧ (Money.ofParts n₁ d₁ < Money.ofParts n₂ d₂
        ↔ (n₁.toInt : Rat) / divisor d₁ < (n₂.toInt : Rat) / divisor d₂)
      ∧ (Money.ofParts n₁ d₁ < Money.ofParts n₂ d₂
        ↔ n₁.toInt * divisor d₁ * divisor d₂ ^ 2 < n₂.toInt * divisor d₂ * divisor d₁ ^ 2))
    ∧ ∀ (m : Money) (a b : Int64), m.storable? = some (a, b) → Money.ofParts a b = m := by
  refine ⟨fun n d => ⟨fun a b => Money.storable?_ofParts_eq_some_iff, Money.storable?_ofParts_eq_none_iff⟩,
    fun n₁ d₁ n₂ d₂ => ⟨Money.ofParts_eq_iff, fun k hn hd => (Money.ofParts_scale hn hd).symm, ?_,
      Money.ofParts_lt_iff⟩,
    fun m a b h => Money.ofParts_of_storable h⟩
  rw [Money.lt_def, Money.amount_ofParts, Money.amount_ofParts]

theorem parts_canonical_signs :
    (Money.ofParts 3998 (-200)).storable? = some (-1999, 100)
    ∧ (Money.ofParts Int64.minValue (-1)).storable? = none
    ∧ Money.ofParts 1999 (-100) = Money.ofParts (-5997) 300
    ∧ Money.ofParts 1 (-2) < Money.ofParts (-1) (-3)
    ∧ (⟨1 / 3⟩ : Money).storable? = some (1, 3) ∧ Money.ofParts 1 3 = ⟨1 / 3⟩ := by
  obtain ⟨hparts, hpairs, hback⟩ := parts_canonical
  obtain ⟨_, hscale, _⟩ := hpairs 1999 (-100) (-5997) 300
  obtain ⟨_, _, _, horder⟩ := hpairs 1 (-2) (-1) (-3)
  have hthird : (⟨1 / 3⟩ : Money).storable? = some (1, 3) := by decide +kernel
  refine ⟨((hparts 3998 (-200)).1 _ _).2 (by decide +kernel), (hparts Int64.minValue (-1)).2.2 (.inr ?_),
    hscale (-3) (by decide +kernel) (by decide +kernel), horder.2 (by decide +kernel), hthird, hback _ 1 3 hthird⟩
  exact ⟨rfl, by decide +kernel, by decide +kernel⟩

end Assortment.Goods
