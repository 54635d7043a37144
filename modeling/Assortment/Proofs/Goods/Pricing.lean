import Assortment.Goods.Pricing
import Mathlib.Algebra.Order.Field.Rat
import Mathlib.Tactic.Linarith
import Mathlib.Tactic.Ring

/-!
# Prices and savings

At every time the price and the saving are the two parts that the valid percentage cuts the base price into.
A discount takes something off every positive price, and all of it at one hundred percent only.
-/

namespace Assortment.Goods
open Assortment.Time

/-! ## Percentages -/

namespace Money

variable {m : Money} {r : Rat}

theorem lessPercent_add_percentOf (m : Money) (r : Rat) : m.lessPercent r + m.percentOf r = m := by
  ext
  simp [lessPercent]

theorem amount_lessPercent (m : Money) (r : Rat) : (m.lessPercent r).amount = m.amount * ((100 - r) / 100) := by
  have hparts : (m.lessPercent r).amount = m.amount - m.amount * (r / 100) := rfl
  rw [hparts]
  ring

theorem percentOf_pos (hm : .zero < m) (hr : 0 < r) : .zero < m.percentOf r :=
  mul_pos hm (div_pos hr (by norm_num))

theorem lessPercent_nonneg (hm : .zero < m) (hr : r ≤ 100) : .zero ≤ m.lessPercent r := by
  rw [le_def, amount_lessPercent]
  exact mul_nonneg (le_of_lt hm) (by linarith)

theorem lessPercent_le (hm : .zero < m) (hr : 0 ≤ r) : m.lessPercent r ≤ m := by
  rw [le_def, amount_lessPercent]
  exact mul_le_of_le_one_right (le_of_lt hm) (by linarith)

theorem lessPercent_eq_zero_iff (hm : .zero < m) : m.lessPercent r = .zero ↔ r = 100 := by
  have hm : m.amount ≠ 0 := ne_of_gt hm
  rw [Money.ext_iff, amount_lessPercent]
  constructor
  · intro h
    have hrest := (mul_eq_zero.1 h).resolve_left hm
    linarith
  · rintro rfl
    simp [zero]

end Money

/-! ## The valid discount -/

/-- What is taken off a product at a time: the percentage of its discount from the start of the period until
right before the end, and nothing at all other times. -/
inductive Product.TakesOff (p : Product) (t : Instant) : Option Rat → Prop where
  | discount {d : Discount} : p.discount = some d → d.start ≤ t → t < d.finish → TakesOff p t (some d.percentage)
  | nothing : (∀ d, p.discount = some d → ¬ (d.start ≤ t ∧ t < d.finish)) → TakesOff p t none

namespace Product

variable {p : Product} {t : Instant} {d : Discount}

theorem discountAt?_eq_some : p.discountAt? t = some d ↔ p.discount = some d ∧ d.start ≤ t ∧ t < d.finish := by
  simp [discountAt?, Option.filter_eq_some_iff, Discount.covers]

theorem takesOff_discountAt? (p : Product) (t : Instant) :
    p.TakesOff t ((p.discountAt? t).map (·.percentage)) := by
  cases hd : p.discountAt? t with
  | some d =>
      obtain ⟨hp, hs, hf⟩ := discountAt?_eq_some.1 hd
      exact .discount hp hs hf
  | none =>
      refine .nothing fun d hp hin => ?_
      rw [discountAt?_eq_some.2 ⟨hp, hin⟩] at hd
      cases hd

theorem isReducedAt_iff : p.isReducedAt t = true ↔ ∃ d, p.discount = some d ∧ d.start ≤ t ∧ t < d.finish := by
  simp only [isReducedAt, Option.isSome_iff_exists, discountAt?_eq_some]

theorem priceAt_eq (p : Product) (t : Instant) :
    p.priceAt t = priceAfter p.basePrice ((p.discountAt? t).map (·.percentage)) := by
  unfold priceAt
  cases p.discountAt? t <;> rfl

end Product

/-! ## The price and the saving -/

theorem priceAfter_add_reduction (base : Money) (percentage : Option Rat) :
    priceAfter base percentage + reduction base percentage = base := by
  cases percentage with
  | some r => exact base.lessPercent_add_percentOf r
  | none => exact Money.ext (add_zero base.amount)

theorem amount_reduction (base : Money) (percentage : Option Rat) :
    (reduction base percentage).amount = base.amount * percentage.getD 0 / 100 := by
  cases percentage with
  | some r => exact (mul_div_assoc base.amount r 100).symm
  | none => simp [reduction, Money.zero]

namespace Product

variable {p : Product} {t : Instant}

theorem priceAt_add_savingAt (p : Product) (t : Instant) : p.priceAt t + p.savingAt t = p.basePrice := by
  rw [priceAt_eq]
  exact priceAfter_add_reduction _ _

theorem priceAt_lt_basePrice_iff : p.priceAt t < p.basePrice ↔ .zero < p.savingAt t := by
  have hsum : (p.priceAt t).amount + (p.savingAt t).amount = p.basePrice.amount :=
    congrArg Money.amount (p.priceAt_add_savingAt t)
  rw [Money.lt_def, ← hsum]
  exact lt_add_iff_pos_right _

theorem savingAt_pos_iff (h : .zero < p.basePrice) : .zero < p.savingAt t ↔ p.isReducedAt t = true := by
  unfold savingAt isReducedAt
  cases p.discountAt? t with
  | some d => exact iff_of_true (Money.percentOf_pos h d.percentage_pos) rfl
  | none => exact iff_of_false (lt_irrefl (0 : Rat)) (by decide)

theorem priceAt_nonneg (h : .zero < p.basePrice) : .zero ≤ p.priceAt t := by
  rw [priceAt_eq]
  cases p.discountAt? t with
  | some d => exact Money.lessPercent_nonneg h d.percentage_le
  | none => exact Rat.le_of_lt h

theorem priceAt_le_basePrice (h : .zero < p.basePrice) : p.priceAt t ≤ p.basePrice := by
  rw [priceAt_eq]
  cases p.discountAt? t with
  | some d => exact Money.lessPercent_le h d.percentage_pos.le
  | none => exact le_refl p.basePrice.amount

theorem priceAt_eq_zero_iff (h : .zero < p.basePrice) :
    p.priceAt t = .zero ↔ ∃ d, p.discountAt? t = some d ∧ d.percentage = 100 := by
  rw [priceAt_eq]
  cases p.discountAt? t with
  | some d =>
      have hrest : p.basePrice.lessPercent d.percentage = .zero ↔ d.percentage = 100 :=
        Money.lessPercent_eq_zero_iff h
      simpa [priceAfter] using hrest
  | none =>
      have hbase : p.basePrice ≠ .zero := mt (congrArg Money.amount) (ne_of_gt h)
      simpa [priceAfter] using hbase

end Product

/-- At every time the price and the saving add up to the base price, and both are what the percentage makes of it
that is valid then. When the base price is positive, the price lies between nothing and the base price. It is below
the base price just while the discount is valid, which is when something is saved, and nothing is left of it just
while a valid discount takes off all. -/
theorem prices_consistent (p : Product) (t : Instant) :
    p.priceAt t + p.savingAt t = p.basePrice
    ∧ (∃ percentage, p.TakesOff t percentage
      ∧ p.priceAt t = priceAfter p.basePrice percentage
      ∧ p.savingAt t = reduction p.basePrice percentage
      ∧ (p.savingAt t).amount = p.basePrice.amount * percentage.getD 0 / 100)
    ∧ (p.isReducedAt t = true ↔ ∃ d, p.discount = some d ∧ d.start ≤ t ∧ t < d.finish)
    ∧ (.zero < p.basePrice →
      .zero ≤ p.priceAt t ∧ p.priceAt t ≤ p.basePrice
      ∧ (p.priceAt t < p.basePrice ↔ p.isReducedAt t = true)
      ∧ (p.isReducedAt t = true ↔ .zero < p.savingAt t)
      ∧ (p.priceAt t = .zero
        ↔ ∃ d, p.discount = some d ∧ (d.start ≤ t ∧ t < d.finish) ∧ d.percentage = 100)) := by
  refine ⟨p.priceAt_add_savingAt t, ⟨_, p.takesOff_discountAt? t, p.priceAt_eq t, rfl, amount_reduction _ _⟩,
    Product.isReducedAt_iff,
    fun h => ⟨Product.priceAt_nonneg h, Product.priceAt_le_basePrice h, ?_, (Product.savingAt_pos_iff h).symm, ?_⟩⟩
  · exact Product.priceAt_lt_basePrice_iff.trans (Product.savingAt_pos_iff h)
  · simp only [Product.priceAt_eq_zero_iff h, Product.discountAt?_eq_some, and_assoc]

/-- A lamp that is given away for a second. -/
def freeLamp : Product where
  id := ⟨"lamp"⟩
  name := "Lamp"
  description := ""
  category := "Light"
  basePrice := ⟨1 / 3⟩
  discount := some {
    percentage := 100
    start := .epoch
    finish := ⟨1000000000, by decide, by decide⟩
    percentage_pos := by decide +kernel
    percentage_le := by decide +kernel
    start_aligned := by decide
    finish_aligned := by decide
    start_lt_finish := by decide }
  status := .active
  createdAt := .epoch
  updatedAt := .epoch
  archivedAt := none

theorem prices_consistent_free :
    .zero < freeLamp.basePrice
    ∧ freeLamp.priceAt .epoch = .zero
    ∧ .zero < freeLamp.savingAt .epoch
    ∧ ¬ freeLamp.priceAt ⟨1000000000, by decide, by decide⟩ < freeLamp.basePrice := by
  have hbase : .zero < freeLamp.basePrice := by decide +kernel
  obtain ⟨_, _, hreduced, hstart⟩ := prices_consistent freeLamp .epoch
  obtain ⟨_, _, _, hfinish⟩ := prices_consistent freeLamp ⟨1000000000, by decide, by decide⟩
  have hvalid : freeLamp.isReducedAt .epoch = true := hreduced.2 ⟨_, rfl, by decide, by decide⟩
  obtain ⟨_, _, _, hsaves, hzero⟩ := hstart hbase
  obtain ⟨_, _, hbelow, _⟩ := hfinish hbase
  exact ⟨hbase, hzero.2 ⟨_, rfl, by decide, rfl⟩, hsaves.1 hvalid, mt hbelow.1 (by decide)⟩

end Assortment.Goods
