import Assortment.Proofs.Goods.Parts
import Assortment.Proofs.Records.StoredRow

/-!
# Products and their records

A record that is read and written again is normalised once: the price is reduced, the percentage spelled in one
way and the period cut to whole microseconds, after which nothing moves any more. Only a price whose reduced form
does not fit can be read but not written.
-/

namespace Assortment.Goods

/-- The price `n / d` can be written as a fraction in lowest terms of two 64-bit integers, the lower one above
zero. A zero denominator counts as one. -/
def FitsInLowestTerms (n d : Int64) : Prop :=
  ∃ a b : Int64, 0 < b.toInt ∧ a.toInt.gcd b.toInt = 1
    ∧ a.toInt * (if d = 0 then 1 else d.toInt) = n.toInt * b.toInt

theorem storable_ofParts_iff {n d : Int64} : (Money.ofParts n d).storable?.isSome ↔ FitsInLowestTerms n d := by
  simp only [Option.isSome_iff_exists, Prod.exists, Money.storable?_ofParts_eq_some_iff]
  exact Iff.rfl

end Assortment.Goods

namespace Assortment.Records
open Assortment.Goods Assortment.Storage Assortment.Text Assortment.Time

namespace ProductRow

theorem toProduct_eq_ok {r : ProductRow} {p : Product} (h : r.toProduct = .ok p) :
    ∃ status discount, Status.read r.status = .ok status ∧ r.discount? = .ok discount ∧ p = {
      id := ⟨r.id⟩
      name := r.name
      description := r.description
      category := r.category
      basePrice := Money.ofParts r.priceNumerator r.priceDenominator
      discount := discount
      status := status
      createdAt := r.createdAt
      updatedAt := r.updatedAt
      archivedAt := r.archivedAt } := by
  obtain ⟨status, hs, h⟩ := bind_eq_ok (mapError_eq_ok h)
  obtain ⟨discount, hd, h⟩ := bind_eq_ok h
  exact ⟨status, discount, mapError_eq_ok hs, hd, (Except.ok.inj h).symm⟩

/-- What was read has nothing left to store or announce. -/
theorem committed_of_toProduct {r : ProductRow} {p : Product} (h : r.toProduct = .ok p) : p.committed = p := by
  obtain ⟨status, discount, _, _, rfl⟩ := toProduct_eq_ok h
  rfl

theorem ofProduct_refused_iff {p : Product} :
    ofProduct p = .error .invalidBasePrice ↔ ¬ p.basePrice.storable?.isSome := by
  unfold ofProduct storablePrice require
  cases p.basePrice.storable? <;> simp [Except.map]

theorem storable_of_toProduct {r : ProductRow} {p : Product} (h : r.toProduct = .ok p) :
    p.basePrice.storable?.isSome ↔ FitsInLowestTerms r.priceNumerator r.priceDenominator := by
  obtain ⟨status, discount, _, _, rfl⟩ := toProduct_eq_ok h
  exact storable_ofParts_iff

/-- A product whose price fits is read back from its record. A record that can be read is refused when written
again exactly if the reduced price does not fit; else the record that comes out is read as the same product, and
writing that product gives this record again. -/
theorem record_retracts :
    (∀ p : Product,
      (∃ n d : Int64, n.toInt = p.basePrice.amount.num ∧ d.toInt = p.basePrice.amount.den) →
      ∃ r, ofProduct p = .ok r ∧ r.toProduct = .ok { p with dirty := ∅, pending := [] })
    ∧ ∀ (r : ProductRow) (p : Product), r.toProduct = .ok p →
      (ofProduct p = .error .invalidBasePrice ↔ ¬ FitsInLowestTerms r.priceNumerator r.priceDenominator)
      ∧ (FitsInLowestTerms r.priceNumerator r.priceDenominator →
        ∃ r', ofProduct p = .ok r' ∧ r'.toProduct = .ok p ∧ ∀ q, r'.toProduct = .ok q → ofProduct q = .ok r') := by
  constructor
  · rintro p ⟨n, d, hn, hd⟩
    have hs : p.basePrice.storable?.isSome := by
      rw [Money.storable?_eq_some.2 ⟨hn, hd⟩]
      rfl
    obtain ⟨r, hr⟩ := exists_ofProduct hs
    exact ⟨r, hr, toProduct_of_ofProduct hr⟩
  · intro r p hp
    constructor
    · rw [ofProduct_refused_iff, storable_of_toProduct hp]
    · intro hfits
      obtain ⟨r', hr'⟩ := exists_ofProduct ((storable_of_toProduct hp).2 hfits)
      have hback : r'.toProduct = .ok p := by
        rw [toProduct_of_ofProduct hr', committed_of_toProduct hp]
      refine ⟨r', hr', hback, fun q hq => ?_⟩
      rw [hback] at hq
      cases hq
      exact hr'

/-- A lamp with an unreduced price, a percentage spelled at length and a period before the epoch that is two
nanoseconds long and crosses a microsecond. -/
def lampRow : ProductRow where
  id := "lamp"
  name := "Lamp"
  description := ""
  category := "Light"
  priceNumerator := -3998
  priceDenominator := -200
  discountPercent := some "+0_5/2_0"
  discountStart := some ⟨-1001, by decide, by decide⟩
  discountEnd := some ⟨-999, by decide, by decide⟩
  status := "active"
  createdAt := .epoch
  updatedAt := .epoch
  archivedAt := none

def lamp : Product where
  id := ⟨"lamp"⟩
  name := "Lamp"
  description := ""
  category := "Light"
  basePrice := ⟨1999 / 100⟩
  discount := some {
    percentage := 1 / 4
    start := ⟨-2000, by decide, by decide⟩
    finish := ⟨-1000, by decide, by decide⟩
    percentage_pos := by decide +kernel
    percentage_le := by decide +kernel
    start_aligned := by decide
    finish_aligned := by decide
    start_lt_finish := by decide }
  status := .active
  createdAt := .epoch
  updatedAt := .epoch
  archivedAt := none

/-- A lamp whose price reaches one beyond the integers that can be stored. -/
def dearLampRow : ProductRow := { lampRow with priceNumerator := Int64.minValue, priceDenominator := -1 }

theorem record_retracts_lamp :
    (∃ r, ofProduct { lamp with dirty := Product.initialFields } = .ok r ∧ r.toProduct = .ok lamp)
    ∧ (∃ r', ofProduct lamp = .ok r' ∧ r'.toProduct = .ok lamp ∧ r' ≠ lampRow)
    ∧ ∃ p, dearLampRow.toProduct = .ok p ∧ ofProduct p = .error .invalidBasePrice := by
  have hread : lampRow.toProduct = .ok lamp := by decide +kernel
  have hdear : dearLampRow.toProduct = .ok { lamp with basePrice := ⟨9223372036854775808⟩ } := by decide +kernel
  refine ⟨record_retracts.1 { lamp with dirty := Product.initialFields } ⟨1999, 100, by decide +kernel⟩, ?_,
    _, hdear, (record_retracts.2 dearLampRow _ hdear).1.2 ?_⟩
  · obtain ⟨r', hr', hback, -⟩ := (record_retracts.2 lampRow lamp hread).2 ⟨1999, 100, by decide +kernel⟩
    refine ⟨r', hr', hback, ?_⟩
    rintro rfl
    exact absurd hr' (by decide +kernel)
  · rw [← storable_ofParts_iff]
    decide +kernel

end ProductRow

end Assortment.Records
