import Assortment.Proofs.Goods.Merge
import Assortment.Proofs.Records.Revision
import Mathlib.Data.List.Basic

/-!
# Updates by an outdated copy

The update that a changed copy of a product asks for writes the columns of what the copy has written and no
others. So it makes of the row of a product the row of that product merged with the copy, however far the
product has gone on since the copy was loaded.
-/

namespace Assortment.Records
open Assortment.Goods Assortment.Storage Assortment.Text Assortment.Time

variable {row : Row} {p q : Product} {r r' : ProductRow}

theorem revisedValues_merge (hr : ProductRow.ofProduct q = .ok r)
    (hr' : ProductRow.ofProduct (p.merge q) = .ok r') (hprice : q.dirty.contains .basePrice = false) :
    revisedValues r' (p.merge q) = revisedValues r q := by
  obtain ⟨n, d, _, rfl⟩ := ProductRow.ofProduct_eq_ok hr
  obtain ⟨n', d', _, rfl⟩ := ProductRow.ofProduct_eq_ok hr'
  unfold revisedValues
  refine congrArg₂ _ (List.flatMap_congr fun f hf => ?_) rfl
  have hf : q.dirty.contains f = true := FieldSet.mem_toList.1 hf
  cases f with
  | basePrice => exact absurd hf (by simp [hprice])
  | status =>
      by_cases ha : q.isArchived = true <;>
        simp_all [ProductRow.fieldValues, Product.merge, Product.isArchived]
  | _ => simp [ProductRow.fieldValues, Product.merge, hf]

/-- The update of the dirty fields of a copy merges the copy into a row. -/
theorem updates_merge_revision (h : Stores row p) (hid : q.id = p.id) (hd : q.dirty ≠ ∅)
    (hprice : q.dirty.contains .basePrice = false) (hr : ProductRow.ofProduct q = .ok r) :
    Updates row (p.merge q)
      ⟨.update, Layout.products, Layout.productId, .text q.id.text, revisedValues r q⟩ := by
  obtain ⟨r', hr'⟩ := ProductRow.exists_ofProduct (p := p.merge q) h.storable
  rw [hid, ← revisedValues_merge hr hr' hprice]
  exact updates_revision h (Product.accounted_merge hd) hr'

/-- The update that archives a copy merges the copy into a row, when nothing but its status is dirty. -/
theorem updates_merge_archival (h : Stores row p) (hid : q.id = p.id) (ha : q.isArchived = true)
    (hd : ∀ f, q.dirty.contains f = decide (f = .status)) : Updates row (p.merge q) (archival q) := by
  have hs : q.dirty.contains .status = true := by simp [hd]
  have hm : archival q = archival (p.merge q) := by simp [archival, Product.merge, hid, hs, ha]
  have hne : q.dirty ≠ ∅ := by
    rintro he
    rw [he, FieldSet.contains_empty] at hs
    cases hs
  rw [hm]
  refine updates_archival h (Product.accounted_merge hne) fun f hf => ?_
  have hf : q.dirty.contains f = true := hf
  rwa [hd, decide_eq_true_iff] at hf

end Assortment.Records
