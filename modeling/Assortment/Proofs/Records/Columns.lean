import Assortment.Proofs.Goods.Writers
import Assortment.Proofs.Records.Revision

/-!
# Columns of stored products

Each column of a row belongs to a field of the product that is stored, to one of its times or to its key, so
what a product has in common with another, or with what an event tells of it, can be read off the row.
-/

namespace Assortment.Records
open Assortment.Goods Assortment.Storage Assortment.Text Assortment.Time

variable {row row' : Row} {p q : Product} {f : Field}

theorem Stores.fieldValues (h : Stores row p) (f : Field) :
    ∃ values, Records.fieldValues p f = .ok values ∧ ∀ v ∈ values, row[v.1]? = some v.2 := by
  obtain ⟨r, hr, rfl⟩ := h
  exact ⟨_, fieldValues_eq hr f, fun _ hv => r.getElem?_row_of_mem_fieldValues hv⟩

theorem Stores.keyAndTimes (h : Stores row p) : row[Layout.productId]? = some (.text p.id.text)
    ∧ row[Layout.createdAt]? = some (.timestamp p.createdAt)
    ∧ row[Layout.updatedAt]? = some (.timestamp p.updatedAt)
    ∧ row[Layout.archivedAt]? = some (.timestamp p.archivedAt) := by
  obtain ⟨r, hr, rfl⟩ := h
  obtain ⟨n, d, _, rfl⟩ := ProductRow.ofProduct_eq_ok hr
  simp +decide [ProductRow.row, ProductRow.values, Row.getElem?_ofList, Row.lastValue?]

theorem exists_mem_fieldValues {values : List (String × Value)} {column : String}
    (h : fieldValues p f = .ok values) (hc : column ∈ fieldColumns f) : ∃ v ∈ values, v.1 = column := by
  cases f with
  | basePrice =>
      obtain ⟨⟨n, d⟩, _, rfl⟩ := map_eq_ok h
      simp only [fieldColumns, List.mem_cons, List.not_mem_nil, or_false] at hc
      rcases hc with rfl | rfl <;> simp
  | _ =>
      cases h
      simp only [fieldColumns, List.mem_cons, List.not_mem_nil, or_false] at hc
      rcases hc with rfl | rfl | rfl <;> simp [discountValues]

/-- What a merge leaves in the columns of a field is from the copy that was merged if it wrote the field. -/
theorem fieldValues_merge (hf : f ≠ .basePrice) (p q : Product) : fieldValues (p.merge q) f
    = if q.dirty.contains f then fieldValues q f else fieldValues p f := by
  cases f with
  | basePrice => exact absurd rfl hf
  | status =>
      cases hd : q.dirty.contains .status <;> cases ha : q.isArchived <;>
        simp_all [fieldValues, Product.merge, Product.isArchived]
  | _ =>
      simp only [fieldValues, Product.merge]
      split <;> rfl

theorem fieldValues_committed (p : Product) (f : Field) : fieldValues p.committed f = fieldValues p f := by
  cases f <;> rfl

theorem fieldValues_congr (h : f.Same p q) : fieldValues p f = fieldValues q f := by
  cases f <;> simp_all [Field.Same, fieldValues, Product.isArchived]

theorem fieldValues_basePrice (h : p.basePrice.storable?.isSome = true) : fieldValues p .basePrice = .ok [
    (Layout.priceNumerator, .int p.basePrice.numerator?),
    (Layout.priceDenominator, .int p.basePrice.denominator?)] := by
  obtain ⟨⟨n, d⟩, hs⟩ := Option.isSome_iff_exists.1 h
  obtain ⟨hn, hd⟩ := Money.storable?_eq_some.1 hs
  have hn : p.basePrice.numerator? = some n := fit64?_eq_some.2 hn
  have hd : p.basePrice.denominator? = some d := fit64?_eq_some.2 hd
  rw [fieldValues, storablePrice, hs, hn, hd]
  rfl

/-- Rows of products that differ in nothing but the time of the last change differ in nothing else. -/
theorem Stores.getElem?_congr {t : Instant} {column : String} (h : Stores row p) (h' : Stores row' q)
    (he : p.committed = { q.committed with updatedAt := t }) (hc : column ≠ Layout.updatedAt) :
    row[column]? = row'[column]? := by
  obtain ⟨r, hr, rfl⟩ := h
  obtain ⟨r', hr', rfl⟩ := h'
  obtain ⟨hid, hname, hdescription, hcategory, hprice, hdiscount, hstatus, hcreated, _, harchived, _⟩ :=
    Product.ext_iff.1 he
  refine ProductRow.getElem?_row_congr hr hr' hid hcreated (fun f _ => ?_) (fun hu => absurd hu hc)
    fun _ => harchived
  cases f with
  | status => exact ⟨hstatus, harchived⟩
  | name => exact hname
  | description => exact hdescription
  | category => exact hcategory
  | basePrice => exact hprice
  | discount => exact hdiscount

/-! ## What events tell -/

/-- What an event tells of the columns of a field, which is nothing for the fields that it is not about. -/
def toldValues (e : Event) (f : Field) : List (String × Value) :=
  match e.what, f with
  | .created name .., .name | .updated name .., .name => [(Layout.name, .text name)]
  | .created _ description .., .description | .updated _ description _, .description =>
      [(Layout.description, .text description)]
  | .created _ _ category _, .category | .updated _ _ category, .category => [(Layout.category, .text category)]
  | .created _ _ _ price, .basePrice =>
      [(Layout.priceNumerator, .int price.numerator?), (Layout.priceDenominator, .int price.denominator?)]
  | .activated, .status => [(Layout.status, .text Status.active.text)]
  | .deactivated, .status => [(Layout.status, .text Status.inactive.text)]
  | .archived, .status => [(Layout.status, .text Status.archived.text), (Layout.archivedAt, .timestamp e.time)]
  | .discountApplied percentage start finish, .discount => [
      (Layout.discountPercent, .text (Ratio.encode percentage)), (Layout.discountStart, .timestamp start),
      (Layout.discountEnd, .timestamp finish)]
  | .discountRemoved, .discount => discountValues none
  | _, _ => []

variable {now : Instant} {before : Option Product} {e : Event}

/-- A product has in every field what the event of its last step tells of the field. -/
theorem fieldValues_of_told (h : Advances now before q e) (hf : toldValues e f ≠ []) :
    fieldValues q f = .ok (toldValues e f) := by
  cases h with
  | created hq =>
      obtain ⟨_, _, _, _, hprice, rfl⟩ := Product.create_eq_ok hq
      cases f with
      | basePrice => exact fieldValues_basePrice hprice
      | discount | status => exact absurd rfl hf
      | _ => rfl
  | @changed _ _ c hq hne =>
      obtain ⟨_, rfl⟩ := Product.perform_eq_ok hq
      rw [Change.outcome_of_ne_nil hne]
      cases c <;> cases f <;> first | rfl | exact absurd rfl hf

theorem toldValues_basePrice (h : Advances now (some p) q e) : toldValues e .basePrice = [] := by
  cases h with
  | @changed _ _ c => cases c <;> rfl

/-- Only an update tells of a field that was not written. -/
theorem updated_of_told (h : Advances now (some p) q e) (hf : toldValues e f ≠ [])
    (hd : q.dirty.contains f = false) :
    ∃ name description category, e.what = .updated name description category := by
  cases h with
  | @changed _ _ c hq _ =>
      obtain ⟨_, rfl⟩ := Product.perform_eq_ok hq
      rw [Change.contains_dirty_outcome, Bool.or_eq_false_iff, decide_eq_false_iff_not] at hd
      cases c with
      | update name description category => exact ⟨_, _, _, rfl⟩
      | _ => cases f <;> first | exact absurd rfl hf | exact absurd (List.mem_singleton.2 rfl) hd.1

end Assortment.Records
