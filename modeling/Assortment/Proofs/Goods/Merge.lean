import Assortment.Proofs.Goods.Soundness

/-!
# Changes of an outdated copy

A change may be made to a copy of a product that was loaded before others changed the product. What it then
makes of the product is the product with the fields that the copy has written, which is sound if both were.
-/

namespace Assortment.Goods
open Assortment.Text Assortment.Time

variable {p p₀ q : Product} {c : Change} {now : Instant}

namespace Product

/-- The product with the fields that a changed copy of it has written and the time of that change. The time
of archiving is taken over with the status, but only from an archived copy. -/
def merge (p copy : Product) : Product where
  id := p.id
  name := if copy.dirty.contains .name then copy.name else p.name
  description := if copy.dirty.contains .description then copy.description else p.description
  category := if copy.dirty.contains .category then copy.category else p.category
  basePrice := p.basePrice
  discount := if copy.dirty.contains .discount then copy.discount else p.discount
  status := if copy.dirty.contains .status then copy.status else p.status
  createdAt := p.createdAt
  updatedAt := copy.updatedAt
  archivedAt :=
    if copy.dirty.contains .status && copy.isArchived then copy.archivedAt else p.archivedAt
  dirty := copy.dirty
  pending := copy.pending

/-- A new product is taken as it is, and one that is there takes over what its copy has written. -/
def onto (copy : Product) : Option Product → Product
  | none => copy
  | some p => p.merge copy

theorem accounted_merge (hd : q.dirty ≠ ∅) : Accounted p (p.merge q) where
  id := rfl
  basePrice := rfl
  createdAt := rfl
  fields f hf := by
    have hf : q.dirty.contains f = false := hf
    cases f <;> simp [Field.Same, merge, hf]
  updatedAt he := absurd he hd
  archivedAt hs := by
    by_cases hc : q.dirty.contains .status = true
    · simp only [merge, hc, if_true] at hs ⊢
      simp [isArchived, hs]
    · simp [merge, hc]

/-- Nothing is lost when the copy is not outdated. -/
theorem committed_merge (h : Accounted p q) : (p.merge q).committed = q.committed := by
  have hsame : ∀ f, ¬ q.dirty.contains f = true → f.Same p q := fun f hc =>
    h.fields f (Bool.eq_false_iff.2 hc)
  have harchived : (p.merge q).archivedAt = q.archivedAt := by
    refine ite_eq_left_iff.2 fun hc => ?_
    by_cases hs : q.dirty.contains .status = true
    · exact (h.archivedAt fun he => hc (by simp [hs, isArchived_iff.2 he])).symm
    · exact (hsame .status hs).2
  exact Product.ext h.id.symm (ite_eq_left_iff.2 (hsame .name)) (ite_eq_left_iff.2 (hsame .description))
    (ite_eq_left_iff.2 (hsame .category)) h.basePrice.symm (ite_eq_left_iff.2 (hsame .discount))
    (ite_eq_left_iff.2 fun hc => (hsame .status hc).1) h.createdAt.symm rfl harchived rfl rfl

end Product

/-! ## Copies that accepted one change -/

theorem Change.contains_fields_basePrice (c : Change) (p : Product) : Field.basePrice ∉ c.fields p := by
  cases c <;> simp [fields, Product.differingTexts]

theorem Change.status_of_mem_fields (h : Field.status ∈ c.fields p) :
    (c.overwrite p now).status ≠ .draft := by
  cases c <;> simp [fields, overwrite, Product.differingTexts] at h ⊢

variable (hd : p₀.dirty = ∅) (hq : p₀.perform c now = .ok q)

include hd hq in
theorem contains_dirty_of_perform (f : Field) : q.dirty.contains f = decide (f ∈ c.fields p₀) := by
  rw [(Product.perform_eq_ok hq).2, Change.contains_dirty_outcome, hd, FieldSet.contains_empty,
    Bool.or_false]

include hd hq in
theorem dirty_ne_empty_of_perform (hf : c.fields p₀ ≠ []) : q.dirty ≠ ∅ := by
  obtain ⟨f, hm⟩ := List.exists_mem_of_ne_nil _ hf
  intro he
  have hc := contains_dirty_of_perform hd hq f
  rw [he, FieldSet.contains_empty] at hc
  simp [hm] at hc

include hd hq in
/-- Nobody makes a product a draft again. -/
theorem status_of_merge (h : (p.merge q).status = .draft) :
    p.status = .draft ∧ q.dirty.contains .status = false := by
  cases hc : q.dirty.contains .status with
  | false => exact ⟨by simpa [Product.merge, hc] using h, rfl⟩
  | true =>
      have hm : Field.status ∈ c.fields p₀ := by
        rwa [contains_dirty_of_perform hd hq, decide_eq_true_iff] at hc
      have hs : q.status = .draft := by simpa [Product.merge, hc] using h
      rw [(Product.perform_eq_ok hq).2, Change.outcome_of_ne_nil (List.ne_nil_of_mem hm)] at hs
      exact absurd hs (Change.status_of_mem_fields hm)

include hd hq in
/-- A sound product stays sound when a copy of it is changed that is outdated, but not a draft unless the
product is one. -/
theorem Product.Sound.merge (hp : p.Sound) (hp₀ : p₀.Sound)
    (hdraft : p.status = .draft → p₀.status = .draft) : (p.merge q).Sound := by
  have hc : q.Sound := hp₀.perform hq
  refine ⟨hp.id, ?_, ?_, ?_, hp.price, hp.storable, fun hs => ?_, fun hs => ?_⟩
  · simp only [Product.merge]
    split
    · exact hc.name
    · exact hp.name
  · simp only [Product.merge]
    split
    · exact hc.description
    · exact hp.description
  · simp only [Product.merge]
    split
    · exact hc.category
    · exact hp.category
  · obtain ⟨hs, hclean⟩ := status_of_merge hd hq hs
    simp only [Product.merge]
    split
    · -- The copy was a draft when it was loaded, and its status was not changed.
      obtain ⟨hs₀, _⟩ := ((Accounted.refl p₀).perform hq).fields .status hclean
      exact hc.draft (hs₀ ▸ hdraft hs)
    · exact hp.draft hs
  · simp only [Product.merge] at hs ⊢
    split at hs
    · rename_i hdirty
      simpa [hdirty, Product.isArchived_iff.2 hs] using hc.archived hs
    · rename_i hdirty
      simpa [hdirty] using hp.archived hs

end Assortment.Goods
