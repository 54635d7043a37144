import Assortment.Proofs.Goods.Replay

/-!
# Sound products

What holds of a product from its creation on, whichever changes it accepts. `Sound` looks at each group of
fields that are written together by itself; `Settled` ties the time of archiving to the last change.
-/

namespace Assortment.Goods
open Assortment.Text Assortment.Time

variable {p q : Product} {c : Change} {now : Instant} {before : Option Product} {e : Event}

/-- A product with an identifier, trimmed texts and a positive price that can be stored. A draft has no
discount, and an archived product has a time of archiving. -/
structure Product.Sound (p : Product) : Prop where
  id : isBlank p.id.text = false
  name : p.name ≠ "" ∧ trim p.name = p.name
  description : trim p.description = p.description
  category : p.category ≠ "" ∧ trim p.category = p.category
  price : 0 < p.basePrice.amount
  storable : p.basePrice.storable?.isSome = true
  draft : p.status = .draft → p.discount = none
  archived : p.status = .archived → p.archivedAt.isSome = true

theorem trim_ne_empty {s : String} (h : isBlank s = false) : trim s ≠ "" := by
  intro he
  rw [isBlank_iff.2 he] at h
  cases h

namespace Product.Sound

/-- The time of the last change and what is left to store or announce do not matter. -/
theorem touch (h : p.Sound) (t : Instant) (dirty : FieldSet) (pending : List Event) :
    Sound { p with updatedAt := t, dirty := dirty, pending := pending } :=
  ⟨h.id, h.name, h.description, h.category, h.price, h.storable, h.draft, h.archived⟩

theorem committed_iff : p.committed.Sound ↔ p.Sound :=
  ⟨fun h => h.touch p.updatedAt p.dirty p.pending, fun h => h.touch p.updatedAt ∅ []⟩

theorem create {id : ProductId} {name description category : String} {price : Money}
    (h : Product.create id name description category price now = .ok q) : q.Sound := by
  obtain ⟨hid, hname, hcategory, hprice, hstorable, rfl⟩ := Product.create_eq_ok h
  exact {
    id := hid
    name := ⟨trim_ne_empty hname, trim_trim name⟩
    description := trim_trim description
    category := ⟨trim_ne_empty hcategory, trim_trim category⟩
    price := by simpa [Money.isPositive] using hprice
    storable := hstorable
    draft := fun _ => rfl
    archived := fun hs => by cases hs }

theorem overwrite (h : p.Sound) (ha : c.Allowed p now) (hs : p.status ≠ .archived) :
    (c.overwrite p now).Sound := by
  obtain ⟨hid, hname, hdescription, hcategory, hprice, hstorable, hdraft, _⟩ := h
  cases c with
  | update name description category =>
      exact ⟨hid, ⟨trim_ne_empty ha.1, trim_trim name⟩, trim_trim description,
        ⟨trim_ne_empty ha.2, trim_trim category⟩, hprice, hstorable, hdraft, fun he => absurd he hs⟩
  | activate | deactivate =>
      exact ⟨hid, hname, hdescription, hcategory, hprice, hstorable, nofun,
        nofun⟩
  | archive =>
      exact ⟨hid, hname, hdescription, hcategory, hprice, hstorable, nofun, fun _ => rfl⟩
  | grantDiscount d =>
      -- Only a product on sale is given a discount.
      refine ⟨hid, hname, hdescription, hcategory, hprice, hstorable, fun he => ?_, fun he => absurd he hs⟩
      exact absurd (ha.1.symm.trans he) (by decide)
  | dropDiscount =>
      exact ⟨hid, hname, hdescription, hcategory, hprice, hstorable, fun _ => rfl, fun he => absurd he hs⟩

theorem perform (h : p.Sound) (hq : p.perform c now = .ok q) : q.Sound := by
  obtain ⟨hs, ha, rfl⟩ := Product.perform_eq_ok_allowed hq
  by_cases hf : c.fields p = []
  · rw [Change.outcome_of_nil hf]
    exact h
  · rw [Change.outcome_of_ne_nil hf]
    exact (h.overwrite ha hs).touch ..

theorem advances (ha : Advances now before q e) (h : ∀ p, before = some p → p.Sound) : q.Sound := by
  cases ha with
  | created hq => exact create hq
  | changed hq _ => exact (h _ rfl).perform hq

end Product.Sound

/-- A product that is archived exactly when it has a time of archiving, which is that of its last change. -/
def Product.Settled (p : Product) : Prop :=
  p.archivedAt = if p.status = .archived then some p.updatedAt else none

theorem Product.Settled.advances (ha : Advances now before q e) (h : ∀ p, before = some p → p.Settled) :
    q.Settled := by
  cases ha with
  | created hq =>
      obtain ⟨_, _, _, _, _, rfl⟩ := Product.create_eq_ok hq
      rfl
  | @changed p q c hq hf =>
      obtain ⟨hs, _, rfl⟩ := Product.perform_eq_ok_allowed hq
      have hp : p.archivedAt = none := (h p rfl).trans (if_neg hs)
      rw [Change.outcome_of_ne_nil hf]
      cases c <;> simp [Product.Settled, Change.overwrite, hp, hs]

/-- The time of creation stays behind the time of the last change as long as no change is made at an earlier
time. -/
theorem createdAt_le_of_advances (ha : Advances now before q e)
    (h : ∀ p, before = some p → p.createdAt ≤ now) : q.createdAt ≤ q.updatedAt := by
  rw [ha.updatedAt_eq]
  cases ha with
  | created hq =>
      obtain ⟨_, _, _, _, _, rfl⟩ := Product.create_eq_ok hq
      exact Int.le_refl _
  | changed hq hf =>
      rw [((Accounted.refl _).perform hq).createdAt]
      exact h _ rfl

end Assortment.Goods
