import Assortment.Goods.Product

/-!
# Accepted changes

What an accepted change does to a product is one step for all six of them: the fields that it is about
get new values, and if there are any they are marked, the time of the last change is set and one event is
queued. From this a product can account for every difference from the one it was loaded as.
-/

namespace Assortment.Goods
open Assortment.Text Assortment.Time

/-! ## One change -/

namespace Change

/-- The fields that a change writes when a product accepts it. -/
def fields (p : Product) : Change → List Field
  | update name description category =>
      p.differingTexts (trim name) (trim description) (trim category)
  | activate | deactivate | archive => [.status]
  | grantDiscount _ | dropDiscount => [.discount]

/-- What a change announces. -/
def occurrence : Change → Occurrence
  | update name description category => .updated (trim name) (trim description) (trim category)
  | activate => .activated
  | deactivate => .deactivated
  | archive => .archived
  | grantDiscount d => .discountApplied d.percentage d.start d.finish
  | dropDiscount => .discountRemoved

/-- The product with the values that a change asks for. -/
def overwrite (p : Product) (now : Instant) : Change → Product
  | update name description category =>
      { p with name := trim name, description := trim description, category := trim category }
  | activate => { p with status := .active }
  | deactivate => { p with status := .inactive }
  | archive => { p with status := .archived, archivedAt := some now }
  | grantDiscount d => { p with discount := some d }
  | dropDiscount => { p with discount := none }

/-- The product after a change that it accepts. -/
def outcome (c : Change) (p : Product) (now : Instant) : Product :=
  match c.fields p with
  | [] => p
  | fields => { c.overwrite p now with
      updatedAt := now
      dirty := p.dirty.insertAll fields
      pending := p.pending ++ [⟨p.id, now, c.occurrence⟩] }

/-- What a change needs to find, besides a product that is not archived. -/
def Allowed (p : Product) (now : Instant) : Change → Prop
  | update name _ category => isBlank name = false ∧ isBlank category = false
  | activate => p.status = .draft ∨ p.status = .inactive
  | deactivate => p.status = .active
  | archive => True
  | grantDiscount d => p.status = .active ∧ now < d.finish
  | dropDiscount => p.discount ≠ none

end Change

namespace Product

variable {p q p₀ : Product} {c : Change} {now : Instant}

theorem isArchived_iff : p.isArchived = true ↔ p.status = .archived := by
  simp [isArchived]

theorem differingTexts_eq_nil_iff {name description category : String} :
    p.differingTexts name description category = []
      ↔ p.name = name ∧ p.description = description ∧ p.category = category := by
  simp [differingTexts]

theorem retext_eq (p : Product) (name description category : String) (now : Instant) :
    p.retext (trim name) (trim description) (trim category) now
      = (Change.update name description category).outcome p now := by
  unfold retext Change.outcome
  simp only [Change.fields]
  cases p.differingTexts (trim name) (trim description) (trim category) <;> rfl

/-- An accepted change found the product as it has to be, and takes it through one step. -/
theorem perform_eq_ok_allowed (h : p.perform c now = .ok q) :
    p.status ≠ .archived ∧ c.Allowed p now ∧ q = c.outcome p now := by
  cases c with
  | update name description category =>
      simp only [perform, update] at h
      split at h
      · cases h
      · rename_i ha
        split at h
        · cases h
        · rename_i hn
          split at h
          · cases h
          · rename_i hc
            cases h
            exact ⟨mt isArchived_iff.2 ha, ⟨by simpa using hn, by simpa using hc⟩, retext_eq ..⟩
  | activate =>
      simp only [perform, activate] at h
      split at h
      · cases h
      · cases h
      all_goals
        rename_i hs
        cases h
        exact ⟨by rw [hs]; decide, by simp [Change.Allowed, hs], rfl⟩
  | deactivate =>
      simp only [perform, deactivate] at h
      split at h
      · cases h
      · cases h
      · cases h
      · rename_i hs
        cases h
        exact ⟨by rw [hs]; decide, hs, rfl⟩
  | archive =>
      simp only [perform, archive] at h
      split at h
      · rename_i hs
        cases h
        refine ⟨fun he => ?_, trivial, rfl⟩
        rw [he] at hs
        cases hs
      · cases h
  | grantDiscount d =>
      simp only [perform, grantDiscount] at h
      split at h
      · cases h
      · rename_i ha
        split at h
        · cases h
        · rename_i hs
          split at h
          · cases h
          · rename_i ho
            cases h
            refine ⟨mt isArchived_iff.2 ha, ⟨?_, ?_⟩, rfl⟩
            · cases hp : p.status <;> simp [hp, Status.allowsDiscount] at hs ⊢
            · simpa [Discount.isOver, Instant.le_def, Instant.lt_def] using ho
  | dropDiscount =>
      simp only [perform, dropDiscount] at h
      split at h
      · cases h
      · rename_i ha
        split at h
        · cases h
        · rename_i hd
          cases h
          exact ⟨mt isArchived_iff.2 ha, fun he => hd (by simp [he]), rfl⟩

/-- A product accepts changes only while it is not archived, and then it goes through one step. -/
theorem perform_eq_ok (h : p.perform c now = .ok q) :
    p.status ≠ .archived ∧ q = c.outcome p now :=
  ⟨(perform_eq_ok_allowed h).1, (perform_eq_ok_allowed h).2.2⟩

theorem create_eq_ok {id : ProductId} {name description category : String} {price : Money}
    (h : Product.create id name description category price now = .ok q) :
    isBlank id.text = false ∧ isBlank name = false ∧ isBlank category = false ∧ price.isPositive = true
      ∧ price.storable?.isSome = true ∧ q = {
        id := id
        name := trim name
        description := trim description
        category := trim category
        basePrice := price
        discount := none
        status := .draft
        createdAt := now
        updatedAt := now
        archivedAt := none
        dirty := initialFields
        pending := [⟨id, now, .created (trim name) (trim description) (trim category) price⟩] } := by
  unfold Product.create at h
  split at h
  · cases h
  · rename_i hid
    split at h
    · cases h
    · rename_i hname
      split at h
      · cases h
      · rename_i hcategory
        split at h
        · cases h
        · rename_i hprice
          cases h
          simp only [Bool.not_eq_true, Bool.or_eq_false_iff, Bool.not_eq_false', Option.isNone_eq_false_iff]
            at hid hname hcategory hprice
          exact ⟨hid, hname, hcategory, hprice.1, hprice.2, rfl⟩

end Product

/-! ## Fields that stay -/

/-- Whether two products have the same value in a field. The time of archiving goes with the status. -/
def Field.Same (p q : Product) : Field → Prop
  | name => p.name = q.name
  | description => p.description = q.description
  | category => p.category = q.category
  | basePrice => p.basePrice = q.basePrice
  | discount => p.discount = q.discount
  | status => p.status = q.status ∧ p.archivedAt = q.archivedAt

variable {p q p₀ : Product} {c : Change} {now : Instant} {f : Field}

theorem Field.Same.refl (p : Product) (f : Field) : f.Same p p := by
  cases f <;> simp [Same]

theorem Field.Same.trans {p q r : Product} {f : Field} (h : f.Same p q) (h' : f.Same q r) :
    f.Same p r := by
  cases f with
  | status => exact ⟨h.1.trans h'.1, h.2.trans h'.2⟩
  | _ => exact Eq.trans h h'

namespace Change

theorem outcome_of_nil (h : c.fields p = []) : c.outcome p now = p := by
  simp [outcome, h]

theorem outcome_of_ne_nil (h : c.fields p ≠ []) : c.outcome p now = { c.overwrite p now with
    updatedAt := now
    dirty := p.dirty.insertAll (c.fields p)
    pending := p.pending ++ [⟨p.id, now, c.occurrence⟩] } := by
  unfold outcome
  split
  · rename_i hf
    exact absurd hf h
  · rfl

theorem contains_dirty_outcome (c : Change) (p : Product) (now : Instant) (f : Field) :
    (c.outcome p now).dirty.contains f = (decide (f ∈ c.fields p) || p.dirty.contains f) := by
  by_cases h : c.fields p = []
  · simp [outcome_of_nil h, h]
  · rw [outcome_of_ne_nil h]
    exact FieldSet.contains_insertAll _ _ _

theorem overwrite_id (c : Change) (p : Product) (now : Instant) : (c.overwrite p now).id = p.id := by
  cases c <;> rfl

theorem overwrite_basePrice (c : Change) (p : Product) (now : Instant) :
    (c.overwrite p now).basePrice = p.basePrice := by
  cases c <;> rfl

theorem overwrite_createdAt (c : Change) (p : Product) (now : Instant) :
    (c.overwrite p now).createdAt = p.createdAt := by
  cases c <;> rfl

theorem overwrite_archivedAt (h : (c.overwrite p now).status ≠ .archived) :
    (c.overwrite p now).archivedAt = p.archivedAt := by
  cases c with
  | archive => exact absurd rfl h
  | _ => rfl

theorem same_outcome (h : f ∉ c.fields p) : f.Same p (c.outcome p now) := by
  by_cases hf : c.fields p = []
  · rw [outcome_of_nil hf]
    exact .refl p f
  · rw [outcome_of_ne_nil hf]
    cases c with
    | update name description category =>
        cases f <;> simp_all [fields, Product.differingTexts, Field.Same, overwrite]
    | _ => cases f <;> simp_all [fields, Field.Same, overwrite]

end Change

/-- A product with nothing left to announce announces just the change that it accepts. -/
theorem Product.pending_of_perform (hp : p.pending = []) (hq : p.perform c now = .ok q) (hf : c.fields p ≠ []) :
    q.pending = [⟨p.id, now, c.occurrence⟩] := by
  rw [(perform_eq_ok hq).2, Change.outcome_of_ne_nil hf, hp]
  rfl

/-- Every difference of a product from an earlier state of it is among its dirty fields, up to the times
that go with them. -/
structure Accounted (p₀ p : Product) : Prop where
  id : p.id = p₀.id
  basePrice : p.basePrice = p₀.basePrice
  createdAt : p.createdAt = p₀.createdAt
  fields : ∀ f, p.dirty.contains f = false → f.Same p₀ p
  updatedAt : p.dirty = ∅ → p.updatedAt = p₀.updatedAt
  archivedAt : p.status ≠ .archived → p.archivedAt = p₀.archivedAt

namespace Accounted

theorem refl (p : Product) : Accounted p p :=
  ⟨rfl, rfl, rfl, fun f _ => .refl p f, fun _ => rfl, fun _ => rfl⟩

theorem outcome (h : Accounted p₀ p) (ha : p.status ≠ .archived) (c : Change) (now : Instant) :
    Accounted p₀ (c.outcome p now) := by
  by_cases hf : c.fields p = []
  · rw [Change.outcome_of_nil hf]
    exact h
  · have hdirty : (c.outcome p now).dirty ≠ ∅ := by
      obtain ⟨f, hm⟩ := List.exists_mem_of_ne_nil _ hf
      intro he
      have hc := Change.contains_dirty_outcome c p now f
      rw [he, FieldSet.contains_empty] at hc
      simp [hm] at hc
    refine ⟨?_, ?_, ?_, ?_, fun he => absurd he hdirty, ?_⟩
    · rw [Change.outcome_of_ne_nil hf]
      exact (Change.overwrite_id c p now).trans h.id
    · rw [Change.outcome_of_ne_nil hf]
      exact (Change.overwrite_basePrice c p now).trans h.basePrice
    · rw [Change.outcome_of_ne_nil hf]
      exact (Change.overwrite_createdAt c p now).trans h.createdAt
    · intro f hc
      rw [Change.contains_dirty_outcome, Bool.or_eq_false_iff, decide_eq_false_iff_not] at hc
      exact (h.fields f hc.2).trans (Change.same_outcome hc.1)
    · rw [Change.outcome_of_ne_nil hf]
      intro hn
      exact (Change.overwrite_archivedAt hn).trans (h.archivedAt ha)

theorem committed_eq (h : Accounted p₀ p) (hd : p.dirty = ∅) : p.committed = p₀.committed := by
  have hf : ∀ f, Field.Same p₀ p f := fun f => h.fields f (by rw [hd, FieldSet.contains_empty])
  exact Product.ext h.id (hf .name).symm (hf .description).symm (hf .category).symm h.basePrice
    (hf .discount).symm (hf .status).1.symm h.createdAt (h.updatedAt hd) (hf .status).2.symm rfl rfl

theorem perform (h : Accounted p₀ p) (hq : p.perform c now = .ok q) : Accounted p₀ q := by
  obtain ⟨ha, rfl⟩ := Product.perform_eq_ok hq
  exact h.outcome ha c now

end Accounted

/-! ## Several changes -/

theorem FieldSet.isEmpty_iff {s : FieldSet} : s.isEmpty = true ↔ s = ∅ := by
  rw [isEmpty, List.isEmpty_iff, List.eq_nil_iff_forall_not_mem]
  simp only [mem_toList, Bool.not_eq_true]
  constructor
  · intro h
    exact eq_of_contains_eq fun f => (h f).trans (contains_empty f).symm
  · rintro rfl f
    exact contains_empty f

namespace Product

/-- A product that has been asked for a change. -/
def attempt (p : Product) (c : Change) (now : Instant) : Product :=
  match p.perform c now with
  | .ok q => q
  | .error _ => p

/-- A product that has been asked for several changes, each at its own time. -/
def attemptAll (p : Product) : List (Change × Instant) → Product
  | [] => p
  | (c, now) :: calls => (p.attempt c now).attemptAll calls

/-- Whether one of several changes is accepted and writes a field. -/
def Wrote (p : Product) (calls : List (Change × Instant)) (f : Field) : Prop :=
  ∃ before c now after, calls = before ++ (c, now) :: after
    ∧ (∃ q, (p.attemptAll before).perform c now = .ok q) ∧ f ∈ c.fields (p.attemptAll before)

theorem wrote_cons {calls : List (Change × Instant)} : p.Wrote ((c, now) :: calls) f
    ↔ ((∃ q, p.perform c now = .ok q) ∧ f ∈ c.fields p) ∨ (p.attempt c now).Wrote calls f := by
  constructor
  · rintro ⟨before, c', now', after, he, hok, hf⟩
    cases before with
    | nil =>
        cases he
        exact .inl ⟨hok, hf⟩
    | cons _ before =>
        cases he
        exact .inr ⟨before, c', now', after, rfl, hok, hf⟩
  · rintro (⟨hok, hf⟩ | ⟨before, c', now', after, rfl, hok, hf⟩)
    · exact ⟨[], c, now, calls, rfl, hok, hf⟩
    · exact ⟨(c, now) :: before, c', now', after, rfl, hok, hf⟩

/-- The dirty fields are those that were dirty before and those that an accepted change wrote. -/
theorem contains_dirty_attemptAll (p : Product) (calls : List (Change × Instant)) (f : Field) :
    (p.attemptAll calls).dirty.contains f = true ↔ p.dirty.contains f = true ∨ p.Wrote calls f := by
  induction calls generalizing p with
  | nil => simp [attemptAll, Wrote]
  | cons call calls ih =>
      obtain ⟨c, now⟩ := call
      rw [attemptAll, ih, wrote_cons, ← or_assoc]
      apply or_congr_left
      unfold attempt
      cases hq : p.perform c now with
      | error _ => simp
      | ok q =>
          obtain ⟨_, rfl⟩ := perform_eq_ok hq
          simp [Change.contains_dirty_outcome, or_comm]

theorem accounted_attemptAll (h : Accounted p₀ p) (calls : List (Change × Instant)) :
    Accounted p₀ (p.attemptAll calls) := by
  induction calls generalizing p with
  | nil => exact h
  | cons call calls ih =>
      apply ih
      -- A refused call leaves the product as it was, so only accepted ones have to be looked at.
      unfold attempt
      cases hq : p.perform call.1 call.2 with
      | error _ => exact h
      | ok q => exact h.perform hq

end Product

end Assortment.Goods
