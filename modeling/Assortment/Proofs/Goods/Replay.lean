import Assortment.Proofs.Goods.Changes

/-!
# Products from their events

An event carries enough to bring what is known of a product up to date, so that folding the events of a
product gives the product. Every step in the life of a product queues one such event.
-/

namespace Assortment.Goods
open Assortment.Text Assortment.Time

/-! ## Steps in the life of a product -/

/-- What a product can come to at a time, with the event that tells of it: it is created, or it accepts a
change that writes a field. -/
inductive Advances (now : Instant) : Option Product → Product → Event → Prop where
  | created {id : ProductId} {name description category : String} {price : Money} {q : Product} :
      Product.create id name description category price now = .ok q →
      Advances now none q ⟨id, now, .created (trim name) (trim description) (trim category) price⟩
  | changed {p q : Product} {c : Change} : p.perform c now = .ok q → c.fields p ≠ [] →
      Advances now (some p) q ⟨p.id, now, c.occurrence⟩

variable {p q : Product} {c : Change} {now : Instant} {before : Option Product} {e : Event}

namespace Advances

theorem product_eq (h : Advances now before q e) : e.product = q.id := by
  cases h with
  | created hq =>
      obtain ⟨_, _, _, _, _, rfl⟩ := Product.create_eq_ok hq
      rfl
  | changed hq hf => exact ((Accounted.refl _).perform hq).id.symm

theorem accounted (h : Advances now (some p) q e) : Accounted p q := by
  cases h with
  | changed hq _ => exact (Accounted.refl p).perform hq

theorem time_eq (h : Advances now before q e) : e.time = now := by
  cases h <;> rfl

theorem updatedAt_eq (h : Advances now before q e) : q.updatedAt = now := by
  cases h with
  | created hq =>
      obtain ⟨_, _, _, _, _, rfl⟩ := Product.create_eq_ok hq
      rfl
  | changed hq hf =>
      obtain ⟨_, rfl⟩ := Product.perform_eq_ok hq
      rw [Change.outcome_of_ne_nil hf]

theorem createdAt_of_none (h : Advances now none q e) : q.createdAt = now := by
  cases h with
  | created hq =>
      obtain ⟨_, _, _, _, _, rfl⟩ := Product.create_eq_ok hq
      rfl

end Advances

/-! ## Folding events -/

/-- What the events of a product tell of it. -/
@[ext]
structure Account where
  name : String
  description : String
  category : String
  price : Money
  discount : Option (Rat × Instant × Instant)
  status : Status
  createdAt : Instant
  updatedAt : Instant
  archivedAt : Option Instant
deriving DecidableEq

namespace Account

/-- What there is to tell of a product. -/
def ofProduct (p : Product) : Account where
  name := p.name
  description := p.description
  category := p.category
  price := p.basePrice
  discount := p.discount.map fun d => (d.percentage, d.start, d.finish)
  status := p.status
  createdAt := p.createdAt
  updatedAt := p.updatedAt
  archivedAt := p.archivedAt

/-- The account of a product that was created. -/
def initial (name description category : String) (price : Money) (t : Instant) : Account where
  name := name
  description := description
  category := category
  price := price
  discount := none
  status := .draft
  createdAt := t
  updatedAt := t
  archivedAt := none

/-- What an event adds to an account. Only the first one does without an account. -/
def next (known : Option Account) (e : Event) : Option Account :=
  match e.what with
  | .created name description category price => some (initial name description category price e.time)
  | .updated name description category => known.map fun a =>
      { a with name := name, description := description, category := category, updatedAt := e.time }
  | .activated => known.map fun a => { a with status := .active, updatedAt := e.time }
  | .deactivated => known.map fun a => { a with status := .inactive, updatedAt := e.time }
  | .archived => known.map fun a =>
      { a with status := .archived, archivedAt := some e.time, updatedAt := e.time }
  | .discountApplied percentage start finish => known.map fun a =>
      { a with discount := some (percentage, start, finish), updatedAt := e.time }
  | .discountRemoved => known.map fun a => { a with discount := none, updatedAt := e.time }

/-- The account that events give, one after the other. -/
def replay (es : List Event) : Option Account := es.foldl next none

theorem replay_append (es : List Event) (e : Event) : replay (es ++ [e]) = next (replay es) e := by
  simp [replay]

theorem next_outcome (hf : c.fields p ≠ []) :
    next (some (ofProduct p)) ⟨p.id, now, c.occurrence⟩ = some (ofProduct (c.outcome p now)) := by
  rw [Change.outcome_of_ne_nil hf]
  cases c <;> rfl

end Account

/-- The event of a step brings the account of the product up to date. -/
theorem Advances.next_eq (h : Advances now before q e) :
    Account.next (before.map .ofProduct) e = some (.ofProduct q) := by
  cases h with
  | created hq =>
      obtain ⟨_, _, _, _, _, rfl⟩ := Product.create_eq_ok hq
      rfl
  | changed hq hf =>
      obtain ⟨_, rfl⟩ := Product.perform_eq_ok hq
      exact Account.next_outcome hf

end Assortment.Goods
