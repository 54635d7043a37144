import Assortment.Proofs.Goods.Merge
import Mathlib.Data.List.Forall2

/-!
# The ledger of a product

Of the calls that a product gets, those take effect that it accepts and that write one of its fields. These make
up the ledger of the calls, which accounts for all that is different about the product afterwards: its pending
events, its dirty fields and its values. This holds of every product, sound or not, whatever was left to store or
announce before.
-/

namespace Assortment.Goods
open Assortment.Text Assortment.Time

/-! ## Effects -/

/-- Whether a change writes a field of a product that accepts it. An update only writes the texts that are different
once they are trimmed. -/
def Change.writes (p : Product) : Change → Field → Bool
  | update name _ _, .name => p.name != trim name
  | update _ description _, .description => p.description != trim description
  | update _ _ category, .category => p.category != trim category
  | activate, .status | deactivate, .status | archive, .status => true
  | grantDiscount _, .discount | dropDiscount, .discount => true
  | _, _ => false

/-- A call that took effect, with the product right before and right after it. -/
structure Effect where
  before : Product
  change : Change
  time : Instant
  after : Product

/-- Whether a call wrote a field. -/
def Effect.Wrote (x : Effect) (f : Field) : Prop := x.change.writes x.before f = true

/-- The calls that take effect, of those that a product gets one after the other. -/
def Product.effects (p : Product) : List (Change × Instant) → List Effect
  | [] => []
  | (c, now) :: calls =>
      match p.perform c now with
      | .error _ => p.effects calls
      | .ok q => if Field.all.any (c.writes p) then ⟨p, c, now, q⟩ :: q.effects calls else q.effects calls

/-- What there is to announce of a change that was made at a time, told with the values that the product has after
it. These are the ones that were asked for. -/
inductive Change.Announced (q : Product) (now : Instant) : Change → Occurrence → Prop where
  | updated {name description category : String} : q.name = trim name → q.description = trim description →
      q.category = trim category →
      Announced q now (.update name description category) (.updated q.name q.description q.category)
  | activated : q.status = .active → Announced q now .activate .activated
  | deactivated : q.status = .inactive → Announced q now .deactivate .deactivated
  | archived : q.status = .archived → q.archivedAt = some now → Announced q now .archive .archived
  | discountApplied {d : Discount} : q.discount = some d →
      Announced q now (.grantDiscount d) (.discountApplied d.percentage d.start d.finish)
  | discountRemoved : q.discount = none → Announced q now .dropDiscount .discountRemoved

/-- Whether an event is the one to announce of a call. -/
structure Effect.Announces (id : ProductId) (x : Effect) (e : Event) : Prop where
  product : e.product = id
  time : e.time = x.time
  what : x.change.Announced x.after x.time e.what

/-- Whether effects account for what a product has become. -/
structure Balances (p : Product) (effects : List Effect) (q : Product) : Prop where
  /-- There is one event for each effect, in the order of the effects. -/
  pending : ∃ events, q.pending = p.pending ++ events ∧ List.Forall₂ (Effect.Announces p.id) effects events
  dirty : ∀ f, q.dirty.contains f = true ↔ p.dirty.contains f = true ∨ ∃ x ∈ effects, x.Wrote f
  kept : ∀ f, (∀ x ∈ effects, ¬ x.Wrote f) → f.Same p q
  archivedAt : (∀ x ∈ effects, x.change ≠ .archive) → q.archivedAt = p.archivedAt
  updatedAt : q.updatedAt = (effects.getLast?.map (·.time)).getD p.updatedAt
  last : q = (effects.getLast?.map (·.after)).getD p
  unarchived : ∀ x ∈ effects, x.before.status ≠ .archived
  id : q.id = p.id
  basePrice : q.basePrice = p.basePrice
  createdAt : q.createdAt = p.createdAt

variable {p q r : Product} {c : Change} {now : Instant} {f : Field} {xs ys : List Effect}

/-! ## One call -/

theorem Change.mem_fields_iff : f ∈ c.fields p ↔ c.writes p f = true := by
  cases c <;> cases f <;> simp [fields, writes, Product.differingTexts]

theorem Change.fields_eq_nil_iff : c.fields p = [] ↔ Field.all.any (c.writes p) = false := by
  rw [List.eq_nil_iff_forall_not_mem, List.any_eq_false]
  simp only [mem_fields_iff, Field.mem_all, forall_const]

theorem Change.announced_outcome (h : c.fields p ≠ []) : c.Announced (c.outcome p now) now c.occurrence := by
  rw [outcome_of_ne_nil h]
  cases c with
  | update name description category => exact .updated rfl rfl rfl
  | activate => exact .activated rfl
  | deactivate => exact .deactivated rfl
  | archive => exact .archived rfl rfl
  | grantDiscount d => exact .discountApplied rfl
  | dropDiscount => exact .discountRemoved rfl

theorem Change.overwrite_archivedAt_of_ne (h : c ≠ .archive) : (c.overwrite p now).archivedAt = p.archivedAt := by
  cases c with
  | archive => exact absurd rfl h
  | _ => rfl

/-- An accepted change that writes no field leaves a product as it was. -/
theorem Product.eq_of_perform (hq : p.perform c now = .ok q) (h : Field.all.any (c.writes p) = false) : q = p := by
  obtain ⟨_, rfl⟩ := perform_eq_ok hq
  exact Change.outcome_of_nil (Change.fields_eq_nil_iff.2 h)

theorem balances_nil (p : Product) : Balances p [] p where
  pending := ⟨[], (List.append_nil _).symm, .nil⟩
  dirty f := by simp
  kept f _ := .refl p f
  archivedAt _ := rfl
  updatedAt := rfl
  last := rfl
  unarchived := by simp
  id := rfl
  basePrice := rfl
  createdAt := rfl

theorem balances_of_perform (hq : p.perform c now = .ok q) (h : Field.all.any (c.writes p) = true) :
    Balances p [⟨p, c, now, q⟩] q := by
  have ha : Accounted p q := (Accounted.refl p).perform hq
  have hf : c.fields p ≠ [] := by
    rw [Ne, Change.fields_eq_nil_iff, h]
    decide
  obtain ⟨hs, he⟩ := Product.perform_eq_ok hq
  have hwrote : ∀ f, c.writes p f = true ↔ f ∈ c.fields p := fun _ => Change.mem_fields_iff.symm
  refine ⟨?_, fun f => ?_, fun f hnot => ?_, fun hnot => ?_, ?_, rfl, by simpa using hs, ha.id, ha.basePrice,
    ha.createdAt⟩
  · refine ⟨[⟨p.id, now, c.occurrence⟩], ?_, .cons ⟨rfl, rfl, ?_⟩ .nil⟩
    · rw [he, Change.outcome_of_ne_nil hf]
    · rw [he]
      exact Change.announced_outcome hf
  · rw [he, Change.contains_dirty_outcome]
    simp [Effect.Wrote, hwrote, or_comm]
  · rw [he]
    exact Change.same_outcome (by simpa [Effect.Wrote, ← hwrote] using hnot)
  · rw [he, Change.outcome_of_ne_nil hf]
    exact Change.overwrite_archivedAt_of_ne (by simpa using hnot)
  · rw [he, Change.outcome_of_ne_nil hf]
    rfl

theorem Balances.append (h : Balances p xs q) (h' : Balances q ys r) : Balances p (xs ++ ys) r where
  pending := by
    obtain ⟨events, he, hall⟩ := h.pending
    obtain ⟨events', he', hall'⟩ := h'.pending
    rw [h.id] at hall'
    exact ⟨events ++ events', by rw [he', he, List.append_assoc], List.rel_append hall hall'⟩
  dirty f := by
    simp only [h'.dirty, h.dirty, List.mem_append, or_assoc, or_and_right, exists_or]
  kept f hnot := by
    have hboth := List.forall_mem_append.1 hnot
    exact (h.kept f hboth.1).trans (h'.kept f hboth.2)
  archivedAt hnot := by
    have hboth := List.forall_mem_append.1 hnot
    exact (h'.archivedAt hboth.2).trans (h.archivedAt hboth.1)
  updatedAt := by
    rw [h'.updatedAt, h.updatedAt, List.getLast?_append]
    cases ys.getLast? <;> rfl
  last := by
    rw [List.getLast?_append]
    cases hys : ys.getLast? with
    | none => exact (h'.last.trans (by rw [hys]; rfl)).trans h.last
    | some x => exact h'.last.trans (by rw [hys]; rfl)
  unarchived := List.forall_mem_append.2 ⟨h.unarchived, h'.unarchived⟩
  id := h'.id.trans h.id
  basePrice := h'.basePrice.trans h.basePrice
  createdAt := h'.createdAt.trans h.createdAt

/-! ## Several calls -/

theorem balances_attemptAll (p : Product) (calls : List (Change × Instant)) :
    Balances p (p.effects calls) (p.attemptAll calls) := by
  induction calls generalizing p with
  | nil => exact balances_nil p
  | cons call calls ih =>
      obtain ⟨c, now⟩ := call
      rw [Product.effects, Product.attemptAll, Product.attempt]
      cases hq : p.perform c now with
      | error _ => exact ih p
      | ok q =>
          dsimp only
          cases hw : Field.all.any (c.writes p) with
          | true => exact (balances_of_perform hq hw).append (ih q)
          | false =>
              rw [Product.eq_of_perform hq hw]
              exact ih p

theorem Product.attemptAll_append (p : Product) (calls more : List (Change × Instant)) :
    p.attemptAll (calls ++ more) = (p.attemptAll calls).attemptAll more := by
  induction calls generalizing p with
  | nil => rfl
  | cons call calls ih => exact ih (p.attempt call.1 call.2)

/-- Whatever a product is asked for, a call that is refused or has nothing to write leaves it as it was, and the other
calls account for what it has become. -/
theorem calls_balance (p : Product) (calls : List (Change × Instant)) :
    (∀ before c now, (∃ reason, (p.attemptAll before).perform c now = .error reason)
        ∨ (∀ f, c.writes (p.attemptAll before) f = false) →
      p.attemptAll (before ++ [(c, now)]) = p.attemptAll before)
    ∧ Balances p (p.effects calls) (p.attemptAll calls) := by
  refine ⟨fun before c now hidle => ?_, balances_attemptAll p calls⟩
  rw [Product.attemptAll_append, Product.attemptAll, Product.attemptAll, Product.attempt]
  rcases hidle with ⟨reason, hrefused⟩ | hnothing
  · rw [hrefused]
  · cases hq : (p.attemptAll before).perform c now with
    | error _ => rfl
    | ok q => exact Product.eq_of_perform hq (by simp [hnothing])

/-- A lamp off sale whose price was never stored and whose creation was never announced. -/
def staleLamp : Product where
  id := ⟨"lamp"⟩
  name := "Lamp"
  description := ""
  category := "Light"
  basePrice := ⟨10⟩
  discount := none
  status := .inactive
  createdAt := .epoch
  updatedAt := .epoch
  archivedAt := none
  dirty := (∅ : FieldSet).insert .basePrice
  pending := [⟨⟨"lamp"⟩, .epoch, .created "Lamp" "" "Light" ⟨10⟩⟩]

/-- An update with nothing new in it, two changes that are accepted and two that are refused. -/
def lampCalls : List (Change × Instant) := [
  (.update " Lamp" "" "Light ", .epoch),
  (.activate, ⟨1000, by decide, by decide⟩),
  (.activate, ⟨2000, by decide, by decide⟩),
  (.update "Lantern" "Bright" "Light", ⟨3000, by decide, by decide⟩),
  (.dropDiscount, ⟨4000, by decide, by decide⟩)]

theorem calls_balance_lamp :
    staleLamp.attemptAll [(.update " Lamp" "" "Light ", .epoch)] = staleLamp
    ∧ (staleLamp.effects lampCalls).length = 2
    ∧ Balances staleLamp (staleLamp.effects lampCalls) (staleLamp.attemptAll lampCalls) := by
  obtain ⟨hidle, hbalances⟩ := calls_balance staleLamp lampCalls
  refine ⟨hidle [] _ _ (.inr ?_), by decide +kernel, hbalances⟩
  intro f
  cases f <;> decide +kernel

end Assortment.Goods
