import Assortment.Proofs.Goods.Replay
import Mathlib.Data.List.Induction

/-!
# Lawful histories

Which event may come next can be told from the events alone: from the latest one that set the status, the
latest that gave or took a discount, and the latest that set the texts. The steps in the life of a product
keep its history lawful, because a product has in its fields what these events say.
-/

namespace Assortment.Goods
open Assortment.Text Assortment.Time

/-! ## What an event says -/

namespace Occurrence

/-- The status that an occurrence leads to, if it is about the status. -/
def status? : Occurrence → Option Status
  | created .. => some .draft
  | activated => some .active
  | deactivated => some .inactive
  | archived => some .archived
  | updated .. | discountApplied .. | discountRemoved => none

/-- Whether there is a discount after an occurrence, if it is about that. -/
def discounted? : Occurrence → Option Bool
  | created .. | discountRemoved => some false
  | discountApplied .. => some true
  | updated .. | activated | deactivated | archived => none

/-- Name, description and category after an occurrence, if it sets them. -/
def texts? : Occurrence → Option (String × String × String)
  | created name description category _ | updated name description category =>
      some (name, description, category)
  | activated | deactivated | archived | discountApplied .. | discountRemoved => none

/-- Whether a product comes into being. -/
def isCreated : Occurrence → Bool
  | created .. => true
  | _ => false

end Occurrence

/-- What the latest event says that says anything about the matter. -/
def latest? {α : Type} (tells : Occurrence → Option α) (es : List Event) : Option α :=
  es.reverse.findSome? fun e => tells e.what

theorem latest?_append {α : Type} (tells : Occurrence → Option α) (es : List Event) (e : Event) :
    latest? tells (es ++ [e]) = (tells e.what).or (latest? tells es) := by
  simp only [latest?, List.reverse_append, List.reverse_singleton, List.singleton_append,
    List.findSome?_cons]
  cases tells e.what <;> rfl

/-! ## Lawfulness -/

/-- Whether an event may follow the given ones. -/
structure Admits (es : List Event) (e : Event) : Prop where
  created : e.what.isCreated = true ↔ es = []
  final : ∀ e' ∈ es, e'.what ≠ .archived
  activated : e.what = .activated →
    latest? Occurrence.status? es = some .draft ∨ latest? Occurrence.status? es = some .inactive
  deactivated : e.what = .deactivated → latest? Occurrence.status? es = some .active
  discountApplied : ∀ percentage start finish, e.what = .discountApplied percentage start finish →
    latest? Occurrence.status? es = some .active ∧ 0 < percentage ∧ percentage ≤ 100 ∧ start < finish
      ∧ e.time < finish
  discountRemoved : e.what = .discountRemoved → latest? Occurrence.discounted? es = some true
  updated : ∀ name description category, e.what = .updated name description category →
    ∃ texts, latest? Occurrence.texts? es = some texts ∧ texts ≠ (name, description, category)

/-- Whether every event of a history may follow those before it. -/
def Lawful (es : List Event) : Prop := ∀ before e after, es = before ++ e :: after → Admits before e

theorem lawful_nil : Lawful [] := by
  intro before e after h
  simp at h

theorem Lawful.append {es : List Event} {e : Event} (h : Lawful es) (he : Admits es e) :
    Lawful (es ++ [e]) := by
  intro before e' after heq
  rcases List.eq_nil_or_concat after with rfl | ⟨after, last, rfl⟩
  · obtain ⟨rfl, he'⟩ := List.append_inj' heq rfl
    cases he'
    exact he
  · have hlast : es ++ [e] = (before ++ e' :: after) ++ [last] := by simpa using heq
    exact h before e' after (List.append_inj_left' hlast rfl)

/-! ## Histories and products -/

theorem Advances.isCreated_eq {before : Option Product} {now : Instant} {q : Product} {e : Event}
    (h : Advances now before q e) : e.what.isCreated = before.isNone := by
  cases h with
  | created _ => rfl
  | @changed _ _ c _ _ => cases c <;> rfl

theorem Account.next_tells {known : Option Account} {a : Account} {e : Event}
    (h : next known e = some a) :
    some a.status = e.what.status?.or (known.map (·.status))
      ∧ some a.discount.isSome = e.what.discounted?.or (known.map (·.discount.isSome))
      ∧ some (a.name, a.description, a.category)
        = e.what.texts?.or (known.map fun a => (a.name, a.description, a.category)) := by
  unfold next at h
  cases hw : e.what <;> rw [hw] at h <;> cases known <;> cases h <;> exact ⟨rfl, rfl, rfl⟩

/-- An account has what the latest event says that says anything about the matter, when every event either
sets it in the account or leaves it there. -/
theorem latest?_eq {α : Type} {tells : Occurrence → Option α} {view : Account → α}
    (hnext : ∀ {known a e}, Account.next known e = some a →
      some (view a) = (tells e.what).or (known.map view)) {es : List Event} {a : Account}
    (h : Account.replay es = some a) : latest? tells es = some (view a) := by
  induction es using List.reverseRecOn generalizing a with
  | nil => cases h
  | append_singleton es e ih =>
      rw [Account.replay_append] at h
      rw [latest?_append, hnext h]
      cases hk : Account.replay es with
      | some known =>
          rw [ih hk]
          rfl
      | none =>
          -- The first event has to say it itself.
          have htells := hnext (hk ▸ h)
          cases hs : tells e.what with
          | none => simp [hs] at htells
          | some _ => rfl

/-- Whether a history is the one of a product, or the empty one of a product that is not there. -/
def Tells (es : List Event) : Option Product → Prop
  | none => es = []
  | some p => Account.replay es = some (.ofProduct p)

namespace Tells

variable {es : List Event} {p q : Product} {c : Change} {now : Instant} {before : Option Product}
  {e : Event}

theorem status (h : Tells es (some p)) : latest? Occurrence.status? es = some p.status :=
  latest?_eq (fun hn => (Account.next_tells hn).1) h

theorem discounted (h : Tells es (some p)) :
    latest? Occurrence.discounted? es = some p.discount.isSome := by
  have hd := latest?_eq (fun hn => (Account.next_tells hn).2.1) h
  rw [hd, Account.ofProduct, Option.isSome_map]

theorem texts (h : Tells es (some p)) :
    latest? Occurrence.texts? es = some (p.name, p.description, p.category) :=
  latest?_eq (fun hn => (Account.next_tells hn).2.2) h

theorem ne_nil (h : Tells es (some p)) : es ≠ [] := by
  rintro rfl
  cases h

theorem append (h : Tells es before) (ha : Advances now before q e) : Tells (es ++ [e]) (some q) := by
  rw [Tells, Account.replay_append, ← ha.next_eq]
  cases before with
  | none =>
      cases h
      rfl
  | some p => exact congrArg (Account.next · e) h

theorem committed_iff : Tells es (some p.committed) ↔ Tells es (some p) := Iff.rfl

/-- After an archived product nothing was announced, so no product that is not archived was. -/
theorem not_archived (h : Tells es (some p)) (hl : Lawful es) (hs : p.status ≠ .archived) :
    ∀ e' ∈ es, e'.what ≠ .archived := by
  intro e' he' hw
  obtain ⟨before, after, rfl⟩ := List.append_of_mem he'
  cases after with
  | cons next after =>
      have hnext : Admits (before ++ [e']) next := hl _ next after (by simp)
      exact hnext.final e' (by simp) hw
  | nil =>
      have hstatus := h.status
      rw [latest?_append, hw] at hstatus
      exact hs (Option.some.inj hstatus).symm

theorem admits_occurrence (h : Tells es (some p)) (hl : Lawful es) (hq : p.perform c now = .ok q)
    (hf : c.fields p ≠ []) : Admits es ⟨p.id, now, c.occurrence⟩ := by
  obtain ⟨hs, hallowed, _⟩ := Product.perform_eq_ok_allowed hq
  refine ⟨?_, h.not_archived hl hs, ?_, ?_, ?_, ?_, ?_⟩
  · cases c <;> simp [Change.occurrence, Occurrence.isCreated, h.ne_nil]
  · rintro hw
    cases c <;> cases hw
    rw [h.status]
    exact hallowed.imp (congrArg some) (congrArg some)
  · rintro hw
    cases c <;> cases hw
    rw [h.status]
    exact congrArg some hallowed
  · rintro percentage start finish hw
    cases c with
    | grantDiscount d =>
        cases hw
        exact ⟨h.status.trans (congrArg some hallowed.1), d.percentage_pos, d.percentage_le,
          d.start_lt_finish, hallowed.2⟩
    | _ => cases hw
  · rintro hw
    cases c <;> cases hw
    rw [h.discounted, Option.isSome_iff_ne_none.2 hallowed]
  · rintro name description category hw
    cases c <;> cases hw
    refine ⟨_, h.texts, fun he => hf ?_⟩
    simp only [Prod.mk.injEq] at he
    simp [Change.fields, Product.differingTexts, he]

theorem admits (h : Tells es before) (hl : Lawful es) (ha : Advances now before q e) : Admits es e := by
  cases ha with
  | changed hq hf => exact h.admits_occurrence hl hq hf
  | created hq =>
      cases h
      exact ⟨by simp [Occurrence.isCreated], by simp, by simp, by simp, by simp, by simp, by simp⟩

end Tells

end Assortment.Goods
