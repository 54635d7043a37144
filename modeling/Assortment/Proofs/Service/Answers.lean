import Assortment.Proofs.Service.Catalog
import Assortment.Proofs.Service.Commits

/-!
# Answers of the catalog

Over a database that stores the entries of a catalog, the service proposes for a command what the catalog
answers to it: it refuses for the same reason, or proposes the product of the entry that is to be set.
-/

namespace Assortment.Service
open Assortment.Goods Assortment.Records Assortment.Storage Assortment.Text Assortment.Time

/-! ## Changes -/

/-- How the answer of a catalog to a change shows in the product of an entry. -/
def Agrees (e : Entry) (id : ProductId) (now : Instant) (c : Change) :
    Except Refusal (Entry × Option Occurrence) → Prop
  | .error r => (e.product id).perform c now = .error r
  | .ok (e', none) => (e.product id).perform c now = .ok (e.product id) ∧ c.fields (e.product id) = []
      ∧ e'.product id = e.product id
  | .ok (e', some what) => ∃ q, (e.product id).perform c now = .ok q ∧ c.fields (e.product id) ≠ []
      ∧ what = c.occurrence ∧ q.committed = e'.product id

theorem agrees_of_ok {e e' : Entry} {id : ProductId} {now : Instant} {c : Change}
    (hq : (e.product id).perform c now = .ok (c.outcome (e.product id) now))
    (hf : c.fields (e.product id) ≠ [])
    (he : { c.overwrite (e.product id) now with updatedAt := now } = e'.product id) :
    Agrees e id now c (.ok (e', some c.occurrence)) := by
  refine ⟨_, hq, hf, rfl, ?_⟩
  rw [Change.outcome_of_ne_nil hf]
  have hclean := congrArg Product.committed he
  exact hclean

theorem agrees_respond (e : Entry) (id : ProductId) (now : Instant) (c : Change) :
    Agrees e id now c (e.respond now c) := by
  cases c with
  | update name description category =>
      rw [Entry.respond]
      split
      · rename_i hs
        simp [Agrees, Product.perform, Product.update, Product.isArchived, Entry.product, hs]
      · rename_i hs
        split
        · rename_i hn
          simp [Agrees, Product.perform, Product.update, Product.isArchived, Entry.product, hs, hn]
        · rename_i hn
          split
          · rename_i hc
            simp [Agrees, Product.perform, Product.update, Product.isArchived, Entry.product, hs, hn, hc]
          · rename_i hc
            have hq : (e.product id).perform (.update name description category) now
                = .ok ((Change.update name description category).outcome (e.product id) now) := by
              simp only [Product.perform, Product.update, ← Product.retext_eq]
              simp [Product.isArchived, Entry.product, hs, hn, hc]
            split
            · rename_i hsame
              have hf : (Change.update name description category).fields (e.product id) = [] :=
                Product.differingTexts_eq_nil_iff.2 hsame
              rw [Change.outcome_of_nil hf] at hq
              exact ⟨hq, hf, rfl⟩
            · rename_i hdiff
              exact agrees_of_ok hq (mt Product.differingTexts_eq_nil_iff.1 hdiff) rfl
  | activate =>
      cases hs : e.status with
      | draft | inactive =>
          simp only [Entry.respond, hs]
          refine agrees_of_ok ?_ (by simp [Change.fields]) rfl
          simp only [Product.perform, Product.activate, Entry.product, hs]
          rfl
      | active | archived =>
          simp [Entry.respond, Agrees, Product.perform, Product.activate, Entry.product, hs]
  | deactivate =>
      cases hs : e.status with
      | active =>
          simp only [Entry.respond, hs]
          refine agrees_of_ok ?_ (by simp [Change.fields]) rfl
          simp only [Product.perform, Product.deactivate, Entry.product, hs]
          rfl
      | draft | inactive | archived =>
          simp [Entry.respond, Agrees, Product.perform, Product.deactivate, Entry.product, hs]
  | archive =>
      rw [Entry.respond]
      split
      · rename_i hs
        simp [Agrees, Product.perform, Product.archive, Entry.product, hs, Status.allowsArchiving,
          Status.isFinal]
      · rename_i hs
        refine agrees_of_ok ?_ (by simp [Change.fields]) rfl
        have ha : (e.product id).status.allowsArchiving = true := by
          cases h : e.status <;> simp_all [Entry.product, Status.allowsArchiving, Status.isFinal]
        simp only [Product.perform, Product.archive, ha, if_true]
        rfl
  | grantDiscount d =>
      cases hs : e.status with
      | active =>
          simp only [Entry.respond, hs]
          split
          · rename_i ho
            simp [Agrees, Product.perform, Product.grantDiscount, Product.isArchived, Entry.product, hs,
              Status.allowsDiscount, Discount.isOver, ho]
          · rename_i ho
            refine agrees_of_ok ?_ (by simp [Change.fields]) (by simp [Change.overwrite, Entry.product, hs])
            simp [Product.perform, Product.grantDiscount, Product.isArchived, Entry.product, hs,
              Status.allowsDiscount, Discount.isOver, ho]
            rfl
      | draft | inactive | archived =>
          simp [Entry.respond, Agrees, Product.perform, Product.grantDiscount, Product.isArchived,
            Entry.product, hs, Status.allowsDiscount]
  | dropDiscount =>
      rw [Entry.respond]
      split
      · rename_i hs
        simp [Agrees, Product.perform, Product.dropDiscount, Product.isArchived, Entry.product, hs]
      · rename_i hs
        cases hd : e.discount with
        | none =>
            simp [Agrees, Product.perform, Product.dropDiscount, Product.isArchived, Entry.product, hs, hd]
        | some d =>
            refine agrees_of_ok ?_ (by simp [Change.fields]) rfl
            simp [Product.perform, Product.dropDiscount, Product.isArchived, Entry.product, hs, hd]
            rfl

/-! ## Commands -/

/-- What the service and a catalog have in common: the same failure is armed, each entry of the catalog is
stored in the row of its product and there are no other rows of products, and the entries of the outbox
have identifiers that were drawn before. -/
structure Represents (state : State Database) (c : Catalog) : Prop where
  armed : state.store.armed = c.armed
  absent : ∀ id, c.entries id = none → state.store.rows[productAddress id]? = none
  present : ∀ id e, c.entries id = some e →
    ∃ row, state.store.rows[productAddress id]? = some row ∧ Stores row (e.product id)
  drawn : ∀ id, state.store.rows[entryAddress id]? ≠ none →
    ∃ n < state.eventIds.drawn, state.eventIds.nth n = id

/-- How the answer of a catalog to a command shows in what the service proposes. -/
def Foretells (db : Database) (now : Instant) (command : Command) (result : Except Failure Proposal) :
    Except Failure (Entry × Option Occurrence) → Prop
  | .error f => result = .error f
  | .ok (e, none) => ∃ p, result = .ok p ∧ p.Silent ∧ p.product.committed = e.product command.product
  | .ok (e, some what) => ∃ p m row, result = .ok p ∧ p.Writes db.rows now command.isCreation m row what
      ∧ p.product.committed = e.product command.product

variable {state : State Database} {catalog : Catalog}

theorem propose_snd (db : Database) (now : Instant) (command : Command) :
    (propose .memory now command db).2 = db := by
  unfold propose Backend.memory
  split
  · rfl
  · rfl
  · dsimp only
    cases loadProduct db _ <;> rfl

theorem inspect_eq_ok {request : Request} {change : Change} (h : inspect request = .ok change) :
    request.check = .ok () ∧ request.change = .ok change := by
  cases request with
  | update name description category =>
      simp only [inspect] at h
      split at h
      · cases h
      · rename_i hn
        split at h
        · cases h
        · rename_i hc
          cases h
          simp [Request.check, Request.change, checkText, hn, hc, bind, Except.bind]
  | grantDiscount percentage start finish =>
      simp only [inspect] at h
      split at h
      · rename_i hd
        cases h
        simp [Request.check, Request.change, hd, Except.map]
      · cases h
  | _ =>
      cases h
      exact ⟨rfl, rfl⟩

theorem inspect_eq_error {request : Request} {r : Refusal} (h : inspect request = .error r) :
    request.check = .error r := by
  cases request with
  | update name description category =>
      simp only [inspect] at h
      split at h
      · rename_i hn
        cases h
        simp [Request.check, checkText, hn, bind, Except.bind]
      · rename_i hn
        split at h
        · rename_i hc
          cases h
          simp [Request.check, checkText, hn, hc, bind, Except.bind]
        · cases h
  | grantDiscount percentage start finish =>
      simp only [inspect] at h
      split at h
      · cases h
      · rename_i hd
        cases h
        simp [Request.check, hd, Except.map]
  | _ => cases h

theorem foretells_create (c : Catalog) (db : Database) (now : Instant) (id : ProductId)
    (name description category : String) (price : Money) :
    Foretells db now (.create id name description category price)
      (propose .memory now (.create id name description category price) db).1
      (c.answer now (.create id name description category price)) := by
  have hrefused : ∀ r, (Command.create id name description category price).check = .error r →
      (propose .memory now (.create id name description category price) db).1 = .error (.refused r) := by
    intro r h
    rw [propose_refused h]
  rw [Catalog.answer]
  split
  · rename_i hid
    exact hrefused _ (by simp [Command.check, checkId, hid, bind, Except.bind])
  · rename_i hid
    split
    · rename_i hn
      exact hrefused _ (by simp [Command.check, checkId, checkText, hid, hn, bind, Except.bind])
    · rename_i hn
      split
      · rename_i hc
        exact hrefused _ (by simp [Command.check, checkId, checkText, hid, hn, hc, bind, Except.bind])
      · rename_i hc
        cases hp : price.isPositive with
        | false =>
            exact hrefused _ (by simp [Command.check, checkId, checkText, hid, hn, hc, hp, bind, Except.bind])
        | true =>
            have hcheck : (Command.create id name description category price).check = .ok () := by
              simp [Command.check, checkId, checkText, hid, hn, hc, hp, bind, Except.bind]
            rw [propose_create hcheck]
            cases hs : price.storable? with
            | none =>
                have hcreate : Product.create id name description category price now
                    = .error .invalidBasePrice := by
                  simp [Product.create, hid, hn, hc, hp, hs]
                simp [Foretells, Proposal.create, hcreate, bind, Except.bind]
            | some parts =>
                have hcreate : ∃ p, Product.create id name description category price now = .ok p
                    ∧ p.committed = (Entry.draft name description category price now).product id := by
                  refine ⟨_, by simp only [Product.create, hid, hn, hc, hp, hs]; rfl, rfl⟩
                obtain ⟨p, hcreate, hcommitted⟩ := hcreate
                obtain ⟨proposal, m, row, hprop, rfl, hw⟩ := Proposal.create_writes db.rows hcreate
                exact ⟨proposal, m, row, by rw [hprop]; rfl, hw, hcommitted⟩

theorem foretells_respond {db : Database} {e : Entry} {id : ProductId} {row : Row} {request : Request}
    {change : Change} (now : Instant) (hc : request.change = .ok change)
    (hrow : db.rows[productAddress id]? = some row) (hs : Stores row (e.product id)) :
    Foretells db now (.alter id request)
      ((Proposal.alter request (e.product id) now).mapError .refused)
      ((e.respond now change).mapError .refused) := by
  have ha := agrees_respond e id now change
  cases hr : e.respond now change with
  | error r =>
      rw [hr] at ha
      rw [Proposal.alter_refused hc ha]
      rfl
  | ok found =>
      obtain ⟨e', what⟩ := found
      rw [hr] at ha
      cases what with
      | none =>
          obtain ⟨hq, hf, he⟩ := ha
          obtain ⟨p, hp, hprod, hsilent⟩ := Proposal.alter_silent rfl rfl hc hq hf
          refine ⟨p, by rw [hp]; rfl, hsilent, ?_⟩
          rw [hprod]
          exact he.symm
      | some what =>
          obtain ⟨q, hq, hf, rfl, he⟩ := ha
          obtain ⟨p, m, row', hp, rfl, hw⟩ := Proposal.alter_writes hrow hs rfl rfl hc hq hf
          exact ⟨p, m, row', by rw [hp]; rfl, hw, he⟩

theorem foretells_alter (h : Represents state catalog) (now : Instant) (id : ProductId)
    (request : Request) : Foretells state.store now (.alter id request)
      (propose .memory now (.alter id request) state.store).1 (catalog.answer now (.alter id request)) := by
  rw [Catalog.answer]
  split
  · rename_i hid
    have hcheck : (Command.alter id request).check = .error .invalidId := by
      simp [Command.check, checkId, hid, bind, Except.bind]
    rw [propose_refused hcheck]
    rfl
  · rename_i hid
    split
    · rename_i r hi
      have hcheck : (Command.alter id request).check = .error r := by
        simp [Command.check, checkId, hid, inspect_eq_error hi, bind, Except.bind]
      rw [propose_refused hcheck]
      rfl
    · rename_i change hi
      obtain ⟨hreq, hchange⟩ := inspect_eq_ok hi
      have hcheck : (Command.alter id request).check = .ok () := by
        simp [Command.check, checkId, hid, hreq, bind, Except.bind]
      split
      · rename_i he
        rw [propose_missing hcheck (loadProduct_of_none (h.absent id he))]
        rfl
      · rename_i e he
        obtain ⟨row, hrow, hs⟩ := h.present id e he
        rw [propose_alter hcheck (loadProduct_of_stores hrow hs)]
        exact foretells_respond now hchange hrow hs

/-- What the service proposes is what the catalog answers. -/
theorem foretells_answer (h : Represents state catalog) (now : Instant) (command : Command) :
    Foretells state.store now command (propose .memory now command state.store).1
      (catalog.answer now command) := by
  cases command with
  | create id name description category price => exact foretells_create catalog state.store now ..
  | alter id request => exact foretells_alter h now id request

end Assortment.Service
