import Assortment.Proofs.Service.Proposals
import Assortment.Proofs.Service.Reload
import Assortment.Service.Run

/-!
# What commands commit

Over the database in memory a command ends in one of three ways: it is refused before anything is handed
over, it has nothing to commit, or it commits the row of its product together with one outbox entry.
-/

namespace Assortment.Service
open Assortment.Goods Assortment.Records Assortment.Storage Assortment.Text Assortment.Time

/-! ## Settling a proposal -/

/-- The identifier that the next event gets. -/
def Supply.head (s : Supply) : Uuid := s.nth s.drawn

/-- Rows with the row of a product and that of an outbox entry in place. -/
def putBoth (rows : Rows) (id : ProductId) (row : Row) (uid : Uuid) (entry : Row) : Rows :=
  (rows.insert (productAddress id) row).insert (entryAddress uid) entry

theorem getElem?_putBoth_product (rows : Rows) (id id' : ProductId) (row : Row) (uid : Uuid) (entry : Row) :
    (putBoth rows id row uid entry)[productAddress id']?
      = if id' = id then some row else rows[productAddress id']? := by
  rw [putBoth, Rows.getElem?_insert, if_neg (productAddress_ne_entryAddress id' uid).symm,
    Rows.getElem?_insert]
  simp only [productAddress, Address.mk.injEq, true_and, ← ProductId.ext_iff, eq_comm]

theorem getElem?_putBoth_entry (rows : Rows) (id : ProductId) (row : Row) (uid : Uuid) (entry : Row)
    (key : String) : (putBoth rows id row uid entry)[(⟨Layout.outboxEvents, key⟩ : Address)]?
      = if key = uid.text then some entry else rows[(⟨Layout.outboxEvents, key⟩ : Address)]? := by
  rw [putBoth, Rows.getElem?_insert, Rows.getElem?_insert, if_neg (productAddress_ne id key)]
  simp only [entryAddress, Address.mk.injEq, true_and, eq_comm]

section

variable (proposal : Proposal) (state : State Database)

/-- The plan that settling a proposal hands over. -/
def handedOver : Plan := proposal.plan (state.eventIds.next proposal.product.pending.length)

variable {proposal state} {rows : Rows} {now : Instant} {isNew : Bool} {m : Mutation} {row : Row}
  {what : Occurrence}

theorem handedOver_silent (h : proposal.Silent) : (handedOver proposal state).mutations = [] := by
  simp [handedOver, Proposal.plan, h.mutation, h.pending]

theorem handedOver_writes (h : proposal.Writes rows now isNew m row what) :
    (handedOver proposal state).mutations
      = [m, (OutboxEntry.ofEvent state.eventIds.head ⟨proposal.product.id, now, what⟩).insertion] := by
  simp [handedOver, Proposal.plan, h.mutation, h.pending, Supply.next, Supply.head]

/-- Committing the row of a product and one outbox entry under a fresh identifier fails when it is made
to, or when a new product finds its place taken, and otherwise puts both rows in place. -/
theorem apply_handedOver (h : proposal.Writes state.store.rows now isNew m row what)
    (hfresh : state.store.rows[entryAddress state.eventIds.head]? = none) :
    state.store.apply (handedOver proposal state) =
      if state.store.armed then
        (.error Database.injectedFailure,
          { state.store with opened := state.store.opened + 1, armed := false })
      else if isNew && state.store.rows[productAddress proposal.product.id]?.isSome then
        (.error (.keyTaken Layout.products proposal.product.id.text),
          { state.store with opened := state.store.opened + 1 })
      else (.ok (), { state.store with
        rows := putBoth state.store.rows proposal.product.id row state.eventIds.head
          (OutboxEntry.ofEvent state.eventIds.head ⟨proposal.product.id, now, what⟩).row
        opened := state.store.opened + 1 }) := by
  have hplan : (handedOver proposal state).mutations = _ := handedOver_writes h
  have hne : (handedOver proposal state).mutations ≠ [] := by rw [hplan]; simp
  split
  · rename_i ha
    exact Database.apply_of_armed hne ha
  · rename_i ha
    have ha : state.store.armed = false := by simpa using ha
    split
    · rename_i ht
      refine Database.apply_of_changeAll_error hne ha ?_
      rw [hplan, Rows.changeAll, h.change, if_pos ht]
    · rename_i ht
      refine Database.apply_of_changeAll_ok hne ha ?_
      rw [hplan, Rows.changeAll, h.change, if_neg ht]
      simp only [Rows.changeAll]
      rw [Rows.change_insert rfl]
      · rfl
      · exact (Rows.getElem?_insert ..).trans
          ((if_neg (productAddress_ne_entryAddress _ _)).trans hfresh)

variable (proposal state)

theorem settle_eq : ∃ metrics, State.settle .memory proposal state = (
    { result := match (state.store.apply (handedOver proposal state)).1 with
        | .ok _ => .ok proposal.receipt
        | .error e => .error (.store e)
      plan := some (handedOver proposal state) },
    { state with
      store := (state.store.apply (handedOver proposal state)).2
      eventIds := state.eventIds.skip proposal.product.pending.length
      metrics := metrics }) := by
  unfold State.settle State.commit Backend.memory
  dsimp only [handedOver]
  cases (state.store.apply (proposal.plan (state.eventIds.next proposal.product.pending.length))).1 with
  | error e => exact ⟨_, rfl⟩
  | ok _ => exact ⟨_, rfl⟩

theorem settle_outcome : (State.settle .memory proposal state).1 = {
    result := match (state.store.apply (handedOver proposal state)).1 with
      | .ok _ => .ok proposal.receipt
      | .error e => .error (.store e)
    plan := some (handedOver proposal state) } := by
  obtain ⟨_, h⟩ := settle_eq proposal state
  rw [h]

theorem settle_store : (State.settle .memory proposal state).2.store
    = (state.store.apply (handedOver proposal state)).2 := by
  obtain ⟨_, h⟩ := settle_eq proposal state
  rw [h]

theorem settle_eventIds : (State.settle .memory proposal state).2.eventIds
    = state.eventIds.skip proposal.product.pending.length := by
  obtain ⟨_, h⟩ := settle_eq proposal state
  rw [h]

end

/-! ## Proposing -/

section

variable {db : Database} {now : Instant} {command : Command}

theorem propose_refused {r : Refusal} (h : command.check = .error r) :
    propose .memory now command db = (.error (.refused r), db) := by
  unfold propose
  rw [h]

theorem propose_create {id : ProductId} {name description category : String} {price : Money}
    (h : (Command.create id name description category price).check = .ok ()) :
    propose .memory now (.create id name description category price) db
      = ((Proposal.create id name description category price now).mapError .refused, db) := by
  unfold propose
  rw [h]

theorem propose_missing {id : ProductId} {request : Request} {f : Failure}
    (h : (Command.alter id request).check = .ok ()) (hl : loadProduct db id = .error f) :
    propose .memory now (.alter id request) db = (.error f, db) := by
  unfold propose Backend.memory
  rw [h]
  simp only [hl]

theorem propose_alter {id : ProductId} {request : Request} {p : Product}
    (h : (Command.alter id request).check = .ok ()) (hl : loadProduct db id = .ok p) :
    propose .memory now (.alter id request) db
      = ((Proposal.alter request p now).mapError .refused, db) := by
  unfold propose Backend.memory
  rw [h]
  simp only [hl]

/-- Rows as the service leaves them: a row of a product stores one with the identifier under which it is
kept, and a row of the outbox is that of an entry. -/
structure Coherent (rows : Rows) : Prop where
  product : ∀ id row, rows[productAddress id]? = some row → ∃ p : Product, p.id = id ∧ Stores row p
  entry : ∀ key row, rows[(⟨Layout.outboxEvents, key⟩ : Address)]? = some row →
    ∃ o : OutboxEntry, o.eventId.text = key ∧ row = o.row

/-- The product that is kept under an identifier, if there is a row that can be read. -/
def found? (rows : Rows) (id : ProductId) : Option Product :=
  rows[productAddress id]?.bind fun row => (ProductRow.ofRow row >>= ProductRow.toProduct).toOption

/-- The product that a command starts from. -/
def Command.loaded (rows : Rows) : Command → Option Product
  | create .. => none
  | alter id _ => found? rows id

theorem found?_of_none {rows : Rows} {id : ProductId} (h : rows[productAddress id]? = none) :
    found? rows id = none := by
  rw [found?, h]
  rfl

theorem found?_empty (id : ProductId) : found? ∅ id = none :=
  found?_of_none Std.ExtTreeMap.getElem?_empty

theorem found?_of_stores {rows : Rows} {id : ProductId} {row : Row} {p : Product}
    (h : rows[productAddress id]? = some row) (hs : Stores row p) : found? rows id = some p.committed := by
  rw [found?, h, Option.bind_some, hs.read]
  rfl

namespace Coherent

variable {rows : Rows} {id : ProductId} {p : Product}

theorem of_found? (h : Coherent rows) (hf : found? rows id = some p) :
    p.id = id ∧ p.dirty = ∅ ∧ p.pending = []
      ∧ ∃ row, rows[productAddress id]? = some row ∧ Stores row p := by
  cases hr : rows[productAddress id]? with
  | none =>
      rw [found?_of_none hr] at hf
      cases hf
  | some row =>
      obtain ⟨p', rfl, hs⟩ := h.product id row hr
      rw [found?_of_stores hr hs] at hf
      cases hf
      exact ⟨rfl, rfl, rfl, row, rfl, hs⟩

theorem of_found?_eq_none (h : Coherent rows) (hf : found? rows id = none) :
    rows[productAddress id]? = none := by
  cases hr : rows[productAddress id]? with
  | none => rfl
  | some row =>
      obtain ⟨p, rfl, hs⟩ := h.product id row hr
      rw [found?_of_stores hr hs] at hf
      cases hf

theorem loadProduct_eq (h : Coherent db.rows) (id : ProductId) :
    loadProduct db id = match found? db.rows id with
      | none => .error (.notFound id)
      | some p => .ok p := by
  cases hf : found? db.rows id with
  | none => exact loadProduct_of_none (h.of_found?_eq_none hf)
  | some p =>
      obtain ⟨_, hd, hp, row, hrow, hs⟩ := h.of_found? hf
      have hclean : p.committed = p := Product.ext rfl rfl rfl rfl rfl rfl rfl rfl rfl rfl hd.symm hp.symm
      rw [loadProduct_of_stores hrow hs, hclean]

end Coherent

/-- What a command comes to, given the product that it starts from: it is refused, or proposes nothing,
which only an update can, or brings that product forward. -/
def Undertakes (before : Option Product) (now : Instant) (command : Command) :
    Except Failure Proposal → Prop
  | .error f => ∀ e, f ≠ .store e
  | .ok proposal => proposal.product.id = command.product
      ∧ ((proposal.Silent
          ∧ ∃ id name description category, command = .alter id (.update name description category))
        ∨ ∃ e, proposal.Advancing now before e)

theorem undertakes_refused {before : Option Product} (r : Refusal) :
    Undertakes before now command (.error (.refused r)) := by
  simp [Undertakes]

theorem undertakes_create (id : ProductId) (name description category : String) (price : Money) :
    Undertakes none now (.create id name description category price)
      ((Proposal.create id name description category price now).mapError .refused) := by
  cases hp : Product.create id name description category price now with
  | error r =>
      simp only [Proposal.create, hp, bind, Except.bind]
      exact undertakes_refused r
  | ok p =>
      obtain ⟨proposal, hprop, rfl, ha⟩ := Proposal.create_advances hp
      rw [hprop]
      exact ⟨ha.advances.product_eq.symm, .inr ⟨_, ha⟩⟩

theorem undertakes_alter {p : Product} (request : Request) (hs : p.basePrice.storable?.isSome)
    (hd : p.dirty = ∅) (hp : p.pending = []) :
    Undertakes (some p) now (.alter p.id request) ((Proposal.alter request p now).mapError .refused) := by
  cases hc : request.change with
  | error r =>
      rw [Proposal.alter_refused_input hc]
      exact undertakes_refused r
  | ok c =>
      cases hq : p.perform c now with
      | error r =>
          rw [Proposal.alter_refused hc hq]
          exact undertakes_refused r
      | ok q =>
          by_cases hf : c.fields p = []
          · obtain ⟨proposal, hprop, rfl, hsilent⟩ := Proposal.alter_silent hd hp hc hq hf
            obtain ⟨name, description, category, rfl⟩ := Proposal.change_of_fields_nil hc hf
            rw [hprop]
            exact ⟨rfl, .inl ⟨hsilent, _, _, _, _, rfl⟩⟩
          · obtain ⟨proposal, hprop, rfl, ha⟩ := Proposal.alter_advances hs hd hp hc hq hf
            rw [hprop]
            exact ⟨ha.advances.accounted.id, .inr ⟨_, ha⟩⟩

/-- Up to its commit a command leaves the store alone. -/
theorem propose_undertakes (h : Coherent db.rows) (now : Instant) (command : Command) :
    ∃ result, propose .memory now command db = (result, db)
      ∧ Undertakes (command.loaded db.rows) now command result := by
  cases hcheck : command.check with
  | error r => exact ⟨_, propose_refused hcheck, undertakes_refused r⟩
  | ok _ =>
      cases command with
      | create id name description category price =>
          exact ⟨_, propose_create hcheck, undertakes_create ..⟩
      | alter id request =>
          have hl := h.loadProduct_eq id
          cases hf : found? db.rows id with
          | none =>
              rw [hf] at hl
              exact ⟨_, propose_missing hcheck hl, by simp [Undertakes]⟩
          | some p =>
              rw [hf] at hl
              obtain ⟨rfl, hd, hp, row, _, hs⟩ := h.of_found? hf
              refine ⟨_, propose_alter hcheck hl, ?_⟩
              rw [Command.loaded, hf]
              exact undertakes_alter request hs.storable hd hp

/-- What a command comes to over the given rows: it is refused, or proposes nothing, which only an update
can, or proposes to write the row of its product. -/
def Proposes (rows : Rows) (now : Instant) (command : Command) : Except Failure Proposal → Prop
  | .error f => ∀ e, f ≠ .store e
  | .ok proposal => proposal.product.id = command.product
      ∧ ((proposal.Silent
          ∧ ∃ id name description category, command = .alter id (.update name description category))
        ∨ ∃ isNew m row what, proposal.Writes rows now isNew m row what)

theorem Coherent.proposes {rows : Rows} {result : Except Failure Proposal} (h : Coherent rows)
    (hu : Undertakes (command.loaded rows) now command result) : Proposes rows now command result := by
  cases result with
  | error f => exact hu
  | ok proposal =>
      obtain ⟨hid, hsilent | ⟨e, ha⟩⟩ := hu
      · exact ⟨hid, .inl hsilent⟩
      · cases hb : command.loaded rows with
        | none =>
            obtain ⟨m, row, hw⟩ := (hb ▸ ha).writes_new rows
            exact ⟨hid, .inr ⟨true, m, row, _, hw⟩⟩
        | some p =>
            cases command with
            | create => cases hb
            | alter id request =>
                obtain ⟨rfl, _, _, row, hrow, hs⟩ := h.of_found? hb
                obtain ⟨m, row', hw⟩ := (hb ▸ ha).writes_changed hrow hs
                exact ⟨hid, .inr ⟨false, m, row', _, hw⟩⟩

theorem propose_cases (h : Coherent db.rows) (now : Instant) (command : Command) :
    ∃ result, propose .memory now command db = (result, db) ∧ Proposes db.rows now command result := by
  obtain ⟨result, hr, hu⟩ := propose_undertakes h now command
  exact ⟨result, hr, h.proposes hu⟩

end

end Assortment.Service
