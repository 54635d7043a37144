import Assortment.Proofs.Service.Landing
import Assortment.Proofs.Text.Uuid

/-!
# The transactional outbox

Whatever was done before, a command either fails and leaves every row as it was, or has nothing to say, or
changes the row of its product and adds one pending entry to the outbox, both in one transaction.
-/

namespace Assortment.Service
open Assortment.Goods Assortment.Records Assortment.Storage Assortment.Text Assortment.Time

/-! ## Reachable states -/

/-- What becomes of an outbox entry after its delivery was tried. -/
inductive Mark where
  | delivered (id : Uuid) (t : Instant)
  | failed (id : Uuid)

namespace Mark

/-- The update that sets a mark. -/
def mutation : Mark → Mutation
  | delivered id t => OutboxEntry.noteDelivery id t
  | failed id => OutboxEntry.noteFailure id

/-- An entry that has been marked. -/
def entry (o : OutboxEntry) : Mark → OutboxEntry
  | delivered _ t => { o with status := .processed, processedAt := some t }
  | failed _ => { o with status := .failed }

theorem kind_mutation (mark : Mark) : mark.mutation.kind = .update := by
  cases mark <;> rfl

theorem table_mutation (mark : Mark) : mark.mutation.address.table = Layout.outboxEvents := by
  cases mark <;> rfl

theorem setAll_mutation (mark : Mark) (o : OutboxEntry) :
    o.row.setAll mark.mutation.values = (mark.entry o).row := by
  cases mark with
  | delivered id t => exact o.setAll_noteDelivery id t
  | failed id => exact o.setAll_noteFailure id

end Mark

/-- What can happen to a service over the database in memory: a command at a time, marks that are committed
together, and the arming of a commit failure. -/
inductive Action where
  | command (now : Instant) (command : Command)
  | mark (marks : List Mark)
  | arm

/-- The state after an action. -/
def State.act (state : State Database) : Action → State Database
  | .command now command => (State.executeAt .memory now command state).2
  | .mark marks => { state with store := (state.store.apply ⟨marks.map Mark.mutation⟩).2 }
  | .arm => { state with store := state.store.arm }

/-- The states that actions lead to from an empty database. -/
inductive Reachable : State Database → Prop where
  | start (clock : Clock) (eventIds : Supply) : Reachable { store := ∅, clock := clock, eventIds := eventIds }
  | act {state : State Database} (action : Action) : Reachable state → Reachable (state.act action)

theorem Reachable.acts {state : State Database} (h : Reachable state) (actions : List Action) :
    Reachable (actions.foldl State.act state) := by
  induction actions generalizing state with
  | nil => exact h
  | cons action actions ih => exact ih (h.act action)

/-! ## Coherence -/

namespace Coherent

variable {rows : Rows}

theorem change_mark {rows' : Rows} (h : Coherent rows) (mark : Mark)
    (hc : rows.change mark.mutation = .ok rows') : Coherent rows' := by
  obtain ⟨row, hr, rfl⟩ := Rows.change_update_eq_ok mark.kind_mutation hc
  have haddr : mark.mutation.address = ⟨Layout.outboxEvents, mark.mutation.address.key⟩ :=
    Address.ext mark.table_mutation rfl
  obtain ⟨o, ho, rfl⟩ := h.entry _ row (haddr ▸ hr)
  have hid : entryAddress (mark.entry o).eventId = mark.mutation.address := by
    rw [haddr, ← ho]
    cases mark <;> rfl
  rw [mark.setAll_mutation, ← hid]
  exact h.insert_entry _

theorem changeAll_marks {rows' : Rows} (h : Coherent rows) (marks : List Mark)
    (hc : rows.changeAll (marks.map Mark.mutation) = .ok rows') : Coherent rows' := by
  refine Rows.changeAll_keeps (P := Coherent) (fun m hm before after hchange hbefore => ?_) hc h
  obtain ⟨mark, _, rfl⟩ := List.mem_map.1 hm
  exact hbefore.change_mark mark hchange

end Coherent

/-- A command keeps rows coherent, whether its event has a fresh identifier or not. -/
theorem coherent_executeAt {state : State Database} (h : Coherent state.store.rows) (now : Instant)
    (command : Command) : Coherent (State.executeAt .memory now command state).2.store.rows :=
  (ends_executeAt h now command).coherent h

theorem Reachable.coherent {state : State Database} (h : Reachable state) : Coherent state.store.rows := by
  induction h with
  | start clock eventIds => exact .empty
  | act action _ ih =>
      cases action with
      | command now command => exact coherent_executeAt ih now command
      | mark marks =>
          rcases Database.rows_apply _ ⟨marks.map Mark.mutation⟩ with he | hc
          · exact (congrArg Coherent he).mpr ih
          · exact ih.changeAll_marks marks hc
      | arm => exact ih

/-! ## Marks -/

theorem changeAll_marks_frame {rows rows' : Rows} (marks : List Mark)
    (h : rows.changeAll (marks.map Mark.mutation) = .ok rows') (a : Address) :
    (a.table ≠ Layout.outboxEvents → rows'[a]? = rows[a]?) ∧ (rows[a]? = none → rows'[a]? = none) := by
  refine Rows.changeAll_keeps
    (P := fun r => (a.table ≠ Layout.outboxEvents → r[a]? = rows[a]?) ∧ (rows[a]? = none → r[a]? = none))
    (fun m hm before after hchange ⟨hother, hnone⟩ => ?_) h ⟨fun _ => rfl, id⟩
  obtain ⟨mark, _, rfl⟩ := List.mem_map.1 hm
  constructor
  · intro ht
    have hne : mark.mutation.address ≠ a := by
      rintro rfl
      exact ht mark.table_mutation
    rw [Rows.getElem?_change hchange hne, hother ht]
  · intro ha
    -- A mark needs the row to be there, so it is on another one.
    obtain ⟨row, hr, _⟩ := Rows.change_update_eq_ok mark.kind_mutation hchange
    have hne : mark.mutation.address ≠ a := by
      rintro rfl
      rw [hnone ha] at hr
      cases hr
    rw [Rows.getElem?_change hchange hne, hnone ha]

/-- Marks change no product row and add no entry. -/
theorem act_mark_frame (state : State Database) (marks : List Mark) (key : String) :
    (state.act (.mark marks)).store.row? Layout.products key = state.store.row? Layout.products key
      ∧ (state.store.row? Layout.outboxEvents key = none →
        (state.act (.mark marks)).store.row? Layout.outboxEvents key = none) := by
  rcases Database.rows_apply state.store ⟨marks.map Mark.mutation⟩ with he | hc
  · simp only [State.act, Database.row?, he]
    exact ⟨trivial, id⟩
  · exact ⟨(changeAll_marks_frame marks hc _).1 products_ne_outboxEvents,
      (changeAll_marks_frame marks hc _).2⟩

/-! ## One command -/

/-- Whether a commit stored a product and announced an event of it: one transaction was opened, no other
product row differs, no entry of the outbox does, and there is one more entry, which is pending and tells
of the event. -/
structure Announces (id : Uuid) (product : Product) (e : Event) (before after : Database) : Prop where
  opened : after.opened = before.opened + 1
  subject : e.product = product.id
  time : e.time = product.updatedAt
  stored : loadProduct after product.id = .ok product
  products : ∀ key, key ≠ product.id.text →
    after.row? Layout.products key = before.row? Layout.products key
  outbox : ∀ key row, before.row? Layout.outboxEvents key = some row →
    after.row? Layout.outboxEvents key = some row
  gained : ∃ key row o, before.row? Layout.outboxEvents key = none
    ∧ after.row? Layout.outboxEvents key = some row
    ∧ (∀ key', key' ≠ key → after.row? Layout.outboxEvents key' = before.row? Layout.outboxEvents key')
    ∧ row[Layout.processedAt]? = some (.timestamp none)
    ∧ OutboxEntry.ofRow row = .ok o ∧ o.eventId = id ∧ o.status = .pending ∧ o.eventType = e.what.type
    ∧ o.aggregateId = e.product.text ∧ o.payload = payload e ∧ o.createdAt = e.time

/-- The ways in which a command can end, with what each of them does to the database. -/
inductive Transactional (command : Command) (id : Uuid) (before after : Database) : Outcome → Prop where
  | refused {f : Failure} : (∀ e, f ≠ .store e) → after.rows = before.rows →
      after.opened = before.opened → Transactional command id before after ⟨.error f, none⟩
  | failed {e : StorageError} {plan : Plan} : after.rows = before.rows →
      after.opened = before.opened + 1 → Transactional command id before after ⟨.error (.store e), some plan⟩
  | silent {product : Product} {plan : Plan} :
      (∃ id name description category, command = .alter id (.update name description category)) →
      after = before → Transactional command id before after ⟨.ok ⟨product, []⟩, some plan⟩
  | announced {product : Product} {e : Event} {plan : Plan} : product.id = command.product →
      Announces id product e before after →
      Transactional command id before after ⟨.ok ⟨product, [e]⟩, some plan⟩

/-- No entry has an identifier exactly when no row is kept under it. -/
theorem Coherent.fresh_iff {rows : Rows} {id : Uuid} (h : Coherent rows) :
    (∀ key row, rows[(⟨Layout.outboxEvents, key⟩ : Address)]? = some row →
      row.uuid? Layout.eventId ≠ some id) ↔ rows[entryAddress id]? = none := by
  constructor
  · intro hfresh
    cases hr : rows[entryAddress id]? with
    | none => rfl
    | some row =>
        obtain ⟨o, ho, rfl⟩ := h.entry _ row hr
        cases Uuid.eq_of_text_eq ho
        exact absurd o.uuid?_row (hfresh _ _ hr)
  · intro hnone key row hr hid
    obtain ⟨o, rfl, rfl⟩ := h.entry key row hr
    rw [o.uuid?_row] at hid
    cases hid
    exact absurd (hnone.symm.trans hr) (by simp)

theorem announces_putBoth {db : Database} {row : Row} {p : Product} {id : Uuid} {e : Event}
    (hs : Stores row p) (he : e.product = p.id) (ht : e.time = p.updatedAt)
    (hfresh : db.rows[entryAddress id]? = none) :
    Announces id p.committed e db { db with
      rows := putBoth db.rows p.id row id (OutboxEntry.ofEvent id e).row, opened := db.opened + 1 } where
  opened := rfl
  subject := he
  time := ht
  stored := by
    refine loadProduct_of_stores ?_ (Stores.committed_iff.2 hs)
    exact (getElem?_putBoth_product ..).trans (if_pos rfl)
  products key hkey := by
    refine (getElem?_putBoth_product _ _ ⟨key⟩ ..).trans (if_neg fun hid => ?_)
    exact hkey (ProductId.ext_iff.1 hid)
  outbox key row' hr := by
    refine (getElem?_putBoth_entry ..).trans ((if_neg ?_).trans hr)
    rintro rfl
    exact absurd (hfresh.symm.trans hr) (by simp)
  gained := by
    refine ⟨id.text, (OutboxEntry.ofEvent id e).row, OutboxEntry.ofEvent id e, hfresh, ?_, ?_,
      OutboxEntry.getElem?_row_processedAt _, OutboxEntry.ofRow_row _, rfl, rfl, rfl, rfl, rfl, rfl⟩
    · exact (getElem?_putBoth_entry ..).trans (if_pos rfl)
    · intro key' hne
      exact (getElem?_putBoth_entry ..).trans (if_neg hne)

/-- Whether the product rows and the outbox change together: no product row without a new entry, and no row
of the outbox without a product that is stored and announced. -/
structure InStep (before after : Database) (outcome : Outcome) : Prop where
  products : ∀ key, after.row? Layout.products key ≠ before.row? Layout.products key →
    ∃ key', before.row? Layout.outboxEvents key' = none ∧ (after.row? Layout.outboxEvents key').isSome
  outbox : ∀ key, after.row? Layout.outboxEvents key ≠ before.row? Layout.outboxEvents key →
    ∃ product e, outcome.result = .ok ⟨product, [e]⟩ ∧ loadProduct after product.id = .ok product

theorem Transactional.inStep {command : Command} {id : Uuid} {before after : Database} {outcome : Outcome}
    (h : Transactional command id before after outcome) : InStep before after outcome := by
  have hsame : after.rows = before.rows → InStep before after outcome := by
    intro hrows
    constructor <;> intro key hne <;> exact absurd (by simp [Database.row?, hrows]) hne
  cases h with
  | refused _ hrows _ => exact hsame hrows
  | failed hrows _ => exact hsame hrows
  | silent _ hsilent => exact hsame (by rw [hsilent])
  | announced _ ha =>
      obtain ⟨key, row, o, hnone, hsome, _⟩ := ha.gained
      exact ⟨fun _ _ => ⟨key, hnone, by rw [hsome]; rfl⟩, fun _ _ => ⟨_, _, rfl, ha.stored⟩⟩

theorem transactional_executeAt {state : State Database} (h : Coherent state.store.rows)
    (now : Instant) (command : Command)
    (hfresh : state.store.rows[entryAddress state.eventIds.head]? = none) :
    Transactional command state.eventIds.head state.store
      (State.executeAt .memory now command state).2.store (State.executeAt .memory now command state).1 := by
  obtain ⟨result, hr, hp⟩ := propose_cases h now command
  unfold State.executeAt
  rw [hr]
  cases result with
  | error f => exact .refused hp rfl rfl
  | ok proposal =>
      dsimp only
      rw [settle_outcome, settle_store]
      obtain ⟨hid, ⟨hsilent, hupdate⟩ | ⟨isNew, m, row, what, hw⟩⟩ := hp
      · rw [Database.apply_of_nil (handedOver_silent hsilent), Proposal.receipt, hsilent.pending]
        exact .silent hupdate rfl
      · rw [apply_handedOver hw hfresh]
        split
        · exact .failed rfl rfl
        · split
          · exact .failed rfl rfl
          · rw [Proposal.receipt, hw.pending]
            exact .announced hid (announces_putBoth hw.stores rfl hw.updatedAt.symm hfresh)

/-- After any commands and marks, a command whose event gets an identifier that no entry has either fails
and leaves every row as it was, or is an update that has nothing to say, or stores its product and
announces one event; and product rows and outbox rows only change together. Marks change no product row
and add no entry. -/
theorem command_transactional {state : State Database} (h : Reachable state) (now : Instant)
    (command : Command)
    (hfresh : ∀ key row, state.store.row? Layout.outboxEvents key = some row →
      row.uuid? Layout.eventId ≠ some state.eventIds.head) :
    Transactional command state.eventIds.head state.store
        (State.executeAt .memory now command state).2.store (State.executeAt .memory now command state).1
      ∧ InStep state.store (State.executeAt .memory now command state).2.store
        (State.executeAt .memory now command state).1
      ∧ ∀ (marks : List Mark) (key : String),
        (state.act (.mark marks)).store.row? Layout.products key = state.store.row? Layout.products key
        ∧ (state.store.row? Layout.outboxEvents key = none →
          (state.act (.mark marks)).store.row? Layout.outboxEvents key = none) := by
  have ht := transactional_executeAt h.coherent now command (h.coherent.fresh_iff.1 hfresh)
  exact ⟨ht, ht.inStep, act_mark_frame state⟩

/-- A lamp and a desk are created, and their entries delivered and not delivered. -/
def stocking : List Action := [
  .command .epoch (.create ⟨"lamp"⟩ "Lamp" "" "Light" ⟨10⟩),
  .command .epoch (.create ⟨"desk"⟩ "Desk" "" "Furniture" ⟨250⟩),
  .mark [.delivered ⟨0#128⟩ .epoch, .failed ⟨1#128⟩]]

/-- A service whose events are numbered, with a lamp and a desk. -/
def stockedShop : State Database :=
  stocking.foldl State.act { store := ∅, clock := ⟨.epoch⟩, eventIds := ⟨fun n => ⟨BitVec.ofNat 128 n⟩, 0⟩ }

/-- The command that puts the lamp on sale. -/
def activateLamp : Command := .alter ⟨"lamp"⟩ .activate

theorem command_transactional_stocked : Reachable stockedShop
    ∧ (stockedShop.store.row? Layout.outboxEvents (⟨0#128⟩ : Uuid).text).bind (·[Layout.status]?)
      = some (.text "processed")
    ∧ (stockedShop.store.row? Layout.products "desk").isSome
    ∧ (∀ key row, stockedShop.store.row? Layout.outboxEvents key = some row →
      row.uuid? Layout.eventId ≠ some stockedShop.eventIds.head)
    ∧ eventsOf (State.executeAt .memory .epoch activateLamp stockedShop).1.result
      = [⟨⟨"lamp"⟩, .epoch, .activated⟩]
    ∧ Transactional activateLamp stockedShop.eventIds.head stockedShop.store
        (State.executeAt .memory .epoch activateLamp stockedShop).2.store
        (State.executeAt .memory .epoch activateLamp stockedShop).1
    ∧ InStep stockedShop.store (State.executeAt .memory .epoch activateLamp stockedShop).2.store
        (State.executeAt .memory .epoch activateLamp stockedShop).1 := by
  have hr : Reachable stockedShop := (Reachable.start _ _).acts stocking
  have hfresh : ∀ key row, stockedShop.store.row? Layout.outboxEvents key = some row →
      row.uuid? Layout.eventId ≠ some stockedShop.eventIds.head :=
    hr.coherent.fresh_iff.2 (by decide +kernel)
  obtain ⟨ht, hstep, -⟩ := command_transactional hr .epoch activateLamp hfresh
  exact ⟨hr, by decide +kernel, by decide +kernel, hfresh, by decide +kernel, ht, hstep⟩

end Assortment.Service
