import Assortment.Proofs.Service.Catalog
import Assortment.Proofs.Service.Landing

/-!
# Clients side by side

Any number of clients share one service. A command that changes a product takes a client two steps: one loads
the product, changes it and draws up the plan, and the other commits the plan, whatever the other clients have
committed in between. A product is created in one step.
-/

namespace Assortment.Service
open Assortment.Goods Assortment.Records Assortment.Storage Assortment.Text Assortment.Time

/-! ## Steps -/

/-- What a client holds between the two steps of a command. -/
structure Ticket where
  proposal : Proposal
  plan : Plan

/-- A service over the database in memory, and what each client holds. -/
structure World where
  state : State Database
  held : Nat → Option Ticket

/-- A step of a client, or the arming of a commit failure. -/
inductive Step where
  | load (client : Nat) (now : Instant) (id : ProductId) (request : Request)
  | commit (client : Nat)
  | create (now : Instant) (id : ProductId) (name description category : String) (price : Money)
  | arm

namespace World

/-- An empty database, and clients that hold nothing. -/
def start (clock : Clock) (nth : Nat → Uuid) : World where
  state := .start clock nth
  held _ := none

/-- The world in which a client holds something else. -/
def hold (w : World) (client : Nat) (ticket : Option Ticket) : World :=
  { w with held := fun i => if i = client then ticket else w.held i }

/-- Loads and changes a product, and draws up the plan under the next identifiers. A client that is refused
holds nothing. -/
def load (w : World) (client : Nat) (now : Instant) (id : ProductId) (request : Request) :
    Option (Except Failure Receipt) × World :=
  match propose .memory now (.alter id request) w.state.store with
  | (.error failure, store) =>
      (some (.error failure), { w with state := { w.state with store := store } }.hold client none)
  | (.ok proposal, store) =>
      let n := proposal.product.pending.length
      (none,
        { w with state := { w.state with store := store, eventIds := w.state.eventIds.skip n } }.hold client
          (some ⟨proposal, proposal.plan (w.state.eventIds.next n)⟩))

/-- Commits the plan that a client holds, if it holds one. -/
def commit (w : World) (client : Nat) : Option (Except Failure Receipt) × World :=
  match w.held client with
  | none => (none, w)
  | some ticket =>
      match w.state.commit .memory ticket.plan with
      | (.error error, state) => (some (.error (.store error)), { w with state := state }.hold client none)
      | (.ok _, state) =>
          (some (.ok ticket.proposal.receipt),
            { w with state :=
              { state with metrics := state.metrics.countCommand ticket.proposal.command } }.hold client none)

/-- What a step answers, if it ends a command, and what it leaves. -/
def step (w : World) : Step → Option (Except Failure Receipt) × World
  | .load client now id request => w.load client now id request
  | .commit client => w.commit client
  | .create now id name description category price =>
      let command := Command.create id name description category price
      (some (State.executeAt .memory now command w.state).1.result,
        { w with state := (State.executeAt .memory now command w.state).2 })
  | .arm => (none, { w with state := { w.state with store := w.state.store.arm } })

/-- The answers to steps, one after the other, and what they leave. -/
def run (w : World) : List Step → List (Option (Except Failure Receipt)) × World
  | [] => ([], w)
  | step :: steps => ((w.step step).1 :: ((w.step step).2.run steps).1, ((w.step step).2.run steps).2)

/-- Loading and committing with nothing in between is the whole command. -/
theorem load_commit (w : World) (client : Nat) (now : Instant) (id : ProductId) (request : Request) :
    (w.load client now id request).1.or ((w.load client now id request).2.commit client).1
        = some (State.executeAt .memory now (.alter id request) w.state).1.result
      ∧ ((w.load client now id request).2.commit client).2.state
        = (State.executeAt .memory now (.alter id request) w.state).2 := by
  unfold load State.executeAt
  rcases propose .memory now (.alter id request) w.state.store with ⟨failure | proposal, store⟩
  · simp [commit, hold]
  · simp only [commit, hold, State.settle, if_true, Option.none_or]
    split <;> simp_all

end World

/-- The events that an answer reports, if there is one. -/
def reported : Option (Except Failure Receipt) → List Event
  | some result => eventsOf result
  | none => []

/-! ## What a step makes of the rows -/

variable {R R' : Product → Prop} {rows rows' : Rows} {es : List Event}

/-- Whether a ticket proposes nothing, or brings forward a product that was loaded in a good state. -/
inductive Ticket.Fits (R : Product → Prop) (t : Ticket) : Prop where
  | silent : t.proposal.product.pending = [] → t.plan.mutations = [] → Fits R t
  | advancing {before : Option Product} {now : Instant} {e : Event} {uid : Uuid} :
      (∀ p₀, before = some p₀ → R p₀) → t.proposal.Advancing now before e →
      t.plan = t.proposal.plan [uid] → Fits R t

theorem Ticket.Fits.mono {t : Ticket} (h : t.Fits R) (himp : ∀ p, R p → R' p) : t.Fits R' := by
  cases h with
  | silent hpending hplan => exact .silent hpending hplan
  | advancing hbefore ha hplan => exact .advancing (fun p₀ hp₀ => himp p₀ (hbefore p₀ hp₀)) ha hplan

/-- What becomes of rows when the given events are reported: nothing when there is none, and otherwise a copy
that was loaded in a good state and was changed is merged into the product. -/
inductive Evolves (R : Product → Prop) (rows : Rows) : List Event → Rows → Prop where
  | quiet : Evolves R rows [] rows
  | advanced {before : Option Product} {now : Instant} {uid : Uuid} {q : Product} {e : Event} {rows' : Rows} :
      (∀ p₀, before = some p₀ → R p₀) → Advances now before q e →
      (found? rows q.id).isSome = before.isSome → Lands rows uid (q.onto (found? rows q.id)) e rows' →
      Evolves R rows [e] rows'

theorem Evolves.coherent (h : Evolves R rows es rows') (hc : Coherent rows) : Coherent rows' := by
  cases h with
  | quiet => exact hc
  | advanced _ _ _ hlands => exact hlands.coherent hc

theorem Ends.evolves {now : Instant} {command : Command} {uid : Uuid} {result : Except Failure Receipt}
    (h : Ends now command uid rows result rows') (hfound : ∀ id p, found? rows id = some p → R p) :
    Evolves R rows (eventsOf result) rows' := by
  cases h with
  | quiet hnone =>
      rw [hnone]
      exact .quiet
  | @advanced q e _ hid hadv hlands =>
      rw [← hid] at hadv
      refine .advanced (fun p₀ => hfound q.id p₀) hadv rfl (hlands.of_committed_eq ?_)
      cases hf : found? rows q.id with
      | none => rfl
      | some p => exact (Product.committed_merge (hf ▸ hadv).accounted).symm

/-- A ticket that is committed has the rows evolve. -/
theorem Ticket.Fits.evolves {t : Ticket} (h : t.Fits R) {state : State Database}
    (hc : Coherent state.store.rows) :
    Evolves R state.store.rows
      (match (state.store.apply t.plan).1 with
        | .ok _ => t.proposal.product.pending
        | .error _ => [])
      (state.store.apply t.plan).2.rows := by
  cases h with
  | silent hpending hplan =>
      rw [Database.apply_of_nil hplan, hpending]
      exact .quiet
  | @advancing before now e uid hbefore ha hplan =>
      rw [hplan]
      rcases apply_advancing hc ha uid with ⟨error, herror, hrows⟩ | ⟨hok, hsome, hlands⟩
      · rw [herror, hrows]
        exact .quiet
      · rw [hok, ha.pending]
        exact .advanced hbefore ha.advances hsome hlands

namespace World

variable {w : World}

theorem held_hold {client i : Nat} {ticket : Option Ticket} {t : Ticket}
    (h : (w.hold client ticket).held i = some t) : ticket = some t ∨ w.held i = some t := by
  simp only [hold] at h
  split at h
  · exact .inl h
  · exact .inr h

theorem fits_load (hc : Coherent w.state.store.rows)
    (hfound : ∀ id p, found? w.state.store.rows id = some p → R p) (client : Nat) (now : Instant)
    (id : ProductId) (request : Request) :
    reported (w.load client now id request).1 = []
      ∧ (w.load client now id request).2.state.store = w.state.store
      ∧ ∀ i t, (w.load client now id request).2.held i = some t → t.Fits R ∨ w.held i = some t := by
  obtain ⟨result, hr, hu⟩ := propose_undertakes hc now (.alter id request)
  unfold load
  rw [hr]
  cases result with
  | error f =>
      refine ⟨rfl, rfl, fun i t ht => ?_⟩
      rcases held_hold ht with hn | ht
      · cases hn
      · exact .inr ht
  | ok proposal =>
      refine ⟨rfl, rfl, fun i t ht => ?_⟩
      rcases held_hold ht with hn | ht
      · cases hn
        obtain ⟨_, ⟨hsilent, _⟩ | ⟨e, ha⟩⟩ := hu
        · exact .inl (.silent hsilent.pending (handedOver_silent hsilent))
        · have hplan : proposal.plan (w.state.eventIds.next proposal.product.pending.length)
              = proposal.plan [w.state.eventIds.head] := by
            simp [ha.pending, Supply.next, Supply.head]
          exact .inl (.advancing (hfound id) ha hplan)
      · exact .inr ht

theorem evolves_commit (hc : Coherent w.state.store.rows)
    (hheld : ∀ i t, w.held i = some t → t.Fits R) (client : Nat) :
    Evolves R w.state.store.rows (reported (w.commit client).1) (w.commit client).2.state.store.rows
      ∧ ∀ i t, (w.commit client).2.held i = some t → w.held i = some t := by
  unfold commit
  cases ht : w.held client with
  | none => exact ⟨.quiet, fun _ _ h => h⟩
  | some ticket =>
      have he := (hheld client ticket ht).evolves hc
      have hdrop : ∀ (state : State Database) i t,
          ({ w with state := state }.hold client none).held i = some t → w.held i = some t := by
        intro state i t h
        rcases held_hold h with hn | h
        · cases hn
        · exact h
      simp only [State.commit, Backend.memory]
      cases hr : (w.state.store.apply ticket.plan).1 with
      | error error =>
          rw [hr] at he
          exact ⟨he, hdrop _⟩
      | ok _ =>
          rw [hr] at he
          exact ⟨he, hdrop _⟩

/-- Whatever a step does, the rows evolve by the events that it reports, as long as everything that is found
or held is in a good state. -/
theorem evolves_step (hc : Coherent w.state.store.rows)
    (hfound : ∀ id p, found? w.state.store.rows id = some p → R p)
    (hheld : ∀ i t, w.held i = some t → t.Fits R) (step : Step) :
    Evolves R w.state.store.rows (reported (w.step step).1) (w.step step).2.state.store.rows
      ∧ ∀ i t, (w.step step).2.held i = some t → t.Fits R := by
  cases step with
  | load client now id request =>
      obtain ⟨hnone, hstore, hfits⟩ := fits_load (w := w) hc hfound client now id request
      simp only [World.step]
      rw [hnone, hstore]
      exact ⟨.quiet, fun i t ht => (hfits i t ht).elim (fun h => h) (hheld i t)⟩
  | commit client =>
      obtain ⟨he, hkept⟩ := evolves_commit hc hheld client
      exact ⟨he, fun i t ht => hheld i t (hkept i t ht)⟩
  | create now id name description category price =>
      exact ⟨(ends_executeAt hc now _).evolves hfound, hheld⟩
  | arm => exact ⟨.quiet, hheld⟩

end World

end Assortment.Service
