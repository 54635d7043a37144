import Assortment.Service.Backend
import Assortment.Service.Metrics
import Assortment.Service.Proposal
import Assortment.Time.Clock

/-!
# The service

A command is checked, its product is loaded and changed, and the proposal is committed in one plan. Up to
the commit nothing is written, and after a failed commit nothing is left of the proposal.
-/
namespace Assortment.Service
open Assortment.Goods Assortment.Records Assortment.Storage Assortment.Text Assortment.Time

/-- A sequence of identifiers, and how many of them are used up. -/
structure Supply where
  nth : Nat → Uuid
  drawn : Nat := 0

namespace Supply

def next (s : Supply) (n : Nat) : List Uuid := (List.range n).map fun i => s.nth (s.drawn + i)

def skip (s : Supply) (n : Nat) : Supply := { s with drawn := s.drawn + n }

end Supply

/-- What a command comes to before its commit: its input is checked, its product loaded and changed. -/
def propose {σ : Type} (backend : Backend σ) (now : Instant) (command : Command) (store : σ) :
    Except Failure Proposal × σ :=
  match command.check, command with
  | .error reason, _ => (.error (.refused reason), store)
  | .ok _, .create id name description category price =>
      ((Proposal.create id name description category price now).mapError .refused, store)
  | .ok _, .alter id request =>
      match backend.find id store with
      | (.error failure, store) => (.error failure, store)
      | (.ok product, store) => ((Proposal.alter request product now).mapError .refused, store)

/-- The state of a service over a backend with states of type `σ`. -/
structure State (σ : Type) where
  store : σ
  clock : Clock
  eventIds : Supply
  metrics : Metrics := {}

/-- What became of a command, with the plan that was handed to the backend if it came to that. -/
structure Outcome where
  result : Except Failure Receipt
  plan : Option Plan

namespace State

variable {σ : Type}

def get (backend : Backend σ) (id : ProductId) (state : State σ) :
    Except Failure Product × State σ :=
  let (found, store) := backend.find id state.store
  (found, { state with store := store })

/-- Commits a plan and counts what became of it. -/
def commit (backend : Backend σ) (plan : Plan) (state : State σ) :
    Except StorageError Unit × State σ :=
  let (result, store) := backend.apply plan state.store
  (result, { state with store := store, metrics := state.metrics.observe plan result })

/-- Commits a proposal under the next identifiers. -/
def settle (backend : Backend σ) (proposal : Proposal) (state : State σ) :
    Outcome × State σ :=
  let n := proposal.product.pending.length
  let plan := proposal.plan (state.eventIds.next n)
  match commit backend plan { state with eventIds := state.eventIds.skip n } with
  | (.error error, state) => (⟨.error (.store error), some plan⟩, state)
  | (.ok _, state) =>
      (⟨.ok proposal.receipt, some plan⟩,
        { state with metrics := state.metrics.countCommand proposal.command })

def executeAt (backend : Backend σ) (now : Instant) (command : Command) (state : State σ) :
    Outcome × State σ :=
  match propose backend now command state.store with
  | (.error failure, store) => (⟨.error failure, none⟩, { state with store := store })
  | (.ok proposal, store) => settle backend proposal { state with store := store }

def execute (backend : Backend σ) (command : Command) (state : State σ) :
    Outcome × State σ :=
  executeAt backend state.clock.now command state

end State

end Assortment.Service
