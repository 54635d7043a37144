import Assortment.Proofs.Records.Conformance
import Assortment.Proofs.Service.Proposals
import Assortment.Service.Run

/-!
# What is handed over

Whatever the backend and whatever it has stored, a plan that is handed over writes at most one product, which was
just created or has just accepted a change, and an outbox entry for each of its events. So nothing is ever handed
over that does not conform to the layout.
-/

namespace Assortment.Service
open Assortment.Goods Assortment.Records Assortment.Storage Assortment.Text Assortment.Time

/-! ## Where proposals come from -/

/-- How a proposal comes about: a product is created, or a product that is there accepts a change. -/
inductive Proposal.Arises (now : Instant) : Option Product → Proposal → Prop where
  | created {command : String} {id : ProductId} {name description category : String} {price : Money} {p : Product}
      {m : Mutation} : Product.create id name description category price now = .ok p → insertion p = .ok m →
      Arises now none ⟨command, p, some m⟩
  | revised {command : String} {p q : Product} {c : Change} {change : Option Mutation} :
      p.perform c now = .ok q → c ≠ .archive → revision q = .ok change → Arises now (some p) ⟨command, q, change⟩
  | archived {command : String} {p q : Product} :
      p.perform .archive now = .ok q → Arises now (some p) ⟨command, q, some (archival q)⟩

namespace Proposal

variable {now : Instant} {p q : Product} {request : Request} {proposal : Proposal}

theorem arises_create {id : ProductId} {name description category : String} {price : Money}
    (h : create id name description category price now = .ok proposal) : proposal.Arises now none := by
  obtain ⟨p, hp, h⟩ := bind_eq_ok h
  obtain ⟨m, hm, h⟩ := bind_eq_ok h
  cases h
  exact .created hp hm

theorem arises_alter (h : alter request p now = .ok proposal) : proposal.Arises now (some p) := by
  obtain ⟨c, hc, hchange⟩ := bind_eq_ok h
  obtain ⟨q, hq, hmutation⟩ := bind_eq_ok hchange
  cases request with
  | archive =>
      cases hc
      cases Except.ok.inj hmutation
      exact .archived hq
  | _ =>
      obtain ⟨change, hrevision, hproposal⟩ := bind_eq_ok hmutation
      cases hproposal
      refine .revised hq ?_ hrevision
      rintro rfl
      cases change_eq_archive hc

/-- A plan holds the mutation of its product and the outbox entries of the events. -/
theorem mem_plan {m : Mutation} {ids : List Uuid} (h : m ∈ (proposal.plan ids).mutations) :
    proposal.mutation = some m
      ∨ ∃ id, ∃ e ∈ proposal.product.pending, m = (OutboxEntry.ofEvent id e).insertion := by
  simp only [plan, Plan.mutations_pushAll, Plan.mutations_push, Plan.mutations_empty, List.nil_append,
    List.mem_append, Option.mem_toList, List.mem_filterMap, id_eq, exists_eq_right] at h
  refine h.imp_right fun h => ?_
  rw [← List.map_uncurry_zip_eq_zipWith] at h
  obtain ⟨⟨id, e⟩, he, hm⟩ := List.mem_map.1 h
  exact ⟨id, e, (List.of_mem_zip he).2, (Option.some.inj hm).symm⟩

end Proposal

/-! ## What becomes of a command -/

variable {σ : Type} {backend : Backend σ} {now : Instant} {command : Command} {store : σ} {proposal : Proposal}

/-- What can become of a command, given which products can be found: it stops before anything is handed over, or
the plan of a proposal is, and is committed or not. -/
inductive Outcome.Follows (now : Instant) (found : Product → Prop) : Outcome → Prop where
  | stopped {f : Failure} : Follows now found ⟨.error f, none⟩
  | failed {before : Option Product} {proposal : Proposal} {ids : List Uuid} {e : StorageError} :
      proposal.Arises now before → (∀ p, before = some p → found p) →
      Follows now found ⟨.error (.store e), some (proposal.plan ids)⟩
  | committed {before : Option Product} {proposal : Proposal} {ids : List Uuid} :
      proposal.Arises now before → (∀ p, before = some p → found p) →
      Follows now found ⟨.ok proposal.receipt, some (proposal.plan ids)⟩

theorem arises_propose (h : (propose backend now command store).1 = .ok proposal) :
    ∃ before, proposal.Arises now before
      ∧ ∀ p, before = some p → (backend.find command.product store).1 = .ok p := by
  unfold propose at h
  split at h
  · cases h
  · exact ⟨none, Proposal.arises_create (mapError_eq_ok h), by simp⟩
  · split at h
    · cases h
    · rename_i p store' hfound
      refine ⟨some p, Proposal.arises_alter (mapError_eq_ok h), ?_⟩
      simp [Command.product, hfound]

theorem follows_executeAt (backend : Backend σ) (now : Instant) (command : Command) (state : State σ) :
    (State.executeAt backend now command state).1.Follows now
      fun p => (backend.find command.product state.store).1 = .ok p := by
  unfold State.executeAt
  split
  · exact .stopped
  · rename_i proposal store' hproposed
    obtain ⟨before, ha, hfound⟩ := arises_propose (congrArg Prod.fst hproposed)
    unfold State.settle
    dsimp only
    split
    · exact .failed ha hfound
    · exact .committed ha hfound

/-! ## Conformance -/

theorem Proposal.Arises.conforms {before : Option Product} {ids : List Uuid} (h : proposal.Arises now before) :
    ∀ m ∈ (proposal.plan ids).mutations, Conforms m := by
  intro m hm
  rcases Proposal.mem_plan hm with hm | ⟨id, e, _, rfl⟩
  · left
    cases h with
    | created _ hinsertion =>
        cases hm
        exact admits_insertion hinsertion
    | revised _ _ hrevision =>
        cases hm
        exact admits_revision hrevision
    | archived _ =>
        cases hm
        exact admits_archival _
  · exact .inr (admits_entry _)

/-- Whatever a backend has stored, whatever the time and the command, each mutation that is handed over conforms to
the layout, and so do the marks on outbox entries. -/
theorem plan_conforms :
    (∀ {σ : Type} (backend : Backend σ) (now : Instant) (command : Command) (state : State σ) (plan : Plan),
      (State.executeAt backend now command state).1.plan = some plan → ∀ m ∈ plan.mutations, Conforms m)
    ∧ (∀ id t, Conforms (OutboxEntry.noteDelivery id t)) ∧ ∀ id, Conforms (OutboxEntry.noteFailure id) := by
  refine ⟨fun backend now command state plan hplan => ?_, fun id t => .inr (admits_noteDelivery id t),
    fun id => .inr (admits_noteFailure id)⟩
  have hfollows := follows_executeAt backend now command state
  generalize (State.executeAt backend now command state).1 = outcome at hfollows hplan
  cases hfollows with
  | stopped => cases hplan
  | failed ha _ | committed ha _ =>
      cases hplan
      exact ha.conforms

/-- A service that has a lamp and is going to fail its next commit. -/
def lampShop : State Database :=
  let state : State Database := ⟨∅, ⟨.epoch⟩, ⟨fun n => ⟨BitVec.ofNat 128 n⟩, 0⟩, {}⟩
  let state := (State.executeAt .memory .epoch (.create ⟨"lamp"⟩ "Lamp" "" "Light" ⟨10⟩) state).2
  { state with store := state.store.arm }

theorem plan_conforms_lamp : ∃ plan,
    (State.executeAt .memory .epoch (.alter ⟨"lamp"⟩ (.update "Lantern" "" "Light")) lampShop).1.plan = some plan
      ∧ plan.mutations.length = 2 ∧ ∀ m ∈ plan.mutations, Conforms m := by
  have h : (State.executeAt .memory .epoch (.alter ⟨"lamp"⟩ (.update "Lantern" "" "Light")) lampShop).1.plan.map
      (·.mutations.length) = some 2 := by
    decide +kernel
  obtain ⟨plan, hplan, hlength⟩ := Option.map_eq_some_iff.1 h
  exact ⟨plan, hplan, hlength, plan_conforms.1 .memory .epoch _ lampShop plan hplan⟩

end Assortment.Service
