import Assortment.Proofs.Records.Codec
import Assortment.Proofs.Records.Precision
import Assortment.Proofs.Service.Plans
import Assortment.Proofs.Storage.Wire

/-!
# Nothing is lost in storage

The instants that a plan writes are the time of the command, which comes from a clock that shows whole microseconds,
and the bounds of discounts, which are aligned by their type. None is taken over from what was loaded, so it does not
matter what the store holds.
-/

namespace Assortment.Service
open Assortment.Goods Assortment.Records Assortment.Storage Assortment.Text Assortment.Time

/-! ## Proposals -/

/-- A proposal with nothing to write or to announce but aligned instants. -/
structure Proposal.Precise (proposal : Proposal) : Prop where
  mutation : ∀ m, proposal.mutation = some m → m.Precise
  events : ∀ e ∈ proposal.product.pending, ∀ t ∈ e.instants, Aligned t

variable {now : Instant} {before : Option Product} {p q : Product} {c : Change} {e : Event} {proposal : Proposal}

namespace Proposal

theorem Silent.precise (h : proposal.Silent) : proposal.Precise where
  mutation m hm := by simp [h.mutation] at hm
  events e he := by simp [h.pending] at he

theorem precise_of_advances (ha : Advances now before proposal.product e) (hpending : proposal.product.pending = [e])
    (hnow : Aligned now) (hm : ∀ m, proposal.mutation = some m → m.Precise) : proposal.Precise where
  mutation := hm
  events e' he' := by
    rw [hpending, List.mem_singleton] at he'
    rw [he']
    exact ha.aligned_event hnow

/-- No time of a product that was loaded is written: each is either set by the change or left out. -/
theorem Arises.precise (h : proposal.Arises now before) (hnow : Aligned now)
    (hclean : ∀ p, before = some p → p.dirty = ∅ ∧ p.pending = []) : proposal.Precise := by
  cases h with
  | created hq hinsertion =>
      have ha := Advances.created hq
      have hcreated : Aligned _ := ha.createdAt_of_none ▸ hnow
      have hupdated : Aligned _ := ha.updatedAt_eq ▸ hnow
      obtain ⟨_, _, _, _, _, rfl⟩ := Product.create_eq_ok hq
      refine precise_of_advances ha rfl hnow fun m hm => ?_
      cases hm
      exact precise_insertion hinsertion hcreated hupdated (by simp)
  | @revised _ p q c change hq _ hrevision =>
      obtain ⟨hdirty, hpending⟩ := hclean p rfl
      by_cases hf : c.fields p = []
      -- An update that brings no new text leaves the product as it was loaded, whatever its times.
      · obtain ⟨_, rfl⟩ := Product.perform_eq_ok hq
        rw [Change.outcome_of_nil hf] at hrevision ⊢
        rw [revision_of_clean hdirty] at hrevision
        cases hrevision
        exact Silent.precise ⟨rfl, hpending⟩
      · have ha := Advances.changed hq hf
        have hupdated : Aligned q.updatedAt := ha.updatedAt_eq ▸ hnow
        refine precise_of_advances ha (Product.pending_of_perform hpending hq hf) hnow fun m hm => ?_
        cases hm
        refine precise_revision hrevision hupdated fun harchives t ht => ?_
        rw [ha.archivedAt_eq (fun p hp => (hclean p hp).1) harchives] at ht
        cases ht
        exact hupdated
  | @archived _ p q hq =>
      -- Archiving writes its own time of archiving, whatever is dirty.
      have hf : Change.archive.fields p ≠ [] := by simp [Change.fields]
      have ha := Advances.changed hq hf
      have hupdated : Aligned q.updatedAt := ha.updatedAt_eq ▸ hnow
      refine precise_of_advances ha (Product.pending_of_perform (hclean p rfl).2 hq hf) hnow fun m hm => ?_
      cases hm
      refine precise_archival hupdated fun t ht => ?_
      rw [(Product.perform_eq_ok hq).2, Change.outcome_of_ne_nil hf] at ht
      cases ht
      exact hnow

theorem Precise.plan (h : proposal.Precise) (ids : List Uuid) :
    ∀ m ∈ (proposal.plan ids).mutations, m.Precise := by
  intro m hm
  rcases mem_plan hm with hm | ⟨id, e, he, rfl⟩
  · exact h.mutation m hm
  · exact precise_entry id (h.events e he e.time (List.mem_cons_self ..))

end Proposal

/-! ## Backends that load clean products -/

variable {σ : Type}

/-- What a backend finds has nothing left to store or announce. -/
def Backend.LoadsClean (backend : Backend σ) : Prop :=
  ∀ id store p, (backend.find id store).1 = .ok p → p.dirty = ∅ ∧ p.pending = []

theorem clean_of_toProduct {r : ProductRow} (h : r.toProduct = .ok p) : p.dirty = ∅ ∧ p.pending = [] := by
  obtain ⟨status, discount, _, _, rfl⟩ := ProductRow.toProduct_eq_ok h
  exact ⟨rfl, rfl⟩

theorem memory_loadsClean : Backend.memory.LoadsClean := by
  intro id db p h
  simp only [Backend.memory, loadProduct] at h
  split at h
  · cases h
  · rename_i row _
    obtain ⟨r, _, hread⟩ := bind_eq_ok (mapError_eq_ok h)
    exact clean_of_toProduct hread

theorem server_loadsClean (server : Server σ) : (Backend.server server).LoadsClean := by
  intro id store p h
  simp only [Backend.server, queryProduct] at h
  split at h
  · cases h
  · simp only [productOfAnswer] at h
    split at h
    · cases h
    · split at h
      · cases h
      · exact clean_of_toProduct (mapError_eq_ok h)

/-! ## Commands -/

/-- Every value of the plan keeps its instant at stored precision, and so does every event in the answer. -/
structure Outcome.Precise (outcome : Outcome) : Prop where
  plan : ∀ plan, outcome.plan = some plan → ∀ m ∈ plan.mutations, ∀ v ∈ m.key :: m.values.map (·.2),
    (∀ t, v.timestamp? = some t → t.floorMicro = t) ∧ v.floorMicro = v
  events : ∀ receipt, outcome.result = .ok receipt → ∀ e ∈ receipt.events, ∀ t ∈ e.instants, t.floorMicro = t

theorem Proposal.Precise.outcome {ids : List Uuid} (h : proposal.Precise) {result : Except Failure Receipt}
    (hresult : ∀ receipt, result = .ok receipt → receipt = proposal.receipt) :
    Outcome.Precise ⟨result, some (proposal.plan ids)⟩ where
  plan plan hplan m hm v hv := by
    cases hplan
    have hv : v.IsAligned := h.plan ids m hm v hv
    exact ⟨hv, hv.floorMicro_eq⟩
  events receipt hreceipt := by
    rw [hresult receipt hreceipt]
    exact h.events

/-- What a precise outcome writes comes over a wire and back as it was. -/
theorem Outcome.Precise.crosses {outcome : Outcome} {plan : Plan} (h : outcome.Precise)
    (hplan : outcome.plan = some plan) :
    ∀ m ∈ plan.mutations, ∀ v ∈ m.key :: m.values.map (·.2),
      Wire.receive? v.type v = some v ∧ Wire.delivered v = v := by
  intro m hm
  exact Mutation.Precise.crosses fun v hv => (h.plan plan hplan m hm v hv).1

theorem precise_executeAt {backend : Backend σ} (hbackend : backend.LoadsClean) (hnow : Aligned now)
    (command : Command) (state : State σ) : (State.executeAt backend now command state).1.Precise := by
  have hfollows := follows_executeAt backend now command state
  generalize (State.executeAt backend now command state).1 = outcome at hfollows
  cases hfollows with
  | stopped => exact ⟨by simp, by simp⟩
  | failed ha hfound =>
      have hclean := fun p hp => hbackend command.product state.store p (hfound p hp)
      exact (ha.precise hnow hclean).outcome (by simp)
  | committed ha hfound =>
      have hclean := fun p hp => hbackend command.product state.store p (hfound p hp)
      exact (ha.precise hnow hclean).outcome fun receipt h => (Except.ok.inj h).symm

/-- Whatever is stored and whatever a command brings along, what it writes and announces keeps its instants when the
clock shows whole microseconds, as a clock does that is set by hand or cuts off what it reads elsewhere. -/
theorem command_precise :
    (∀ t : Instant, t.floorMicro.floorMicro = t.floorMicro)
    ∧ (∀ clock : Clock, clock.now.floorMicro = clock.now)
    ∧ ∀ (now : Instant) (command : Command), now.floorMicro = now →
      (∀ state : State Database, (State.executeAt .memory now command state).1.Precise)
      ∧ ∀ {σ : Type} (server : Server σ) (state : State σ),
        (State.executeAt (.server server) now command state).1.Precise := by
  refine ⟨aligned_floorMicro, fun clock => aligned_floorMicro clock.instant, fun now command hnow => ?_⟩
  constructor
  · intro state
    exact precise_executeAt memory_loadsClean hnow command state
  · intro σ server state
    exact precise_executeAt (server_loadsClean server) hnow command state

/-- Three milliseconds before the epoch. -/
def dusk : Instant := ⟨-3000000, by decide, by decide⟩

/-- A service whose clock stands at dusk and that has a lamp on sale. -/
def lampOnSale : State Database :=
  let state : State Database := ⟨∅, ⟨dusk⟩, ⟨fun n => ⟨BitVec.ofNat 128 n⟩, 0⟩, {}⟩
  let state := (State.execute .memory (.create ⟨"lamp"⟩ "Lamp" "" "Light" ⟨10⟩) state).2
  (State.execute .memory (.alter ⟨"lamp"⟩ .activate) state).2

theorem command_precise_lamp : ∃ outcome plan,
    (State.executeAt .memory dusk (.alter ⟨"lamp"⟩ (.grantDiscount (1 / 4)
        ⟨-1001, by decide, by decide⟩ ⟨999, by decide, by decide⟩)) lampOnSale).1 = outcome
      ∧ outcome.plan = some plan ∧ plan.mutations.length = 2 ∧ outcome.Precise := by
  have h : (State.executeAt .memory dusk (.alter ⟨"lamp"⟩ (.grantDiscount (1 / 4)
      ⟨-1001, by decide, by decide⟩ ⟨999, by decide, by decide⟩)) lampOnSale).1.plan.map (·.mutations.length)
        = some 2 := by
    decide +kernel
  obtain ⟨plan, hplan, hlength⟩ := Option.map_eq_some_iff.1 h
  exact ⟨_, plan, rfl, hplan, hlength, (command_precise.2.2 dusk _ rfl).1 lampOnSale⟩

end Assortment.Service
