import Assortment.Proofs.Service.Clients
import Mathlib.Data.List.Induction

/-!
# Committed copies

A step of a client commits a changed copy of a product, or a new product, when what it hands over is not empty
and the database takes it. Which copies the steps of a run commit is all that decides what becomes of the rows
of products.
-/

namespace Assortment.Service
open Assortment.Goods Assortment.Records Assortment.Storage Assortment.Text Assortment.Time

/-! ## Steps that commit -/

def Ticket.committed? (t : Ticket) (db : Database) : Option Product :=
  if t.plan.isEmpty then none
  else match (db.apply t.plan).1 with
    | .ok _ => some t.proposal.product
    | .error _ => none

/-- The client that takes a step, if it is one of those that hold something between their steps. -/
def Step.client? : Step → Option Nat
  | .load client .. | .commit client => some client
  | .create .. | .arm => none

namespace World

/-- What a step hands over. -/
def ticket? (w : World) : Step → Option Ticket
  | .commit client => w.held client
  | .create now id name description category price =>
      (propose .memory now (.create id name description category price) w.state.store).1.toOption.map
        fun proposal => ⟨proposal, handedOver proposal w.state⟩
  | .load .. | .arm => none

/-- The copy that a step commits, if it commits one. -/
def committed? (w : World) (step : Step) : Option Product :=
  (w.ticket? step).bind (·.committed? w.state.store)

/-- The copies that steps commit, one after the other. -/
def commits (w : World) : List Step → List Product
  | [] => []
  | step :: steps => (w.committed? step).toList ++ (w.step step).2.commits steps

theorem run_append (w : World) (steps more : List Step) :
    (w.run (steps ++ more)).2 = ((w.run steps).2.run more).2 := by
  induction steps generalizing w with
  | nil => rfl
  | cons step steps ih => exact ih (w.step step).2

theorem commits_append (w : World) (steps more : List Step) :
    w.commits (steps ++ more) = w.commits steps ++ (w.run steps).2.commits more := by
  induction steps generalizing w with
  | nil => rfl
  | cons step steps ih =>
      simp only [List.cons_append, commits, run, ih, List.append_assoc]

theorem run_concat (w : World) (steps : List Step) (step : Step) :
    (w.run (steps ++ [step])).2 = ((w.run steps).2.step step).2 :=
  run_append w steps [step]

theorem commits_concat (w : World) (steps : List Step) (step : Step) :
    w.commits (steps ++ [step]) = w.commits steps ++ ((w.run steps).2.committed? step).toList := by
  rw [commits_append, commits, commits, List.append_nil]

end World

/-! ## What committed copies make of the rows -/

variable {R : Product → Prop} {rows rows' : Rows} {t : Ticket} {db : Database} {q : Product}

theorem Lands.found?_onto {uid : Uuid} {e : Event} (h : Lands rows uid (q.onto (found? rows q.id)) e rows')
    (hc : Coherent rows) (id : ProductId) : Service.found? rows' id
      = if id = q.id then some (q.onto (Service.found? rows id)).committed else Service.found? rows id := by
  rw [h.found?_eq, hc.onto_id]
  split
  · rename_i hid
    rw [hid]
  · rfl

/-- What becomes of rows when a copy is committed that was loaded in a good state and changed, or none is. -/
inductive Takes (R : Product → Prop) (rows : Rows) : Option Product → Rows → Prop where
  | nothing : Takes R rows none rows
  | copy {before : Option Product} {now : Instant} {e : Event} {uid : Uuid} {q : Product} {rows' : Rows} :
      (∀ p₀, before = some p₀ → R p₀) → Advances now before q e → q.pending = [e] →
      (found? rows q.id).isSome = before.isSome → Lands rows uid (q.onto (found? rows q.id)) e rows' →
      Takes R rows (some q) rows'

theorem Takes.coherent {taken : Option Product} (h : Takes R rows taken rows') (hc : Coherent rows) :
    Coherent rows' := by
  cases h with
  | nothing => exact hc
  | copy _ _ _ _ hlands => exact hlands.coherent hc

theorem Ticket.Fits.takes (h : t.Fits R) (hc : Coherent db.rows) :
    Takes R db.rows (t.committed? db) (db.apply t.plan).2.rows := by
  unfold Ticket.committed?
  cases h with
  | silent _ hplan =>
      rw [if_pos (by simp [Plan.isEmpty, hplan]), Database.apply_of_nil hplan]
      exact .nothing
  | @advancing before now e uid hbefore ha hplan =>
      obtain ⟨m, hm, _⟩ := ha.lodges
      have hne : t.plan.isEmpty = false := by
        simp [hplan, Plan.isEmpty, Proposal.mutations_plan uid hm ha.pending]
      rw [if_neg (by simp [hne]), hplan]
      rcases apply_advancing hc ha uid with ⟨error, herror, hrows⟩ | ⟨hok, hsome, hlands⟩
      · rw [herror, hrows]
        exact .nothing
      · rw [hok]
        exact .copy hbefore ha.advances ha.pending hsome hlands

/-- A committed copy is reported by the event that it queued, and nothing else is. -/
theorem Ticket.Fits.pending_eq (h : t.Fits R) (db : Database) :
    (match (db.apply t.plan).1 with
      | .ok _ => t.proposal.product.pending
      | .error _ => []) = (t.committed? db).elim [] Product.pending := by
  unfold Ticket.committed?
  cases h with
  | silent hpending hplan =>
      rw [if_pos (by simp [Plan.isEmpty, hplan]), Database.apply_of_nil hplan, hpending]
      rfl
  | @advancing before now e uid hbefore ha hplan =>
      obtain ⟨m, hm, _⟩ := ha.lodges
      have hne : t.plan.isEmpty = false := by
        simp [hplan, Plan.isEmpty, Proposal.mutations_plan uid hm ha.pending]
      rw [if_neg (by simp [hne])]
      cases (db.apply t.plan).1 <;> rfl

/-- Whether a ticket proposes nothing, or brings forward a product that was loaded in a good state and is not
a new one. -/
inductive Ticket.Revises (R : Product → Prop) (t : Ticket) : Prop where
  | silent : t.proposal.product.pending = [] → t.plan.mutations = [] → Revises R t
  | advancing {p₀ : Product} {now : Instant} {e : Event} {uid : Uuid} : R p₀ →
      t.proposal.Advancing now (some p₀) e → t.plan = t.proposal.plan [uid] → Revises R t

theorem Ticket.Revises.fits (h : t.Revises R) : t.Fits R := by
  cases h with
  | silent hpending hplan => exact .silent hpending hplan
  | advancing hp₀ ha hplan =>
      refine .advancing (fun p hp => ?_) ha hplan
      cases hp
      exact hp₀

theorem handedOver_advancing {proposal : Proposal} {e : Event} (state : State Database)
    (h : proposal.product.pending = [e]) : handedOver proposal state = proposal.plan [state.eventIds.head] := by
  simp [handedOver, h, Supply.next, Supply.head]

namespace World

variable {w : World} {i : Nat}

/-! ## What clients hold -/

theorem held_step_of_ne {step : Step} (h : step.client? ≠ some i) : (w.step step).2.held i = w.held i := by
  cases step with
  | load client now id request =>
      have hne : i ≠ client := fun he => h (congrArg some he.symm)
      simp only [World.step, load]
      split <;> simp [hold, hne]
  | commit client =>
      have hne : i ≠ client := fun he => h (congrArg some he.symm)
      simp only [World.step, commit]
      split
      · rfl
      · split <;> simp [hold, hne]
  | create => rfl
  | arm => rfl

theorem held_step_commit (w : World) (i : Nat) : (w.step (.commit i)).2.held i = none := by
  simp only [World.step, commit]
  split
  · rename_i h
    exact h
  · split <;> simp [hold]

/-- What a client holds, it holds since it last loaded a product. -/
theorem held_run (hnone : w.held i = none) {steps : List Step} (h : (w.run steps).2.held i = some t) :
    ∃ before now id request between, steps = before ++ .load i now id request :: between
      ∧ (∀ s ∈ between, s.client? ≠ some i)
      ∧ ((w.run before).2.step (.load i now id request)).2.held i = some t := by
  induction steps using List.reverseRecOn with
  | nil =>
      rw [show (w.run []).2 = w from rfl, hnone] at h
      cases h
  | append_singleton steps step ih =>
      rw [run_concat] at h
      by_cases hi : step.client? = some i
      · cases step with
        | load client now id request =>
            cases hi
            exact ⟨steps, now, id, request, [], rfl, by simp, h⟩
        | commit client =>
            cases hi
            rw [held_step_commit] at h
            cases h
        | create => cases hi
        | arm => cases hi
      · rw [held_step_of_ne hi] at h
        obtain ⟨before, now, id, request, between, rfl, hbetween, hload⟩ := ih h
        refine ⟨before, now, id, request, between ++ [step], by simp, fun s hs => ?_, hload⟩
        rcases List.mem_append.1 hs with hs | hs
        · exact hbetween s hs
        · cases List.mem_singleton.1 hs
          exact hi

theorem propose_alter_of_none (hc : Coherent db.rows) {id : ProductId} (h : found? db.rows id = none)
    (now : Instant) (request : Request) : ∃ f, propose .memory now (.alter id request) db = (.error f, db) := by
  cases hcheck : (Command.alter id request).check with
  | error r => exact ⟨_, propose_refused hcheck⟩
  | ok _ =>
      have hl := hc.loadProduct_eq id
      rw [h] at hl
      exact ⟨_, propose_missing hcheck hl⟩

/-- What a client holds after it loaded a product is a revision of the product that was there. -/
theorem revises_load (hc : Coherent w.state.store.rows) {now : Instant} {id : ProductId} {request : Request}
    (hfound : ∀ p, found? w.state.store.rows id = some p → R p)
    (h : (w.step (.load i now id request)).2.held i = some t) :
    t.Revises R ∧ t.proposal.product.id = id := by
  obtain ⟨result, hr, hu⟩ := propose_undertakes hc now (.alter id request)
  simp only [World.step, load] at h
  rw [hr] at h
  cases result with
  | error f => simp [hold] at h
  | ok proposal =>
      obtain ⟨hid, hundertakes⟩ := hu
      simp only [hold, if_true, Option.some.injEq] at h
      subst h
      refine ⟨?_, hid⟩
      rcases hundertakes with ⟨hsilent, _⟩ | ⟨e, ha⟩
      · exact .silent hsilent.pending (handedOver_silent hsilent)
      · cases hf : found? w.state.store.rows id with
        | none =>
            obtain ⟨f, hnone⟩ := propose_alter_of_none hc hf now request
            rw [hr] at hnone
            cases hnone
        | some p =>
            rw [Command.loaded, hf] at ha
            exact .advancing (hfound p hf) ha (handedOver_advancing w.state ha.pending)

/-! ## Steps -/

theorem fits_create (hc : Coherent w.state.store.rows) {now : Instant} {id : ProductId}
    {name description category : String} {price : Money}
    (h : w.ticket? (.create now id name description category price) = some t) : t.Fits R := by
  obtain ⟨result, hr, hu⟩ := propose_undertakes hc now (.create id name description category price)
  simp only [ticket?] at h
  rw [hr] at h
  cases result with
  | error f => cases h
  | ok proposal =>
      cases h
      rcases hu with ⟨_, ⟨hsilent, _⟩ | ⟨e, ha⟩⟩
      · exact .silent hsilent.pending (handedOver_silent hsilent)
      · exact .advancing (fun p hp => by cases hp) ha (handedOver_advancing w.state ha.pending)

theorem committed_step (hc : Coherent w.state.store.rows) {step : Step}
    (hfits : ∀ t, w.ticket? step = some t → t.Fits R) :
    Takes R w.state.store.rows (w.committed? step) (w.step step).2.state.store.rows
      ∧ reported (w.step step).1 = (w.committed? step).elim [] Product.pending := by
  cases step with
  | load client now id request =>
      obtain ⟨result, hr, _⟩ := propose_undertakes hc now (.alter id request)
      simp only [World.step, load]
      rw [hr]
      cases result <;> exact ⟨.nothing, rfl⟩
  | commit client =>
      simp only [World.step, commit, committed?, ticket?] at hfits ⊢
      cases ht : w.held client with
      | none => exact ⟨.nothing, rfl⟩
      | some t =>
          have ht := hfits t ht
          have htakes := ht.takes hc
          have hpending := ht.pending_eq w.state.store
          simp only [State.commit, Backend.memory, Option.bind_some]
          rw [← hpending]
          cases hr : (w.state.store.apply t.plan).1 <;> exact ⟨htakes, rfl⟩
  | create now id name description category price =>
      obtain ⟨result, hr, _⟩ := propose_undertakes hc now (.create id name description category price)
      simp only [World.step, committed?, State.executeAt]
      simp only [ticket?] at hfits ⊢
      rw [hr] at hfits ⊢
      cases result with
      | error f => exact ⟨.nothing, rfl⟩
      | ok proposal =>
          have ht := hfits _ rfl
          have hpending := ht.pending_eq w.state.store
          refine ⟨(settle_store proposal w.state).symm ▸ ht.takes hc, ?_⟩
          simp only [settle_outcome]
          refine Eq.trans ?_ hpending
          cases (w.state.store.apply (handedOver proposal w.state)).1 <;> rfl
  | arm => exact ⟨.nothing, rfl⟩

/-- Whether what is kept and held comes from the service alone. -/
structure Steady (w : World) : Prop where
  coherent : Coherent w.state.store.rows
  held : ∀ i t, w.held i = some t → t.Revises (·.dirty = ∅)

namespace Steady

theorem fits (h : w.Steady) {step : Step} (ht : w.ticket? step = some t) : t.Fits (·.dirty = ∅) := by
  cases step with
  | load => cases ht
  | commit client => exact (h.held client t ht).fits
  | create => exact fits_create h.coherent ht
  | arm => cases ht

theorem takes (h : w.Steady) (step : Step) :
    Takes (·.dirty = ∅) w.state.store.rows (w.committed? step) (w.step step).2.state.store.rows :=
  (committed_step h.coherent fun _ => h.fits).1

theorem start (clock : Clock) (nth : Nat → Uuid) : (World.start clock nth).Steady :=
  ⟨.empty, fun i t h => by cases h⟩

theorem step (h : w.Steady) (step : Step) : (w.step step).2.Steady := by
  refine ⟨(h.takes step).coherent h.coherent, fun i t ht => ?_⟩
  by_cases hi : step.client? = some i
  · cases step with
    | load client now id request =>
        cases hi
        exact (revises_load h.coherent (fun p hp => (h.coherent.of_found? hp).2.1) ht).1
    | commit client =>
        cases hi
        rw [held_step_commit] at ht
        cases ht
    | create => cases hi
    | arm => cases hi
  · rw [held_step_of_ne hi] at ht
    exact h.held i t ht

theorem run (h : w.Steady) (steps : List Step) : (w.run steps).2.Steady := by
  induction steps generalizing w with
  | nil => exact h
  | cons step steps ih => exact ih (h.step step)

end Steady

end World

end Assortment.Service
