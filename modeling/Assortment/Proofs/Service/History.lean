import Assortment.Proofs.Goods.Lifecycle
import Assortment.Proofs.Service.Catalog
import Assortment.Proofs.Service.Landing

/-!
# Histories of products

The events that the service reports for a product, one command after the other, are its history. The stored
product is what the history tells, the outbox has one entry for each event of it, and every event was allowed
to come next.
-/

namespace Assortment.Service
open Assortment.Goods Assortment.Records Assortment.Storage Assortment.Text Assortment.Time

/-! ## Reported events -/

/-- The events of a product that the answer to a call reports. -/
def reportedOn (id : ProductId) : Call → Reply → List Event
  | .execute _ command, .receipt result => if command.product = id then eventsOf result else []
  | _, _ => []

/-- The history of a product: the events that the answers to commands on it report, in order. -/
def eventsOn (id : ProductId) (calls : List Call) (answers : List Reply) : List Event :=
  (List.zipWith (reportedOn id) calls answers).flatten

/-! ## Rows and histories -/

/-- What rows have to do with the history of every product. -/
structure Recounts (rows : Rows) (history : ProductId → List Event) : Prop where
  coherent : Coherent rows
  tells : ∀ id, Tells (history id) (found? rows id)
  lawful : ∀ id, Lawful (history id)
  files : ∃ filed, Files rows filed ∧ ∀ id, (filed.map Prod.snd).filter (·.product = id) = history id

namespace Recounts

variable {rows rows' : Rows} {history : ProductId → List Event} {now : Instant} {command : Command}
  {uid : Uuid} {result : Except Failure Receipt}

theorem empty : Recounts ∅ fun _ => [] where
  coherent := .empty
  tells id := by
    rw [found?_empty]
    rfl
  lawful _ := lawful_nil
  files := ⟨[], files_empty, fun _ => rfl⟩

theorem append_nil (h : Recounts rows history) : Recounts rows fun id => history id ++ [] := by
  simpa using h

theorem ends (h : Recounts rows history) (he : Ends now command uid rows result rows') :
    Recounts rows' fun id => history id ++ if command.product = id then eventsOf result else [] := by
  cases he with
  | quiet hnone => simpa only [hnone, ite_self] using h.append_nil
  | @advanced q e _ hid hadv hlands =>
      have htells := (h.tells command.product).append hadv
      have hlawful := (h.lawful command.product).append
        ((h.tells command.product).admits (h.lawful command.product) hadv)
      -- Both the history and the row of one product get longer or change; those of the others stay.
      refine ⟨hlands.coherent h.coherent, fun id => ?_, fun id => ?_, ?_⟩
      · rw [hlands.found?_eq, hid]
        by_cases hcommand : command.product = id
        · rw [if_pos hcommand, if_pos hcommand.symm]
          exact Tells.committed_iff.2 (hcommand ▸ htells)
        · rw [if_neg hcommand, if_neg (Ne.symm hcommand), List.append_nil]
          exact h.tells id
      · by_cases hcommand : command.product = id
        · rw [if_pos hcommand]
          exact hcommand ▸ hlawful
        · rw [if_neg hcommand, List.append_nil]
          exact h.lawful id
      · obtain ⟨filed, hfiles, hhistory⟩ := h.files
        refine ⟨_, hfiles.lands hlands, fun id => ?_⟩
        have hproduct : e.product = command.product := hadv.product_eq.trans hid
        rw [List.map_append, List.filter_append, hhistory]
        simp [eventsOf, List.filter_cons, hproduct]

theorem call {state : State Database} (h : Recounts state.store.rows history) (call : Call) :
    Recounts (state.call call).2.store.rows fun id =>
      history id ++ reportedOn id call (state.call call).1 := by
  cases call with
  | execute now command => exact h.ends (ends_executeAt h.coherent now command)
  | get _ | arm => exact h.append_nil

theorem replies {state : State Database} (h : Recounts state.store.rows history) (calls : List Call) :
    Recounts (Service.replies State.call state calls).2.store.rows fun id =>
      history id ++ eventsOn id calls (Service.replies State.call state calls).1 := by
  induction calls generalizing state history with
  | nil => exact h.append_nil
  | cons call calls ih =>
      have hrest := ih (h.call call)
      simpa only [Service.replies, eventsOn, List.zipWith_cons_cons, List.flatten_cons,
        List.append_assoc] using hrest

end Recounts

theorem recounts_replies (clock : Clock) (nth : Nat → Uuid) (calls : List Call) :
    Recounts (replies State.call (.start clock nth) calls).2.store.rows fun id =>
      eventsOn id calls (replies State.call (.start clock nth) calls).1 := by
  have hstart : Recounts (State.start clock nth).store.rows fun _ => [] := .empty
  simpa using hstart.replies calls

/-! ## Replay -/

/-- Whether a history is that of a product of the service: there is none when the product is not found, and
otherwise it tells what is found; and the entries of the outbox that are about the product are those of the
events. -/
structure Retells (state : State Database) (id : ProductId) (history : List Event) : Prop where
  missing : (state.get .memory id).1 = .error (.notFound id) ↔ history = []
  found : history ≠ [] → ∃ p, (state.get .memory id).1 = .ok p ∧ p.id = id ∧ p.dirty = ∅ ∧ p.pending = []
    ∧ Account.replay history = some (.ofProduct p)
  outbox : ∃ filed : List (Uuid × Event), filed.map Prod.snd = history ∧ (filed.map Prod.fst).Nodup
    ∧ ∀ key row, (state.store.row? Layout.outboxEvents key = some row
        ∧ row.text? Layout.aggregateId = some id.text)
      ↔ ∃ f ∈ filed, key = f.1.text ∧ row = (OutboxEntry.ofEvent f.1 f.2).row

theorem Files.filter {rows : Rows} {filed : List (Uuid × Event)} (h : Files rows filed) (id : ProductId)
    (key : String) (row : Row) :
    (rows[(⟨Layout.outboxEvents, key⟩ : Address)]? = some row
        ∧ row.text? Layout.aggregateId = some id.text)
      ↔ ∃ f ∈ filed.filter (·.2.product = id), key = f.1.text ∧ row = (OutboxEntry.ofEvent f.1 f.2).row := by
  have habout : ∀ f : Uuid × Event,
      (OutboxEntry.ofEvent f.1 f.2).row.text? Layout.aggregateId = some id.text ↔ f.2.product = id := by
    intro f
    rw [OutboxEntry.text?_row_aggregateId, Option.some_inj]
    exact ProductId.ext_iff.symm
  rw [h.entries]
  constructor
  · rintro ⟨⟨f, hf, hkey, rfl⟩, hid⟩
    exact ⟨f, List.mem_filter.2 ⟨hf, by simpa using (habout f).1 hid⟩, hkey, rfl⟩
  · rintro ⟨f, hf, hkey, rfl⟩
    obtain ⟨hf, hid⟩ := List.mem_filter.1 hf
    exact ⟨⟨f, hf, hkey, rfl⟩, (habout f).2 (by simpa using hid)⟩

theorem Recounts.retells {state : State Database} {history : ProductId → List Event}
    (h : Recounts state.store.rows history) (id : ProductId) : Retells state id (history id) := by
  have hget : (state.get .memory id).1 = _ := h.coherent.loadProduct_eq id
  have htells := h.tells id
  refine ⟨?_, fun hne => ?_, ?_⟩
  · cases hf : found? state.store.rows id with
    | none =>
        rw [hf] at hget htells
        exact iff_of_true hget htells
    | some p =>
        rw [hf] at hget htells
        exact iff_of_false (by simp [hget]) htells.ne_nil
  · cases hf : found? state.store.rows id with
    | none =>
        rw [hf] at htells
        exact absurd htells hne
    | some p =>
        rw [hf] at hget htells
        obtain ⟨hid, hd, hp, _⟩ := h.coherent.of_found? hf
        exact ⟨p, hget, hid, hd, hp, htells⟩
  · obtain ⟨filed, hfiles, hhistory⟩ := h.files
    refine ⟨filed.filter (·.2.product = id), ?_, ?_, hfiles.filter id⟩
    · rw [← hhistory, List.filter_map]
      rfl
    · exact hfiles.nodup.sublist (List.filter_sublist.map _)

/-- After any calls to a service that starts with an empty database, folding the events that it reported for
a product gives what is stored of the product, and the outbox has one entry for each of them. Identifiers
need not be fresh: a commit whose identifier is taken fails and reports nothing. -/
theorem history_retells (clock : Clock) (nth : Nat → Uuid) (calls : List Call) (id : ProductId) :
    Retells (replies State.call (.start clock nth) calls).2 id
      (eventsOn id calls (replies State.call (.start clock nth) calls).1) :=
  (recounts_replies clock nth calls).retells id

/-! ## Lifecycles -/

/-- Every history of a product is a lawful one. -/
theorem history_lawful (clock : Clock) (nth : Nat → Uuid) (calls : List Call) (id : ProductId) :
    Lawful (eventsOn id calls (replies State.call (.start clock nth) calls).1) :=
  (recounts_replies clock nth calls).lawful id

end Assortment.Service
