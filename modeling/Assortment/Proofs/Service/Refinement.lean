import Assortment.Proofs.Service.Answers
import Assortment.Proofs.Text.Uuid

/-!
# The service refines the catalog

The service over the database in memory gives the answers of the catalog, whatever it is asked in whatever
order. Each row of a product stores the entry of the catalog, and the outbox holds only entries under
identifiers that were drawn before.
-/

namespace Assortment.Service
open Assortment.Goods Assortment.Records Assortment.Storage Assortment.Text Assortment.Time

variable {state : State Database} {catalog : Catalog}

/-! ## Steps -/

/-- Whether the first so many identifiers of a supply are different. -/
def Supply.Distinct (s : Supply) : Prop :=
  ∀ i < s.drawn, ∀ j < s.drawn, s.nth i = s.nth j → i = j

/-- Whether a supply is another one of which more may have been drawn. -/
def Supply.Extends (s' s : Supply) : Prop := s'.nth = s.nth ∧ s.drawn ≤ s'.drawn

theorem Supply.Distinct.of_extends {s s' : Supply} (h : s'.Distinct) (he : s'.Extends s) : s.Distinct := by
  intro i hi j hj hij
  exact h i (Nat.lt_of_lt_of_le hi he.2) j (Nat.lt_of_lt_of_le hj he.2) (by rw [he.1]; exact hij)

theorem Supply.extends_skip (s : Supply) (n : Nat) : (s.skip n).Extends s :=
  ⟨rfl, Nat.le_add_right ..⟩

theorem executeAt_eq (now : Instant) (command : Command) (state : State Database) :
    State.executeAt .memory now command state =
      match (propose .memory now command state.store).1 with
      | .error failure => (⟨.error failure, none⟩, state)
      | .ok proposal => State.settle .memory proposal state := by
  have hs := propose_snd state.store now command
  unfold State.executeAt
  cases hp : propose .memory now command state.store with
  | mk result store =>
      rw [hp] at hs
      cases hs
      cases result <;> rfl

namespace Represents

theorem fresh (h : Represents state catalog)
    (hd : (state.eventIds.skip 1).Distinct) : state.store.rows[entryAddress state.eventIds.head]? = none := by
  cases hr : state.store.rows[entryAddress state.eventIds.head]? with
  | none => rfl
  | some row =>
      obtain ⟨n, hn, he⟩ := h.drawn _ (by rw [hr]; simp)
      have hlast := hd n (Nat.lt_succ_of_lt hn) state.eventIds.drawn (Nat.lt_succ_self _) he
      omega

theorem isSome (h : Represents state catalog) (id : ProductId) :
    state.store.rows[productAddress id]?.isSome = (catalog.entries id).isSome := by
  cases he : catalog.entries id with
  | none => rw [h.absent id he]; rfl
  | some e =>
      obtain ⟨row, hrow, _⟩ := h.present id e he
      rw [hrow]
      rfl

theorem of_rows {state' : State Database} {catalog' : Catalog} (h : Represents state catalog)
    (hrows : state'.store.rows = state.store.rows) (hentries : catalog'.entries = catalog.entries)
    (hids : state'.eventIds.Extends state.eventIds) (harmed : state'.store.armed = catalog'.armed) :
    Represents state' catalog' where
  armed := harmed
  absent id he := by
    rw [hrows]
    exact h.absent id (hentries ▸ he)
  present id e he := by
    rw [hrows]
    exact h.present id e (hentries ▸ he)
  drawn id hne := by
    rw [hrows] at hne
    obtain ⟨n, hn, he⟩ := h.drawn id hne
    exact ⟨n, Nat.lt_of_lt_of_le hn hids.2, by rw [hids.1, he]⟩

theorem settle_of_rows {catalog' : Catalog} {p : Proposal} {result : Except StorageError Unit}
    {db : Database} (h : Represents state catalog)
    (happly : state.store.apply (handedOver p state) = (result, db)) (hrows : db.rows = state.store.rows)
    (hentries : catalog'.entries = catalog.entries) (harmed : db.armed = catalog'.armed) :
    Represents (State.settle .memory p state).2 catalog' := by
  refine h.of_rows ?_ hentries ?_ ?_
  · rw [settle_store, happly]
    exact hrows
  · rw [settle_eventIds]
    exact state.eventIds.extends_skip _
  · rw [settle_store, happly]
    exact harmed

theorem putBoth {state' : State Database} {id : ProductId} {e : Entry} {row entry : Row}
    (h : Represents state catalog) (hs : Stores row (e.product id))
    (hrows : state'.store.rows
      = Service.putBoth state.store.rows id row state.eventIds.head entry)
    (hids : state'.eventIds = state.eventIds.skip 1) (harmed : state'.store.armed = catalog.armed) :
    Represents state' (catalog.set id e) where
  armed := harmed
  absent id' he := by
    rw [hrows, getElem?_putBoth_product]
    simp only [Catalog.set] at he
    split
    · rename_i hid
      rw [if_pos hid] at he
      cases he
    · rename_i hid
      rw [if_neg hid] at he
      exact h.absent id' he
  present id' e' he := by
    rw [hrows, getElem?_putBoth_product]
    simp only [Catalog.set] at he
    split
    · rename_i hid
      rw [if_pos hid] at he
      cases he
      cases hid
      exact ⟨row, rfl, hs⟩
    · rename_i hid
      rw [if_neg hid] at he
      exact h.present id' e' he
  drawn id' hne := by
    rw [hids]
    rw [hrows, entryAddress, getElem?_putBoth_entry] at hne
    split at hne
    · rename_i ht
      -- The one new entry has the identifier that was just drawn: texts of others differ from its text.
      exact ⟨state.eventIds.drawn, Nat.lt_succ_self _, (Uuid.eq_of_text_eq ht).symm⟩
    · obtain ⟨n, hn, he⟩ := h.drawn id' hne
      exact ⟨n, Nat.lt_succ_of_lt hn, he⟩

theorem settle_writes {p : Proposal} {now : Instant} {command : Command} {m : Mutation} {row : Row}
    {e : Entry} {what : Occurrence} (h : Represents state catalog)
    (ha : catalog.answer now command = .ok (e, some what))
    (hw : p.Writes state.store.rows now command.isCreation m row what)
    (he : p.product.committed = e.product command.product)
    (hd : (State.settle .memory p state).2.eventIds.Distinct) :
    (State.settle .memory p state).1.result = (catalog.execute now command).1
      ∧ Represents (State.settle .memory p state).2 (catalog.execute now command).2 := by
  have hid : p.product.id = command.product := congrArg Product.id he
  have hids : (State.settle .memory p state).2.eventIds = state.eventIds.skip 1 := by
    rw [settle_eventIds, hw.pending]
    rfl
  have happly := apply_handedOver hw (h.fresh (hids ▸ hd))
  rw [h.armed, hid, h.isSome] at happly
  simp only [Catalog.execute, ha]
  split
  · rename_i harmed
    rw [if_pos harmed] at happly
    exact ⟨by rw [settle_outcome, happly], h.settle_of_rows happly rfl rfl rfl⟩
  · rename_i harmed
    rw [if_neg harmed] at happly
    split
    · rename_i htaken
      rw [if_pos htaken] at happly
      exact ⟨by rw [settle_outcome, happly], h.settle_of_rows happly rfl rfl h.armed⟩
    · rename_i htaken
      rw [if_neg htaken] at happly
      refine ⟨by rw [settle_outcome, happly, Proposal.receipt, hw.pending, he, hid], ?_⟩
      have hrows := congrArg (fun out => out.2.rows) happly
      exact h.putBoth (he ▸ Stores.committed_iff.2 hw.stores) (by rw [settle_store]; exact hrows) hids
        (by rw [settle_store, happly]; exact h.armed)

/-- A command is answered as the catalog answers it, and leaves what the catalog becomes. -/
theorem executeAt (h : Represents state catalog) (now : Instant) (command : Command)
    (hd : (State.executeAt .memory now command state).2.eventIds.Distinct) :
    (State.executeAt .memory now command state).1.result = (catalog.execute now command).1
      ∧ Represents (State.executeAt .memory now command state).2 (catalog.execute now command).2 := by
  have hf := foretells_answer h now command
  rw [executeAt_eq] at hd ⊢
  cases ha : catalog.answer now command with
  | error f =>
      rw [ha] at hf
      rw [show (propose .memory now command state.store).1 = .error f from hf, Catalog.execute, ha]
      exact ⟨rfl, h⟩
  | ok found =>
      obtain ⟨e, what⟩ := found
      rw [ha] at hf
      cases what with
      | none =>
          obtain ⟨p, hp, hsilent, he⟩ := hf
          have hplan : (handedOver p state).mutations = [] := handedOver_silent hsilent
          have happly : state.store.apply (handedOver p state) = _ := Database.apply_of_nil hplan
          rw [hp, Catalog.execute, ha]
          refine ⟨?_, h.settle_of_rows happly rfl rfl h.armed⟩
          rw [settle_outcome, happly, Proposal.receipt, hsilent.pending, he]
      | some what =>
          obtain ⟨p, m, row, hp, hw, he⟩ := hf
          rw [hp] at hd ⊢
          exact h.settle_writes ha hw he hd

theorem get (h : Represents state catalog) (id : ProductId) :
    (State.get .memory id state).1 = catalog.get id := by
  change loadProduct state.store id = catalog.get id
  unfold Catalog.get
  cases he : catalog.entries id with
  | none => exact loadProduct_of_none (h.absent id he)
  | some e =>
      obtain ⟨row, hrow, hs⟩ := h.present id e he
      exact loadProduct_of_stores hrow hs

theorem call (h : Represents state catalog) (call : Call) (hd : (state.call call).2.eventIds.Distinct) :
    (state.call call).1 = (catalog.call call).1
      ∧ Represents (state.call call).2 (catalog.call call).2 := by
  cases call with
  | execute now command =>
      obtain ⟨hr, h'⟩ := h.executeAt now command hd
      exact ⟨congrArg Reply.receipt hr, h'⟩
  | get id => exact ⟨congrArg Reply.product (h.get id), h⟩
  | arm => exact ⟨rfl, h.of_rows rfl rfl ⟨rfl, Nat.le_refl _⟩ rfl⟩

end Represents

/-! ## Runs -/

theorem extends_call (state : State Database) (call : Call) :
    (state.call call).2.eventIds.Extends state.eventIds := by
  cases call with
  | execute now command =>
      rw [State.call, executeAt_eq]
      cases (propose .memory now command state.store).1 with
      | error f => exact ⟨rfl, Nat.le_refl _⟩
      | ok p =>
          dsimp only
          rw [settle_eventIds]
          exact state.eventIds.extends_skip _
  | get id => exact ⟨rfl, Nat.le_refl _⟩
  | arm => exact ⟨rfl, Nat.le_refl _⟩

theorem extends_replies (state : State Database) (calls : List Call) :
    (replies State.call state calls).2.eventIds.Extends state.eventIds := by
  induction calls generalizing state with
  | nil => exact ⟨rfl, Nat.le_refl _⟩
  | cons call calls ih =>
      obtain ⟨hnth, hdrawn⟩ := ih (state.call call).2
      obtain ⟨hnth', hdrawn'⟩ := extends_call state call
      exact ⟨hnth.trans hnth', Nat.le_trans hdrawn' hdrawn⟩

theorem Represents.replies (h : Represents state catalog) (calls : List Call)
    (hd : (replies State.call state calls).2.eventIds.Distinct) :
    (Service.replies State.call state calls).1 = (Service.replies Catalog.call catalog calls).1
      ∧ Represents (Service.replies State.call state calls).2
        (Service.replies Catalog.call catalog calls).2 := by
  induction calls generalizing state catalog with
  | nil => exact ⟨rfl, h⟩
  | cons call calls ih =>
      -- What the first call drew is still among the identifiers at the end.
      obtain ⟨hr, h'⟩ := h.call call (hd.of_extends (extends_replies _ calls))
      obtain ⟨hrs, h''⟩ := ih h' hd
      refine ⟨?_, h''⟩
      simp only [Service.replies, hr, hrs]

theorem represents_start (clock : Clock) (nth : Nat → Uuid) :
    Represents (.start clock nth) .empty where
  armed := rfl
  absent id _ := Std.ExtTreeMap.getElem?_empty
  present id e he := by cases he
  drawn id hne := absurd Std.ExtTreeMap.getElem?_empty hne

/-- A service that starts with an empty database answers every run of calls as the catalog does, and so
does every look-up after it, as long as no identifier is drawn twice for an event. -/
theorem service_refines_catalog (clock : Clock) (nth : Nat → Uuid) (calls : List Call)
    (hd : (replies State.call (.start clock nth) calls).2.eventIds.Distinct) :
    (replies State.call (.start clock nth) calls).1 = (replies Catalog.call .empty calls).1
      ∧ ∀ id, ((replies State.call (.start clock nth) calls).2.get .memory id).1
        = (replies Catalog.call .empty calls).2.get id := by
  obtain ⟨hr, h⟩ := (represents_start clock nth).replies calls hd
  exact ⟨hr, h.get⟩

instance (s : Supply) : Decidable s.Distinct :=
  inferInstanceAs (Decidable (∀ i < s.drawn, ∀ j < s.drawn, s.nth i = s.nth j → i = j))

/-- A supply that counts. -/
def numbered (n : Nat) : Uuid := ⟨BitVec.ofNat 128 n⟩

/-- A lamp is created and put on sale, at the second try. -/
def lampCalls : List Call := [
  .execute .epoch (.create ⟨"lamp"⟩ "Lamp" "" "Light" ⟨10⟩),
  .arm,
  .execute .epoch (.alter ⟨"lamp"⟩ .activate),
  .execute .epoch (.alter ⟨"lamp"⟩ .activate),
  .get ⟨"lamp"⟩]

theorem service_refines_catalog_lamp :
    (replies State.call (.start ⟨.epoch⟩ numbered) lampCalls).2.eventIds.Distinct
    ∧ (replies State.call (.start ⟨.epoch⟩ numbered) lampCalls).1 = (replies Catalog.call .empty lampCalls).1
    ∧ ∀ id, ((replies State.call (.start ⟨.epoch⟩ numbered) lampCalls).2.get .memory id).1
        = (replies Catalog.call .empty lampCalls).2.get id := by
  have hd : (replies State.call (.start ⟨.epoch⟩ numbered) lampCalls).2.eventIds.Distinct := by
    decide +kernel
  exact ⟨hd, service_refines_catalog ⟨.epoch⟩ numbered lampCalls hd⟩

end Assortment.Service
