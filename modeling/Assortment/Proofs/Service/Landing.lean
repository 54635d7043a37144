import Assortment.Proofs.Service.Commits

/-!
# What a commit leaves

A commit that brings a product forward leaves one row of a product and one new entry of the outbox. When the
product has gone on since it was loaded, the row stores the product merged with the copy that was changed.
-/

namespace Assortment.Service
open Assortment.Goods Assortment.Records Assortment.Storage Assortment.Text Assortment.Time

variable {rows rows' : Rows} {uid : Uuid} {q : Product} {e : Event} {now : Instant}

/-! ## Products and entries that have landed -/

namespace Coherent

theorem empty : Coherent ∅ where
  product id row h := by simp at h
  entry key row h := by simp at h

theorem insert_product {p : Product} {row : Row} (h : Coherent rows) (hs : Stores row p) :
    Coherent (rows.insert (productAddress p.id) row) where
  product id row' h' := by
    rw [Rows.getElem?_insert] at h'
    split at h'
    · rename_i he
      cases h'
      exact ⟨p, ProductId.ext (Address.ext_iff.1 he).2, hs⟩
    · exact h.product id row' h'
  entry key row' h' := by
    rw [Rows.getElem?_insert, if_neg (productAddress_ne p.id key)] at h'
    exact h.entry key row' h'

theorem insert_entry (h : Coherent rows) (o : OutboxEntry) :
    Coherent (rows.insert (entryAddress o.eventId) o.row) where
  product id row' h' := by
    rw [Rows.getElem?_insert, if_neg (productAddress_ne_entryAddress id o.eventId).symm] at h'
    exact h.product id row' h'
  entry key row' h' := by
    rw [Rows.getElem?_insert] at h'
    split at h'
    · rename_i he
      cases h'
      exact ⟨o, (Address.ext_iff.1 he).2, rfl⟩
    · exact h.entry key row' h'

theorem onto_id (h : Coherent rows) (q : Product) : (q.onto (found? rows q.id)).id = q.id := by
  cases hf : found? rows q.id with
  | none => rfl
  | some p => exact (h.of_found? hf).1

end Coherent

/-- Whether rows have got the row of a product and a new entry that tells of an event, and are the same
otherwise. -/
inductive Lands (rows : Rows) (uid : Uuid) (q : Product) (e : Event) : Rows → Prop where
  | intro {row : Row} : rows[entryAddress uid]? = none → Stores row q →
      Lands rows uid q e (putBoth rows q.id row uid (OutboxEntry.ofEvent uid e).row)

namespace Lands

theorem coherent (h : Lands rows uid q e rows') (hc : Coherent rows) : Coherent rows' := by
  cases h with
  | intro _ hs => exact (hc.insert_product hs).insert_entry (.ofEvent uid e)

theorem found?_eq (h : Lands rows uid q e rows') (id : ProductId) :
    found? rows' id = if id = q.id then some q.committed else found? rows id := by
  cases h with
  | @intro row _ hs =>
      have hrow := getElem?_putBoth_product rows q.id id row uid (OutboxEntry.ofEvent uid e).row
      split
      · rename_i hid
        rw [if_pos hid] at hrow
        exact found?_of_stores hrow hs
      · rename_i hid
        rw [if_neg hid] at hrow
        rw [found?, hrow]
        rfl

theorem fresh (h : Lands rows uid q e rows') : rows[entryAddress uid]? = none := by
  cases h with
  | intro hfresh _ => exact hfresh

theorem getElem?_entry (h : Lands rows uid q e rows') (key : String) :
    rows'[(⟨Layout.outboxEvents, key⟩ : Address)]?
      = if key = uid.text then some (OutboxEntry.ofEvent uid e).row
        else rows[(⟨Layout.outboxEvents, key⟩ : Address)]? := by
  cases h with
  | intro _ _ => exact getElem?_putBoth_entry ..

/-- What is left to store or announce of the product does not matter. -/
theorem of_committed_eq {q' : Product} (h : Lands rows uid q e rows') (he : q.committed = q'.committed) :
    Lands rows uid q' e rows' := by
  cases h with
  | intro hfresh hs =>
      have hid : q.id = q'.id := (congrArg Product.id he :)
      rw [hid]
      exact .intro hfresh (by rwa [← Stores.committed_iff, ← he])

end Lands

/-! ## Commits of proposals -/

variable {before : Option Product} {proposal : Proposal} {m : Mutation}

theorem Proposal.mutations_plan (uid : Uuid) (hm : proposal.mutation = some m) (hp : proposal.product.pending = [e]) :
    (proposal.plan [uid]).mutations = [m, (OutboxEntry.ofEvent uid e).insertion] := by
  simp [Proposal.plan, hm, hp]

theorem Proposal.Lodges.change_eq_ok (h : Proposal.Lodges q m before) (hc : Coherent rows)
    (hm : rows.change m = .ok rows') :
    (found? rows q.id).isSome = before.isSome
      ∧ ∃ row, Stores row (q.onto (found? rows q.id)) ∧ (q.onto (found? rows q.id)).id = q.id
        ∧ rows' = rows.insert (productAddress q.id) row := by
  cases h with
  | insert hkind haddr hstores =>
      obtain ⟨hnone, rfl⟩ := Rows.change_insert_eq_ok hkind hm
      rw [found?_of_none (haddr ▸ hnone), haddr]
      exact ⟨rfl, m.row, hstores, rfl, rfl⟩
  | merge hkind haddr _ hmerge =>
      obtain ⟨row, hrow, rfl⟩ := Rows.change_update_eq_ok hkind hm
      rw [haddr] at hrow ⊢
      obtain ⟨p, hid, hs⟩ := hc.product _ row hrow
      rw [found?_of_stores hrow hs]
      exact ⟨rfl, _, hmerge p.committed row hid (Stores.committed_iff.2 hs), hid, rfl⟩

/-- The commit of what brings a product forward either fails and leaves the rows, or leaves the product that
the rows have by then, merged with what was changed. A new product needs its place to be free, and any other
needs to be there. -/
theorem apply_advancing {db : Database} (hc : Coherent db.rows) (ha : proposal.Advancing now before e)
    (uid : Uuid) :
    (∃ error, (db.apply (proposal.plan [uid])).1 = .error error
        ∧ (db.apply (proposal.plan [uid])).2.rows = db.rows)
      ∨ ((db.apply (proposal.plan [uid])).1 = .ok ()
        ∧ (found? db.rows proposal.product.id).isSome = before.isSome
        ∧ Lands db.rows uid (proposal.product.onto (found? db.rows proposal.product.id)) e
          (db.apply (proposal.plan [uid])).2.rows) := by
  obtain ⟨m, hm, hlodges⟩ := ha.lodges
  have hplan := Proposal.mutations_plan uid hm ha.pending
  have hne : (proposal.plan [uid]).mutations ≠ [] := by simp [hplan]
  refine (Database.apply_cases hne).imp_right fun ⟨hok, hrows⟩ => ⟨hok, ?_⟩
  rw [hplan] at hrows
  obtain ⟨changed, hchange, hrows⟩ := Rows.changeAll_cons_eq_ok hrows
  obtain ⟨_, hentry, hrows⟩ := Rows.changeAll_cons_eq_ok hrows
  cases hrows
  obtain ⟨hsome, row, hs, hid, rfl⟩ := hlodges.change_eq_ok hc hchange
  obtain ⟨hfree, hrows⟩ := Rows.change_insert_eq_ok rfl hentry
  have haddr : (OutboxEntry.ofEvent uid e).insertion.address = entryAddress uid := rfl
  rw [haddr, Rows.getElem?_insert, if_neg (productAddress_ne_entryAddress _ uid)] at hfree
  have hlands := Lands.intro (e := e) hfree hs
  rw [hid] at hlands
  exact ⟨hsome, hrows ▸ hlands⟩

/-! ## Commands -/

/-- The events that an answer to a command reports. -/
def eventsOf : Except Failure Receipt → List Event
  | .ok receipt => receipt.events
  | .error _ => []

/-- The ways in which a command can end: it reports no event and leaves the rows, or it takes its product a
step on. -/
inductive Ends (now : Instant) (command : Command) (uid : Uuid) (rows : Rows) :
    Except Failure Receipt → Rows → Prop where
  | quiet {result : Except Failure Receipt} : eventsOf result = [] → Ends now command uid rows result rows
  | advanced {q : Product} {e : Event} {rows' : Rows} : q.id = command.product →
      Advances now (found? rows command.product) q e → Lands rows uid q e rows' →
      Ends now command uid rows (.ok ⟨q.committed, [e]⟩) rows'

theorem ends_settle {state : State Database} {command : Command} (hc : Coherent state.store.rows)
    (hid : proposal.product.id = command.product)
    (ha : proposal.Advancing now (command.loaded state.store.rows) e) :
    Ends now command state.eventIds.head state.store.rows (State.settle .memory proposal state).1.result
      (State.settle .memory proposal state).2.store.rows := by
  have hplan : handedOver proposal state = proposal.plan [state.eventIds.head] := by
    simp [handedOver, ha.pending, Supply.next, Supply.head]
  rw [settle_outcome, settle_store, hplan]
  rcases apply_advancing hc ha state.eventIds.head with ⟨error, he, hrows⟩ | ⟨hok, hsome, hlands⟩
  · rw [he, hrows]
    exact .quiet rfl
  · rw [hid] at hsome hlands
    -- A new product found its place free, so what was loaded is what is there in both cases.
    have hloaded : command.loaded state.store.rows = found? state.store.rows command.product := by
      cases command with
      | create => exact (Option.isSome_eq_false_iff.1 hsome |> Option.isNone_iff_eq_none.1).symm
      | alter id request => rfl
    rw [hok, Proposal.receipt, ha.pending]
    have hadv := hloaded ▸ ha.advances
    refine .advanced hid hadv (hlands.of_committed_eq ?_)
    cases hf : found? state.store.rows command.product with
    | none => rfl
    | some p => exact Product.committed_merge (hf ▸ hadv).accounted

/-- Over coherent rows a command reports an event exactly when it takes its product a step on. -/
theorem ends_executeAt {state : State Database} (hc : Coherent state.store.rows) (now : Instant)
    (command : Command) :
    Ends now command state.eventIds.head state.store.rows
      (State.executeAt .memory now command state).1.result
      (State.executeAt .memory now command state).2.store.rows := by
  obtain ⟨result, hr, hu⟩ := propose_undertakes hc now command
  unfold State.executeAt
  rw [hr]
  cases result with
  | error f => exact .quiet rfl
  | ok proposal =>
      dsimp only
      obtain ⟨hid, ⟨hsilent, _⟩ | ⟨e, ha⟩⟩ := hu
      · rw [settle_outcome, settle_store, Database.apply_of_nil (handedOver_silent hsilent),
          Proposal.receipt, hsilent.pending]
        exact .quiet rfl
      · exact ends_settle hc hid ha

theorem Ends.coherent {command : Command} {result : Except Failure Receipt}
    (h : Ends now command uid rows result rows') (hc : Coherent rows) : Coherent rows' := by
  cases h with
  | quiet _ => exact hc
  | advanced _ _ hlands => exact hlands.coherent hc

/-- What every step in the life of a product keeps holds of every product that is found after a command. -/
theorem Ends.forall_found? {P : Product → Prop} {command : Command} {result : Except Failure Receipt}
    (h : Ends now command uid rows result rows') (hclean : ∀ q, P q → P q.committed)
    (hstep : ∀ before q e, Advances now before q e → (∀ p, before = some p → P p) → P q)
    (hrows : ∀ id p, found? rows id = some p → P p) : ∀ id p, found? rows' id = some p → P p := by
  cases h with
  | quiet _ => exact hrows
  | @advanced q e _ _ hadv hlands =>
      intro id p hp
      rw [hlands.found?_eq] at hp
      split at hp
      · cases hp
        exact hclean q (hstep _ q e hadv (hrows command.product))
      · exact hrows id p hp

/-! ## Filing -/

/-- Whether the outbox holds one entry for each of the given events under its own identifier, pending, and
no other entry. -/
structure Files (rows : Rows) (filed : List (Uuid × Event)) : Prop where
  nodup : (filed.map Prod.fst).Nodup
  entries : ∀ key row, rows[(⟨Layout.outboxEvents, key⟩ : Address)]? = some row
    ↔ ∃ f ∈ filed, key = f.1.text ∧ row = (OutboxEntry.ofEvent f.1 f.2).row

theorem files_empty : Files ∅ [] :=
  ⟨.nil, by simp⟩

theorem Files.lands {filed : List (Uuid × Event)} (h : Files rows filed) (hl : Lands rows uid q e rows') :
    Files rows' (filed ++ [(uid, e)]) where
  nodup := by
    have hnew : uid ∉ filed.map Prod.fst := by
      intro hmem
      obtain ⟨f, hf, rfl⟩ := List.mem_map.1 hmem
      have hentry := (h.entries f.1.text _).2 ⟨f, hf, rfl, rfl⟩
      exact absurd (hl.fresh.symm.trans hentry) (by simp)
    rw [List.map_append, List.map_singleton]
    refine List.nodup_append.2 ⟨h.nodup, by simp, fun uid' huid' b hb => ?_⟩
    cases List.mem_singleton.1 hb
    rintro rfl
    exact hnew huid'
  entries key row := by
    rw [hl.getElem?_entry]
    split
    · rename_i hkey
      subst hkey
      constructor
      · intro he
        exact ⟨(uid, e), by simp, rfl, (Option.some.inj he).symm⟩
      · rintro ⟨f, hf, hkey, rfl⟩
        rcases List.mem_append.1 hf with hf | hf
        · have hentry := (h.entries f.1.text _).2 ⟨f, hf, rfl, rfl⟩
          rw [← hkey] at hentry
          exact absurd (hl.fresh.symm.trans hentry) (by simp)
        · cases List.mem_singleton.1 hf
          rfl
    · rename_i hkey
      rw [h.entries]
      constructor
      · rintro ⟨f, hf, hf'⟩
        exact ⟨f, List.mem_append_left _ hf, hf'⟩
      · rintro ⟨f, hf, rfl, hrow⟩
        rcases List.mem_append.1 hf with hf | hf
        · exact ⟨f, hf, rfl, hrow⟩
        · cases List.mem_singleton.1 hf
          exact absurd rfl hkey

end Assortment.Service
