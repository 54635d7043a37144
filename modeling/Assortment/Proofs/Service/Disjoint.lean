import Assortment.Proofs.Records.Columns
import Assortment.Proofs.Service.Committed

/-!
# Commits that do not touch the same fields

Two clients that hold copies of one product can commit them in either order when the copies wrote different
fields. Whether a revision can be committed does not depend on the fields of the product that is there, and
merging both copies gives the same in either order, up to the time of the last change.
-/

namespace Assortment.Service
open Assortment.Goods Assortment.Records Assortment.Storage Assortment.Text Assortment.Time

/-! ## Revisions that can be committed -/

variable {t : Ticket} {db : Database} {p₀ q q' : Product} {now : Instant} {e : Event} {uid : Uuid}

/-- What a revision needs to be committed, which is nothing of the fields of the product. -/
structure Ready (db : Database) (id : ProductId) (uid : Uuid) : Prop where
  unarmed : db.armed = false
  found : (found? db.rows id).isSome = true
  fresh : db.rows[entryAddress uid]? = none

theorem armed_apply {plan : Plan} (h : db.armed = false) : (db.apply plan).2.armed = false := by
  by_cases hp : plan.mutations = []
  · rw [Database.apply_of_nil hp]
    exact h
  · cases hc : db.rows.changeAll plan.mutations with
    | ok copy =>
        rw [Database.apply_of_changeAll_ok hp h hc]
        exact h
    | error error =>
        rw [Database.apply_of_changeAll_error hp h hc]
        exact h

theorem committed?_eq_some (h : t.committed? db = some q) :
    t.plan.mutations ≠ [] ∧ (db.apply t.plan).1 = .ok () ∧ t.proposal.product = q := by
  unfold Ticket.committed? at h
  split at h
  · cases h
  · rename_i hplan
    split at h
    · rename_i hok
      cases h
      exact ⟨by simpa [Plan.isEmpty] using hplan, hok, rfl⟩
    · cases h

variable (ha : t.proposal.Advancing now (some p₀) e) (hplan : t.plan = t.proposal.plan [uid])
  (hc : Coherent db.rows)

include ha hplan hc in
theorem Ready.of_committed? (h : t.committed? db = some q) : Ready db q.id uid := by
  obtain ⟨hne, hok, rfl⟩ := committed?_eq_some h
  refine ⟨?_, ?_, ?_⟩
  · cases harmed : db.armed with
    | false => rfl
    | true =>
        rw [Database.apply_of_armed hne harmed] at hok
        cases hok
  all_goals
    rw [hplan] at hok
    rcases apply_advancing hc ha uid with ⟨error, herror, _⟩ | ⟨_, hsome, hlands⟩
    · rw [herror] at hok
      cases hok
  · exact hsome
  · exact hlands.fresh

include ha hplan hc in
theorem Ready.committed? (h : Ready db t.proposal.product.id uid) :
    t.committed? db = some t.proposal.product := by
  obtain ⟨m, hm, hlodges⟩ := ha.lodges
  have hmutations := Proposal.mutations_plan uid hm ha.pending
  obtain ⟨p, hp⟩ := Option.isSome_iff_exists.1 h.found
  obtain ⟨_, _, _, row, hrow, _⟩ := hc.of_found? hp
  cases hlodges with
  | merge hkind haddr hvalues _ =>
      have hchange := Rows.change_update hkind hvalues (haddr.symm ▸ hrow)
      have hfresh : (db.rows.insert m.address (row.setAll m.values))[entryAddress uid]? = none := by
        rw [Rows.getElem?_insert, haddr, if_neg (productAddress_ne_entryAddress _ uid)]
        exact h.fresh
      have hentry := Rows.change_insert (m := (OutboxEntry.ofEvent uid e).insertion) rfl hfresh
      have hcopy := Rows.changeAll_pair hchange hentry
      rw [← hmutations] at hcopy
      have hok : (db.apply t.plan).1 = .ok () := by
        rw [hplan, Database.apply_of_changeAll_ok (by simp [hmutations]) h.unarmed hcopy]
      rw [Ticket.committed?, if_neg (by simp [hplan, Plan.isEmpty, hmutations]), hok]

include ha hplan hc in
theorem Ready.lands (h : Ready db t.proposal.product.id uid) :
    Lands db.rows uid (t.proposal.product.onto (found? db.rows t.proposal.product.id)) e
      (db.apply t.plan).2.rows := by
  obtain ⟨_, hok, _⟩ := committed?_eq_some (h.committed? ha hplan hc)
  rw [hplan] at hok ⊢
  rcases apply_advancing hc ha uid with ⟨error, herror, _⟩ | ⟨_, _, hlands⟩
  · rw [herror] at hok
    cases hok
  · exact hlands

/-! ## Two revisions -/

variable {t' : Ticket} {p₀' : Product} {now' : Instant} {e' : Event} {uid' : Uuid}
  (ha' : t'.proposal.Advancing now' (some p₀') e') (hplan' : t'.plan = t'.proposal.plan [uid'])
  (hid : t.proposal.product.id = t'.proposal.product.id)

include ha hplan hc ha' hplan' hid in
/-- Revisions of one product that can be committed one after the other can be committed in the other order. -/
theorem Ready.swap (h : Ready db t.proposal.product.id uid)
    (h' : Ready (db.apply t.plan).2 t'.proposal.product.id uid') :
    Ready db t'.proposal.product.id uid' ∧ Ready (db.apply t'.plan).2 t.proposal.product.id uid := by
  have hlands := h.lands ha hplan hc
  have hentry := h'.fresh.symm.trans (hlands.getElem?_entry uid'.text)
  split at hentry
  · cases hentry
  rename_i hne
  have hready' : Ready db t'.proposal.product.id uid' := ⟨h.unarmed, hid ▸ h.found, hentry.symm⟩
  have hlands' := hready'.lands ha' hplan' hc
  have hfresh := hlands'.getElem?_entry uid.text
  rw [if_neg (Ne.symm hne)] at hfresh
  refine ⟨hready', armed_apply h.unarmed, ?_, hfresh.trans h.fresh⟩
  rw [hlands'.found?_onto hc, if_pos hid, Option.isSome_some]

include ha hplan hc ha' hplan' hid in
theorem Ready.found? {p : Product} (hc' : Coherent (db.apply t.plan).2.rows)
    (h : Ready db t.proposal.product.id uid)
    (h' : Ready (db.apply t.plan).2 t'.proposal.product.id uid')
    (hp : Service.found? db.rows t.proposal.product.id = some p) :
    Service.found? ((db.apply t.plan).2.apply t'.plan).2.rows t.proposal.product.id
      = some ((p.merge t.proposal.product).merge t'.proposal.product).committed := by
  have hfirst := (h.lands ha hplan hc).found?_onto hc t.proposal.product.id
  rw [if_pos rfl, hp] at hfirst
  rw [(h'.lands ha' hplan' hc').found?_onto hc', if_pos hid, hfirst]
  rfl

/-! ## Either order -/

theorem contains_basePrice {p : Product} (h : Advances now (some p) q e) (hd : p.dirty = ∅) :
    q.dirty.contains .basePrice = false := by
  cases h with
  | changed hq _ => simp [contains_dirty_of_perform hd hq, Change.contains_fields_basePrice]

/-- Whether a row has what a copy wrote. -/
def HasWritten (row : Row) (q : Product) : Prop :=
  ∀ f, q.dirty.contains f = true →
    ∃ values, fieldValues q f = .ok values ∧ ∀ v ∈ values, row[v.1]? = some v.2

/-- Whether the commits of two clients leave the same row in either order, up to the time of the last change,
and that row has what both wrote, when they hold copies of one product that wrote different fields. -/
def World.Commutes (w : World) (i j : Nat) : Prop :=
  ∀ q q', w.committed? (.commit i) = some q → (w.step (.commit i)).2.committed? (.commit j) = some q' →
    q.id = q'.id → (∀ f, q.dirty.contains f = true → q'.dirty.contains f = false) →
    w.committed? (.commit j) = some q' ∧ (w.step (.commit j)).2.committed? (.commit i) = some q
      ∧ ∃ row row', (w.run [.commit i, .commit j]).2.state.store.row? Layout.products q.id.text = some row
        ∧ (w.run [.commit j, .commit i]).2.state.store.row? Layout.products q.id.text = some row'
        ∧ (∀ column, column ≠ Layout.updatedAt → row[column]? = row'[column]?)
        ∧ HasWritten row q ∧ HasWritten row q'

namespace World

theorem store_step_commit {w : World} {i : Nat} {t : Ticket} (h : w.held i = some t) :
    (w.step (.commit i)).2.state.store = (w.state.store.apply t.plan).2 := by
  simp only [World.step, commit, h, State.commit, Backend.memory]
  cases (w.state.store.apply t.plan).1 <;> rfl

/-- A copy that a client commits is a revision that it holds. -/
theorem Steady.revision {w : World} {i : Nat} {q : Product} (hw : w.Steady)
    (h : w.committed? (.commit i) = some q) :
    ∃ t p₀ now e uid, w.held i = some t ∧ p₀.dirty = ∅ ∧ t.proposal.product = q
      ∧ t.proposal.Advancing now (some p₀) e ∧ t.plan = t.proposal.plan [uid] := by
  obtain ⟨t, ht, hcommitted⟩ := Option.bind_eq_some_iff.1 h
  obtain ⟨hne, _, hq⟩ := committed?_eq_some hcommitted
  cases hw.held i t ht with
  | silent _ hplan => exact absurd hplan hne
  | @advancing p₀ now e uid hp₀ ha hplan => exact ⟨t, p₀, now, e, uid, ht, hp₀, hq, ha, hplan⟩

theorem committed?_commit {w : World} {i : Nat} {t : Ticket} (h : w.held i = some t) :
    w.committed? (.commit i) = t.committed? w.state.store := by
  rw [committed?, ticket?, h]
  rfl

theorem Steady.commutes {w : World} (hw : w.Steady) (i j : Nat) : w.Commutes i j := by
  intro q q' hq hq' hid hdisjoint
  have hij : j ≠ i := by
    rintro rfl
    simp [committed?, ticket?, held_step_commit] at hq'
  obtain ⟨t, p₀, now, e, uid, ht, hp₀, rfl, ha, hplan⟩ := hw.revision hq
  obtain ⟨t', p₀', now', e', uid', ht', hp₀', rfl, ha', hplan'⟩ := (hw.step (.commit i)).revision hq'
  -- What the clients hold does not change when the other commits.
  have htj : w.held j = some t' := by
    rwa [held_step_of_ne (by simpa [Step.client?] using Ne.symm hij)] at ht'
  have hti : (w.step (.commit j)).2.held i = some t := by
    rwa [held_step_of_ne (by simpa [Step.client?] using hij)]
  have hc := hw.coherent
  have hc₁ := (hw.step (.commit i)).coherent
  have hc₂ := (hw.step (.commit j)).coherent
  rw [committed?_commit ht] at hq
  rw [committed?_commit ht'] at hq'
  rw [store_step_commit ht] at hq' hc₁
  rw [store_step_commit htj] at hc₂
  have hready := Ready.of_committed? ha hplan hc hq
  have hready' := Ready.of_committed? ha' hplan' hc₁ hq'
  obtain ⟨hfirst, hsecond⟩ := hready.swap ha hplan hc ha' hplan' hid hready'
  have hstore : (w.run [.commit i, .commit j]).2.state.store
      = ((w.state.store.apply t.plan).2.apply t'.plan).2 := by
    rw [← store_step_commit ht]
    exact store_step_commit ht'
  have hstore' : (w.run [.commit j, .commit i]).2.state.store
      = ((w.state.store.apply t'.plan).2.apply t.plan).2 := by
    rw [← store_step_commit htj]
    exact store_step_commit hti
  have hc₁₂ := (hw.run [.commit i, .commit j]).coherent
  have hc₂₁ := (hw.run [.commit j, .commit i]).coherent
  obtain ⟨p, hp⟩ := Option.isSome_iff_exists.1 hready.found
  have hfound := Ready.found? ha hplan hc ha' hplan' hid hc₁ hready hready' hp
  have hfound' := Ready.found? ha' hplan' hc ha hplan hid.symm hc₂ hfirst hsecond (hid ▸ hp)
  rw [← hstore] at hfound
  rw [← hstore', ← hid] at hfound'
  obtain ⟨_, _, _, row, hrow, hs⟩ := hc₁₂.of_found? hfound
  obtain ⟨_, _, _, row', hrow', hs'⟩ := hc₂₁.of_found? hfound'
  refine ⟨?_, ?_, row, row', hrow, hrow', fun column => ?_, fun f hf => ?_, fun f hf => ?_⟩
  · rw [committed?_commit htj]
    exact hfirst.committed? ha' hplan' hc
  · rw [committed?_commit hti, store_step_commit htj]
    exact hsecond.committed? ha hplan hc₂
  · exact (Stores.committed_iff.1 hs).getElem?_congr (Stores.committed_iff.1 hs')
      (Product.merge_merge_comm hdisjoint)
  · have hprice : f ≠ .basePrice := by
      rintro rfl
      simp [contains_basePrice ha.advances hp₀] at hf
    have hvalues := hs.fieldValues f
    rwa [fieldValues_committed, fieldValues_merge hprice, hdisjoint f hf, if_neg (by simp),
      fieldValues_merge hprice, if_pos hf] at hvalues
  · have hprice : f ≠ .basePrice := by
      rintro rfl
      simp [contains_basePrice ha'.advances hp₀'] at hf
    have hvalues := hs.fieldValues f
    rwa [fieldValues_committed, fieldValues_merge hprice, if_pos hf] at hvalues

end World

end Assortment.Service
