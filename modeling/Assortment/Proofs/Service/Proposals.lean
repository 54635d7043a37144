import Assortment.Proofs.Records.Merge
import Assortment.Proofs.Storage.Publish
import Assortment.Service.Proposal

/-!
# What proposals write

A proposal either has nothing to write and nothing to announce, or it writes the one row that stores its
product and announces one event. Which of them it is depends on whether the change writes a field.
-/

namespace Assortment.Service
open Assortment.Goods Assortment.Records Assortment.Storage Assortment.Text Assortment.Time

namespace Proposal

/-- A proposal with nothing to write and nothing to announce. -/
structure Silent (p : Proposal) : Prop where
  mutation : p.mutation = none
  pending : p.product.pending = []

/-- A proposal that writes the row of its product and announces what happened at a time. Only the row of a
new product can find its place taken. -/
structure Writes (rows : Rows) (now : Instant) (isNew : Bool) (m : Mutation) (row : Row)
    (what : Occurrence) (p : Proposal) : Prop where
  mutation : p.mutation = some m
  pending : p.product.pending = [⟨p.product.id, now, what⟩]
  updatedAt : p.product.updatedAt = now
  stores : Stores row p.product
  change : rows.change m =
    if isNew && rows[productAddress p.product.id]?.isSome
    then .error (.keyTaken Layout.products p.product.id.text)
    else .ok (rows.insert (productAddress p.product.id) row)

/-- How a mutation stores a product. A new one gets a row of its own, and a changed one is merged into the
row of the product, whatever that row is by then. -/
inductive Lodges (q : Product) (m : Mutation) : Option Product → Prop where
  | insert : m.kind = .insert → m.address = productAddress q.id → Stores m.row q → Lodges q m none
  | merge {p : Product} : m.kind = .update → m.address = productAddress q.id → m.values ≠ [] →
      (∀ current row, current.id = q.id → Stores row current →
        Stores (row.setAll m.values) (current.merge q)) →
      Lodges q m (some p)

/-- A proposal that brings a product forward from what it was before, if it is not a new one. -/
structure Advancing (now : Instant) (before : Option Product) (e : Event) (p : Proposal) : Prop where
  advances : Advances now before p.product e
  pending : p.product.pending = [e]
  lodges : ∃ m, p.mutation = some m ∧ Lodges p.product m before

variable {rows : Rows} {now : Instant} {e : Event} {proposal : Proposal}

/-! ## Over given rows -/

namespace Advancing

theorem event_eq {before : Option Product} (h : proposal.Advancing now before e) :
    e = ⟨proposal.product.id, now, e.what⟩ :=
  Event.ext h.advances.product_eq h.advances.time_eq rfl

theorem writes_new (h : proposal.Advancing now none e) (rows : Rows) :
    ∃ m row, proposal.Writes rows now true m row e.what := by
  obtain ⟨m, hm, hkind, haddr, hstores⟩ := h.lodges
  refine ⟨m, m.row, hm, h.pending.trans (by rw [← h.event_eq]), h.advances.updatedAt_eq, hstores, ?_⟩
  cases hr : rows[productAddress proposal.product.id]? with
  | none =>
      rw [Rows.change_insert hkind (by rw [haddr]; exact hr), haddr]
      simp [productAddress]
  | some old =>
      rw [Rows.change_insert_taken hkind (by rw [haddr]; exact hr)]
      have ht : m.table = Layout.products ∧ m.key.written = proposal.product.id.text :=
        Address.ext_iff.1 haddr
      simp [ht]

theorem writes_changed {p : Product} {row : Row} (h : proposal.Advancing now (some p) e)
    (hrow : rows[productAddress p.id]? = some row) (hs : Stores row p) :
    ∃ m row', proposal.Writes rows now false m row' e.what := by
  obtain ⟨m, hm, hlodges⟩ := h.lodges
  cases hlodges with
  | merge hkind haddr hvalues hstores =>
      have ha : Accounted p proposal.product := h.advances.accounted
      have hstores : Stores (row.setAll m.values) proposal.product := by
        have hmerged := hstores p row ha.id.symm hs
        rwa [← Stores.committed_iff, Product.committed_merge ha] at hmerged
      have hchange : rows.change m = .ok (rows.insert m.address (row.setAll m.values)) :=
        Rows.change_update hkind hvalues (by rw [haddr, ha.id]; exact hrow)
      refine ⟨m, _, hm, h.pending.trans (by rw [← h.event_eq]), h.advances.updatedAt_eq, hstores, ?_⟩
      rw [hchange, haddr]
      simp

end Advancing

/-! ## New products -/

theorem create_advances {id : ProductId} {name description category : String} {price : Money} {p : Product}
    (h : Product.create id name description category price now = .ok p) :
    ∃ proposal, create id name description category price now = .ok proposal ∧ proposal.product = p
      ∧ proposal.Advancing now none
        ⟨id, now, .created (trim name) (trim description) (trim category) price⟩ := by
  obtain ⟨_, _, _, _, hs, hp⟩ := Product.create_eq_ok h
  obtain ⟨row, hrow⟩ := Stores.exists_of_storable (p := p) (by rw [hp]; exact hs)
  obtain ⟨m, hm, hkind, haddr, rfl⟩ := hrow.insertion_eq
  have hpending : p.pending = _ := congrArg Product.pending hp
  refine ⟨⟨"create_product", p, some m⟩, ?_, rfl, .created h, hpending, m, rfl, .insert hkind haddr hrow⟩
  simp [create, h, hm, bind, Except.bind, pure, Except.pure]

theorem create_writes {id : ProductId} {name description category : String} {price : Money} {p : Product}
    (rows : Rows) (h : Product.create id name description category price now = .ok p) :
    ∃ proposal m row, create id name description category price now = .ok proposal
      ∧ proposal.product = p
      ∧ proposal.Writes rows now true m row
        (.created (trim name) (trim description) (trim category) price) := by
  obtain ⟨proposal, hprop, hp, ha⟩ := create_advances h
  obtain ⟨m, row, hw⟩ := ha.writes_new rows
  exact ⟨proposal, m, row, hprop, hp, hw⟩

/-! ## Changes of a product -/

variable {request : Request} {c : Change} {p q : Product} {r : Refusal}

theorem alter_refused_input (h : request.change = .error r) (p : Product) (now : Instant) :
    alter request p now = .error r := by
  simp [alter, h, bind, Except.bind]

theorem alter_refused (h : request.change = .ok c) (hq : p.perform c now = .error r) :
    alter request p now = .error r := by
  simp [alter, h, hq, bind, Except.bind]

theorem alter_archive (hq : p.perform .archive now = .ok q) :
    alter .archive p now = .ok ⟨Request.archive.name, q, some (archival q)⟩ := by
  simp [alter, Request.change, hq, bind, Except.bind, pure, Except.pure]

theorem alter_revision {change : Option Mutation} (h : request.change = .ok c) (hne : c ≠ .archive)
    (hq : p.perform c now = .ok q) (hr : revision q = .ok change) :
    alter request p now = .ok ⟨request.name, q, change⟩ := by
  cases request with
  | archive =>
      cases h
      exact absurd rfl hne
  | _ => simp [alter, h, hq, hr, bind, Except.bind, pure, Except.pure]

theorem change_eq_archive (h : request.change = .ok .archive) : request = .archive := by
  cases request with
  | archive => rfl
  | grantDiscount percentage start finish =>
      rw [Request.change] at h
      cases hd : Discount.make percentage start finish <;> rw [hd] at h <;> cases h
  | _ => cases h

theorem change_of_fields_nil (h : request.change = .ok c) (hf : c.fields p = []) :
    ∃ name description category, request = .update name description category := by
  cases request with
  | update name description category => exact ⟨name, description, category, rfl⟩
  | grantDiscount percentage start finish =>
      rw [Request.change] at h
      cases hd : Discount.make percentage start finish <;> rw [hd] at h <;> cases h
      cases hf
  | _ =>
      cases h
      cases hf

/-- A change that writes no field of a clean product proposes nothing. -/
theorem alter_silent (hd : p.dirty = ∅) (hp : p.pending = []) (h : request.change = .ok c)
    (hq : p.perform c now = .ok q) (hf : c.fields p = []) :
    ∃ proposal, alter request p now = .ok proposal ∧ proposal.product = p ∧ proposal.Silent := by
  obtain ⟨_, rfl⟩ := Product.perform_eq_ok hq
  rw [Change.outcome_of_nil hf] at hq
  have hne : c ≠ .archive := by
    rintro rfl
    cases hf
  exact ⟨_, alter_revision h hne hq (revision_of_clean hd), rfl, rfl, hp⟩

/-- A change that writes a field of a clean product proposes an update that merges the changed product into
whatever row the product has by then. -/
theorem alter_merges (hs : p.basePrice.storable?.isSome) (hd : p.dirty = ∅) (h : request.change = .ok c)
    (hq : p.perform c now = .ok q) (hf : c.fields p ≠ []) :
    ∃ m, alter request p now = .ok ⟨request.name, q, some m⟩
      ∧ ∀ current row, current.id = p.id → Stores row current → Updates row (current.merge q) m := by
  have ha : Accounted p q := (Accounted.refl p).perform hq
  have hdirty := contains_dirty_of_perform hd hq
  -- Archiving does not look at the dirty fields, so its update is enough for a reason of its own.
  by_cases hc : c = .archive
  · subst hc
    cases change_eq_archive h
    have harchived : q.isArchived = true := by
      rw [(Product.perform_eq_ok hq).2]
      rfl
    exact ⟨archival q, alter_archive hq, fun current row hid hrow =>
      updates_merge_archival hrow (ha.id.trans hid.symm) harchived (by simp [hdirty, Change.fields])⟩
  · obtain ⟨r, hr⟩ := ProductRow.exists_ofProduct (p := q) (by rw [ha.basePrice]; exact hs)
    have hne : q.dirty ≠ ∅ := dirty_ne_empty_of_perform hd hq hf
    have hprice : q.dirty.contains .basePrice = false := by
      simp [hdirty, Change.contains_fields_basePrice]
    exact ⟨_, alter_revision h hc hq (revision_of_dirty hr hne), fun current row hid hrow =>
      updates_merge_revision hrow (ha.id.trans hid.symm) hne hprice hr⟩

/-- A change that writes a field of a clean product brings it forward. -/
theorem alter_advances (hs : p.basePrice.storable?.isSome) (hd : p.dirty = ∅) (hp : p.pending = [])
    (h : request.change = .ok c) (hq : p.perform c now = .ok q) (hf : c.fields p ≠ []) :
    ∃ proposal, alter request p now = .ok proposal ∧ proposal.product = q
      ∧ proposal.Advancing now (some p) ⟨p.id, now, c.occurrence⟩ := by
  obtain ⟨m, halter, hm⟩ := alter_merges hs hd h hq hf
  have hid : q.id = p.id := ((Accounted.refl p).perform hq).id
  obtain ⟨row, hrow⟩ := Stores.exists_of_storable hs
  obtain ⟨hkind, haddr, hvalues, _⟩ := hm p row rfl hrow
  refine ⟨_, halter, rfl, .changed hq hf, Product.pending_of_perform hp hq hf, m, rfl, .merge hkind ?_ hvalues ?_⟩
  · exact haddr.trans (congrArg productAddress hid.symm)
  · exact fun current row hcurrent hstores => (hm current row (hcurrent.trans hid) hstores).stores

/-- A change that writes a field of a clean product proposes to bring its row up to date and to announce
the change. -/
theorem alter_writes {row : Row} (hrow : rows[productAddress p.id]? = some row) (hs : Stores row p)
    (hd : p.dirty = ∅) (hp : p.pending = []) (h : request.change = .ok c)
    (hq : p.perform c now = .ok q) (hf : c.fields p ≠ []) :
    ∃ proposal m row', alter request p now = .ok proposal ∧ proposal.product = q
      ∧ proposal.Writes rows now false m row' c.occurrence := by
  obtain ⟨proposal, halter, hprod, ha⟩ := alter_advances hs.storable hd hp h hq hf
  obtain ⟨m, row', hw⟩ := ha.writes_changed hrow hs
  exact ⟨proposal, m, row', halter, hprod, hw⟩

end Proposal

end Assortment.Service
