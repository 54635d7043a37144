import Assortment.Proofs.Goods.Lifecycle
import Assortment.Proofs.Service.Clients

/-!
# Integrity under interleaving

Clients that load a product at the same time write back what they made of outdated copies, in any order. Still
every row of a product stays in order, and the outbox has one entry for each event that was reported.
-/

namespace Assortment.Service
open Assortment.Goods Assortment.Records Assortment.Storage Assortment.Text Assortment.Time

variable {rows rows' : Rows} {es history : List Event} {p p₀ : Product}

/-! ## Copies -/

/-- Whether a product was loaded from the rows or from earlier ones. All that has to be known of how it is
outdated is that it was a draft if its product still is one. -/
structure CopyOf (rows : Rows) (p₀ : Product) : Prop where
  sound : p₀.Sound
  dirty : p₀.dirty = ∅
  draft : ∃ p, found? rows p₀.id = some p ∧ (p.status = .draft → p₀.status = .draft)

/-- What copies are merged into is sound again. -/
theorem sound_onto {before : Option Product} {now : Instant} {q : Product} {e : Event}
    (hbefore : ∀ p₀, before = some p₀ → CopyOf rows p₀) (hadv : Advances now before q e)
    (hsome : (found? rows q.id).isSome = before.isSome)
    (hfound : ∀ id p, found? rows id = some p → p.Sound) : (q.onto (found? rows q.id)).Sound := by
  cases hf : found? rows q.id with
  | none =>
      rw [hf] at hsome
      refine .advances hadv fun p₀ hp₀ => ?_
      rw [hp₀] at hsome
      cases hsome
  | some p =>
      cases hadv with
      | created _ =>
          rw [hf] at hsome
          cases hsome
      | @changed p₀ _ c hq _ =>
          obtain ⟨hsound, hdirty, p', hp', hdraft⟩ := hbefore p₀ rfl
          have hid : q.id = p₀.id := ((Accounted.refl p₀).perform hq).id
          rw [← hid, hf] at hp'
          cases hp'
          exact .merge hdirty hq (hfound _ p hf) hsound hdraft

theorem CopyOf.evolves (h : CopyOf rows p₀) (hc : Coherent rows) (he : Evolves (CopyOf rows) rows es rows') :
    CopyOf rows' p₀ := by
  refine ⟨h.sound, h.dirty, ?_⟩
  obtain ⟨p, hp, hdraft⟩ := h.draft
  cases he with
  | quiet => exact ⟨p, hp, hdraft⟩
  | @advanced before now uid q e _ hbefore hadv hsome hlands =>
      have hfound := hlands.found?_eq p₀.id
      rw [hc.onto_id] at hfound
      by_cases hid : p₀.id = q.id
      · -- The product of the copy is the one that was changed, and a merge makes no draft of it.
        rw [if_pos hid, ← hid, hp] at hfound
        refine ⟨_, hfound, fun hs => hdraft ?_⟩
        cases hadv with
        | created _ =>
            rw [← hid, hp] at hsome
            cases hsome
        | changed hq _ => exact (status_of_merge (hbefore _ rfl).dirty hq hs).1
      · rw [if_neg hid, hp] at hfound
        exact ⟨p, hfound, hdraft⟩

/-! ## Invariant -/

/-- The number of times that a product was reported to be created. -/
def creations (id : ProductId) (es : List Event) : Nat :=
  es.countP fun e => e.product = id ∧ e.what.isCreated

/-- What holds of the clients and the rows after the given events were reported. -/
structure Sane (w : World) (history : List Event) : Prop where
  coherent : Coherent w.state.store.rows
  sound : ∀ id p, found? w.state.store.rows id = some p → p.Sound
  held : ∀ i t, w.held i = some t → t.Fits (CopyOf w.state.store.rows)
  files : ∃ filed, Files w.state.store.rows filed ∧ filed.map Prod.snd = history
  created : ∀ id, creations id history = if (found? w.state.store.rows id).isSome then 1 else 0

theorem creations_evolves (hc : Coherent rows) (he : Evolves (CopyOf rows) rows es rows')
    (h : ∀ id, creations id history = if (found? rows id).isSome then 1 else 0) (id : ProductId) :
    creations id (history ++ es) = if (found? rows' id).isSome then 1 else 0 := by
  cases he with
  | quiet => simpa using h id
  | @advanced before now uid q e _ _ hadv hsome hlands =>
      have hproduct : e.product = q.id := hadv.product_eq
      have hcreated : e.what.isCreated = !(found? rows q.id).isSome := by
        rw [hadv.isCreated_eq, hsome]
        cases before <;> rfl
      rw [creations, List.countP_append, ← creations, h, hlands.found?_eq, hc.onto_id]
      by_cases hid : id = q.id
      · cases hs : (found? rows q.id).isSome <;> simp [hid, hproduct, hcreated, hs]
      · simp [hid, hproduct, Ne.symm hid]

theorem sound_evolves (he : Evolves (CopyOf rows) rows es rows')
    (h : ∀ id p, found? rows id = some p → p.Sound) (id : ProductId) (p : Product)
    (hp : found? rows' id = some p) : p.Sound := by
  cases he with
  | quiet => exact h id p hp
  | advanced hbefore hadv hsome hlands =>
      rw [hlands.found?_eq] at hp
      split at hp
      · cases hp
        exact Product.Sound.committed_iff.2 (sound_onto hbefore hadv hsome h)
      · exact h id p hp

theorem files_evolves (he : Evolves (CopyOf rows) rows es rows')
    (h : ∃ filed, Files rows filed ∧ filed.map Prod.snd = history) :
    ∃ filed, Files rows' filed ∧ filed.map Prod.snd = history ++ es := by
  obtain ⟨filed, hfiles, rfl⟩ := h
  cases he with
  | quiet => exact ⟨filed, hfiles, (List.append_nil _).symm⟩
  | advanced _ _ _ hlands => exact ⟨_, hfiles.lands hlands, List.map_append⟩

theorem sane_start (clock : Clock) (nth : Nat → Uuid) : Sane (.start clock nth) [] := by
  have hnone : ∀ id, found? (World.start clock nth).state.store.rows id = none := found?_empty
  refine ⟨.empty, fun id p h => ?_, fun i t h => ?_, ⟨[], files_empty, rfl⟩, fun id => ?_⟩
  · rw [hnone] at h
    cases h
  · cases h
  · rw [hnone]
    rfl

theorem Sane.step {w : World} (h : Sane w history) (step : Step) :
    Sane (w.step step).2 (history ++ reported (w.step step).1) := by
  have hcopy : ∀ id p, found? w.state.store.rows id = some p → CopyOf w.state.store.rows p := by
    intro id p hp
    obtain ⟨rfl, hdirty, _⟩ := h.coherent.of_found? hp
    exact ⟨h.sound _ p hp, hdirty, p, hp, fun hs => hs⟩
  obtain ⟨he, hheld⟩ := World.evolves_step h.coherent hcopy h.held step
  exact {
    coherent := he.coherent h.coherent
    sound := sound_evolves he h.sound
    -- What was held through the step is outdated now, or more so, but still a copy.
    held := fun i t ht => (hheld i t ht).mono fun p₀ hp₀ => hp₀.evolves h.coherent he
    files := files_evolves he h.files
    created := creations_evolves h.coherent he h.created }

theorem Sane.run {w : World} (h : Sane w history) (steps : List Step) :
    Sane (w.run steps).2 (history ++ (w.run steps).1.flatMap reported) := by
  induction steps generalizing w history with
  | nil => simpa [World.run] using h
  | cons step steps ih =>
      have hrest := ih (h.step step)
      simpa only [World.run, List.flatMap_cons, List.append_assoc] using hrest

/-! ## Integrity -/

/-- Whether a row is that of a sound product under its key. The columns of the discount are set together or
null together. -/
structure Intact (key : String) (row : Row) (p : Product) : Prop where
  reads : (ProductRow.ofRow row >>= ProductRow.toProduct) = .ok p
  id : p.id.text = key
  sound : p.Sound
  discount : ∀ v ∈ discountValues p.discount, row[v.1]? = some v.2
  status : row[Layout.status]? = some (.text p.status.text)
  archivedAt : row[Layout.archivedAt]? = some (.timestamp p.archivedAt)

/-- Whether the rows of products are intact, the outbox has one entry for each reported event, and a product
was reported to be created once if there is a row of it and not at all if there is none. -/
structure Integrity (db : Database) (history : List Event) : Prop where
  products : ∀ key row, db.row? Layout.products key = some row → ∃ p, Intact key row p
  outbox : ∃ filed : List (Uuid × Event), filed.map Prod.snd = history ∧ (filed.map Prod.fst).Nodup
    ∧ ∀ key row, db.row? Layout.outboxEvents key = some row
      ↔ ∃ f ∈ filed, key = f.1.text ∧ row = (OutboxEntry.ofEvent f.1 f.2).row
  created : ∀ id, creations id history = if (db.row? Layout.products id.text).isSome then 1 else 0

theorem intact_of_stores {row : Row} (h : Stores row p) (hs : p.Sound) :
    Intact p.id.text row p.committed := by
  have hread := h.read
  obtain ⟨r, hr, rfl⟩ := h
  have hdiscount : ∀ v ∈ r.fieldValues true .discount, r.row[v.1]? = some v.2 :=
    fun _ hv => r.getElem?_row_of_mem_fieldValues hv
  have hstatus : ∀ v ∈ r.fieldValues true .status, r.row[v.1]? = some v.2 :=
    fun _ hv => r.getElem?_row_of_mem_fieldValues hv
  simp only [ProductRow.fieldValues, if_true, List.forall_mem_cons] at hstatus
  obtain ⟨n, d, _, rfl⟩ := ProductRow.ofProduct_eq_ok hr
  exact ⟨hread, rfl, Product.Sound.committed_iff.2 hs, hdiscount, hstatus.1, hstatus.2.1⟩

theorem Sane.integrity {w : World} (h : Sane w history) : Integrity w.state.store history where
  products key row hrow := by
    obtain ⟨p, hid, hs⟩ := h.coherent.product ⟨key⟩ row hrow
    have hsound := h.sound ⟨key⟩ p.committed (found?_of_stores hrow hs)
    have hkey : p.id.text = key := congrArg ProductId.text hid
    exact ⟨p.committed, hkey ▸ intact_of_stores hs (Product.Sound.committed_iff.1 hsound)⟩
  outbox := by
    obtain ⟨filed, hfiles, hhistory⟩ := h.files
    exact ⟨filed, hhistory, hfiles.nodup, hfiles.entries⟩
  created id := by
    rw [h.created]
    cases hf : found? w.state.store.rows id with
    | none =>
        have hrow : w.state.store.row? Layout.products id.text = none := h.coherent.of_found?_eq_none hf
        rw [hrow]
        rfl
    | some p =>
        obtain ⟨_, _, _, row, hrow, _⟩ := h.coherent.of_found? hf
        rw [show w.state.store.row? Layout.products id.text = some row from hrow]
        rfl

/-- However the steps of any number of clients are interleaved, every row of a product stays intact, no
reported event is lost or entered twice, and no product is created twice. -/
theorem interleaving_integrity (clock : Clock) (nth : Nat → Uuid) (steps : List Step) :
    Integrity ((World.start clock nth).run steps).2.state.store
      (((World.start clock nth).run steps).1.flatMap reported) := by
  simpa using ((sane_start clock nth).run steps).integrity

-- Two clients load the same draft, and both commit what they made of it.
example : ((World.start ⟨.epoch⟩ fun n => ⟨BitVec.ofNat 128 n⟩).run [
      .create .epoch ⟨"lamp"⟩ "Lamp" "" "Light" ⟨10⟩,
      .load 0 .epoch ⟨"lamp"⟩ .activate,
      .load 1 .epoch ⟨"lamp"⟩ (.update "Lantern" "" "Light"),
      .commit 1,
      .commit 0]).1.flatMap reported
    = [⟨⟨"lamp"⟩, .epoch, .created "Lamp" "" "Light" ⟨10⟩⟩,
      ⟨⟨"lamp"⟩, .epoch, .updated "Lantern" "" "Light"⟩,
      ⟨⟨"lamp"⟩, .epoch, .activated⟩] := by
  decide +kernel

end Assortment.Service
