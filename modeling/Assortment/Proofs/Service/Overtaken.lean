import Assortment.Proofs.Service.LastWriter

/-!
# Events and the rows they are committed with

An update tells of all three texts of the copy that was changed, but only those that differ are written. So a
commit leaves a row that has what its event tells, up to a text that the update did not write and that was
written by another client after the product was loaded.
-/

namespace Assortment.Service
open Assortment.Goods Assortment.Records Assortment.Storage Assortment.Text Assortment.Time

variable {R : Product → Prop} {rows rows' : Rows} {w : World} {steps : List Step} {step : Step} {id : ProductId}
  {p p₀ q : Product} {f : Field}

theorem Takes.found? {taken : Option Product} (h : Takes R rows taken rows') (hc : Coherent rows)
    (hp : Service.found? rows id = some p) (hf : f ≠ .basePrice) : ∃ p', Service.found? rows' id = some p'
      ∧ (fieldValues p' f = fieldValues p f ∨ ∃ q ∈ taken.toList, q.id = id ∧ q.dirty.contains f = true
        ∧ fieldValues p' f = fieldValues q f) := by
  cases h with
  | nothing => exact ⟨p, hp, .inl rfl⟩
  | @copy _ _ _ _ q _ _ _ _ _ hlands =>
      have hfound := hlands.found?_onto hc id
      by_cases hid : id = q.id
      · rw [if_pos hid, hp] at hfound
        refine ⟨_, hfound, ?_⟩
        rw [fieldValues_committed, Product.onto, fieldValues_merge hf]
        by_cases hd : q.dirty.contains f = true
        · rw [if_pos hd]
          exact .inr ⟨q, by simp, hid.symm, hd, rfl⟩
        · rw [if_neg hd]
          exact .inl rfl
      · rw [if_neg hid, hp] at hfound
        exact ⟨p, hfound, .inl rfl⟩

namespace World

/-! ## Between load and commit -/

/-- Whether a client loaded a product as it is and, after some steps more in which it took no part, takes the
step of committing what it made of it. -/
inductive Loaded (w : World) : List Step → Step → Product → Prop where
  | intro {client : Nat} {now : Instant} {request : Request} {before between : List Step} {p₀ : Product} :
      (∀ s ∈ between, s.client? ≠ some client) →
      found? (w.run before).2.state.store.rows p₀.id = some p₀ →
      Loaded w (before ++ .load client now p₀.id request :: between) (.commit client) p₀

/-- Whether a copy that wrote a field of a product was committed by another client, after the client that takes
a step had loaded the product. -/
inductive Overtaken (w : World) (id : ProductId) (f : Field) (q : Product) : List Step → Step → Prop where
  | intro {client : Nat} {now : Instant} {request : Request} {before between : List Step} :
      (∀ s ∈ between, s.client? ≠ some client) →
      q ∈ (w.run before).2.commits (.load client now id request :: between) → q.id = id →
      q.dirty.contains f = true →
      Overtaken w id f q (before ++ .load client now id request :: between) (.commit client)

/-- Whatever a step commits was made of a product that the client loaded before, or of none. -/
theorem fits_loaded (h : w.Steady) (hnone : ∀ i, w.held i = none) {t : Ticket}
    (ht : (w.run steps).2.ticket? step = some t) : t.Fits (w.Loaded steps step) := by
  cases step with
  | load => cases ht
  | arm => cases ht
  | create => exact fits_create (h.run steps).coherent ht
  | commit client =>
      obtain ⟨before, now, id, request, between, rfl, hbetween, hload⟩ := held_run (hnone client) ht
      have hc := (h.run before).coherent
      refine (revises_load hc (fun p hp => ?_) hload).1.fits
      obtain ⟨rfl, _⟩ := hc.of_found? hp
      exact .intro hbetween hp

/-- A field of a product stays as it is until a copy is committed that wrote it. -/
theorem Steady.found?_run (h : w.Steady) (hp : found? w.state.store.rows id = some p) (hf : f ≠ .basePrice)
    (steps : List Step) : ∃ p', found? (w.run steps).2.state.store.rows id = some p'
      ∧ (fieldValues p' f = fieldValues p f ∨ ∃ q ∈ w.commits steps, q.id = id ∧ q.dirty.contains f = true
        ∧ fieldValues p' f = fieldValues q f) := by
  induction steps using List.reverseRecOn with
  | nil => exact ⟨p, hp, .inl rfl⟩
  | append_singleton steps step ih =>
      obtain ⟨p', hp', hvalues⟩ := ih
      have hw := h.run steps
      obtain ⟨p'', hp'', hlast⟩ := (hw.takes step).found? hw.coherent hp' hf
      rw [run_concat, commits_concat]
      refine ⟨p'', hp'', ?_⟩
      rcases hlast with he | ⟨q, hq, hrest⟩
      · rw [he]
        exact hvalues.imp_right fun ⟨q, hq, hrest⟩ => ⟨q, List.mem_append_left _ hq, hrest⟩
      · exact .inr ⟨q, List.mem_append_right _ hq, hrest⟩

/-- What a copy has of a field that it did not write is what the product has by then, unless the copy was
overtaken. -/
theorem Loaded.fieldValues_eq (hl : w.Loaded steps step p₀) (h : w.Steady) (hf : f ≠ .basePrice) :
    ∃ p, found? (w.run steps).2.state.store.rows p₀.id = some p
      ∧ (fieldValues p f = fieldValues p₀ f
        ∨ ∃ q, w.Overtaken p₀.id f q steps step ∧ fieldValues p f = fieldValues q f) := by
  cases hl with
  | @intro client now request before between _ hbetween hp =>
      rw [run_append]
      obtain ⟨p, hfound, hvalues⟩ :=
        (h.run before).found?_run hp hf (.load client now p₀.id request :: between)
      refine ⟨p, hfound, hvalues.imp_right fun ⟨q, hq, hid, hd, he⟩ => ⟨q, ?_, he⟩⟩
      exact .intro hbetween hq hid hd

end World

/-! ## Commits -/

/-- Whether a row has what an event tells of a field. -/
def Shows (row : Row) (e : Event) (f : Field) : Prop := ∀ v ∈ toldValues e f, row[v.1]? = some v.2

/-- How far the row of a product has what the event tells that was committed with a copy of it. -/
structure Matches (w : World) (steps : List Step) (step : Step) (q : Product) (e : Event) (row : Row) :
    Prop where
  updatedAt : row[Layout.updatedAt]? = some (.timestamp e.time)
  /-- What the row does not show is a text that an update left as it was loaded, and that the row has as another
  copy wrote it in the meantime. -/
  told : ∀ f, Shows row e f ∨ q.dirty.contains f = false
    ∧ (∃ name description category, e.what = .updated name description category)
    ∧ ∃ q' values, w.Overtaken q.id f q' steps step ∧ fieldValues q' f = .ok values
      ∧ ∀ v ∈ values, row[v.1]? = some v.2

/-- What a copy makes of its product, in a field that its event tells of, is what the copy has in it, unless the
copy is an update that did not write the field and was overtaken. -/
theorem World.Loaded.fieldValues_onto {before : Option Product} {now : Instant} {e : Event}
    (hbefore : ∀ p₀, before = some p₀ → w.Loaded steps step p₀) (h : w.Steady)
    (hadv : Advances now before q e)
    (hsome : (found? (w.run steps).2.state.store.rows q.id).isSome = before.isSome)
    (hf : toldValues e f ≠ []) :
    fieldValues (q.onto (found? (w.run steps).2.state.store.rows q.id)) f = fieldValues q f
      ∨ q.dirty.contains f = false
        ∧ (∃ name description category, e.what = .updated name description category)
        ∧ ∃ q', w.Overtaken q.id f q' steps step
          ∧ fieldValues (q.onto (found? (w.run steps).2.state.store.rows q.id)) f = fieldValues q' f := by
  cases before with
  | none =>
      rw [Option.isSome_eq_false_iff.1 hsome |> Option.isNone_iff_eq_none.1]
      exact .inl rfl
  | some p₀ =>
      have hne : f ≠ .basePrice := by
        rintro rfl
        exact hf (toldValues_basePrice hadv)
      obtain ⟨p, hp, hvalues⟩ := (hbefore p₀ rfl).fieldValues_eq h hne
      rw [← hadv.accounted.id] at hp hvalues
      rw [hp, Product.onto, fieldValues_merge hne]
      cases hd : q.dirty.contains f with
      | true => exact .inl rfl
      | false =>
          rw [← fieldValues_congr (hadv.accounted.fields f hd)]
          exact hvalues.imp_right fun ho => ⟨rfl, updated_of_told hadv hf hd, ho⟩

namespace World

/-- Whether a step reports one event and enters it in the outbox. -/
structure Reports (w : World) (step : Step) (e : Event) : Prop where
  answer : reported (w.step step).1 = [e]
  entry : ∃ uid : Uuid, w.state.store.row? Layout.outboxEvents uid.text = none
    ∧ (w.step step).2.state.store.row? Layout.outboxEvents uid.text = some (OutboxEntry.ofEvent uid e).row

theorem Steady.matches (h : w.Steady) (hnone : ∀ i, w.held i = none)
    (hq : (w.run steps).2.committed? step = some q) :
    ∃ e row, (w.run steps).2.Reports step e ∧ e.product = q.id
      ∧ ((w.run steps).2.step step).2.state.store.row? Layout.products q.id.text = some row
      ∧ Matches w steps step q e row := by
  have hc := (h.run steps).coherent
  obtain ⟨htakes, hanswer⟩ := committed_step hc fun t ht => fits_loaded h hnone ht
  rw [hq] at htakes hanswer
  generalize hrows : ((w.run steps).2.step step).2.state.store.rows = rows' at htakes
  cases htakes with
  | @copy before now e uid _ _ hbefore hadv hpending hsome hlands =>
      have hfound := hlands.found?_onto hc q.id
      rw [if_pos rfl] at hfound
      obtain ⟨_, _, _, row, hrow, hs⟩ := (hlands.coherent hc).of_found? hfound
      rw [Stores.committed_iff] at hs
      have hentry := hlands.getElem?_entry uid.text
      rw [if_pos rfl] at hentry
      subst hrows
      refine ⟨e, row, ⟨hanswer.trans hpending, uid, hlands.fresh, hentry⟩, hadv.product_eq, hrow, ?_,
        fun f => ?_⟩
      · have hupdated := hs.keyAndTimes.2.2.1
        rw [hadv.time_eq, ← hadv.updatedAt_eq]
        cases hf : found? (w.run steps).2.state.store.rows q.id <;> rw [hf] at hupdated <;> exact hupdated
      · by_cases hf : toldValues e f = []
        · exact .inl (by simp [Shows, hf])
        · obtain ⟨values, hvalues, hin⟩ := hs.fieldValues f
          rcases Loaded.fieldValues_onto hbefore h hadv hsome hf with he | ⟨hd, hupdate, q', ho, he⟩
          · rw [he, fieldValues_of_told hadv hf] at hvalues
            cases hvalues
            exact .inl hin
          · exact .inr ⟨hd, hupdate, q', values, ho, he.symm.trans hvalues, hin⟩

end World

/-- The row that a commit leaves, however outdated the copy was, has the time of the event and all that the
event tells, except for what another client has written in the meantime of the texts that an update left as they
were. The event and the row are committed together. -/
theorem committed_event_matches (clock : Clock) (nth : Nat → Uuid) (steps : List Step) (step : Step)
    {q : Product} (h : ((World.start clock nth).run steps).2.committed? step = some q) :
    ∃ e row, ((World.start clock nth).run steps).2.Reports step e ∧ e.product = q.id
      ∧ (((World.start clock nth).run steps).2.step step).2.state.store.row? Layout.products q.id.text
        = some row
      ∧ Matches (World.start clock nth) steps step q e row :=
  (World.Steady.start clock nth).matches (fun _ => rfl) h

/-- A lamp is loaded twice, by one client that gives it another name and by one that describes it. The first
has committed. -/
def lampSteps : List Step := [
  .create .epoch ⟨"lamp"⟩ "Lamp" "" "Light" ⟨10⟩,
  .load 0 .epoch ⟨"lamp"⟩ (.update "Lantern" "" "Light"),
  .load 1 .epoch ⟨"lamp"⟩ (.update "Lamp" "Bright" "Light"),
  .commit 0]

def brightLamp : Product where
  id := ⟨"lamp"⟩
  name := "Lamp"
  description := "Bright"
  category := "Light"
  basePrice := ⟨10⟩
  discount := none
  status := .draft
  createdAt := .epoch
  updatedAt := .epoch
  archivedAt := none
  dirty := (∅ : FieldSet).insert .description
  pending := [⟨⟨"lamp"⟩, .epoch, .updated "Lamp" "Bright" "Light"⟩]

def lampWorld : World := .start ⟨.epoch⟩ fun n => ⟨BitVec.ofNat 128 n⟩

theorem committed_event_matches_lamp : (lampWorld.run lampSteps).2.committed? (.commit 1) = some brightLamp
    ∧ ∃ e row, (lampWorld.run lampSteps).2.Reports (.commit 1) e ∧ e.product = ⟨"lamp"⟩
      ∧ ((lampWorld.run lampSteps).2.step (.commit 1)).2.state.store.row? Layout.products "lamp" = some row
      ∧ Matches lampWorld lampSteps (.commit 1) brightLamp e row := by
  have h : (lampWorld.run lampSteps).2.committed? (.commit 1) = some brightLamp := by decide +kernel
  exact ⟨h, committed_event_matches ⟨.epoch⟩ _ lampSteps (.commit 1) h⟩

/-- The update of an outdated copy tells of the name that it was loaded with, and the row has the other one. -/
theorem committed_event_differs_lamp : ¬ ∀ (clock : Clock) (nth : Nat → Uuid) (steps : List Step) (step : Step)
    (q : Product) (e : Event) (row : Row), ((World.start clock nth).run steps).2.committed? step = some q →
    ((World.start clock nth).run steps).2.Reports step e →
    (((World.start clock nth).run steps).2.step step).2.state.store.row? Layout.products q.id.text = some row →
    row[Layout.updatedAt]? = some (.timestamp e.time) ∧ ∀ f, Shows row e f := by
  intro hall
  have h : (lampWorld.run lampSteps).2.committed? (.commit 1) = some brightLamp := by decide +kernel
  obtain ⟨e, row, hreports, _, hrow, _⟩ := (World.Steady.start ⟨.epoch⟩ _).matches (fun _ => rfl) h
  have he : reported ((lampWorld.run lampSteps).2.step (.commit 1)).1
      = [⟨⟨"lamp"⟩, .epoch, .updated "Lamp" "Bright" "Light"⟩] := by decide +kernel
  have hname : (((lampWorld.run lampSteps).2.step (.commit 1)).2.state.store.row? Layout.products "lamp").bind
      (·[Layout.name]?) = some (.text "Lantern") := by decide +kernel
  cases List.singleton_inj.1 (he.symm.trans hreports.answer)
  have hshown := (hall ⟨.epoch⟩ _ lampSteps (.commit 1) brightLamp _ row h hreports hrow).2 .name
    (Layout.name, .text "Lamp") (List.mem_singleton.2 rfl)
  rw [show ((lampWorld.run lampSteps).2.step (.commit 1)).2.state.store.row? Layout.products "lamp" = some row
    from hrow, Option.bind_some, hshown] at hname
  exact absurd hname (by decide)

end Assortment.Service
