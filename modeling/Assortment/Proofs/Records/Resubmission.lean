import Assortment.Proofs.Goods.Soundness
import Assortment.Proofs.Records.Codec
import Assortment.Proofs.Records.Revision

/-!
# Texts that are submitted again

An update compares trimmed texts with those of the product. The texts of a product are trimmed from its creation
on, in memory as in its record, so an update that brings them again, however padded, finds nothing to write.
-/

namespace Assortment.Text

variable {s padded : String}

/-- A text with blank characters added at either end. -/
def Pads (s padded : String) : Prop :=
  ∃ before after, isBlank before = true ∧ isBlank after = true ∧ padded = before ++ s ++ after

theorem Pads.trim_eq (h : Pads s padded) : trim padded = trim s := by
  obtain ⟨before, after, hb, ha, rfl⟩ := h
  rw [← String.toList_inj, toList_trim, toList_trim, String.toList_append, String.toList_append]
  exact trimChars_append (List.all_eq_true.1 hb) (List.all_eq_true.1 ha)

theorem isBlank_congr {s t : String} (h : trim s = trim t) : isBlank s = isBlank t := by
  rw [Bool.eq_iff_iff, isBlank_iff, isBlank_iff, h]

end Assortment.Text

namespace Assortment.Goods
open Assortment.Text Assortment.Time

variable {p q : Product} {c : Change} {name description category name' description' category' : String}
  {now now' : Instant}

/-! ## What an update writes -/

theorem Change.outcome_eq_self_iff : c.outcome p now = p ↔ c.fields p = [] := by
  constructor
  · intro h
    by_contra hf
    rw [Change.outcome_of_ne_nil hf] at h
    -- A change that writes anything queues one event more.
    have hlength := congrArg (·.pending.length) h
    simp at hlength
  · exact Change.outcome_of_nil

namespace Product

theorem update_eq_ok (hs : p.status ≠ .archived) (hname : isBlank name = false)
    (hcategory : isBlank category = false) : p.update name description category now
      = .ok ((Change.update name description category).outcome p now) := by
  have ha : p.isArchived = false := by simpa [isArchived] using hs
  simp [update, ha, hname, hcategory, retext_eq]

theorem update_eq_self_iff (hs : p.status ≠ .archived) (hname : isBlank name = false)
    (hcategory : isBlank category = false) : p.update name description category now = .ok p
      ↔ trim name = p.name ∧ trim description = p.description ∧ trim category = p.category := by
  rw [update_eq_ok hs hname hcategory, Except.ok.injEq, Change.outcome_eq_self_iff, Change.fields,
    differingTexts_eq_nil_iff]
  simp only [eq_comm]

/-- After an update the product has the texts that it brought, whether they were written or there before. -/
theorem texts_of_update (h : p.update name description category now = .ok q) :
    q.status ≠ .archived ∧ q.name = trim name ∧ q.description = trim description ∧ q.category = trim category := by
  obtain ⟨hs, -, rfl⟩ := perform_eq_ok_allowed (c := .update name description category) h
  by_cases hf : (Change.update name description category).fields p = []
  · rw [Change.outcome_of_nil hf]
    exact ⟨hs, differingTexts_eq_nil_iff.1 hf⟩
  · rw [Change.outcome_of_ne_nil hf]
    exact ⟨hs, rfl, rfl, rfl⟩

theorem update_again (h : p.update name description category now = .ok q) (hname : trim name' = trim name)
    (hdescription : trim description' = trim description) (hcategory : trim category' = trim category) :
    q.update name' description' category' now' = .ok q := by
  obtain ⟨-, ⟨hn, hc⟩, -⟩ := perform_eq_ok_allowed (c := .update name description category) h
  obtain ⟨hs, hqn, hqd, hqc⟩ := texts_of_update h
  rw [update_eq_self_iff hs ((isBlank_congr hname).trans hn) ((isBlank_congr hcategory).trans hc)]
  exact ⟨hname.trans hqn.symm, hdescription.trans hqd.symm, hcategory.trans hqc.symm⟩

/-! ## Texts of the product itself -/

/-- Texts that are those of a product, each with blank characters added at either end. -/
structure Resubmits (p : Product) (name description category : String) : Prop where
  name : Pads p.name name
  description : Pads p.description description
  category : Pads p.category category

/-- A product that does not change when its own texts are submitted to it. An archived one refuses them. -/
def KeepsOwnTexts (p : Product) : Prop :=
  ∀ name description category, p.Resubmits name description category → ∀ now,
    p.attempt (.update name description category) now = p
    ∧ (p.status ≠ .archived → p.update name description category now = .ok p)

theorem attempt_of_archived (hs : p.status = .archived) : p.attempt c now = p := by
  unfold attempt
  split
  · rename_i hq
    exact absurd hs (perform_eq_ok hq).1
  · rfl

theorem Sound.update_own (h : p.Sound) (hr : p.Resubmits name description category) (hs : p.status ≠ .archived) :
    p.update name description category now = .ok p := by
  have hname : trim name = p.name := hr.name.trim_eq.trans h.name.2
  have hcategory : trim category = p.category := hr.category.trim_eq.trans h.category.2
  refine (update_eq_self_iff hs ?_ ?_).2 ⟨hname, hr.description.trim_eq.trans h.description, hcategory⟩
  · rw [Bool.eq_false_iff, ne_eq, isBlank_iff, hname]
    exact h.name.1
  · rw [Bool.eq_false_iff, ne_eq, isBlank_iff, hcategory]
    exact h.category.1

theorem Sound.keepsOwnTexts (h : p.Sound) : p.KeepsOwnTexts := by
  intro name description category hr now
  refine ⟨?_, h.update_own hr⟩
  by_cases hs : p.status = .archived
  · exact attempt_of_archived hs
  · rw [attempt, Product.perform, h.update_own hr hs]

theorem Sound.attempt (h : p.Sound) (c : Change) (now : Instant) : (p.attempt c now).Sound := by
  unfold Product.attempt
  split
  · rename_i hq
    exact h.perform hq
  · exact h

end Product

end Assortment.Goods

namespace Assortment.Records
open Assortment.Goods Assortment.Text Assortment.Time

/-- A product that was created and has since been asked for changes, been announced, or been read back from its
record, in any order. -/
inductive Genuine : Product → Prop where
  | created {id : ProductId} {name description category : String} {price : Money} {now : Instant} {p : Product} :
      Product.create id name description category price now = .ok p → Genuine p
  | asked {p : Product} (c : Change) (now : Instant) : Genuine p → Genuine (p.attempt c now)
  | announced {p : Product} : Genuine p → Genuine p.withoutEvents
  | reread {p q : Product} {r : ProductRow} :
      Genuine p → ProductRow.ofProduct p = .ok r → r.toProduct = .ok q → Genuine q

theorem Genuine.sound {p : Product} (h : Genuine p) : p.Sound := by
  induction h with
  | created h => exact .create h
  | asked c now _ ih => exact ih.attempt c now
  | announced _ ih => exact ih.touch ..
  | reread _ hr hq ih =>
      rw [ProductRow.toProduct_of_ofProduct hr] at hq
      cases hq
      exact Product.Sound.committed_iff.2 ih

/-- An update with texts that are allowed succeeds, and it leaves the whole product as it was just when the texts
are trimmed to those of the product. After an update, others with texts that are trimmed alike change nothing. Nor
does one that brings a product its own texts, in memory or read back, where nothing is left to store. -/
theorem resubmission_changes_nothing :
    (∀ (p : Product) (name description category : String) (now : Instant),
      p.status ≠ .archived → isBlank name = false → isBlank category = false →
      (∃ q, p.update name description category now = .ok q)
      ∧ (p.update name description category now = .ok p
        ↔ trim name = p.name ∧ trim description = p.description ∧ trim category = p.category))
    ∧ (∀ (p q : Product) (name description category : String) (now : Instant),
      p.update name description category now = .ok q →
      ∀ (name' description' category' : String) (now' : Instant),
        trim name' = trim name → trim description' = trim description → trim category' = trim category →
        q.update name' description' category' now' = .ok q)
    ∧ ∀ p : Product, Genuine p → p.KeepsOwnTexts
      ∧ ∃ r q, ProductRow.ofProduct p = .ok r ∧ r.toProduct = .ok q ∧ q.KeepsOwnTexts
        ∧ ∀ name description category, q.Resubmits name description category → ∀ now,
          revision (q.attempt (.update name description category) now) = .ok none := by
  refine ⟨fun p name description category now hs hname hcategory => ?_, ?_, fun p h => ?_⟩
  · exact ⟨⟨_, Product.update_eq_ok hs hname hcategory⟩, Product.update_eq_self_iff hs hname hcategory⟩
  · intro p q name description category now h name' description' category' now' hname hdescription hcategory
    exact Product.update_again h hname hdescription hcategory
  · obtain ⟨r, hr⟩ := ProductRow.exists_ofProduct h.sound.storable
    have hq := ProductRow.toProduct_of_ofProduct hr
    have hkeeps : p.committed.KeepsOwnTexts := (h.reread hr hq).sound.keepsOwnTexts
    refine ⟨h.sound.keepsOwnTexts, r, p.committed, hr, hq, hkeeps, fun name description category hown now => ?_⟩
    rw [(hkeeps name description category hown now).1]
    exact revision_of_clean rfl

/-- A lamp as it was just created. -/
def newLamp : Product where
  id := ⟨"lamp"⟩
  name := "Lamp"
  description := ""
  category := "Light"
  basePrice := ⟨5⟩
  discount := none
  status := .draft
  createdAt := .epoch
  updatedAt := .epoch
  archivedAt := none
  dirty := Product.initialFields
  pending := [⟨⟨"lamp"⟩, .epoch, .created "Lamp" "" "Light" ⟨5⟩⟩]

theorem resubmission_changes_nothing_lamp :
    newLamp.update "\u2003Lamp\t" "\n" "Light\u00a0" .epoch = .ok newLamp
    ∧ newLamp.update "Desk lamp" "" "Light" .epoch ≠ .ok newLamp
    ∧ (∃ q, newLamp.update "Desk lamp " "" "Light" .epoch = .ok q
      ∧ q.update "\u3000Desk lamp" " " "Light" .epoch = .ok q)
    ∧ ∃ r q, ProductRow.ofProduct newLamp = .ok r ∧ r.toProduct = .ok q
      ∧ revision (q.attempt (.update q.name (q.description ++ "\t") q.category) .epoch) = .ok none := by
  obtain ⟨hexact, hagain, hown⟩ := resubmission_changes_nothing
  have hcreated : Product.create ⟨"lamp"⟩ " Lamp" "" "Light" ⟨5⟩ .epoch = .ok newLamp := by decide +kernel
  have hpads : ∀ s, Pads s s := fun s => ⟨"", "", rfl, rfl, by simp⟩
  refine ⟨?_, ?_, ?_, ?_⟩
  · exact (hexact newLamp "\u2003Lamp\t" "\n" "Light\u00a0" .epoch (by decide) (by decide +kernel)
      (by decide +kernel)).2.2 (by decide +kernel)
  · exact mt (hexact newLamp "Desk lamp" "" "Light" .epoch (by decide) (by decide +kernel)
      (by decide +kernel)).2.1 (by decide +kernel)
  · obtain ⟨⟨q, hq⟩, -⟩ := hexact newLamp "Desk lamp " "" "Light" .epoch (by decide) (by decide +kernel)
      (by decide +kernel)
    exact ⟨q, hq, hagain _ _ _ _ _ _ hq _ _ _ _ (by decide +kernel) (by decide +kernel) rfl⟩
  · obtain ⟨-, r, q, hr, hq, -, hclean⟩ := hown newLamp (.created hcreated)
    exact ⟨r, q, hr, hq, hclean _ _ _ ⟨hpads _, ⟨"", "\t", rfl, by decide +kernel, by simp⟩, hpads _⟩ _⟩

end Assortment.Records
