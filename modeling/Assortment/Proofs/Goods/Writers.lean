import Assortment.Proofs.Goods.Merge
import Assortment.Proofs.Goods.Replay
import Mathlib.Data.List.Induction

/-!
# Who wrote a field last

Copies of a product that are committed one after the other, each merged into what is there, leave in every field
what the last of them wrote that wrote it. Two copies that write different fields can be merged in either order.
-/

namespace Assortment.Goods
open Assortment.Text Assortment.Time

namespace Product

/-- What copies leave that are committed one after the other, the first of them as a new product. -/
def standing (commits : List Product) : Option Product :=
  commits.foldl (fun known q => some (q.onto known)) none

/-- The last of some copies that wrote a field, or the first of them when none did. -/
def lastWriter? (f : Field) (commits : List Product) : Option Product :=
  (commits.reverse.find? (·.dirty.contains f)).or commits.head?

/-- Whether a copy was archived by its last change. -/
def archives (q : Product) : Bool := q.dirty.contains .status && q.isArchived

def lastArchived? (commits : List Product) : Option Product := commits.reverse.find? archives

variable {commits : List Product} {p q q' : Product} {f : Field} {α : Type} {g : Product → α}

theorem standing_append (commits : List Product) (q : Product) :
    standing (commits ++ [q]) = some (q.onto (standing commits)) := by
  simp [standing]

theorem exists_standing (h : commits ≠ []) : ∃ p, standing commits = some p := by
  obtain ⟨before, q, rfl⟩ := (List.eq_nil_or_concat commits).resolve_left h
  rw [List.concat_eq_append]
  exact ⟨_, standing_append before q⟩

theorem lastWriter?_append (f : Field) (h : commits ≠ []) (q : Product) : lastWriter? f (commits ++ [q])
    = if q.dirty.contains f then some q else lastWriter? f commits := by
  cases commits with
  | nil => exact absurd rfl h
  | cons first rest =>
      rw [lastWriter?, List.reverse_append, List.reverse_singleton, List.singleton_append, List.find?_cons]
      split
      · rename_i hq
        simp [hq]
      · rename_i hq
        simp [hq, lastWriter?]

/-! ## Last and first -/

/-- What a merge takes over with a field is left by the last copy that wrote the field. -/
theorem map_standing_writer (hmerge : ∀ p q : Product, g (p.merge q) = if q.dirty.contains f then g q else g p)
    (commits : List Product) : (standing commits).map g = (lastWriter? f commits).map g := by
  induction commits using List.reverseRecOn with
  | nil => rfl
  | append_singleton before q ih =>
      rw [standing_append, Option.map_some]
      by_cases hb : before = []
      · subst hb
        by_cases hq : q.dirty.contains f = true <;> simp [standing, onto, lastWriter?, hq]
      · obtain ⟨p, hp⟩ := exists_standing hb
        rw [hp, Option.map_some] at ih
        rw [hp, onto, hmerge, lastWriter?_append f hb]
        split
        · rfl
        · exact ih

theorem map_standing_last (hmerge : ∀ p q : Product, g (p.merge q) = g q) (commits : List Product) :
    (standing commits).map g = commits.getLast?.map g := by
  induction commits using List.reverseRecOn with
  | nil => rfl
  | append_singleton before q ih =>
      rw [standing_append, List.getLast?_concat]
      cases standing before with
      | none => rfl
      | some p => exact congrArg some (hmerge p q)

theorem map_standing_first (hmerge : ∀ p q : Product, g (p.merge q) = g p) (commits : List Product) :
    (standing commits).map g = commits.head?.map g := by
  induction commits using List.reverseRecOn with
  | nil => rfl
  | append_singleton before q ih =>
      rw [standing_append]
      cases before with
      | nil => rfl
      | cons first rest =>
          obtain ⟨p, hp⟩ := exists_standing (List.cons_ne_nil first rest)
          rw [hp] at ih ⊢
          exact (congrArg some (hmerge p q)).trans ih

/-- The time of archiving is that of the last copy that was archived, if the first was a new product. -/
theorem archivedAt_standing (hfirst : ∀ q, commits.head? = some q → q.archives = false ∧ q.archivedAt = none) :
    (standing commits).bind archivedAt = (lastArchived? commits).bind archivedAt := by
  induction commits using List.reverseRecOn with
  | nil => rfl
  | append_singleton before q ih =>
      rw [standing_append, lastArchived?, List.reverse_append, List.reverse_singleton, List.singleton_append,
        List.find?_cons]
      cases before with
      | nil =>
          obtain ⟨hnot, hnone⟩ := hfirst q rfl
          simp [standing, onto, hnot, hnone]
      | cons first rest =>
          have ih := ih (by simpa using hfirst)
          obtain ⟨p, hp⟩ := exists_standing (List.cons_ne_nil first rest)
          rw [hp] at ih ⊢
          cases hq : q.archives with
          | true =>
              rw [archives] at hq
              simp [onto, merge, hq]
          | false =>
              rw [archives] at hq
              rw [lastArchived?] at ih
              simpa only [Option.bind_some, onto, merge, hq, if_false, Bool.false_eq_true] using ih

/-! ## Different fields -/

/-- Merges of copies that wrote different fields differ in the time of the last change only. -/
theorem merge_merge_comm (hdisjoint : ∀ f, q.dirty.contains f = true → q'.dirty.contains f = false) :
    ((p.merge q).merge q').committed
      = { ((p.merge q').merge q).committed with updatedAt := q'.updatedAt } := by
  have hname := hdisjoint .name
  have hdescription := hdisjoint .description
  have hcategory := hdisjoint .category
  have hdiscount := hdisjoint .discount
  have hstatus := hdisjoint .status
  apply Product.ext <;> simp only [committed, merge] <;> grind

end Product

/-! ## Archiving -/

/-- A copy that was archived by its last change has the time of that change as its time of archiving. -/
theorem Advances.archivedAt_eq {before : Option Product} {now : Instant} {q : Product} {e : Event}
    (h : Advances now before q e) (hbefore : ∀ p, before = some p → p.dirty = ∅) (ha : q.archives = true) :
    q.archivedAt = some q.updatedAt := by
  obtain ⟨hdirty, harchived⟩ := Bool.and_eq_true_iff.1 ha
  rw [Product.isArchived_iff] at harchived
  cases h with
  | created hq =>
      obtain ⟨_, _, _, _, _, rfl⟩ := Product.create_eq_ok hq
      cases harchived
  | @changed p _ c hq hf =>
      rw [contains_dirty_of_perform (hbefore p rfl) hq, decide_eq_true_iff] at hdirty
      obtain ⟨_, rfl⟩ := Product.perform_eq_ok hq
      rw [Change.outcome_of_ne_nil hf] at harchived ⊢
      cases c with
      | archive => rfl
      | activate | deactivate => cases harchived
      | _ => simp [Change.fields, Product.differingTexts] at hdirty

end Assortment.Goods
