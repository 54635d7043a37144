import Assortment.Proofs.Goods.Writers
import Assortment.Proofs.Records.Revision
import Assortment.Proofs.Storage.Precision

/-!
# Mutations at stored precision

The bounds of discounts are aligned by their type, so a mutation is precise as soon as the times of the product are
that it writes: the time of the last change, and that of archiving if it goes with the status.
-/

namespace Assortment.Goods
open Assortment.Storage Assortment.Time

/-! ## Events -/

/-- The instants that an occurrence tells of. -/
def Occurrence.instants : Occurrence → List Instant
  | discountApplied _ start finish => [start, finish]
  | _ => []

def Event.instants (e : Event) : List Instant := e.time :: e.what.instants

variable {now : Instant} {before : Option Product} {q : Product} {e : Event}

@[simp]
theorem Discount.aligned_start (d : Discount) : Aligned d.start := d.start_aligned

@[simp]
theorem Discount.aligned_finish (d : Discount) : Aligned d.finish := d.finish_aligned

theorem Change.aligned_occurrence (c : Change) : ∀ t ∈ c.occurrence.instants, Aligned t := by
  cases c <;> simp [occurrence, Occurrence.instants]

theorem Advances.aligned_event (h : Advances now before q e) (hnow : Aligned now) : ∀ t ∈ e.instants, Aligned t := by
  intro t ht
  rcases List.mem_cons.1 ht with rfl | ht
  · rwa [h.time_eq]
  · cases h with
    | created _ => cases ht
    | changed _ _ => exact Change.aligned_occurrence _ t ht

end Assortment.Goods

namespace Assortment.Records
open Assortment.Goods Assortment.Storage Assortment.Text Assortment.Time

/-! ## Mutations -/

variable {q : Product} {m : Mutation}

theorem aligned_fieldValues {f : Field} {values : List (String × Value)} (h : fieldValues q f = .ok values)
    (harchived : f = .status → q.isArchived = true → ∀ t, q.archivedAt = some t → Aligned t) :
    ∀ v ∈ values, v.2.IsAligned := by
  cases f with
  | basePrice =>
      obtain ⟨⟨n, d⟩, _, rfl⟩ := map_eq_ok h
      simp
  | discount =>
      cases h
      simp [discountValues]
  | status =>
      cases h
      by_cases hq : q.isArchived = true
      · simpa [hq] using harchived rfl hq
      · simp [hq]
  | _ =>
      cases h
      simp

theorem precise_revision (h : revision q = .ok (some m)) (hupdated : Aligned q.updatedAt)
    (harchived : q.archives = true → ∀ t, q.archivedAt = some t → Aligned t) : m.Precise := by
  have hkey : m.key.IsAligned := by
    obtain ⟨written, _, rfl⟩ := revision_eq_ok h
    simp
  refine Mutation.precise_iff.2 ⟨hkey, fun v hv => ?_⟩
  rcases mem_of_revision h hv with rfl | ⟨f, values, hf, hvalues, hv⟩
  · simpa using hupdated
  · refine aligned_fieldValues hvalues (fun hstatus hq => harchived ?_) v hv
    subst hstatus
    simp [Product.archives, hf, hq]

theorem precise_archival (hupdated : Aligned q.updatedAt) (harchived : ∀ t, q.archivedAt = some t → Aligned t) :
    (archival q).Precise := by
  simpa [Mutation.precise_iff, archival, hupdated] using harchived

theorem precise_insertion (h : insertion q = .ok m) (hcreated : Aligned q.createdAt) (hupdated : Aligned q.updatedAt)
    (harchived : ∀ t, q.archivedAt = some t → Aligned t) : m.Precise := by
  obtain ⟨r, hr, rfl⟩ := map_eq_ok h
  obtain ⟨n, d, _, rfl⟩ := ProductRow.ofProduct_eq_ok hr
  simpa [Mutation.precise_iff, ProductRow.values, hcreated, hupdated] using harchived

theorem precise_entry {e : Event} (id : Uuid) (h : Aligned e.time) : (OutboxEntry.ofEvent id e).insertion.Precise := by
  simp [Mutation.precise_iff, OutboxEntry.insertion, OutboxEntry.values, OutboxEntry.ofEvent, h]

end Assortment.Records
