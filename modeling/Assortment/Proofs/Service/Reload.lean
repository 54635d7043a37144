import Assortment.Proofs.Records.Revision
import Assortment.Proofs.Storage.Publish
import Assortment.Service.Backend

/-!
# Loading and storing again

A product that is loaded, changed and stored by its revision leaves the row that storing it whole would
have left, and the revision touches nothing that no change wrote.
-/

namespace Assortment.Service
open Assortment.Goods Assortment.Records Assortment.Storage Assortment.Text Assortment.Time

/-! ## Single commits -/

variable {db : Database} {m : Mutation} {row : Row} {id : ProductId} {p q : Product}

theorem apply_insertion (hd : db.armed = false) (hk : m.kind = .insert)
    (h : db.rows[m.address]? = none) : db.apply ⟨[m]⟩
      = (.ok (), { db with rows := db.rows.insert m.address m.row, opened := db.opened + 1 }) :=
  Database.apply_of_changeAll_ok (by simp) hd (by simp [Rows.changeAll, Rows.change_insert hk h])

theorem apply_revision (hd : db.armed = false) (hk : m.kind = .update) (hv : m.values ≠ [])
    (h : db.rows[m.address]? = some row) : db.apply ⟨[m]⟩ = (.ok (), { db with
      rows := db.rows.insert m.address (row.setAll m.values), opened := db.opened + 1 }) :=
  Database.apply_of_changeAll_ok (by simp) hd (by simp [Rows.changeAll, Rows.change_update hk hv h])

theorem loadProduct_of_none (h : db.row? Layout.products id.text = none) :
    loadProduct db id = .error (.notFound id) := by
  simp [loadProduct, h]

theorem loadProduct_of_stores (h : db.row? Layout.products id.text = some row) (hs : Stores row p) :
    loadProduct db id = .ok p.committed := by
  simp [loadProduct, h, hs.read]

/-! ## Calls on a loaded product -/

/-- Whether a change of the row in which `db₁` keeps the product `p₀` is all that is needed to store `p`
in its place: there is none only when nothing differs, and otherwise it leaves the rows that inserting `p`
instead of `p₀` would have left. -/
structure Complete (db db₁ : Database) (p₀ p : Product) (change : Option Mutation) : Prop where
  none : change = none → p.committed = p₀.committed
  some : ∀ m, change = some m → ∃ whole db₂ db', insertion p = .ok whole
    ∧ db₁.apply ⟨[m]⟩ = (.ok (), db₂) ∧ db.apply ⟨[whole]⟩ = (.ok (), db') ∧ db₂.rows = db'.rows

/-- Whether a change writes no more than the columns of fields that an accepted call wrote, besides the
time of the last change and the time of archiving of an archived product. -/
def Minimal (p : Product) (calls : List (Change × Instant)) (change : Option Mutation) : Prop :=
  ∀ m, change = some m → ∀ column, m.writes column = true → column = Layout.updatedAt
    ∨ (column = Layout.archivedAt ∧ (p.attemptAll calls).isArchived = true)
    ∨ ∃ f, p.Wrote calls f ∧ column ∈ fieldColumns f

theorem complete_none {db₁ : Database} {p₀ : Product} (ha : Accounted p₀.committed q)
    (hc : q.dirty = ∅) : Complete db db₁ p₀ q none where
  none _ := ha.committed_eq hc
  some _ h := by cases h

/-- An update that is enough for the row of the product before is complete. -/
theorem complete_some {p₀ : Product} (hd : db.armed = false)
    (hk : db.row? Layout.products p₀.id.text = none) (hid : q.id = p₀.id) (hm : Updates row q m) :
    Complete db
      { db with rows := db.rows.insert (productAddress p₀.id) row, opened := db.opened + 1 }
      p₀ q (some m) where
  none h := by cases h
  some _ h := by
    obtain ⟨whole, hwhole, hkind, haddr, hrow⟩ := hm.stores.insertion_eq
    have hm' : m.address = productAddress p₀.id := by rw [hm.address, hid]
    have hfound : (db.rows.insert (productAddress p₀.id) row)[m.address]? = some row := by
      rw [hm', Std.ExtTreeMap.getElem?_insert_self]
    rw [hid] at haddr
    cases h
    refine ⟨whole, _, _, hwhole, apply_revision hd hm.kind hm.values hfound,
      apply_insertion hd hkind (haddr ▸ hk), ?_⟩
    simp only [hm', Rows.insert_insert, haddr, hrow]

theorem minimal_revision {calls : List (Change × Instant)} {r : ProductRow} (hd : p.dirty = ∅)
    (hm : m.values = revisedValues r (p.attemptAll calls)) : Minimal p calls (some m) := by
  intro m' he column hw
  cases he
  rcases writes_revisedValues hm hw with hu | hc | ⟨f, hf, hc⟩
  · exact .inl hu
  · exact .inr (.inl hc)
  · rcases (Product.contains_dirty_attemptAll _ _ _).1 hf with hf | hf
    · rw [hd, FieldSet.contains_empty] at hf
      cases hf
    · exact .inr (.inr ⟨f, hf, hc⟩)

/-- Take a product that is inserted and loaded again, and any calls on it, some of which may be refused.
There always is a revision, it is complete, and it is minimal. -/
theorem revision_complete_minimal {p₀ : Product} (hs : p₀.basePrice.storable?.isSome)
    (hd : db.armed = false) (hk : db.row? Layout.products p₀.id.text = none) :
    ∃ m₀ db₁ p₁, insertion p₀ = .ok m₀ ∧ db.apply ⟨[m₀]⟩ = (.ok (), db₁)
      ∧ loadProduct db₁ p₀.id = .ok p₁
      ∧ ∀ calls, ∃ change, revision (p₁.attemptAll calls) = .ok change
        ∧ Complete db db₁ p₀ (p₁.attemptAll calls) change ∧ Minimal p₁ calls change := by
  obtain ⟨row, hrow⟩ := Stores.exists_of_storable hs
  obtain ⟨m₀, hm₀, hkind, haddr, rfl⟩ := hrow.insertion_eq
  refine ⟨m₀, _, p₀.committed, hm₀, apply_insertion hd hkind (haddr ▸ hk), ?_, fun calls => ?_⟩
  · refine loadProduct_of_stores ?_ hrow
    simp [Database.row?, haddr, productAddress]
  · have ha : Accounted p₀.committed (p₀.committed.attemptAll calls) :=
      Product.accounted_attemptAll (.refl _) calls
    by_cases hc : (p₀.committed.attemptAll calls).dirty = ∅
    · exact ⟨none, revision_of_clean hc, complete_none ha hc, fun m h => by cases h⟩
    · obtain ⟨r, hr⟩ := ProductRow.exists_ofProduct (p := p₀.committed.attemptAll calls)
        (by rw [ha.basePrice]; exact hs)
      have hu := updates_revision (Stores.committed_iff.2 hrow) ha hr
      exact ⟨_, revision_of_dirty hr hc, haddr ▸ complete_some hd hk ha.id hu, minimal_revision rfl rfl⟩

/-- A draft of a lamp for ten. -/
def lamp : Product where
  id := ⟨"lamp"⟩
  name := "Lamp"
  description := ""
  category := "Light"
  basePrice := ⟨10⟩
  discount := none
  status := .draft
  createdAt := .epoch
  updatedAt := .epoch
  archivedAt := none

theorem revision_complete_minimal_lamp : lamp.basePrice.storable?.isSome = true
    ∧ ∃ m₀ db₁ p₁, insertion lamp = .ok m₀ ∧ (∅ : Database).apply ⟨[m₀]⟩ = (.ok (), db₁)
      ∧ loadProduct db₁ ⟨"lamp"⟩ = .ok p₁
      ∧ ∀ calls, ∃ change, revision (p₁.attemptAll calls) = .ok change
        ∧ Complete ∅ db₁ lamp (p₁.attemptAll calls) change ∧ Minimal p₁ calls change :=
  have hs : lamp.basePrice.storable?.isSome = true := by decide
  ⟨hs, revision_complete_minimal hs rfl rfl⟩

end Assortment.Service
