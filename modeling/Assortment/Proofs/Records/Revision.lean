import Assortment.Proofs.Goods.Changes
import Assortment.Proofs.Records.StoredRow
import Assortment.Proofs.Storage.Row

/-!
# Partial updates of rows

A revision writes only the columns of dirty fields and the times that go with them. When the dirty fields
account for every difference, that is enough to make the row what a whole insert would have left.
-/

namespace Assortment.Records
open Assortment.Goods Assortment.Storage Assortment.Text Assortment.Time

/-! ## Columns of fields -/

/-- The columns that store a field. The time of archiving is stored with the status only at an archived
product, so it is left out. -/
def fieldColumns : Field → List String
  | .name => [Layout.name]
  | .description => [Layout.description]
  | .category => [Layout.category]
  | .basePrice => [Layout.priceNumerator, Layout.priceDenominator]
  | .discount => [Layout.discountPercent, Layout.discountStart, Layout.discountEnd]
  | .status => [Layout.status]

namespace ProductRow

/-- The values of the columns that store a field of a record. -/
def fieldValues (r : ProductRow) (isArchived : Bool) : Field → List (String × Value)
  | .name => [(Layout.name, .text r.name)]
  | .description => [(Layout.description, .text r.description)]
  | .category => [(Layout.category, .text r.category)]
  | .basePrice =>
      [(Layout.priceNumerator, .int r.priceNumerator), (Layout.priceDenominator, .int r.priceDenominator)]
  | .discount =>
      [(Layout.discountPercent, .text r.discountPercent), (Layout.discountStart, .timestamp r.discountStart),
        (Layout.discountEnd, .timestamp r.discountEnd)]
  | .status =>
      (Layout.status, .text r.status)
        :: (if isArchived then [(Layout.archivedAt, .timestamp r.archivedAt)] else [])

variable {r r' : ProductRow} {b : Bool} {f : Field} {v : String × Value}

theorem getElem?_row_of_mem_fieldValues (h : v ∈ r.fieldValues b f) : r.row[v.1]? = some v.2 := by
  have hrow : ∀ column, r.row[column]?
      = Row.lastValue? column ((Layout.productId, .text r.id) :: r.values) := Row.getElem?_ofList _
  rw [hrow]
  cases f with
  | status =>
      rcases List.mem_cons.1 h with rfl | h
      · simp +decide [values, Row.lastValue?]
      · split at h
        · cases List.mem_singleton.1 h
          simp +decide [values, Row.lastValue?]
        · cases h
  | _ =>
      simp only [fieldValues, List.mem_cons, List.not_mem_nil, or_false] at h
      rcases h with rfl | rfl | rfl <;> simp +decide [values, Row.lastValue?]

theorem getElem?_row_updatedAt (r : ProductRow) :
    r.row[Layout.updatedAt]? = some (.timestamp r.updatedAt) := by
  simp +decide [row, values, Row.getElem?_ofList, Row.lastValue?]

theorem column_of_mem_fieldValues (h : v ∈ r.fieldValues b f) :
    v.1 ∈ fieldColumns f ∨ (v.1 = Layout.archivedAt ∧ b = true) := by
  cases f with
  | status =>
      rcases List.mem_cons.1 h with rfl | h
      · exact .inl (List.mem_singleton.2 rfl)
      · split at h
        · rename_i hb
          cases List.mem_singleton.1 h
          exact .inr ⟨rfl, hb⟩
        · cases h
  | _ =>
      simp only [fieldValues, List.mem_cons, List.not_mem_nil, or_false] at h
      rcases h with rfl | rfl | rfl <;> simp [fieldColumns]

theorem exists_mem_fieldValues {column : String} (r : ProductRow) (b : Bool)
    (h : column ∈ fieldColumns f) : ∃ v ∈ r.fieldValues b f, v.1 = column := by
  cases f <;>
    simp only [fieldColumns, List.mem_cons, List.not_mem_nil, or_false] at h <;>
    rcases h with rfl | rfl | rfl <;> simp [fieldValues]

/-- Rows of two records agree in a column when the records agree in what it stores. -/
theorem getElem?_row_congr {p q : Product} {column : String} (h : ofProduct p = .ok r)
    (h' : ofProduct q = .ok r') (hid : p.id = q.id) (hcreated : p.createdAt = q.createdAt)
    (hfield : ∀ f, column ∈ fieldColumns f → f.Same p q)
    (hupdated : column = Layout.updatedAt → p.updatedAt = q.updatedAt)
    (harchived : column = Layout.archivedAt → p.archivedAt = q.archivedAt) :
    r.row[column]? = r'.row[column]? := by
  have hprice : column ∈ fieldColumns .basePrice → p.basePrice = q.basePrice := hfield .basePrice
  have hdiscount : column ∈ fieldColumns .discount → p.discount = q.discount := hfield .discount
  obtain ⟨n, d, hs, rfl⟩ := ofProduct_eq_ok h
  obtain ⟨n', d', hs', rfl⟩ := ofProduct_eq_ok h'
  have hparts : column ∈ fieldColumns .basePrice → n = n' ∧ d = d' := by
    intro hc
    rw [hprice hc, hs'] at hs
    cases hs
    exact ⟨rfl, rfl⟩
  rw [row, row, Row.getElem?_ofList, Row.getElem?_ofList, values, values]
  refine Row.lastValue?_cons_congr (fun _ => by rw [hid]) ?_
  refine Row.lastValue?_cons_congr (fun he => ?_) ?_
  · rw [show p.name = q.name from hfield .name (by simp [fieldColumns, ← he])]
  refine Row.lastValue?_cons_congr (fun he => ?_) ?_
  · rw [show p.description = q.description from hfield .description (by simp [fieldColumns, ← he])]
  refine Row.lastValue?_cons_congr (fun he => ?_) ?_
  · rw [show p.category = q.category from hfield .category (by simp [fieldColumns, ← he])]
  refine Row.lastValue?_cons_congr (fun he => ?_) ?_
  · rw [(hparts (by simp [fieldColumns, ← he])).1]
  refine Row.lastValue?_cons_congr (fun he => ?_) ?_
  · rw [(hparts (by simp [fieldColumns, ← he])).2]
  refine Row.lastValue?_cons_congr (fun he => ?_) ?_
  · rw [hdiscount (by simp [fieldColumns, ← he])]
  refine Row.lastValue?_cons_congr (fun he => ?_) ?_
  · rw [hdiscount (by simp [fieldColumns, ← he])]
  refine Row.lastValue?_cons_congr (fun he => ?_) ?_
  · rw [hdiscount (by simp [fieldColumns, ← he])]
  refine Row.lastValue?_cons_congr (fun he => ?_) ?_
  · rw [(show p.status = q.status ∧ _ from hfield .status (by simp [fieldColumns, ← he])).1]
  refine Row.lastValue?_cons_congr (fun _ => by rw [hcreated]) ?_
  refine Row.lastValue?_cons_congr (fun he => by rw [hupdated he.symm]) ?_
  exact Row.lastValue?_cons_congr (fun he => by rw [harchived he.symm]) rfl

end ProductRow

/-! ## Completing a row -/

variable {row : Row} {p q : Product}

/-- Columns that are set as a changed product has them complete its row, when they cover all that the
product has to account for. -/
theorem Stores.setAll {values : List (String × Value)} {r : ProductRow} (h : Stores row p)
    (ha : Accounted p q) (hr : ProductRow.ofProduct q = .ok r)
    (hset : ∀ v ∈ values, r.row[v.1]? = some v.2)
    (hfields : ∀ f, q.dirty.contains f = true → ∀ column ∈ fieldColumns f, ∃ v ∈ values, v.1 = column)
    (hupdated : ∃ v ∈ values, v.1 = Layout.updatedAt)
    (harchived : q.isArchived = true → q.dirty.contains .status = true
      → ∃ v ∈ values, v.1 = Layout.archivedAt) :
    Stores (row.setAll values) q := by
  obtain ⟨r₀, hr₀, rfl⟩ := h
  refine ⟨r, hr, Row.setAll_eq hset fun column hc => ?_⟩
  -- A column that is not set stores a field that is not dirty, or a time that did not change either.
  refine ProductRow.getElem?_row_congr hr₀ hr ha.id.symm ha.createdAt.symm (fun f hf => ?_)
    (fun he => ?_) fun he => ?_
  · cases hd : q.dirty.contains f with
    | false => exact ha.fields f hd
    | true =>
        obtain ⟨v, hv, he⟩ := hfields f hd column hf
        exact absurd he (hc v hv)
  · obtain ⟨v, hv, hu⟩ := hupdated
    exact absurd (hu.trans he.symm) (hc v hv)
  · by_cases hs : q.status = .archived
    · cases hd : q.dirty.contains .status with
      | false => exact (ha.fields .status hd).2
      | true =>
          obtain ⟨v, hv, hu⟩ := harchived (Product.isArchived_iff.2 hs) hd
          exact absurd (hu.trans he.symm) (hc v hv)
    · exact (ha.archivedAt hs).symm

/-! ## Revisions -/

/-- The values that a revision writes. -/
def revisedValues (r : ProductRow) (q : Product) : List (String × Value) :=
  q.dirty.toList.flatMap (r.fieldValues q.isArchived) ++ [(Layout.updatedAt, .timestamp r.updatedAt)]

variable {r : ProductRow} {m : Mutation}

theorem fieldValues_eq (hr : ProductRow.ofProduct q = .ok r) (f : Field) :
    fieldValues q f = .ok (r.fieldValues q.isArchived f) := by
  obtain ⟨n, d, hs, rfl⟩ := ProductRow.ofProduct_eq_ok hr
  cases f with
  | basePrice =>
      rw [fieldValues, storablePrice, hs]
      rfl
  | _ => rfl

theorem mapM_fieldValues (hr : ProductRow.ofProduct q = .ok r) (fs : List Field) :
    fs.mapM (fieldValues q) = .ok (fs.map (r.fieldValues q.isArchived)) := by
  induction fs with
  | nil => rfl
  | cons f fs ih =>
      rw [List.mapM_cons, fieldValues_eq hr, ih]
      rfl

theorem revision_of_clean (hd : q.dirty = ∅) : revision q = .ok none := by
  simp [revision, FieldSet.isEmpty_iff.2 hd]

theorem revision_of_dirty (hr : ProductRow.ofProduct q = .ok r) (hd : q.dirty ≠ ∅) :
    revision q = .ok (some
      ⟨.update, Layout.products, Layout.productId, .text q.id.text, revisedValues r q⟩) := by
  have hu : r.updatedAt = q.updatedAt := by
    obtain ⟨n, d, _, rfl⟩ := ProductRow.ofProduct_eq_ok hr
    rfl
  rw [revision, if_neg (mt FieldSet.isEmpty_iff.1 hd), mapM_fieldValues hr]
  simp only [Except.map, revisedValues, hu, List.flatMap_def]

theorem exists_mapM_fieldValues {fs : List Field} (h : Field.basePrice ∉ fs) :
    ∃ written, fs.mapM (fieldValues q) = .ok written := by
  induction fs with
  | nil => exact ⟨[], rfl⟩
  | cons f fs ih =>
      obtain ⟨hf, hfs⟩ := not_or.1 (mt List.mem_cons.2 h)
      obtain ⟨written, hw⟩ := ih hfs
      have hvalues : ∃ values, fieldValues q f = .ok values := by
        cases f with
        | basePrice => exact absurd rfl hf
        | _ => exact ⟨_, rfl⟩
      obtain ⟨values, hv⟩ := hvalues
      exact ⟨values :: written, by rw [List.mapM_cons, hv, hw]; rfl⟩

/-- Only a price can be refused, and only one that is written. -/
theorem exists_revision (h : q.dirty.contains .basePrice = false) : ∃ change, revision q = .ok change := by
  by_cases hd : q.dirty = ∅
  · exact ⟨none, revision_of_clean hd⟩
  · have hfs : Field.basePrice ∉ q.dirty.toList := by simp [FieldSet.mem_toList, h]
    obtain ⟨written, hw⟩ := exists_mapM_fieldValues hfs
    rw [revision, if_neg (mt FieldSet.isEmpty_iff.1 hd), hw]
    exact ⟨_, rfl⟩

theorem mapM_cons_eq_ok {α β ε : Type} {g : α → Except ε β} {a : α} {as : List α} {bs : List β}
    (h : (a :: as).mapM g = .ok bs) : ∃ b bs', g a = .ok b ∧ as.mapM g = .ok bs' ∧ bs = b :: bs' := by
  rw [List.mapM_cons] at h
  obtain ⟨b, hb, h⟩ := bind_eq_ok h
  obtain ⟨bs', hbs, h⟩ := bind_eq_ok h
  exact ⟨b, bs', hb, hbs, (Except.ok.inj h).symm⟩

theorem exists_of_mem_mapM {α β ε : Type} {g : α → Except ε β} {as : List α} {bs : List β} {b : β}
    (h : as.mapM g = .ok bs) (hb : b ∈ bs) : ∃ a ∈ as, g a = .ok b := by
  induction as generalizing bs with
  | nil =>
      cases h
      cases hb
  | cons a as ih =>
      obtain ⟨b', bs', ha, has, rfl⟩ := mapM_cons_eq_ok h
      rcases List.mem_cons.1 hb with rfl | hb
      · exact ⟨a, List.mem_cons_self, ha⟩
      · obtain ⟨a', hmem, ha'⟩ := ih has hb
        exact ⟨a', List.mem_cons_of_mem _ hmem, ha'⟩

/-- A revision writes the values of the dirty fields, one field after the other, and the time of the last
change. -/
theorem revision_eq_ok (h : revision q = .ok (some m)) : ∃ written,
    q.dirty.toList.mapM (fieldValues q) = .ok written
      ∧ m = ⟨.update, Layout.products, Layout.productId, .text q.id.text,
        written.flatten ++ [(Layout.updatedAt, .timestamp q.updatedAt)]⟩ := by
  unfold revision at h
  split at h
  · cases h
  · obtain ⟨written, hw, hm⟩ := map_eq_ok h
    exact ⟨written, hw, (Option.some.inj hm).symm⟩

theorem mem_of_revision {v : String × Value} (h : revision q = .ok (some m)) (hv : v ∈ m.values) :
    v = (Layout.updatedAt, .timestamp q.updatedAt)
      ∨ ∃ f values, q.dirty.contains f = true ∧ fieldValues q f = .ok values ∧ v ∈ values := by
  obtain ⟨written, hw, rfl⟩ := revision_eq_ok h
  rcases List.mem_append.1 hv with hv | hv
  · obtain ⟨values, hvalues, hv⟩ := List.mem_flatten.1 hv
    obtain ⟨f, hf, hfv⟩ := exists_of_mem_mapM hw hvalues
    exact .inr ⟨f, values, FieldSet.mem_toList.1 hf, hfv, hv⟩
  · exact .inl (List.mem_singleton.1 hv)

theorem mem_revisedValues {v : String × Value} : v ∈ revisedValues r q
    ↔ (∃ f, q.dirty.contains f = true ∧ v ∈ r.fieldValues q.isArchived f)
      ∨ v = (Layout.updatedAt, .timestamp r.updatedAt) := by
  simp [revisedValues, FieldSet.mem_toList]

theorem writes_revisedValues {column : String} (hm : m.values = revisedValues r q)
    (h : m.writes column = true) : column = Layout.updatedAt
      ∨ (column = Layout.archivedAt ∧ q.isArchived = true)
      ∨ ∃ f, q.dirty.contains f = true ∧ column ∈ fieldColumns f := by
  obtain ⟨v, hv, rfl⟩ := Mutation.writes_iff.1 h
  rw [hm] at hv
  rcases mem_revisedValues.1 hv with ⟨f, hd, hf⟩ | rfl
  · rcases ProductRow.column_of_mem_fieldValues hf with hc | hc
    · exact .inr (.inr ⟨f, hd, hc⟩)
    · exact .inr (.inl hc)
  · exact .inl rfl

/-! ## Updates that are enough -/

/-- An update that makes of a row the one that stores a product. -/
structure Updates (row : Row) (q : Product) (m : Mutation) : Prop where
  kind : m.kind = .update
  address : m.address = productAddress q.id
  values : m.values ≠ []
  stores : Stores (row.setAll m.values) q

/-- The update of the dirty fields is enough when they account for every difference. -/
theorem updates_revision (h : Stores row p) (ha : Accounted p q)
    (hr : ProductRow.ofProduct q = .ok r) : Updates row q
      ⟨.update, Layout.products, Layout.productId, .text q.id.text, revisedValues r q⟩ where
  kind := rfl
  address := rfl
  values := by simp [revisedValues]
  stores := by
    refine h.setAll ha hr ?_ ?_ ?_ ?_
    · intro v hv
      rcases mem_revisedValues.1 hv with ⟨f, _, hf⟩ | rfl
      · exact r.getElem?_row_of_mem_fieldValues hf
      · exact r.getElem?_row_updatedAt
    · intro f hd column hc
      obtain ⟨v, hv, he⟩ := r.exists_mem_fieldValues q.isArchived hc
      exact ⟨v, mem_revisedValues.2 (.inl ⟨f, hd, hv⟩), he⟩
    · exact ⟨_, mem_revisedValues.2 (.inr rfl), rfl⟩
    · intro hs hd
      have hv : (Layout.archivedAt, .timestamp r.archivedAt) ∈ r.fieldValues q.isArchived .status := by
        simp [ProductRow.fieldValues, hs]
      exact ⟨_, mem_revisedValues.2 (.inl ⟨.status, hd, hv⟩), rfl⟩

/-- The update that archives a product is enough when nothing but its status is dirty. -/
theorem updates_archival (h : Stores row p) (ha : Accounted p q)
    (hd : ∀ f, q.dirty.contains f = true → f = .status) : Updates row q (archival q) where
  kind := rfl
  address := rfl
  values := by simp [archival]
  stores := by
    obtain ⟨r, hr⟩ := ProductRow.exists_ofProduct (p := q) (by rw [ha.basePrice]; exact h.storable)
    refine h.setAll ha hr ?_ ?_ ?_ ?_
    · obtain ⟨n, d, _, rfl⟩ := ProductRow.ofProduct_eq_ok hr
      simp +decide [archival, ProductRow.row, ProductRow.values, Row.getElem?_ofList, Row.lastValue?]
    · intro f hf column hc
      cases hd f hf
      simp [archival, List.mem_singleton.1 hc]
    · simp [archival]
    · simp [archival]

end Assortment.Records
