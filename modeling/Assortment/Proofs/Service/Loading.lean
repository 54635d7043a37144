import Assortment.Proofs.Records.Codec
import Assortment.Proofs.Text.Ratio
import Assortment.Service.Backend
import Mathlib.Tactic.MkIffOfInductiveProp

/-!
# Rows that can be loaded

Which rows can be loaded as a product, told column by column: the columns that are needed, the form of the status,
and the three columns of the discount, which count as one. Whatever else a row holds makes no difference.
-/

namespace Assortment.Goods

theorem Status.read_eq_ok_iff {s : String} {status : Status} : Status.read s = .ok status ↔ s = status.text := by
  constructor
  · intro h
    unfold Status.read at h
    split_ifs at h with hs hs hs hs
    all_goals
      cases h
      exact hs
  · rintro rfl
    exact status.read_text

/-- The four forms in which a status is stored. -/
theorem Status.mem_texts_iff {s : String} :
    s ∈ ["draft", "active", "inactive", "archived"] ↔ ∃ status : Status, s = status.text := by
  constructor
  · intro h
    simp only [List.mem_cons, List.not_mem_nil, or_false] at h
    rcases h with rfl | rfl | rfl | rfl
    · exact ⟨.draft, rfl⟩
    · exact ⟨.active, rfl⟩
    · exact ⟨.inactive, rfl⟩
    · exact ⟨.archived, rfl⟩
  · rintro ⟨status, rfl⟩
    cases status <;> simp [Status.text]

end Assortment.Goods

namespace Assortment.Records
open Assortment.Goods Assortment.Storage Assortment.Text Assortment.Time

variable {row : Row} {r : ProductRow}

namespace ProductRow

/-- Whether a record has what the columns of a row say. -/
structure Copies (r : ProductRow) (row : Row) : Prop where
  id : row.text? Layout.productId = some r.id
  name : row.text? Layout.name = some r.name
  description : (row.text? Layout.description).getD "" = r.description
  category : row.text? Layout.category = some r.category
  priceNumerator : row.int? Layout.priceNumerator = some r.priceNumerator
  priceDenominator : row.int? Layout.priceDenominator = some r.priceDenominator
  discountPercent : row.text? Layout.discountPercent = r.discountPercent
  discountStart : row.timestamp? Layout.discountStart = r.discountStart
  discountEnd : row.timestamp? Layout.discountEnd = r.discountEnd
  status : row.text? Layout.status = some r.status
  createdAt : row.timestamp? Layout.createdAt = some r.createdAt
  updatedAt : row.timestamp? Layout.updatedAt = some r.updatedAt
  archivedAt : row.timestamp? Layout.archivedAt = r.archivedAt

theorem ofRow_eq_ok_iff : ofRow row = .ok r ↔ r.Copies row := by
  constructor
  · intro h
    simp only [ofRow, bind_eq_ok_iff, require_eq_ok] at h
    obtain ⟨id, hid, name, hname, category, hcategory, n, hn, d, hd, status, hstatus, created, hcreated,
      updated, hupdated, h⟩ := h
    cases h
    exact ⟨hid, hname, rfl, hcategory, hn, hd, rfl, rfl, rfl, hstatus, hcreated, hupdated, rfl⟩
  · intro h
    simp only [ofRow, bind_eq_ok_iff, require_eq_ok]
    refine ⟨_, h.id, _, h.name, _, h.category, _, h.priceNumerator, _, h.priceDenominator, _, h.status, _,
      h.createdAt, _, h.updatedAt, ?_⟩
    rw [h.description, h.discountPercent, h.discountStart, h.discountEnd, h.archivedAt]
    rfl

theorem exists_toProduct_iff :
    (∃ p, r.toProduct = .ok p) ↔ (∃ s : Status, r.status = s.text) ∧ ∃ d, r.discount? = .ok d := by
  constructor
  · rintro ⟨p, hp⟩
    obtain ⟨status, discount, hs, hd, _⟩ := toProduct_eq_ok hp
    exact ⟨⟨status, Status.read_eq_ok_iff.1 hs⟩, discount, hd⟩
  · rintro ⟨⟨status, hs⟩, discount, hd⟩
    rw [toProduct, Status.read_eq_ok_iff.2 hs, hd]
    exact ⟨_, rfl⟩

theorem exists_readDiscount_iff {percent : String} {start finish : Instant} :
    (∃ d, readDiscount percent start finish = .ok d) ↔ ∃ q, Ratio.Spells percent.toList q
      ∧ 0 < q ∧ q ≤ 100 ∧ start.floorMicro < finish.floorMicro := by
  unfold readDiscount
  constructor
  · rintro ⟨d, hd⟩
    split at hd
    · cases hd
    · rename_i q hq
      exact ⟨q, Ratio.decode?_eq_some_iff.1 hq, Discount.exists_make_iff.1 ⟨d, mapError_eq_ok hd⟩⟩
  · rintro ⟨q, hspells, hq⟩
    obtain ⟨d, hd⟩ := Discount.exists_make_iff.2 hq
    rw [Ratio.decode?_eq_some_iff.2 hspells]
    exact ⟨d, congrArg (Except.mapError _) hd⟩

theorem exists_discount_iff : (∃ d, r.discount? = .ok d)
    ↔ (r.discountPercent = none ∧ r.discountStart = none ∧ r.discountEnd = none)
      ∨ ∃ percent start finish, r.discountPercent = some percent ∧ r.discountStart = some start
        ∧ r.discountEnd = some finish ∧ ∃ d, readDiscount percent start finish = .ok d := by
  unfold discount?
  cases r.discountPercent with
  | none => cases r.discountStart <;> cases r.discountEnd <;> simp
  | some percent =>
      cases r.discountStart with
      | none => cases r.discountEnd <;> simp
      | some start =>
          cases r.discountEnd with
          | none => simp
          | some finish => cases hd : readDiscount percent start finish <;> simp [Except.map, hd]

end ProductRow

/-! ## What is needed of a row -/

/-- Whether no column of a row that is about a discount holds a value of its type. -/
@[mk_iff]
structure WithoutDiscount (row : Row) : Prop where
  percent : ∀ s, row[Layout.discountPercent]? ≠ some (.text (some s))
  start : ∀ t, row[Layout.discountStart]? ≠ some (.timestamp (some t))
  finish : ∀ t, row[Layout.discountEnd]? ≠ some (.timestamp (some t))

/-- Whether all columns of a row that are about a discount hold a value of their type, and these make one: a
percentage above 0 and at most 100, and a period that is not empty once it is cut to microseconds. -/
def WithDiscount (row : Row) : Prop :=
  ∃ percent start finish, row[Layout.discountPercent]? = some (.text (some percent))
    ∧ row[Layout.discountStart]? = some (.timestamp (some start))
    ∧ row[Layout.discountEnd]? = some (.timestamp (some finish))
    ∧ ∃ q, Ratio.Spells percent.toList q ∧ 0 < q ∧ q ≤ 100 ∧ start.floorMicro < finish.floorMicro

/-- Whether a product can be read from a row. -/
@[mk_iff]
structure Readable (row : Row) : Prop where
  id : ∃ s, row[Layout.productId]? = some (.text (some s))
  name : ∃ s, row[Layout.name]? = some (.text (some s))
  category : ∃ s, row[Layout.category]? = some (.text (some s))
  priceNumerator : ∃ n, row[Layout.priceNumerator]? = some (.int (some n))
  priceDenominator : ∃ n, row[Layout.priceDenominator]? = some (.int (some n))
  createdAt : ∃ t, row[Layout.createdAt]? = some (.timestamp (some t))
  updatedAt : ∃ t, row[Layout.updatedAt]? = some (.timestamp (some t))
  status : ∃ s ∈ ["draft", "active", "inactive", "archived"], row[Layout.status]? = some (.text (some s))
  discount : WithoutDiscount row ∨ WithDiscount row

theorem withoutDiscount_iff_none : WithoutDiscount row ↔ row.text? Layout.discountPercent = none
    ∧ row.timestamp? Layout.discountStart = none ∧ row.timestamp? Layout.discountEnd = none := by
  simp only [withoutDiscount_iff, Option.eq_none_iff_forall_ne_some, ne_eq, Row.text?_eq_some,
    Row.timestamp?_eq_some]

theorem withDiscount_iff_some : WithDiscount row ↔ ∃ percent start finish,
    row.text? Layout.discountPercent = some percent ∧ row.timestamp? Layout.discountStart = some start
      ∧ row.timestamp? Layout.discountEnd = some finish
      ∧ ∃ d, ProductRow.readDiscount percent start finish = .ok d := by
  simp only [WithDiscount, Row.text?_eq_some, Row.timestamp?_eq_some, ProductRow.exists_readDiscount_iff]

theorem ProductRow.Copies.exists_discount_iff (h : r.Copies row) :
    (∃ d, r.discount? = .ok d) ↔ WithoutDiscount row ∨ WithDiscount row := by
  rw [ProductRow.exists_discount_iff, withoutDiscount_iff_none, withDiscount_iff_some, h.discountPercent,
    h.discountStart, h.discountEnd]

theorem Readable.exists_copies (h : Readable row) :
    ∃ r : ProductRow, r.Copies row ∧ ∃ status : Status, r.status = status.text := by
  obtain ⟨id, hid⟩ := h.id
  obtain ⟨name, hname⟩ := h.name
  obtain ⟨category, hcategory⟩ := h.category
  obtain ⟨n, hn⟩ := h.priceNumerator
  obtain ⟨d, hd⟩ := h.priceDenominator
  obtain ⟨created, hcreated⟩ := h.createdAt
  obtain ⟨updated, hupdated⟩ := h.updatedAt
  obtain ⟨status, hknown, hstatus⟩ := h.status
  refine ⟨{
    id := id
    name := name
    description := (row.text? Layout.description).getD ""
    category := category
    priceNumerator := n
    priceDenominator := d
    discountPercent := row.text? Layout.discountPercent
    discountStart := row.timestamp? Layout.discountStart
    discountEnd := row.timestamp? Layout.discountEnd
    status := status
    createdAt := created
    updatedAt := updated
    archivedAt := row.timestamp? Layout.archivedAt }, ?_, Status.mem_texts_iff.1 hknown⟩
  constructor <;> simp only [Row.text?_eq_some, Row.int?_eq_some, Row.timestamp?_eq_some] <;> assumption

/-- A product is read from exactly the readable rows. -/
theorem exists_read_iff : (∃ p, (ProductRow.ofRow row >>= ProductRow.toProduct) = .ok p) ↔ Readable row := by
  simp only [bind_eq_ok_iff, ProductRow.ofRow_eq_ok_iff]
  constructor
  · rintro ⟨p, r, hr, hp⟩
    obtain ⟨hstatus, hdiscount⟩ := ProductRow.exists_toProduct_iff.1 ⟨p, hp⟩
    exact {
      id := ⟨_, Row.text?_eq_some.1 hr.id⟩
      name := ⟨_, Row.text?_eq_some.1 hr.name⟩
      category := ⟨_, Row.text?_eq_some.1 hr.category⟩
      priceNumerator := ⟨_, Row.int?_eq_some.1 hr.priceNumerator⟩
      priceDenominator := ⟨_, Row.int?_eq_some.1 hr.priceDenominator⟩
      createdAt := ⟨_, Row.timestamp?_eq_some.1 hr.createdAt⟩
      updatedAt := ⟨_, Row.timestamp?_eq_some.1 hr.updatedAt⟩
      status := ⟨_, Status.mem_texts_iff.2 hstatus, Row.text?_eq_some.1 hr.status⟩
      discount := hr.exists_discount_iff.1 hdiscount }
  · intro h
    obtain ⟨r, hr, hstatus⟩ := h.exists_copies
    obtain ⟨p, hp⟩ := ProductRow.exists_toProduct_iff.2 ⟨hstatus, hr.exists_discount_iff.2 h.discount⟩
    exact ⟨p, r, hr, hp⟩

/-- The description and the time of archiving make no difference. -/
theorem readable_congr {row' : Row} (h : ∀ column, column ≠ Layout.description → column ≠ Layout.archivedAt →
    row'[column]? = row[column]?) : Readable row' ↔ Readable row := by
  simp (disch := decide) only [readable_iff, withoutDiscount_iff, WithDiscount, h]

end Assortment.Records

namespace Assortment.Service
open Assortment.Goods Assortment.Records Assortment.Storage Assortment.Text Assortment.Time

theorem memory_find {db : Database} {id : ProductId} {row : Row} (h : db.row? Layout.products id.text = some row) :
    (Backend.memory.find id db).1 = (ProductRow.ofRow row >>= ProductRow.toProduct).mapError .corrupt := by
  simp [Backend.memory, loadProduct, h]

/-- What is kept under the identifier of a product is loaded exactly if it is readable, and else reported as
corrupt. Neither the description nor the time of archiving has a say in it. -/
theorem loads_readable {db : Database} {id : ProductId} {row : Row}
    (h : db.row? Layout.products id.text = some row) :
    ((∃ p, (Backend.memory.find id db).1 = .ok p) ↔ Readable row)
    ∧ (¬ Readable row → ∃ corruption, (Backend.memory.find id db).1 = .error (.corrupt corruption))
    ∧ ∀ (db' : Database) (row' : Row), db'.row? Layout.products id.text = some row' →
      (∀ column, column ≠ Layout.description → column ≠ Layout.archivedAt → row'[column]? = row[column]?) →
      ((∃ p, (Backend.memory.find id db').1 = .ok p) ↔ ∃ p, (Backend.memory.find id db).1 = .ok p) := by
  have hiff : ∀ {db : Database} {row : Row}, db.row? Layout.products id.text = some row →
      ((∃ p, (Backend.memory.find id db).1 = .ok p) ↔ Readable row) := by
    intro db row h
    rw [memory_find h, ← exists_read_iff]
    simp only [mapError_eq_ok_iff]
  refine ⟨hiff h, fun hnot => ?_, fun db' row' h' hsame => ?_⟩
  · rw [← exists_read_iff] at hnot
    rw [memory_find h]
    cases hread : ProductRow.ofRow row >>= ProductRow.toProduct with
    | error corruption => exact ⟨corruption, rfl⟩
    | ok p => exact absurd ⟨p, hread⟩ hnot
  · rw [hiff h, hiff h', readable_congr hsame]

/-- A database that keeps a row in the place of the lamp. -/
def lampDatabase (row : Row) : Database := { rows := (∅ : Rows).insert (productAddress ⟨"lamp"⟩) row }

/-- A lamp with a number for its description and a word for its time of archiving. -/
def oddLamp : Row :=
  (ProductRow.lampRow.row.insert Layout.description (.int (some 5))).insert Layout.archivedAt (.text (some "never"))

/-- A lamp whose discount has no end. -/
def halfLamp : Row := ProductRow.lampRow.row.insert Layout.discountEnd (.timestamp none)

theorem loads_readable_lamp :
    (∃ p, (Backend.memory.find ⟨"lamp"⟩ (lampDatabase ProductRow.lampRow.row)).1 = .ok p)
    ∧ (∃ p, (Backend.memory.find ⟨"lamp"⟩ (lampDatabase oddLamp)).1 = .ok p)
    ∧ ∃ corruption,
      (Backend.memory.find ⟨"lamp"⟩ (lampDatabase halfLamp)).1 = .error (.corrupt corruption) := by
  have hkept : ∀ row, (lampDatabase row).row? Layout.products (ProductId.mk "lamp").text = some row := by
    intro row
    simp [lampDatabase, Database.row?, productAddress]
  have hreadable : Readable ProductRow.lampRow.row := by
    refine ⟨⟨"lamp", rfl⟩, ⟨"Lamp", rfl⟩, ⟨"Light", rfl⟩, ⟨-3998, rfl⟩, ⟨-200, rfl⟩, ⟨.epoch, rfl⟩, ⟨.epoch, rfl⟩,
      ⟨"active", by simp, rfl⟩, .inr ⟨"+0_5/2_0", ⟨-1001, by decide, by decide⟩, ⟨-999, by decide, by decide⟩,
        rfl, rfl, rfl, 1 / 4, ?_, by decide +kernel, by decide +kernel, by decide⟩⟩
    exact Ratio.decode?_eq_some_iff.1 (by decide +kernel)
  have hloaded := (loads_readable (hkept ProductRow.lampRow.row)).1.2 hreadable
  refine ⟨hloaded, ?_, ?_⟩
  · refine ((loads_readable (hkept ProductRow.lampRow.row)).2.2 _ _ (hkept oddLamp) ?_).2 hloaded
    intro column hdescription harchived
    simp [oddLamp, Std.ExtTreeMap.getElem?_insert, Ne.symm hdescription, Ne.symm harchived]
  · refine (loads_readable (hkept halfLamp)).2.1 fun h => ?_
    rcases h.discount with hnone | ⟨_, _, _, _, _, hend, _⟩
    · exact hnone.percent "+0_5/2_0" rfl
    · cases hend

end Assortment.Service
