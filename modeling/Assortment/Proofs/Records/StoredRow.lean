import Assortment.Proofs.Goods.Window
import Assortment.Proofs.Storage.Row
import Assortment.Records.Outbox
import Assortment.Records.ProductRow
import Assortment.Storage.Database

/-!
# Rows that store products and outbox entries

The row that an insert leaves is read back as what was inserted: a product without anything to store or
announce, or an outbox entry.
-/

namespace Assortment.Records
open Assortment.Goods Assortment.Storage Assortment.Text Assortment.Time

/-! ## Results -/

variable {α β ε ε' : Type}

@[simp]
theorem mapError_ok (f : ε → ε') (a : α) : (Except.ok a : Except ε α).mapError f = .ok a := rfl

@[simp]
theorem mapError_error (f : ε → ε') (e : ε) : (Except.error e : Except ε α).mapError f = .error (f e) := rfl

theorem mapError_eq_ok_iff {f : ε → ε'} {x : Except ε α} {a : α} : x.mapError f = .ok a ↔ x = .ok a := by
  cases x <;> simp

theorem mapError_eq_ok {f : ε → ε'} {x : Except ε α} {a : α} (h : x.mapError f = .ok a) : x = .ok a :=
  mapError_eq_ok_iff.1 h

theorem map_eq_ok {f : α → β} {x : Except ε α} {b : β} (h : x.map f = .ok b) : ∃ a, x = .ok a ∧ f a = b := by
  cases x with
  | error e => cases h
  | ok a => exact ⟨a, rfl, Except.ok.inj h⟩

theorem bind_eq_ok_iff {f : α → Except ε β} {x : Except ε α} {b : β} :
    (x >>= f) = .ok b ↔ ∃ a, x = .ok a ∧ f a = .ok b := by
  cases x <;> simp [bind, Except.bind]

theorem bind_eq_ok {f : α → Except ε β} {x : Except ε α} {b : β} (h : (x >>= f) = .ok b) :
    ∃ a, x = .ok a ∧ f a = .ok b :=
  bind_eq_ok_iff.1 h

/-! ## Values of products -/

theorem readDiscount_encode (d : Discount) :
    ProductRow.readDiscount (Ratio.encode d.percentage) d.start d.finish = .ok d := by
  rw [ProductRow.readDiscount, Ratio.decode?_encode]
  simp only [Discount.make_self]
  rfl

/-! ## Addresses -/

/-- Where the row of a product is kept. -/
def productAddress (id : ProductId) : Address := ⟨Layout.products, id.text⟩

/-- Where the outbox entry with an identifier is kept. -/
def entryAddress (id : Uuid) : Address := ⟨Layout.outboxEvents, id.text⟩

theorem products_ne_outboxEvents : Layout.products ≠ Layout.outboxEvents := by
  decide

theorem productAddress_ne (id : ProductId) (key : String) :
    productAddress id ≠ ⟨Layout.outboxEvents, key⟩ :=
  fun h => products_ne_outboxEvents (Address.ext_iff.1 h).1

theorem productAddress_ne_entryAddress (id : ProductId) (uid : Uuid) :
    productAddress id ≠ entryAddress uid :=
  productAddress_ne id uid.text

/-! ## Rows of products -/

namespace ProductRow

/-- The row that stores a record. -/
def row (r : ProductRow) : Row := Row.ofList ((Layout.productId, .text r.id) :: r.values)

theorem ofRow_row (r : ProductRow) : ofRow r.row = .ok r := by
  simp +decide [ofRow, row, values, Row.text?, Row.int?, Row.timestamp?, Row.getElem?_ofList,
    Row.lastValue?, Value.text?, Value.int?, Value.timestamp?, require, bind, Except.bind, pure,
    Except.pure]

theorem ofProduct_eq_ok {p : Product} {r : ProductRow} (h : ofProduct p = .ok r) :
    ∃ n d, p.basePrice.storable? = some (n, d) ∧ r = {
      id := p.id.text
      name := p.name
      description := p.description
      category := p.category
      priceNumerator := n
      priceDenominator := d
      discountPercent := p.discount.map fun d => Ratio.encode d.percentage
      discountStart := p.discount.map (·.start)
      discountEnd := p.discount.map (·.finish)
      status := p.status.text
      createdAt := p.createdAt
      updatedAt := p.updatedAt
      archivedAt := p.archivedAt } := by
  obtain ⟨⟨n, d⟩, hs, hr⟩ := map_eq_ok h
  exact ⟨n, d, require_eq_ok.1 hs, hr.symm⟩

theorem exists_ofProduct {p : Product} (h : p.basePrice.storable?.isSome) :
    ∃ r, ofProduct p = .ok r := by
  obtain ⟨parts, hs⟩ := Option.isSome_iff_exists.1 h
  exact ⟨_, by rw [ofProduct, storablePrice, hs]; rfl⟩

/-- A record is turned back into the product that it was made of, apart from what was left to store or
announce. -/
theorem toProduct_of_ofProduct {p : Product} {r : ProductRow} (h : ofProduct p = .ok r) :
    r.toProduct = .ok p.committed := by
  obtain ⟨n, d, hs, rfl⟩ := ofProduct_eq_ok h
  simp only [toProduct, discount?, Status.read_text, Money.ofParts_of_storable hs]
  cases hd : p.discount with
  | none => simp [bind, Except.bind, pure, Except.pure, Product.committed, hd]
  | some discount =>
      simp [readDiscount_encode, bind, Except.bind, pure, Except.pure, Except.map,
        Product.committed, hd]

end ProductRow

/-- A row stores a product when the insert of the product would leave it. -/
def Stores (row : Row) (p : Product) : Prop :=
  ∃ r, ProductRow.ofProduct p = .ok r ∧ row = r.row

namespace Stores

variable {row : Row} {p : Product}

theorem exists_of_storable (h : p.basePrice.storable?.isSome) : ∃ row, Stores row p := by
  obtain ⟨r, hr⟩ := ProductRow.exists_ofProduct h
  exact ⟨_, r, hr, rfl⟩

theorem storable (h : Stores row p) : p.basePrice.storable?.isSome := by
  obtain ⟨r, hr, _⟩ := h
  obtain ⟨n, d, hs, _⟩ := ProductRow.ofProduct_eq_ok hr
  rw [hs]; rfl

theorem committed_iff : Stores row p.committed ↔ Stores row p := Iff.rfl

theorem read (h : Stores row p) :
    (ProductRow.ofRow row >>= ProductRow.toProduct) = .ok p.committed := by
  obtain ⟨r, hr, rfl⟩ := h
  rw [ProductRow.ofRow_row]
  exact ProductRow.toProduct_of_ofProduct hr

/-- The insert of a product leaves the row that stores it, under the product's identifier. -/
theorem insertion_eq (h : Stores row p) :
    ∃ m, insertion p = .ok m ∧ m.kind = .insert ∧ m.address = productAddress p.id
      ∧ m.row = row := by
  obtain ⟨r, hr, rfl⟩ := h
  have hid : r.id = p.id.text := by
    obtain ⟨n, d, _, rfl⟩ := ProductRow.ofProduct_eq_ok hr
    rfl
  refine ⟨⟨.insert, Layout.products, Layout.productId, .text r.id, r.values⟩, ?_, rfl, ?_, rfl⟩
  · rw [insertion, hr]
    rfl
  · simp [Mutation.address, Value.written, productAddress, hid]

end Stores

/-! ## Rows of outbox entries -/

namespace OutboxEntry

/-- The row that stores an entry. -/
def row (o : OutboxEntry) : Row := o.insertion.row

theorem ofRow_row (o : OutboxEntry) : ofRow o.row = .ok o := by
  cases hs : o.status <;>
    simp +decide [ofRow, row, insertion, Mutation.row, values, hs, Row.text?, Row.json?, Row.uuid?,
      Row.timestamp?, Row.getElem?_ofList, Row.lastValue?, Value.text?, Value.json?, Value.uuid?,
      Value.timestamp?, OutboxStatus.read, OutboxStatus.text, require, bind, Except.bind,
      pure, Except.pure, OutboxEntry.ext_iff]

theorem uuid?_row (o : OutboxEntry) : o.row.uuid? Layout.eventId = some o.eventId := by
  simp +decide [row, insertion, Mutation.row, values, Row.uuid?, Row.getElem?_ofList, Row.lastValue?,
    Value.uuid?]

theorem text?_row_aggregateId (o : OutboxEntry) : o.row.text? Layout.aggregateId = some o.aggregateId := by
  simp +decide [row, insertion, Mutation.row, values, Row.text?, Row.getElem?_ofList, Row.lastValue?,
    Value.text?]

theorem getElem?_row_processedAt (o : OutboxEntry) :
    o.row[Layout.processedAt]? = some (.timestamp o.processedAt) := by
  simp +decide [row, insertion, Mutation.row, values, Row.getElem?_ofList, Row.lastValue?]

theorem setAll_noteDelivery (o : OutboxEntry) (id : Uuid) (t : Instant) :
    o.row.setAll (noteDelivery id t).values
      = ({ o with status := .processed, processedAt := some t } : OutboxEntry).row := by
  apply Row.setAll_eq
  · simp +decide [noteDelivery, row, insertion, Mutation.row, values, Row.getElem?_ofList, Row.lastValue?]
  · intro column h
    simp only [noteDelivery, List.mem_cons, List.not_mem_nil, or_false, forall_eq_or_imp, forall_eq] at h
    simp [row, insertion, Mutation.row, values, Row.getElem?_ofList, Row.lastValue?, h]

theorem setAll_noteFailure (o : OutboxEntry) (id : Uuid) :
    o.row.setAll (noteFailure id).values = ({ o with status := .failed } : OutboxEntry).row := by
  apply Row.setAll_eq
  · simp +decide [noteFailure, row, insertion, Mutation.row, values, Row.getElem?_ofList, Row.lastValue?]
  · intro column h
    simp only [noteFailure, List.mem_cons, List.not_mem_nil, or_false, forall_eq] at h
    simp [row, insertion, Mutation.row, values, Row.getElem?_ofList, Row.lastValue?, h]

end OutboxEntry

end Assortment.Records
