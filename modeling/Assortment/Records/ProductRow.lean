import Assortment.Goods.Product
import Assortment.Records.Corruption
import Assortment.Records.Layout
import Assortment.Storage.Error
import Assortment.Storage.Mutation
import Assortment.Text.Ratio

/-!
# Products as rows

A product is stored flat, one column for each part; its discount takes three columns that are null
together. A new product is inserted whole, a changed one is updated in the columns of its dirty fields
and in the time of its last change.
-/
namespace Assortment.Records
open Assortment.Goods Assortment.Storage Assortment.Text Assortment.Time

@[ext]
structure ProductRow where
  id : String
  name : String
  description : String
  category : String
  priceNumerator : Int64
  priceDenominator : Int64
  /-- The percentage as an exact ratio. -/
  discountPercent : Option String
  discountStart : Option Instant
  discountEnd : Option Instant
  status : String
  createdAt : Instant
  updatedAt : Instant
  archivedAt : Option Instant
deriving DecidableEq

/-- The parts of a price that can be stored. -/
def storablePrice (price : Money) : Except Refusal (Int64 × Int64) :=
  require price.storable? .invalidBasePrice

namespace ProductRow

/-- The stored form of a product, if its price can be stored. -/
def ofProduct (p : Product) : Except Refusal ProductRow :=
  (storablePrice p.basePrice).map fun (numerator, denominator) => {
    id := p.id.text
    name := p.name
    description := p.description
    category := p.category
    priceNumerator := numerator
    priceDenominator := denominator
    discountPercent := p.discount.map fun d => Ratio.encode d.percentage
    discountStart := p.discount.map (·.start)
    discountEnd := p.discount.map (·.finish)
    status := p.status.text
    createdAt := p.createdAt
    updatedAt := p.updatedAt
    archivedAt := p.archivedAt }

/-- Reads a stored row. A description that is not there is empty; whatever the optional columns hold
besides a value of their type counts as nothing. -/
def ofRow (row : Row) : Except Corruption ProductRow := do
  let id ← require (row.text? Layout.productId) Corruption.productWithoutId
  let missing (column : String) := Corruption.product id (.missing column)
  let text (column : String) := require (row.text? column) (missing column)
  let int (column : String) := require (row.int? column) (missing column)
  let timestamp (column : String) := require (row.timestamp? column) (missing column)
  let name ← text Layout.name
  let category ← text Layout.category
  let priceNumerator ← int Layout.priceNumerator
  let priceDenominator ← int Layout.priceDenominator
  let status ← text Layout.status
  let createdAt ← timestamp Layout.createdAt
  let updatedAt ← timestamp Layout.updatedAt
  return {
    id := id
    name := name
    description := (row.text? Layout.description).getD ""
    category := category
    priceNumerator := priceNumerator
    priceDenominator := priceDenominator
    discountPercent := row.text? Layout.discountPercent
    discountStart := row.timestamp? Layout.discountStart
    discountEnd := row.timestamp? Layout.discountEnd
    status := status
    createdAt := createdAt
    updatedAt := updatedAt
    archivedAt := row.timestamp? Layout.archivedAt }

/-- A value of a column that must not be null, taken out by its type. -/
def column {α : Type} (row : Row) (name : String) (read : Value → Option α) : Except Fault α :=
  require (row[name]?.bind read) (.unreadable name)

/-- A value of a column that may be a null of any type. -/
def optionalColumn {α : Type} (row : Row) (name : String) (read : Value → Option α) :
    Except Fault (Option α) :=
  match row[name]? with
  | some v => if v.isNull then .ok none else (require (read v) (.unreadable name)).map some
  | none => .error (.unreadable name)

/-- Reads a row that a server answered with. Every column has to be there with a value of its type, and
only the discount and the time of archiving may be null. -/
def ofAnswer (row : Row) : Except Fault ProductRow := do
  return {
    id := ← column row Layout.productId Value.text?
    name := ← column row Layout.name Value.text?
    description := ← column row Layout.description Value.text?
    category := ← column row Layout.category Value.text?
    priceNumerator := ← column row Layout.priceNumerator Value.int?
    priceDenominator := ← column row Layout.priceDenominator Value.int?
    discountPercent := ← optionalColumn row Layout.discountPercent Value.text?
    discountStart := ← optionalColumn row Layout.discountStart Value.timestamp?
    discountEnd := ← optionalColumn row Layout.discountEnd Value.timestamp?
    status := ← column row Layout.status Value.text?
    createdAt := ← column row Layout.createdAt Value.timestamp?
    updatedAt := ← column row Layout.updatedAt Value.timestamp?
    archivedAt := ← optionalColumn row Layout.archivedAt Value.timestamp? }

def readDiscount (percent : String) (start finish : Instant) : Except ProductFault Discount :=
  match Ratio.decode? percent with
  | none => .error (.unreadableDiscount percent)
  | some percentage => (Discount.make percentage start finish).mapError .refusedDiscount

/-- The discount of a record: all three columns or none. -/
def discount? (r : ProductRow) : Except ProductFault (Option Discount) :=
  match r.discountPercent, r.discountStart, r.discountEnd with
  | some percent, some start, some finish => (readDiscount percent start finish).map some
  | none, none, none => .ok none
  | _, _, _ => .error .partialDiscount

/-- The product that a record stores, with nothing left to store or announce. The status is checked
before the discount. -/
def toProduct (r : ProductRow) : Except Corruption Product :=
  Except.mapError (Corruption.product r.id) do
    let status ← (Status.read r.status).mapError .status
    let discount ← r.discount?
    return {
      id := ⟨r.id⟩
      name := r.name
      description := r.description
      category := r.category
      basePrice := Money.ofParts r.priceNumerator r.priceDenominator
      discount := discount
      status := status
      createdAt := r.createdAt
      updatedAt := r.updatedAt
      archivedAt := r.archivedAt }

/-- The values of all columns besides the key. -/
def values (r : ProductRow) : List (String × Value) := [
  (Layout.name, .text r.name),
  (Layout.description, .text r.description),
  (Layout.category, .text r.category),
  (Layout.priceNumerator, .int r.priceNumerator),
  (Layout.priceDenominator, .int r.priceDenominator),
  (Layout.discountPercent, .text r.discountPercent),
  (Layout.discountStart, .timestamp r.discountStart),
  (Layout.discountEnd, .timestamp r.discountEnd),
  (Layout.status, .text r.status),
  (Layout.createdAt, .timestamp r.createdAt),
  (Layout.updatedAt, .timestamp r.updatedAt),
  (Layout.archivedAt, .timestamp r.archivedAt)]

end ProductRow

/-- The values of the discount columns, nulls of their types when there is none. -/
def discountValues (d : Option Discount) : List (String × Value) := [
  (Layout.discountPercent, .text (d.map fun d => Ratio.encode d.percentage)),
  (Layout.discountStart, .timestamp (d.map (·.start))),
  (Layout.discountEnd, .timestamp (d.map (·.finish)))]

/-- The values of the columns that store a field of a product. -/
def fieldValues (p : Product) : Field → Except Refusal (List (String × Value))
  | .name => .ok [(Layout.name, .text p.name)]
  | .description => .ok [(Layout.description, .text p.description)]
  | .category => .ok [(Layout.category, .text p.category)]
  | .basePrice => (storablePrice p.basePrice).map fun (numerator, denominator) => [
      (Layout.priceNumerator, .int numerator), (Layout.priceDenominator, .int denominator)]
  | .discount => .ok (discountValues p.discount)
  | .status => .ok <|
      (Layout.status, .text p.status.text)
        :: (if p.isArchived then [(Layout.archivedAt, .timestamp p.archivedAt)] else [])

def insertion (p : Product) : Except Refusal Mutation :=
  (ProductRow.ofProduct p).map fun row =>
    ⟨.insert, Layout.products, Layout.productId, .text row.id, row.values⟩

/-- The update of the dirty fields and of the time of the last change, if there is a dirty field. -/
def revision (p : Product) : Except Refusal (Option Mutation) :=
  if p.dirty.isEmpty then .ok none
  else (p.dirty.toList.mapM (fieldValues p)).map fun values =>
    some ⟨.update, Layout.products, Layout.productId, .text p.id.text,
      values.flatten ++ [(Layout.updatedAt, .timestamp p.updatedAt)]⟩

/-- The update that archives a product. -/
def archival (p : Product) : Mutation :=
  ⟨.update, Layout.products, Layout.productId, .text p.id.text, [
    (Layout.status, .text p.status.text),
    (Layout.updatedAt, .timestamp p.updatedAt),
    (Layout.archivedAt, .timestamp p.archivedAt)]⟩

end Assortment.Records
