import Assortment.Storage.Value

/-!
# The stored layout

The two tables, with the name and the type of each column and whether it may be null. The first column
of a table is its key.
-/
namespace Assortment.Records
open Assortment.Storage

structure Column where
  name : String
  type : ColumnType
  nullable : Bool := false
deriving DecidableEq

/-- A table: its key column and the others. -/
structure Table where
  name : String
  key : Column
  others : List Column
deriving DecidableEq

def Table.columnNames (t : Table) : List String := t.key.name :: t.others.map (·.name)

namespace Layout

abbrev products : String := "products"
abbrev outboxEvents : String := "outbox_events"

abbrev productId : String := "product_id"
abbrev name : String := "name"
abbrev description : String := "description"
abbrev category : String := "category"
abbrev priceNumerator : String := "base_price_numerator"
abbrev priceDenominator : String := "base_price_denominator"
abbrev discountPercent : String := "discount_percent"
abbrev discountStart : String := "discount_start"
abbrev discountEnd : String := "discount_end"
abbrev status : String := "status"
abbrev createdAt : String := "created_at"
abbrev updatedAt : String := "updated_at"
abbrev archivedAt : String := "archived_at"

abbrev eventId : String := "event_id"
abbrev eventType : String := "event_type"
abbrev aggregateId : String := "aggregate_id"
abbrev payload : String := "payload"
abbrev processedAt : String := "processed_at"

/-- The current state of every product. -/
def productTable : Table where
  name := products
  key := ⟨productId, .text, false⟩
  others := [
    ⟨name, .text, false⟩,
    ⟨description, .text, false⟩,
    ⟨category, .text, false⟩,
    ⟨priceNumerator, .int, false⟩,
    ⟨priceDenominator, .int, false⟩,
    ⟨discountPercent, .text, true⟩,
    ⟨discountStart, .timestamp, true⟩,
    ⟨discountEnd, .timestamp, true⟩,
    ⟨status, .text, false⟩,
    ⟨createdAt, .timestamp, false⟩,
    ⟨updatedAt, .timestamp, false⟩,
    ⟨archivedAt, .timestamp, true⟩]

/-- The events that wait to be passed on. -/
def outboxTable : Table where
  name := outboxEvents
  key := ⟨eventId, .uuid, false⟩
  others := [
    ⟨eventType, .text, false⟩,
    ⟨aggregateId, .text, false⟩,
    ⟨payload, .json, false⟩,
    ⟨status, .text, false⟩,
    ⟨createdAt, .timestamp, false⟩,
    ⟨processedAt, .timestamp, true⟩]

end Layout

end Assortment.Records
