import Assortment.Goods.Event
import Assortment.Text.Json
import Assortment.Text.Ratio
import Assortment.Text.Uuid
import Assortment.Time.Rfc3339

/-!
# Events and identifiers as JSON

The payload of an event is an object with the event's type, product and time, and with what the
occurrence itself carries. Identifiers are strings.
-/
namespace Assortment.Records
open Assortment.Goods Assortment.Text Assortment.Time

/-- A number of a payload, null when it does not fit in 64 bits. -/
def numberOrNull : Option Int64 → Json
  | some n => .int n.toInt
  | none => .null

/-- What every payload says. -/
def commonMembers (e : Event) : List (String × Json) := [
  ("event_type", .str e.what.type),
  ("aggregate_id", .str e.product.text),
  ("occurred_at", .str e.time.rfc3339)]

/-- What the payload of an occurrence says besides. -/
def occurrenceMembers : Occurrence → List (String × Json)
  | .created name description category price => [
      ("name", .str name),
      ("description", .str description),
      ("category", .str category),
      ("base_price_numerator", numberOrNull price.numerator?),
      ("base_price_denominator", numberOrNull price.denominator?)]
  | .updated name description category => [
      ("name", .str name),
      ("description", .str description),
      ("category", .str category)]
  | .discountApplied percentage start finish => [
      ("discount_percentage", .str (Ratio.encode percentage)),
      ("start_date", .str start.rfc3339),
      ("end_date", .str finish.rfc3339)]
  | .activated | .deactivated | .archived | .discountRemoved => []

def payload (e : Event) : Json :=
  .object (commonMembers e ++ occurrenceMembers e.what)

def productIdJson (id : ProductId) : Json := .str id.text

def readProductId? : Json → Option ProductId
  | .str s => some ⟨s⟩
  | _ => none

def uuidJson (u : Uuid) : Json := .str u.text

def readUuid? : Json → Option Uuid
  | .str s => Uuid.read? s
  | _ => none

end Assortment.Records
