import Assortment.Records.Corruption
import Assortment.Records.Layout
import Assortment.Records.Payload
import Assortment.Storage.Mutation

/-!
# The outbox

An outbox entry announces an event. It is written pending, in the same transaction as the change that
it tells of, and is marked later, once it was delivered or could not be.
-/
namespace Assortment.Records
open Assortment.Goods Assortment.Storage Assortment.Text Assortment.Time

/-- How far the delivery of an entry has come. -/
inductive OutboxStatus where
  | pending
  | processed
  | failed
deriving DecidableEq, Inhabited

namespace OutboxStatus

def text : OutboxStatus → String
  | pending => "pending"
  | processed => "processed"
  | failed => "failed"

def read (s : String) : Except UnknownOutboxStatus OutboxStatus :=
  if s = "pending" then .ok pending
  else if s = "processed" then .ok processed
  else if s = "failed" then .ok failed
  else .error ⟨s⟩

/-- Whether this is the status of a new entry. -/
def isInitial (s : OutboxStatus) : Bool := s == default

end OutboxStatus

@[ext]
structure OutboxEntry where
  eventId : Uuid
  eventType : String
  aggregateId : String
  payload : Json
  status : OutboxStatus
  createdAt : Instant
  processedAt : Option Instant
deriving DecidableEq

namespace OutboxEntry

/-- The pending entry for an event, made at the time of the event. -/
def ofEvent (eventId : Uuid) (e : Event) : OutboxEntry where
  eventId := eventId
  eventType := e.what.type
  aggregateId := e.product.text
  payload := Records.payload e
  status := .pending
  createdAt := e.time
  processedAt := none

/-- The values of all columns besides the key. -/
def values (o : OutboxEntry) : List (String × Value) := [
  (Layout.eventType, .text o.eventType),
  (Layout.aggregateId, .text o.aggregateId),
  (Layout.payload, .json o.payload),
  (Layout.status, .text o.status.text),
  (Layout.createdAt, .timestamp o.createdAt),
  (Layout.processedAt, .timestamp o.processedAt)]

def insertion (o : OutboxEntry) : Mutation :=
  ⟨.insert, Layout.outboxEvents, Layout.eventId, .uuid o.eventId, o.values⟩

/-- The update that marks an entry as delivered at a time. -/
def noteDelivery (eventId : Uuid) (t : Instant) : Mutation :=
  ⟨.update, Layout.outboxEvents, Layout.eventId, .uuid eventId, [
    (Layout.status, .text OutboxStatus.processed.text), (Layout.processedAt, .timestamp t)]⟩

/-- The update that marks an entry as not delivered. -/
def noteFailure (eventId : Uuid) : Mutation :=
  ⟨.update, Layout.outboxEvents, Layout.eventId, .uuid eventId, [
    (Layout.status, .text OutboxStatus.failed.text)]⟩

/-- Reads a stored row. The status is looked at first. -/
def ofRow (row : Row) : Except Corruption OutboxEntry := do
  let statusText ← require (row.text? Layout.status) (.outboxMissing Layout.status)
  let status ← (OutboxStatus.read statusText).mapError .outboxStatus
  let eventId ← require (row.uuid? Layout.eventId) (.outboxMissing Layout.eventId)
  let eventType ← require (row.text? Layout.eventType) (.outboxMissing Layout.eventType)
  let aggregateId ← require (row.text? Layout.aggregateId) (.outboxMissing Layout.aggregateId)
  let payload ← require (row.json? Layout.payload) (.outboxMissing Layout.payload)
  let createdAt ← require (row.timestamp? Layout.createdAt) (.outboxMissing Layout.createdAt)
  return {
    eventId := eventId
    eventType := eventType
    aggregateId := aggregateId
    payload := payload
    status := status
    createdAt := createdAt
    processedAt := row.timestamp? Layout.processedAt }

end OutboxEntry

end Assortment.Records
