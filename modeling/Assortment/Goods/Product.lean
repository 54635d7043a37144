import Assortment.Goods.Discount
import Assortment.Goods.Event
import Assortment.Goods.Field
import Assortment.Goods.Status
import Assortment.Text.Blank

/-!
# Products

A product guards its own rules. Every change that takes effect marks the fields that it wrote, sets the
time of the last change and queues one event; a refused change leaves the product as it was, and so does
an update that brings no new text.
-/
namespace Assortment.Goods
open Assortment.Text Assortment.Time

/-- A product, with the fields that are not stored yet and the events that are not announced yet. -/
@[ext]
structure Product where
  id : ProductId
  name : String
  description : String
  category : String
  basePrice : Money
  discount : Option Discount
  status : Status
  createdAt : Instant
  updatedAt : Instant
  archivedAt : Option Instant
  dirty : FieldSet := ∅
  pending : List Event := []
deriving DecidableEq

namespace Product

def typeName : String := "Product"

/-- The fields that a new product has to store. -/
def initialFields : FieldSet :=
  (∅ : FieldSet).insertAll [.name, .description, .category, .basePrice, .status]

/-- A new draft. The texts are trimmed, and the price has to be storable. -/
def create (id : ProductId) (name description category : String) (price : Money) (now : Instant) :
    Except Refusal Product :=
  if isBlank id.text then .error .invalidId
  else if isBlank name then .error .invalidName
  else if isBlank category then .error .invalidCategory
  else if !price.isPositive || price.storable?.isNone then .error .invalidBasePrice
  else .ok {
    id := id
    name := trim name
    description := trim description
    category := trim category
    basePrice := price
    discount := none
    status := .draft
    createdAt := now
    updatedAt := now
    archivedAt := none
    dirty := initialFields
    pending := [⟨id, now, .created (trim name) (trim description) (trim category) price⟩] }

def isActive (p : Product) : Bool := p.status == .active

def isArchived (p : Product) : Bool := p.status == .archived

def withoutEvents (p : Product) : Product := { p with pending := [] }

/-- The product once all its changes are stored and announced. -/
def committed (p : Product) : Product := { p with dirty := ∅, pending := [] }

/-- Records that a field was written and something happened. -/
def record (p : Product) (field : Field) (what : Occurrence) (now : Instant) : Product :=
  { p with
    updatedAt := now
    dirty := p.dirty.insert field
    pending := p.pending ++ [⟨p.id, now, what⟩] }

def differingTexts (p : Product) (name description category : String) : List Field :=
  (if p.name = name then [] else [.name])
    ++ (if p.description = description then [] else [.description])
    ++ (if p.category = category then [] else [.category])

/-- Takes over three texts, of which only those that differ are written. -/
def retext (p : Product) (name description category : String) (now : Instant) : Product :=
  match p.differingTexts name description category with
  | [] => p
  | fields =>
      { p with
        name := name
        description := description
        category := category
        updatedAt := now
        dirty := p.dirty.insertAll fields
        pending := p.pending ++ [⟨p.id, now, .updated name description category⟩] }

def update (p : Product) (name description category : String) (now : Instant) :
    Except Refusal Product :=
  if p.isArchived then .error .archived
  else if isBlank name then .error .invalidName
  else if isBlank category then .error .invalidCategory
  else .ok (p.retext (trim name) (trim description) (trim category) now)

def activate (p : Product) (now : Instant) : Except Refusal Product :=
  match p.status with
  | .archived => .error .archived
  | .active => .error .alreadyActive
  | .draft | .inactive => .ok ({ p with status := .active }.record .status .activated now)

def deactivate (p : Product) (now : Instant) : Except Refusal Product :=
  match p.status with
  | .archived => .error .archived
  | .inactive => .error .alreadyInactive
  | .draft => .error .notActive
  | .active => .ok ({ p with status := .inactive }.record .status .deactivated now)

def archive (p : Product) (now : Instant) : Except Refusal Product :=
  if p.status.allowsArchiving then
    .ok ({ p with status := .archived, archivedAt := some now }.record .status .archived now)
  else .error .archived

/-- Gives the product a discount in place of the one it may have. It may start later, but must not be
over. -/
def grantDiscount (p : Product) (d : Discount) (now : Instant) : Except Refusal Product :=
  if p.isArchived then .error .archived
  else if !p.status.allowsDiscount then .error .notActive
  else if d.isOver now then .error .invalidDiscountPeriod
  else .ok ({ p with discount := some d }.record .discount
    (.discountApplied d.percentage d.start d.finish) now)

def dropDiscount (p : Product) (now : Instant) : Except Refusal Product :=
  if p.isArchived then .error .archived
  else if p.discount.isNone then .error .noDiscountToRemove
  else .ok ({ p with discount := none }.record .discount .discountRemoved now)

end Product

inductive Change where
  | update (name description category : String)
  | activate
  | deactivate
  | archive
  | grantDiscount (d : Discount)
  | dropDiscount
deriving DecidableEq

def Product.perform (p : Product) (c : Change) (now : Instant) : Except Refusal Product :=
  match c with
  | .update name description category => p.update name description category now
  | .activate => p.activate now
  | .deactivate => p.deactivate now
  | .archive => p.archive now
  | .grantDiscount d => p.grantDiscount d now
  | .dropDiscount => p.dropDiscount now

end Assortment.Goods
