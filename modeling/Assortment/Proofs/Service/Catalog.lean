import Assortment.Service.Run

/-!
# The catalog that the service is

Seen from outside, the service is a map from identifiers to entries. There are no rows in it, no dirty
fields and nothing to put back: a command either is refused and leaves the map alone, or sets one entry.
-/

namespace Assortment.Service
open Assortment.Goods Assortment.Records Assortment.Storage Assortment.Text Assortment.Time

/-! ## Entries -/

/-- What a catalog says of a product. -/
structure Entry where
  name : String
  description : String
  category : String
  price : Money
  discount : Option Discount
  status : Status
  createdAt : Instant
  updatedAt : Instant
  archivedAt : Option Instant

namespace Entry

/-- The product of an entry, with nothing left to store or announce. -/
def product (e : Entry) (id : ProductId) : Product where
  id := id
  name := e.name
  description := e.description
  category := e.category
  basePrice := e.price
  discount := e.discount
  status := e.status
  createdAt := e.createdAt
  updatedAt := e.updatedAt
  archivedAt := e.archivedAt

/-- The entry of a new product. -/
def draft (name description category : String) (price : Money) (now : Instant) : Entry where
  name := trim name
  description := trim description
  category := trim category
  price := price
  discount := none
  status := .draft
  createdAt := now
  updatedAt := now
  archivedAt := none

/-- What a change makes of an entry, and what is announced if it comes to anything. -/
def respond (e : Entry) (now : Instant) : Change → Except Refusal (Entry × Option Occurrence)
  | .update name description category =>
      if e.status = .archived then .error .archived
      else if isBlank name then .error .invalidName
      else if isBlank category then .error .invalidCategory
      else if e.name = trim name ∧ e.description = trim description ∧ e.category = trim category then
        .ok (e, none)
      else .ok (
        { e with
          name := trim name
          description := trim description
          category := trim category
          updatedAt := now },
        some (.updated (trim name) (trim description) (trim category)))
  | .activate =>
      match e.status with
      | .draft | .inactive => .ok ({ e with status := .active, updatedAt := now }, some .activated)
      | .active => .error .alreadyActive
      | .archived => .error .archived
  | .deactivate =>
      match e.status with
      | .active => .ok ({ e with status := .inactive, updatedAt := now }, some .deactivated)
      | .inactive => .error .alreadyInactive
      | .draft => .error .notActive
      | .archived => .error .archived
  | .archive =>
      if e.status = .archived then .error .archived
      else .ok ({ e with status := .archived, updatedAt := now, archivedAt := some now }, some .archived)
  | .grantDiscount d =>
      match e.status with
      | .draft | .inactive => .error .notActive
      | .archived => .error .archived
      | .active =>
          if d.finish ≤ now then .error .invalidDiscountPeriod
          else .ok ({ e with discount := some d, updatedAt := now },
            some (.discountApplied d.percentage d.start d.finish))
  | .dropDiscount =>
      if e.status = .archived then .error .archived
      else match e.discount with
        | none => .error .noDiscountToRemove
        | some _ => .ok ({ e with discount := none, updatedAt := now }, some .discountRemoved)

end Entry

/-- The change that a request asks for, once its input is found to be in order. -/
def inspect : Request → Except Refusal Change
  | .update name description category =>
      if isBlank name then .error .invalidName
      else if isBlank category then .error .invalidCategory
      else .ok (.update name description category)
  | .activate => .ok .activate
  | .deactivate => .ok .deactivate
  | .archive => .ok .archive
  | .grantDiscount percentage start finish =>
      match Discount.make percentage start finish with
      | .ok d => .ok (.grantDiscount d)
      | .error r => .error r
  | .dropDiscount => .ok .dropDiscount

/-- Whether a command is about a product that is not there yet. -/
def Command.isCreation : Command → Bool
  | create .. => true
  | alter .. => false

/-! ## Catalogs -/

/-- A map from identifiers to entries, and whether the next change of it is made to fail. -/
structure Catalog where
  entries : ProductId → Option Entry
  armed : Bool

namespace Catalog

/-- The catalog without entries. -/
def empty : Catalog := ⟨fun _ => none, false⟩

/-- The catalog with the entry under an identifier set. -/
def set (c : Catalog) (id : ProductId) (e : Entry) : Catalog :=
  { c with entries := fun i => if i = id then some e else c.entries i }

/-- What the catalog says of a product. -/
def get (c : Catalog) (id : ProductId) : Except Failure Product :=
  match c.entries id with
  | none => .error (.notFound id)
  | some e => .ok (e.product id)

/-- The entry that a command asks to set, and what is announced if it comes to anything: first the input is
checked, then the entry has to be there, then it has to agree. -/
def answer (c : Catalog) (now : Instant) : Command → Except Failure (Entry × Option Occurrence)
  | .create id name description category price =>
      if isBlank id.text then .error (.refused .invalidId)
      else if isBlank name then .error (.refused .invalidName)
      else if isBlank category then .error (.refused .invalidCategory)
      else if price.isPositive && price.storable?.isSome then
        .ok (.draft name description category price now,
          some (.created (trim name) (trim description) (trim category) price))
      else .error (.refused .invalidBasePrice)
  | .alter id request =>
      if isBlank id.text then .error (.refused .invalidId)
      else match inspect request with
        | .error r => .error (.refused r)
        | .ok change =>
            match c.entries id with
            | none => .error (.notFound id)
            | some e => (e.respond now change).mapError .refused

/-- Carries out a command. When there is something to set, an armed failure comes before a taken
identifier. -/
def execute (c : Catalog) (now : Instant) (command : Command) : Except Failure Receipt × Catalog :=
  let id := command.product
  match c.answer now command with
  | .error f => (.error f, c)
  | .ok (e, none) => (.ok ⟨e.product id, []⟩, c)
  | .ok (e, some what) =>
      if c.armed then (.error (.store Database.injectedFailure), { c with armed := false })
      else if command.isCreation && (c.entries id).isSome then
        (.error (.store (.keyTaken Layout.products id.text)), c)
      else (.ok ⟨e.product id, [⟨id, now, what⟩]⟩, c.set id e)

end Catalog

/-! ## Runs -/

/-- What can be asked for: a command at a time, a product, or that the next commit fails. -/
inductive Call where
  | execute (now : Instant) (command : Command)
  | get (id : ProductId)
  | arm

/-- What is answered. -/
inductive Reply where
  | receipt (result : Except Failure Receipt)
  | product (result : Except Failure Product)
  | armed

/-- Answers a call from the catalog. -/
def Catalog.call (c : Catalog) : Call → Reply × Catalog
  | .execute now command => (.receipt (c.execute now command).1, (c.execute now command).2)
  | .get id => (.product (c.get id), c)
  | .arm => (.armed, { c with armed := true })

/-- Answers a call from the service over the database in memory. -/
def State.call (state : State Database) : Call → Reply × State Database
  | .execute now command =>
      (.receipt (executeAt .memory now command state).1.result, (executeAt .memory now command state).2)
  | .get id => (.product (get .memory id state).1, (get .memory id state).2)
  | .arm => (.armed, { state with store := state.store.arm })

/-- A service over an empty database that has drawn no identifier yet. -/
def State.start (clock : Clock) (nth : Nat → Uuid) : State Database :=
  { store := ∅, clock := clock, eventIds := ⟨nth, 0⟩ }

/-- Answers calls one after the other. -/
def replies {σ : Type} (step : σ → Call → Reply × σ) (s : σ) : List Call → List Reply × σ
  | [] => ([], s)
  | call :: calls =>
      ((step s call).1 :: (replies step (step s call).2 calls).1, (replies step (step s call).2 calls).2)

end Assortment.Service
