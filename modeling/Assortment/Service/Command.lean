import Assortment.Goods.Product

/-!
# Commands and their input checks

A command creates a product or asks something of one that is there. What can be told from the input
alone is checked before anything is loaded: the identifier first, then the texts, then the price or the
discount.
-/
namespace Assortment.Service
open Assortment.Goods Assortment.Text Assortment.Time

/-- What can be asked of a product that is there. -/
inductive Request where
  | update (name description category : String)
  | activate
  | deactivate
  | archive
  | grantDiscount (percentage : Rat) (start finish : Instant)
  | dropDiscount
deriving DecidableEq

inductive Command where
  | create (id : ProductId) (name description category : String) (price : Money)
  | alter (id : ProductId) (request : Request)
deriving DecidableEq

def checkId (id : ProductId) : Except Refusal Unit :=
  if isBlank id.text then .error .invalidId else .ok ()

/-- Refuses a blank text for the given reason. -/
def checkText (s : String) (reason : Refusal) : Except Refusal Unit :=
  if isBlank s then .error reason else .ok ()

namespace Request

/-- The name under which the request is counted. -/
def name : Request → String
  | update .. => "update_product"
  | activate => "activate_product"
  | deactivate => "deactivate_product"
  | archive => "archive_product"
  | grantDiscount .. => "apply_discount"
  | dropDiscount => "remove_discount"

/-- The change that the request comes to, once its discount is built. -/
def change : Request → Except Refusal Change
  | update name description category => .ok (.update name description category)
  | activate => .ok .activate
  | deactivate => .ok .deactivate
  | archive => .ok .archive
  | grantDiscount percentage start finish =>
      (Discount.make percentage start finish).map .grantDiscount
  | dropDiscount => .ok .dropDiscount

def check : Request → Except Refusal Unit
  | update name _ category => do
      checkText name .invalidName
      checkText category .invalidCategory
  | grantDiscount percentage start finish =>
      (Discount.make percentage start finish).map fun _ => ()
  | activate | deactivate | archive | dropDiscount => .ok ()

end Request

namespace Command

/-- The name under which the command is counted. -/
def name : Command → String
  | create .. => "create_product"
  | alter _ request => request.name

def product : Command → ProductId
  | create id .. => id
  | alter id _ => id

def check : Command → Except Refusal Unit
  | create id name _ category price => do
      checkId id
      checkText name .invalidName
      checkText category .invalidCategory
      if price.isPositive then .ok () else .error .invalidBasePrice
  | alter id request => do
      checkId id
      request.check

end Command

end Assortment.Service
