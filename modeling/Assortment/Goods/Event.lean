import Assortment.Goods.Money
import Assortment.Time.Instant

/-!
# What happens to products

An event says to which product what happened when. It carries the values that the product has after it,
as far as they can have changed.
-/
namespace Assortment.Goods
open Assortment.Time

/-- The identifier of a product, an opaque text. -/
@[ext]
structure ProductId where
  text : String
deriving DecidableEq, Inhabited

inductive Occurrence where
  | created (name description category : String) (price : Money)
  | updated (name description category : String)
  | activated
  | deactivated
  | archived
  | discountApplied (percentage : Rat) (start finish : Instant)
  | discountRemoved
deriving DecidableEq

/-- The name under which an occurrence is announced. -/
def Occurrence.type : Occurrence → String
  | created .. => "product.created"
  | updated .. => "product.updated"
  | activated => "product.activated"
  | deactivated => "product.deactivated"
  | archived => "product.archived"
  | discountApplied .. => "product.discount_applied"
  | discountRemoved => "product.discount_removed"

@[ext]
structure Event where
  product : ProductId
  time : Instant
  what : Occurrence
deriving DecidableEq

end Assortment.Goods
