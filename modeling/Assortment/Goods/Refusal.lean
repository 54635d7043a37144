/-!
# Reasons to refuse

Why a product or one of its values is refused, with the wording of each reason. A reason about the input
alone is told apart from one about the state of the product.
-/
namespace Assortment.Goods

/-- Why a product refuses a change, or a value is not one. -/
inductive Refusal where
  | invalidId
  | invalidName
  | invalidCategory
  | invalidBasePrice
  | notActive
  | archived
  | alreadyActive
  | alreadyInactive
  | invalidDiscountPercentage
  | invalidDiscountPeriod
  | noDiscountToRemove
deriving DecidableEq

namespace Refusal

def message : Refusal → String
  | invalidId => "invalid ID"
  | invalidName => "invalid product name"
  | invalidCategory => "invalid product category"
  | invalidBasePrice => "base price must be positive"
  | notActive => "product is not active"
  | archived => "product is archived"
  | alreadyActive => "product is already active"
  | alreadyInactive => "product is already inactive"
  | invalidDiscountPercentage => "discount percentage must be between 0 and 100"
  | invalidDiscountPeriod => "discount end date must be after start date"
  | noDiscountToRemove => "product has no discount to remove"

/-- Whether the reason lies in the input and not in the state of the product. -/
def isValidation : Refusal → Bool
  | invalidId | invalidName | invalidCategory | invalidBasePrice
  | invalidDiscountPercentage | invalidDiscountPeriod => true
  | notActive | archived | alreadyActive | alreadyInactive | noDiscountToRemove => false

end Refusal

end Assortment.Goods
