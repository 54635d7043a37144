import Assortment.Goods.Refusal
import Assortment.Goods.Status

/-!
# Corrupt records

Why a stored row cannot be turned back into a product or an outbox entry, with the wording of each
cause.
-/
namespace Assortment.Records
open Assortment.Goods

structure UnknownOutboxStatus where
  found : String
deriving DecidableEq

def UnknownOutboxStatus.message (e : UnknownOutboxStatus) : String :=
  "unknown outbox status: " ++ e.found

/-- What is wrong with the row of a product. -/
inductive ProductFault where
  | missing (column : String)
  | status (e : UnknownStatus)
  | unreadableDiscount (text : String)
  | refusedDiscount (r : Refusal)
  | partialDiscount
deriving DecidableEq

def ProductFault.message : ProductFault → String
  | missing column => "missing " ++ column
  | status e => e.message
  | unreadableDiscount text => "bad discount " ++ text
  | refusedDiscount r => r.message
  | partialDiscount => "partial discount"

/-- Why a stored row is no record. -/
inductive Corruption where
  | productWithoutId
  | product (id : String) (fault : ProductFault)
  | outboxMissing (column : String)
  | outboxStatus (e : UnknownOutboxStatus)
deriving DecidableEq

def Corruption.message : Corruption → String
  | productWithoutId => "product row without id"
  | product id fault => "product " ++ id ++ ": " ++ fault.message
  | outboxMissing column => "outbox row missing " ++ column
  | outboxStatus e => e.message

/-- The given value, or the error when there is none. -/
def require {α ε : Type} (found : Option α) (error : ε) : Except ε α :=
  match found with
  | some a => .ok a
  | none => .error error

theorem require_eq_ok {α ε : Type} {found : Option α} {error : ε} {a : α} :
    require found error = .ok a ↔ found = some a := by
  cases found <;> simp [require]

end Assortment.Records
