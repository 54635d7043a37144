import Assortment.Goods.Event
import Assortment.Records.Corruption
import Assortment.Storage.Error

/-!
# Failures of the service

Why a command or a query was not answered: the product refuses, there is no such product, the store
failed, or a stored row is corrupt.
-/
namespace Assortment.Service
open Assortment.Goods Assortment.Records Assortment.Storage

/-- Why the service did not do what was asked. -/
inductive Failure where
  | refused (reason : Refusal)
  | notFound (id : ProductId)
  | store (error : StorageError)
  | corrupt (corruption : Corruption)
deriving DecidableEq

def Failure.message : Failure → String
  | refused reason => reason.message
  | notFound id => "product not found: " ++ id.text
  | store error => error.message
  | corrupt corruption => "corrupt record: " ++ corruption.message

end Assortment.Service
