import Assortment.Records.ProductRow
import Assortment.Service.Failure
import Assortment.Storage.Database
import Assortment.Storage.Server

/-!
# Backends

A backend loads products and commits plans: the database in memory, or a database server.
-/
namespace Assortment.Service
open Assortment.Goods Assortment.Records Assortment.Storage

/-- A store of products with states of type `σ`. -/
structure Backend (σ : Type) where
  find : ProductId → σ → Except Failure Product × σ
  apply : Plan → σ → Except StorageError Unit × σ

def loadProduct (db : Database) (id : ProductId) : Except Failure Product :=
  match db.row? Layout.products id.text with
  | none => .error (.notFound id)
  | some row => (ProductRow.ofRow row >>= ProductRow.toProduct).mapError .corrupt

def selectProduct (id : ProductId) : Statement :=
  .select Layout.products Layout.productId Layout.productTable.columnNames (.text id.text)

/-- The product in the answer of a server, whose row is taken to be the one asked for. -/
def productOfAnswer (id : ProductId) (answer : Answer) : Except Failure Product :=
  match answer.row with
  | none => .error (.notFound id)
  | some row =>
      match ProductRow.ofAnswer row with
      | .error fault => .error (.store (.database fault))
      | .ok record => record.toProduct.mapError .corrupt

def queryProduct {σ : Type} (server : Server σ) (id : ProductId) (s : σ) : Except Failure Product × σ :=
  match server.answer (selectProduct id) s with
  | (.error fault, s) => (.error (.store (.database fault)), s)
  | (.ok answer, s) => (productOfAnswer id answer, s)

def Backend.memory : Backend Database where
  find id db := (loadProduct db id, db)
  apply plan db := db.apply plan

def Backend.server {σ : Type} (server : Server σ) : Backend σ where
  find := queryProduct server
  apply := server.apply

end Assortment.Service
