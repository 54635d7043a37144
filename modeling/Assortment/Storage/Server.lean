import Assortment.Storage.Error
import Assortment.Storage.Statement

/-!
# Committing over a database server

A server answers one statement at a time and may change its state. A plan that is not empty runs in one
transaction: the mutations are sent in order up to the first failure, the transaction is committed if
there was none, and rolled back otherwise. Nothing is sent twice.
-/
namespace Assortment.Storage

/-- What a server answers to a statement that succeeds. -/
structure Answer where
  affected : Nat
  /-- The first row that was found. -/
  row : Option Row

/-- A database server with states of type `σ`. -/
structure Server (σ : Type) where
  answer : Statement → σ → Except Fault Answer × σ

namespace Server

variable {σ : Type}

/-- Sends one mutation. An update without columns is refused without asking the server. -/
def execute (server : Server σ) (m : Mutation) (s : σ) : Except StorageError Unit × σ :=
  match m.kind with
  | .insert =>
      match server.answer m.statement s with
      | (.ok _, s) => (.ok (), s)
      | (.error fault, s) =>
          (.error (if fault.isUniqueViolation then .keyTaken m.table m.key.written
            else .database fault), s)
  | .update =>
      if m.values.isEmpty then (.error (.nothingToWrite m.table m.key.written), s)
      else match server.answer m.statement s with
        | (.ok answer, s) =>
            (if answer.affected = 0 then .error (.noSuchRow m.table m.key.written) else .ok (), s)
        | (.error fault, s) => (.error (.database fault), s)

/-- Sends mutations in order, up to the first failure. -/
def executeAll (server : Server σ) : List Mutation → σ → Except StorageError Unit × σ
  | [], s => (.ok (), s)
  | m :: ms, s =>
      match server.execute m s with
      | (.ok _, s) => executeAll server ms s
      | (.error e, s) => (.error e, s)

/-- Gives up a transaction with an error. -/
def abort (server : Server σ) (e : StorageError) (s : σ) : Except StorageError Unit × σ :=
  (.error e, (server.answer .rollback s).2)

/-- Commits a plan in one transaction. An empty plan sends nothing. -/
def apply (server : Server σ) (plan : Plan) (s : σ) : Except StorageError Unit × σ :=
  if plan.isEmpty then (.ok (), s)
  else match server.answer .begin s with
    | (.error fault, s) => (.error (.database fault), s)
    | (.ok _, s) =>
        match server.executeAll plan.mutations s with
        | (.error e, s) => server.abort e s
        | (.ok _, s) =>
            match server.answer .commit s with
            | (.ok _, s) => (.ok (), s)
            | (.error fault, s) => server.abort (.database fault) s

end Server

end Assortment.Storage
