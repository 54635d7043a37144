/-!
# Errors of a store

Why a commit failed, or a row could not be read, with the wording of each cause.
-/
namespace Assortment.Storage

/-- What went wrong between the program and a database server. -/
inductive Fault where
  /-- No connection could be had; the server was not asked. -/
  | unavailable
  /-- The connection broke while the server was asked. -/
  | lost
  | reported (code message : String)
  /-- A column of an answer is missing or does not hold what was asked for. -/
  | unreadable (column : String)
deriving DecidableEq

/-- The code with which a server reports that a key is taken. -/
def uniqueViolation : String := "23505"

namespace Fault

def isUniqueViolation : Fault → Bool
  | reported code _ => code == uniqueViolation
  | _ => false

def message : Fault → String
  | unavailable => "attempted to acquire a connection on a closed pool"
  | lost => "connection lost"
  | reported _ message => "error returned from database: " ++ message
  | unreadable column => "error occurred while decoding column " ++ column

end Fault

/-- Why a store did not do what was asked. -/
inductive StorageError where
  | keyTaken (table key : String)
  | noSuchRow (table key : String)
  | nothingToWrite (table key : String)
  | aborted (reason : String)
  | database (fault : Fault)
deriving DecidableEq

namespace StorageError

def message : StorageError → String
  | keyTaken table key => "Duplicate key in " ++ table ++ ": " ++ key
  | noSuchRow table key => "Row not found in " ++ table ++ ": " ++ key
  | nothingToWrite table key => "Update of " ++ table ++ ":" ++ key ++ " has no columns"
  | aborted reason => "Commit failed: " ++ reason
  | database fault => "Database error: " ++ fault.message

end StorageError

end Assortment.Storage
