import Assortment.Storage.Server

/-!
# Scripted servers

A server that answers from a list and writes down what it was sent. A rollback uses up no answer; when
the list is used up every statement succeeds and concerns one row.
-/
namespace Assortment.Storage

inductive Reply where
  | affected (rows : Nat)
  | failure (code message : String)
deriving DecidableEq

structure Script where
  isOpen : Bool := true
  /-- The row that every reading finds. -/
  row : Option Row := none
  replies : List Reply := []
  /-- The statements that were sent, in order. -/
  sent : List Statement := []

namespace Script

def interpret (s : Script) : Reply → Except Fault Answer
  | .affected n => .ok ⟨n, s.row⟩
  | .failure code message => .error (.reported code message)

/-- Answers a statement from the script. -/
def answer (statement : Statement) (s : Script) : Except Fault Answer × Script :=
  if !s.isOpen then (.error .unavailable, s)
  else
    let noted := { s with sent := s.sent ++ [statement] }
    match statement, s.replies with
    | .rollback, _ | _, [] => (s.interpret (.affected 1), noted)
    | _, reply :: rest => (s.interpret reply, { noted with replies := rest })

def server : Server Script := ⟨answer⟩

end Script

end Assortment.Storage
