import Assortment.Storage.Mutation

/-!
# SQL statements

A statement has a text with numbered placeholders and the values bound to them in order. Names of tables
and columns go into the text, values never do: a mutation's text depends on its kind and names only.
-/
namespace Assortment.Storage
open Assortment.Text

/-- What is sent to a database server. -/
inductive Statement where
  | begin
  | commit
  | rollback
  | run (text : String) (values : List Value)
deriving DecidableEq

namespace Statement

def text : Statement → String
  | begin => "BEGIN"
  | commit => "COMMIT"
  | rollback => "ROLLBACK"
  | run text _ => text

/-- The values bound to the placeholders, for a statement that has any. -/
def values? : Statement → Option (List Value)
  | run _ values => some values
  | _ => none

/-- Items with a comma and a blank between. -/
def commaChars : List (List Char) → List Char
  | [] => []
  | [a] => a
  | a :: b :: rest => a ++ ',' :: ' ' :: commaChars (b :: rest)

/-- The placeholder for the value with the given number, counted from one. -/
def placeholderChars (i : Nat) : List Char := '$' :: natDigits i

/-- Placeholders for so many values, from the first on. -/
def placeholders (n : Nat) : List (List Char) := (List.range n).map fun i => placeholderChars (i + 1)

def assignmentChars (column : String) (i : Nat) : List Char :=
  column.toList ++ " = ".toList ++ placeholderChars i

/-- The insert of a row with the given columns. -/
def insertChars (table : String) (columns : List String) : List Char :=
  "INSERT INTO ".toList ++ table.toList ++ " (".toList ++ commaChars (columns.map String.toList)
    ++ ") VALUES (".toList ++ commaChars (placeholders columns.length) ++ [')']

/-- The update of the given columns in the row whose key column has the last value. -/
def updateChars (table keyColumn : String) (columns : List String) : List Char :=
  "UPDATE ".toList ++ table.toList ++ " SET ".toList
    ++ commaChars (columns.mapIdx fun i c => assignmentChars c (i + 1))
    ++ " WHERE ".toList ++ assignmentChars keyColumn (columns.length + 1)

/-- The reading of the given columns of the row whose key column has the bound value. -/
def selectChars (table keyColumn : String) (columns : List String) : List Char :=
  "SELECT ".toList ++ commaChars (columns.map String.toList) ++ " FROM ".toList ++ table.toList
    ++ " WHERE ".toList ++ assignmentChars keyColumn 1

/-- Reads the row with the given key. -/
def select (table keyColumn : String) (columns : List String) (key : Value) : Statement :=
  run (String.ofList (selectChars table keyColumn columns)) [key]

end Statement

namespace Mutation

/-- The names of the columns that are written besides the key column. -/
def columns (m : Mutation) : List String := m.values.map (·.1)

/-- The statement that carries the mutation out. An insert binds the key first, an update last. -/
def statement (m : Mutation) : Statement :=
  match m.kind with
  | .insert =>
      .run (String.ofList (Statement.insertChars m.table (m.keyColumn :: m.columns)))
        (m.key :: m.values.map (·.2))
  | .update =>
      .run (String.ofList (Statement.updateChars m.table m.keyColumn m.columns))
        (m.values.map (·.2) ++ [m.key])

end Mutation

end Assortment.Storage
