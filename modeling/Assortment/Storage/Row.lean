import Assortment.Storage.Value
import Std.Data.ExtTreeMap

/-!
# Rows

A row holds one value for each of its columns, in the order of the column names.
-/
namespace Assortment.Storage
open Assortment.Text Assortment.Time

/-- The values of a row by column name. -/
abbrev Row := Std.ExtTreeMap String Value

namespace Row

/-- Sets several columns, one after the other. -/
def setAll (row : Row) (values : List (String × Value)) : Row :=
  values.foldl (fun r v => r.insert v.1 v.2) row

/-- The row with the given columns, the last of equal names winning. -/
def ofList (values : List (String × Value)) : Row := setAll ∅ values

def text? (row : Row) (column : String) : Option String := row[column]?.bind Value.text?

def int? (row : Row) (column : String) : Option Int64 := row[column]?.bind Value.int?

def timestamp? (row : Row) (column : String) : Option Instant := row[column]?.bind Value.timestamp?

def json? (row : Row) (column : String) : Option Json := row[column]?.bind Value.json?

def uuid? (row : Row) (column : String) : Option Uuid := row[column]?.bind Value.uuid?

@[simp]
theorem setAll_nil (row : Row) : setAll row [] = row := rfl

@[simp]
theorem setAll_cons (row : Row) (v : String × Value) (values : List (String × Value)) :
    setAll row (v :: values) = setAll (row.insert v.1 v.2) values := rfl

/-- The value that a list of columns gives to one of them, the last of equal names winning. -/
def lastValue? (column : String) : List (String × Value) → Option Value
  | [] => none
  | v :: vs => (lastValue? column vs).or (if v.1 = column then some v.2 else none)

/-- After columns are set each has its last value, and the others keep theirs. -/
theorem getElem?_setAll (row : Row) (values : List (String × Value)) (column : String) :
    (setAll row values)[column]? = (lastValue? column values).or row[column]? := by
  induction values generalizing row with
  | nil => simp [lastValue?]
  | cons v vs ih =>
      rw [setAll_cons, ih, lastValue?, Std.ExtTreeMap.getElem?_insert]
      simp only [Std.LawfulEqCmp.compare_eq_iff_eq]
      split <;> simp

theorem getElem?_ofList (values : List (String × Value)) (column : String) :
    (ofList values)[column]? = lastValue? column values := by
  simp [ofList, getElem?_setAll]

end Row

end Assortment.Storage
