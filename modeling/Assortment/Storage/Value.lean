import Assortment.Text.Json
import Assortment.Text.Uuid
import Assortment.Time.Rfc3339

/-!
# Column values

A value has one of five types and may be a null of its type. Its text, which also serves as the key of a
row, is the value's written form, and `NULL` for every null.
-/
namespace Assortment.Storage
open Assortment.Text Assortment.Time

/-- The types of column values. -/
inductive ColumnType where
  | text
  | int
  | timestamp
  | json
  | uuid
deriving DecidableEq

/-- A column value, possibly a null of its type. -/
inductive Value where
  | text (v : Option String)
  | int (v : Option Int64)
  | timestamp (v : Option Instant)
  | json (v : Option Json)
  | uuid (v : Option Uuid)
deriving DecidableEq

namespace Value

/-- The type of a value, also of a null. -/
def type : Value → ColumnType
  | text _ => .text
  | int _ => .int
  | timestamp _ => .timestamp
  | json _ => .json
  | uuid _ => .uuid

/-- The null of a type. -/
def null : ColumnType → Value
  | .text => text none
  | .int => int none
  | .timestamp => timestamp none
  | .json => json none
  | .uuid => uuid none

/-- Whether the value is a null of its type. -/
def isNull : Value → Bool
  | text v => v.isNone
  | int v => v.isNone
  | timestamp v => v.isNone
  | json v => v.isNone
  | uuid v => v.isNone

/-- The text in a text value. -/
def text? : Value → Option String
  | text v => v
  | _ => none

/-- The integer in an integer value. -/
def int? : Value → Option Int64
  | int v => v
  | _ => none

/-- The instant in a timestamp value. -/
def timestamp? : Value → Option Instant
  | timestamp v => v
  | _ => none

/-- The JSON value in a JSON value. -/
def json? : Value → Option Json
  | json v => v
  | _ => none

/-- The UUID in a UUID value. -/
def uuid? : Value → Option Uuid
  | uuid v => v
  | _ => none

/-- The written form, `NULL` for every null. -/
def written : Value → String
  | text (some v) => v
  | int (some v) => String.ofList (intDigits v.toInt)
  | timestamp (some v) => v.rfc3339
  | json (some v) => v.compact
  | uuid (some v) => v.text
  | _ => "NULL"

end Value

end Assortment.Storage
