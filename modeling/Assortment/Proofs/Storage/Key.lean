import Assortment.Proofs.Text.Json
import Assortment.Proofs.Text.Uuid
import Assortment.Proofs.Time.Rfc3339
import Assortment.Storage.Database

/-!
# Keys and their texts

Rows are found by the texts of their keys. A null is written like a text that says so, and a number like a text
of its digits, but among values of one type that are no nulls each has its own text, as long as a number in a JSON
value is whole.
-/

namespace Assortment.Storage
open Assortment.Text Assortment.Time

namespace Value

/-- Whether a value is no JSON value with a number in it that is not whole. -/
def isWhole : Value → Bool
  | json (some v) => v.isWhole
  | _ => true

theorem eq_of_written_eq {v w : Value} (ht : v.type = w.type) (hv : v.isNull = false) (hw : w.isNull = false)
    (hwv : v.isWhole = true) (hww : w.isWhole = true) (h : v.written = w.written) : v = w := by
  rcases v with (_ | v) | (_ | v) | (_ | v) | (_ | v) | (_ | v) <;> cases hv <;>
    rcases w with (_ | w) | (_ | w) | (_ | w) | (_ | w) | (_ | w) <;> cases hw <;> cases ht
  · exact congrArg (fun s => Value.text (some s)) h
  · rw [Int64.toInt_inj.1 (eq_of_intDigits_eq (String.ofList_injective h))]
  · rw [Instant.eq_of_rfc3339_eq h]
  · rw [Json.eq_of_compact_eq hwv hww h]
  · rw [Uuid.eq_of_text_eq h]

/-- Whether a value can be a key in a column of a type. -/
structure IsKey (type : ColumnType) (v : Value) : Prop where
  type_eq : v.type = type
  notNull : v.isNull = false
  whole : v.isWhole = true

theorem IsKey.written_inj {type : ColumnType} {v w : Value} (hv : v.IsKey type) (hw : w.IsKey type) :
    v.written = w.written ↔ v = w :=
  ⟨eq_of_written_eq (hv.type_eq.trans hw.type_eq.symm) hv.notNull hw.notNull hv.whole hw.whole, congrArg written⟩

end Value

end Assortment.Storage
