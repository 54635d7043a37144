import Assortment.Storage.Server
import Assortment.Text.Bytes
import Assortment.Text.Json.Reader

/-!
# Sessions over a wire

A session prepares the text of a statement when it is first run and fixes the types of its placeholders
by the values bound then. It keeps a bounded number of prepared texts and forgets the one that was not
run for the longest time. Bound values travel as bytes, so a value of another type that is bound to a
prepared text is read under the fixed type; if its bytes do not fit, the session is lost. Instants
travel in microseconds.
-/
namespace Assortment.Storage.Wire
open Assortment.Text Assortment.Time

/-- The instant from which a wire counts, the start of 2000. -/
def wireEpoch : Int := 946684800 * 1000000000

/-- Microseconds since the start of 2000, what lies below a microsecond dropped towards it. -/
def micros (t : Instant) : Int := Int.tdiv (t.nanos - wireEpoch) 1000

/-- The instant at a number of microseconds since the start of 2000. -/
def ofMicros? (n : Int) : Option Instant := Instant.ofNanos? (wireEpoch + n * 1000)

/-- Eight bytes of an integer, negative ones in two's complement. -/
def intBytes (n : Int) : List UInt8 := bigEndian 8 (Int64.ofInt n).toUInt64.toNat

/-- The integer in eight bytes. -/
def ofIntBytes? (bs : List UInt8) : Option Int64 :=
  if bs.length = 8 then some (UInt64.ofNat (ofBigEndian bs)).toInt64 else none

/-- The bytes of a value, none for a null. A JSON value is led by the number of its format. -/
def bytes? : Value → Option (List UInt8)
  | .text v => v.map fun s => s.toUTF8.toList
  | .int v => v.map fun n => intBytes n.toInt
  | .timestamp v => v.map fun t => intBytes (micros t)
  | .json v => v.map fun j => 1 :: j.compact.toUTF8.toList
  | .uuid v => v.map fun u => bigEndian 16 u.bits.toNat

/-- Reads the bytes of a JSON value after the number of its format. What is no JSON text in UTF-8 is read
as JSON null. -/
def ofJsonBytes (bs : List UInt8) : Json :=
  ((String.fromUTF8? ⟨bs.toArray⟩).bind Json.read?).getD .null

/-- Reads the bytes of a value of another type. -/
def ofBytes? (bs : List UInt8) : ColumnType → Option Value
  | .text => some (.text (String.ofList (readUtf8 bs)))
  | .int => (ofIntBytes? bs).map fun n => .int n
  | .timestamp => ((ofIntBytes? bs).bind fun n => ofMicros? n.toInt).map fun t => .timestamp t
  | .json => if bs.isEmpty then none else some (.json (ofJsonBytes bs.tail))
  | .uuid =>
      if bs.length = 16 then some (.uuid (Uuid.mk (BitVec.ofNat 128 (ofBigEndian bs)))) else none

/-- A bound value as it is read under the type of its placeholder. -/
def receive? (type : ColumnType) (v : Value) : Option Value :=
  if v.type = type then
    match v with
    | .timestamp (some t) => (ofMicros? (micros t)).map fun t => .timestamp t
    | v => some v
  else
    match bytes? v with
    | none => some (.null type)
    | some bs => ofBytes? bs type

/-- A value of a found row, instants in whole microseconds. -/
def delivered : Value → Value
  | .timestamp v => .timestamp (v.map Instant.floorMicro)
  | v => v

/-- Texts of statements with the types of their placeholders, the one that was run last in front. -/
abbrev Prepared := List (String × List ColumnType)

/-- How many texts a session keeps prepared. -/
def maxPrepared : Nat := 100

/-- Puts a text in front and drops what is too much at the other end. -/
def Prepared.touch (prepared : Prepared) (text : String) (types : List ColumnType) : Prepared :=
  ((text, types) :: prepared.filter (·.1 != text)).take maxPrepared

theorem Prepared.lookup_touch (prepared : Prepared) (text : String) (types : List ColumnType) :
    (prepared.touch text types).lookup text = some types := by
  simp [touch, maxPrepared]

/-- A session with a server whose states are of type `σ`. -/
structure Session (σ : Type) where
  inner : σ
  prepared : Prepared := []
  isLost : Bool := false

variable {σ : Type}

/-- The types of the placeholders of a text, fixed by the given values if it is not prepared. -/
def typesFor (session : Session σ) (text : String) (values : List Value) : List ColumnType :=
  (session.prepared.lookup text).getD (values.map Value.type)

/-- A statement as it arrives, with the session after its text is prepared. A NUL ends a text on the
wire, so a text that holds one does not arrive. -/
def transmit? (session : Session σ) : Statement → Option (Statement × Session σ)
  | .run text values =>
      if '\x00' ∈ text.toList then none else
      let types := typesFor session text values
      ((types.zip values).mapM fun p => receive? p.1 p.2).map fun values =>
        (.run text values, { session with prepared := session.prepared.touch text types })
  | statement => some (statement, session)

/-- Sends a statement over the wire to a server. -/
def answer (server : Server σ) (statement : Statement) (session : Session σ) :
    Except Fault Answer × Session σ :=
  if session.isLost then (.error .lost, session)
  else match transmit? session statement with
    | none => (.error .lost, { session with isLost := true })
    | some (statement, session) =>
        let (result, inner) := server.answer statement session.inner
        (result.map fun a => { a with row := a.row.map fun r => r.map fun _ v => delivered v },
          { session with inner := inner })

/-- A server at the other end of a wire. -/
def overWire (server : Server σ) : Server (Session σ) := ⟨answer server⟩

end Assortment.Storage.Wire
