import Assortment.Text.Numeral
import Assortment.Time.Calendar
import Assortment.Time.Instant

/-!
# Instants as RFC 3339 text

Texts such as `2025-09-01T09:00:00.250+00:00`, always in UTC. The fraction has the fewest of 0, 3, 6
and 9 digits that is exact; a year outside 0 to 9999 carries its sign and at least four digits.
-/
namespace Assortment.Time
open Assortment.Text

/-- A year: four digits, or a sign and at least four digits outside 0 to 9999. -/
def yearChars (y : Int) : List Char :=
  if 0 ≤ y ∧ y ≤ 9999 then paddedDigits 4 y.toNat
  else (if y < 0 then '-' else '+') :: paddedDigits 4 y.natAbs

/-- The fraction of a second after its point, in steps of three digits. -/
def fractionChars (nanos : Nat) : List Char :=
  if nanos = 0 then []
  else if nanos % 1000000 = 0 then '.' :: paddedDigits 3 (nanos / 1000000)
  else if nanos % 1000 = 0 then '.' :: paddedDigits 6 (nanos / 1000)
  else '.' :: paddedDigits 9 nanos

def Date.chars (d : Date) : List Char :=
  yearChars d.year ++ '-' :: paddedDigits 2 d.month ++ '-' :: paddedDigits 2 d.day

/-- A second of a day as hours, minutes and seconds. -/
def timeOfDayChars (second : Nat) : List Char :=
  paddedDigits 2 (second / 3600) ++ ':' :: paddedDigits 2 (second / 60 % 60)
    ++ ':' :: paddedDigits 2 (second % 60)

def Instant.rfc3339Chars (t : Instant) : List Char :=
  (Date.ofDays (t.seconds / 86400)).chars ++ 'T' :: timeOfDayChars (t.seconds % 86400).toNat
    ++ fractionChars t.subsecond ++ ['+', '0', '0', ':', '0', '0']

def Instant.rfc3339 (t : Instant) : String :=
  String.ofList t.rfc3339Chars

end Assortment.Time
