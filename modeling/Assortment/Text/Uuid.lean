import Assortment.Text.Numeral

/-!
# UUIDs

A UUID is 128 bits, written as 32 lower-case hexadecimal digits in groups of 8, 4, 4, 4 and 12. Reading
also takes upper case, braces around the groups, a resource name, and the digits without hyphens.
-/
namespace Assortment.Text

structure Uuid where
  bits : BitVec 128
deriving DecidableEq

namespace Uuid

/-- The 32 hexadecimal digits, most significant first. -/
def digits (u : Uuid) : List Char :=
  (List.range 32).map fun i => Nat.digitChar (u.bits.extractLsb' (4 * (31 - i)) 4).toNat

/-- Splits the digits into the groups of 8, 4, 4, 4 and 12 with hyphens between. -/
def hyphenate (cs : List Char) : List Char :=
  cs.take 8 ++ '-' :: (cs.drop 8).take 4 ++ '-' :: (cs.drop 12).take 4
    ++ '-' :: (cs.drop 16).take 4 ++ '-' :: cs.drop 20

def text (u : Uuid) : String :=
  String.ofList (hyphenate u.digits)

/-- Reads 32 hexadecimal digits. -/
def ofDigits? (cs : List Char) : Option Uuid :=
  if cs.length = 32 then (hexNumber? cs).map fun n => ⟨BitVec.ofNat 128 n⟩ else none

/-- Reads hexadecimal digits in the groups of the written form. -/
def ofGroups? (cs : List Char) : Option Uuid :=
  let plain := cs.filter (· != '-')
  if cs = hyphenate plain then ofDigits? plain else none

/-- What stands in front of the groups in the form of a resource name. -/
def resourceName : List Char := "urn:uuid:".toList

/-- Reads the groups alone, in braces or as a resource name, or the digits alone. -/
def read? (s : String) : Option Uuid :=
  let cs := s.toList
  if cs.head? = some '\x7b' ∧ cs.getLast? = some '\x7d' then ofGroups? cs.tail.dropLast
  else if resourceName.isPrefixOf cs then ofGroups? (cs.drop resourceName.length)
  else if cs.contains '-' then ofGroups? cs
  else ofDigits? cs

/-- The version number, the first digit of the third group. -/
def version (u : Uuid) : Nat :=
  (u.bits.extractLsb' 76 4).toNat

/-- The random UUID with the given bits: version 4, and the variant bits `10` in the fourth group. -/
def ofRandom (bits : BitVec 128) : Uuid :=
  let cleared := bits &&& ~~~(0xF000#128 <<< 64) &&& ~~~(0xC000#128 <<< 48)
  ⟨cleared ||| (0x4000#128 <<< 64) ||| (0x8000#128 <<< 48)⟩

end Uuid

end Assortment.Text
