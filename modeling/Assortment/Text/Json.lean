import Assortment.Text.Decimal

/-!
# JSON values and their compact text

Numbers are whole or finite floating-point numbers, and zeros of different signs are different values. An object
lists its members; `Json.object` sorts them by key and keeps the last of several members with one key. The compact
text has no blanks and escapes in strings only what has to be escaped.
-/
namespace Assortment.Text

inductive Json where
  | null
  | bool (b : Bool)
  | int (n : Int)
  | float (x : Float) (finite : x.isFinite = true)
  | str (s : String)
  | arr (items : List Json)
  | obj (members : List (String × Json))
deriving Inhabited

namespace Json

/-- Puts a member at its place among members sorted by key, in place of one with the same key. -/
def insertMember (k : String) (v : Json) : List (String × Json) → List (String × Json)
  | [] => [(k, v)]
  | (l, w) :: rest =>
      if k < l then (k, v) :: (l, w) :: rest
      else if k = l then (k, v) :: rest
      else (l, w) :: insertMember k v rest

/-- The object with the given members, sorted by key, the last of equal keys winning. -/
def object (members : List (String × Json)) : Json :=
  .obj (members.foldl (fun sorted m => insertMember m.1 m.2 sorted) [])

mutual
def same : Json → Json → Bool
  | .null, .null => true
  | .bool a, .bool b => a == b
  | .int a, .int b => a == b
  | .float x _, .float y _ => decide (x = y)
  | .str a, .str b => a == b
  | .arr as, .arr bs => sameItems as bs
  | .obj as, .obj bs => sameMembers as bs
  | _, _ => false

/-- Whether two lists of values are the same, item by item. -/
def sameItems : List Json → List Json → Bool
  | [], [] => true
  | a :: as, b :: bs => same a b && sameItems as bs
  | _, _ => false

/-- Whether two lists of members are the same, key and value by key and value. -/
def sameMembers : List (String × Json) → List (String × Json) → Bool
  | [], [] => true
  | (k, a) :: as, (l, b) :: bs => k == l && same a b && sameMembers as bs
  | _, _ => false
end

mutual
theorem same_iff : (a b : Json) → (same a b = true ↔ a = b)
  | .null, b => by cases b <;> simp [same]
  | .bool _, b => by cases b <;> simp [same]
  | .int _, b => by cases b <;> simp [same]
  | .float _ _, b => by cases b <;> simp [same]
  | .str _, b => by cases b <;> simp [same]
  | .arr as, b => by cases b <;> simp [same, sameItems_iff as]
  | .obj as, b => by cases b <;> simp [same, sameMembers_iff as]

theorem sameItems_iff : (as bs : List Json) → (sameItems as bs = true ↔ as = bs)
  | [], bs => by cases bs <;> simp [sameItems]
  | a :: as, bs => by cases bs <;> simp [sameItems, same_iff a, sameItems_iff as]

theorem sameMembers_iff :
    (as bs : List (String × Json)) → (sameMembers as bs = true ↔ as = bs)
  | [], bs => by cases bs <;> simp [sameMembers]
  | (k, a) :: as, bs => by
      cases bs <;> simp [sameMembers, same_iff a, sameMembers_iff as, Prod.ext_iff]
end

instance : DecidableEq Json := fun a b => decidable_of_iff _ (same_iff a b)

mutual
/-- Whether all numbers in a value are whole. -/
def isWhole : Json → Bool
  | .null | .bool _ | .int _ | .str _ => true
  | .float _ _ => false
  | .arr items => areWhole items
  | .obj members => membersWhole members

def areWhole : List Json → Bool
  | [] => true
  | a :: rest => isWhole a && areWhole rest

def membersWhole : List (String × Json) → Bool
  | [] => true
  | (_, a) :: rest => isWhole a && membersWhole rest
end

/-- A digit of a four-digit escape, in lower case. -/
def escapeDigit (n : Nat) : Char :=
  Nat.digitChar (n % 16)

/-- A character inside a string: quote, backslash and control characters are escaped. -/
def escapeChar (c : Char) : List Char :=
  if c = '"' then ['\\', '"']
  else if c = '\\' then ['\\', '\\']
  else if c = '\x08' then ['\\', 'b']
  else if c = '\x0c' then ['\\', 'f']
  else if c = '\n' then ['\\', 'n']
  else if c = '\r' then ['\\', 'r']
  else if c = '\t' then ['\\', 't']
  else if c.toNat < 0x20 then
    ['\\', 'u', '0', '0', escapeDigit (c.toNat / 16), escapeDigit c.toNat]
  else [c]

def quoted (s : String) : List Char :=
  '"' :: s.toList.flatMap escapeChar ++ ['"']

mutual
def compactChars : Json → List Char
  | .null => ['n', 'u', 'l', 'l']
  | .bool true => ['t', 'r', 'u', 'e']
  | .bool false => ['f', 'a', 'l', 's', 'e']
  | .int n => intDigits n
  | .float x _ => Decimal.chars x
  | .str s => quoted s
  | .arr items => '[' :: itemChars items ++ [']']
  | .obj members => '\x7b' :: memberChars members ++ ['\x7d']

/-- The items of an array, between commas. -/
def itemChars : List Json → List Char
  | [] => []
  | [a] => compactChars a
  | a :: b :: rest => compactChars a ++ ',' :: itemChars (b :: rest)

/-- The members of an object, between commas. -/
def memberChars : List (String × Json) → List Char
  | [] => []
  | [(k, a)] => quoted k ++ ':' :: compactChars a
  | (k, a) :: b :: rest => quoted k ++ ':' :: compactChars a ++ ',' :: memberChars (b :: rest)
end

/-- The compact text of a value. -/
def compact (j : Json) : String :=
  String.ofList j.compactChars

end Json

end Assortment.Text
