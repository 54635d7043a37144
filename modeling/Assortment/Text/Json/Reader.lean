import Assortment.Text.Json

/-!
# Reading JSON text

Each `take` function takes one part of the grammar off the front of a text and returns it with what is
left, or nothing where the text starts with no such part. Nesting is bounded. The main statement is that a string
is read back as it was written (`takeString?_quoted`).
-/
namespace Assortment.Text.Json

/-! ## Blanks and words -/

def isSpace (c : Char) : Bool :=
  c == ' ' || c == '\t' || c == '\n' || c == '\r'

def skipSpace (cs : List Char) : List Char :=
  cs.dropWhile isSpace

/-- Takes one of the words that stand for a value. -/
def takeWord? : List Char → Option (Json × List Char)
  | 'n' :: 'u' :: 'l' :: 'l' :: rest => some (.null, rest)
  | 't' :: 'r' :: 'u' :: 'e' :: rest => some (.bool true, rest)
  | 'f' :: 'a' :: 'l' :: 's' :: 'e' :: rest => some (.bool false, rest)
  | _ => none

/-! ## Numbers -/

/-- Goes on reading digits into a number as long as it fits into 64 bits; gives the digits that are left. -/
def absorb (n : Nat) : List Char → Nat × List Char
  | [] => (n, [])
  | c :: cs =>
      if 10 * n + digitsValue [c] < UInt64.size then absorb (10 * n + digitsValue [c]) cs else (n, c :: cs)

/-- Takes an exponent, none if there is none. -/
def takeExponent? : List Char → Option (Int × List Char)
  | 'e' :: cs | 'E' :: cs =>
      let sign := if cs.head? = some '-' ∨ cs.head? = some '+' then cs.take 1 else []
      let digits := (cs.drop sign.length).takeWhile Char.isDigit
      let value : Int := digitsValue digits
      if digits = [] then none
      else some (if sign = ['-'] then -value else value, cs.drop (sign.length + digits.length))
  | cs => some (0, cs)

/-- A number of 64 bits divided by a power of ten, in two steps if the power is too great. -/
def divided (x : Float) (k : Nat) : Float :=
  if k ≤ 308 then x / Decimal.scaled 1 k
  else if k ≤ 616 then x / Decimal.scaled 1 308 / Decimal.scaled 1 (k - 308 : Nat)
  else 0

/-- A number times a power of ten, by one multiplication or by divisions, if it is finite. The last bit need not be
that of the nearest number. -/
def shifted? (n : Nat) : Int → Option Float
  | .negSucc k => some (divided n.toUInt64.toFloat (k + 1))
  | .ofNat k =>
      if n = 0 then some 0
      else
        let x := n.toUInt64.toFloat * Decimal.scaled 1 k
        if k ≤ 308 ∧ x.isFinite then some x else none

/-- The number with digits before and after the point, times a power of ten. Digits before the point that are too many
count by their places, and such digits after it not at all. -/
def floating? (isNegative : Bool) (whole fraction : List Char) (exponent : Int) : Option Json :=
  let (n, places) := absorb 0 whole
  let (n, rest) := absorb n fraction
  match shifted? n (places.length - (fraction.length - rest.length) + exponent) with
  | none => none
  | some x =>
      let x := if isNegative then -x else x
      if h : x.isFinite then some (.float x h) else none

/-- Takes a number without superfluous zeros in front. It is whole if it has neither a point nor an exponent and lies
in the range of the 64-bit words, signed or unsigned; a zero with a minus is not. -/
def takeNumber? (cs : List Char) : Option (Json × List Char) :=
  let isNegative := cs.head? = some '-'
  let unsigned := if isNegative then cs.drop 1 else cs
  let whole := unsigned.takeWhile Char.isDigit
  let rest := unsigned.drop whole.length
  let value : Int := if isNegative then -digitsValue whole else digitsValue whole
  if natDigits (digitsValue whole) ≠ whole then none
  else match rest with
    | '.' :: rest =>
        let fraction := rest.takeWhile Char.isDigit
        if fraction = [] then none
        else do
          let (exponent, rest) ← takeExponent? (rest.drop fraction.length)
          let number ← floating? isNegative whole fraction exponent
          some (number, rest)
    | rest => do
        let (exponent, after) ← takeExponent? rest
        if after = rest ∧ Int64.minValue.toInt ≤ value ∧ value < UInt64.size ∧ ¬ (isNegative ∧ value = 0) then
          some (.int value, rest)
        else
          let number ← floating? isNegative whole [] exponent
          some (number, after)

/-! ## Strings -/

/-- Takes the text up to the quote that ends a string; a backslash keeps the next character in. -/
def takeQuoted? : List Char → Option (List Char × List Char)
  | '\\' :: c :: rest => (takeQuoted? rest).map fun p => ('\\' :: c :: p.1, p.2)
  | '"' :: rest => some ([], rest)
  | c :: rest => (takeQuoted? rest).map fun p => (c :: p.1, p.2)
  | [] => none

/-- The character that a backslash and a letter or sign stand for. -/
def escaped? : Char → Option Char
  | '"' => some '"'
  | '\\' => some '\\'
  | '/' => some '/'
  | 'b' => some '\x08'
  | 'f' => some '\x0c'
  | 'n' => some '\n'
  | 'r' => some '\r'
  | 't' => some '\t'
  | _ => none

/-- The first half of a character beyond sixteen bits. -/
def isHighHalf (n : Nat) : Bool :=
  0xD800 ≤ n && n < 0xDC00

/-- The second half of a character beyond sixteen bits. -/
def isLowHalf (n : Nat) : Bool :=
  0xDC00 ≤ n && n < 0xE000

/-- The character with the given halves. -/
def joinHalves (high low : Nat) : Char :=
  Char.ofNat (0x10000 + (high - 0xD800) * 0x400 + (low - 0xDC00))

/-- The characters of a string written with escapes. Halves of a character come in pairs, and control
characters are escaped. -/
def unescape? : List Char → Option (List Char)
  | [] => some []
  | '\\' :: 'u' :: a :: b :: c :: d :: rest =>
      match hexNumber? [a, b, c, d] with
      | none => none
      | some n =>
          if isHighHalf n then
            match rest with
            | '\\' :: 'u' :: a :: b :: c :: d :: rest =>
                match hexNumber? [a, b, c, d] with
                | none => none
                | some m =>
                    if isLowHalf m then (unescape? rest).map (joinHalves n m :: ·) else none
            | _ => none
          else if isLowHalf n then none
          else (unescape? rest).map (Char.ofNat n :: ·)
  | '\\' :: c :: rest =>
      match escaped? c with
      | none => none
      | some c => (unescape? rest).map (c :: ·)
  | c :: rest => if c = '\\' ∨ c.toNat < 0x20 then none else (unescape? rest).map (c :: ·)

def takeString? : List Char → Option (String × List Char)
  | '"' :: rest =>
      match takeQuoted? rest with
      | none => none
      | some (text, rest) => (unescape? text).map fun cs => (String.ofList cs, rest)
  | _ => none

theorem hexNumber?_escapeDigit :
    ∀ n < 0x20, hexNumber? ['0', '0', escapeDigit (n / 16), escapeDigit n] = some n := by
  decide

theorem takeQuoted?_escapeChar (c : Char) (cs : List Char) :
    takeQuoted? (escapeChar c ++ cs) = (takeQuoted? cs).map fun p => (escapeChar c ++ p.1, p.2) := by
  have digit (n : Nat) : escapeDigit n ≠ '"' ∧ escapeDigit n ≠ '\\' :=
    (by decide : ∀ m < 16, Nat.digitChar m ≠ '"' ∧ Nat.digitChar m ≠ '\\') _
      (Nat.mod_lt n (by decide))
  unfold escapeChar
  repeat' split
  all_goals simp_all [takeQuoted?, Option.map_map, Function.comp_def]

/-- A quote that stands in a string is escaped, so the written string ends at its closing quote. -/
theorem takeQuoted?_flatMap (s rest : List Char) :
    takeQuoted? (s.flatMap escapeChar ++ '"' :: rest) = some (s.flatMap escapeChar, rest) := by
  induction s with
  | nil => simp [takeQuoted?]
  | cons c s ih => simp [takeQuoted?_escapeChar, ih]

theorem unescape?_escapeChar (c : Char) (cs : List Char) :
    unescape? (escapeChar c ++ cs) = (unescape? cs).map (c :: ·) := by
  unfold escapeChar
  iterate 7 (split; subst c; simp [unescape?, escaped?])
  split
  · rename_i hc
    have hh : isHighHalf c.toNat = false := by simp [isHighHalf]; omega
    have hl : isLowHalf c.toNat = false := by simp [isLowHalf]; omega
    simp [unescape?, hexNumber?_escapeDigit _ hc, hh, hl, Char.ofNat_toNat]
  · rename_i hb _ _ _ _ _ hc
    rw [List.singleton_append, unescape?, if_neg (not_or.2 ⟨hb, hc⟩)] <;> simp_all

theorem unescape?_flatMap (s : List Char) : unescape? (s.flatMap escapeChar) = some s := by
  induction s with
  | nil => simp [unescape?]
  | cons c s ih => simp [unescape?_escapeChar, ih]

/-- A string is read back as it was written. -/
theorem takeString?_quoted (s : String) (rest : List Char) :
    takeString? (quoted s ++ rest) = some (s, rest) := by
  simp [quoted, takeString?, takeQuoted?_flatMap, unescape?_flatMap]

/-! ## Arrays and objects -/

section
variable {α : Type}

/-- Takes at most `n` parts, at least one, with commas between them, up to a closing character. -/
def takeParts? (part? : List Char → Option (α × List Char)) (close : Char) :
    Nat → List Char → Option (List α × List Char)
  | 0, _ => none
  | n + 1, cs =>
      match part? (skipSpace cs) with
      | none => none
      | some (a, rest) =>
          match skipSpace rest with
          | [] => none
          | c :: rest =>
              if c = close then some ([a], rest)
              else if c = ',' then
                (takeParts? part? close n rest).map fun p => (a :: p.1, p.2)
              else none

/-- Takes the parts after an opening character, none when it is closed at once. A text has no more
parts than characters. -/
def takeList? (part? : List Char → Option (α × List Char)) (close : Char) (cs : List Char) :
    Option (List α × List Char) :=
  if (skipSpace cs).head? = some close then some ([], (skipSpace cs).tail)
  else takeParts? part? close cs.length cs

end

def takeMember? (value? : List Char → Option (Json × List Char)) (cs : List Char) :
    Option ((String × Json) × List Char) :=
  match takeString? cs with
  | none => none
  | some (k, rest) =>
      match skipSpace rest with
      | ':' :: rest => (value? (skipSpace rest)).map fun p => ((k, p.1), p.2)
      | _ => none

/-- Takes a value that is neither an array nor an object. -/
def takeScalar? (cs : List Char) : Option (Json × List Char) :=
  match cs with
  | '"' :: _ => (takeString? cs).map fun p => (.str p.1, p.2)
  | _ => (takeWord? cs).or (takeNumber? cs)

/-- Takes a value with arrays and objects nested at most `depth` deep. -/
def takeValue? : (depth : Nat) → List Char → Option (Json × List Char)
  | 0, cs => takeScalar? cs
  | depth + 1, '[' :: rest =>
      (takeList? (takeValue? depth) ']' rest).map fun p => (.arr p.1, p.2)
  | depth + 1, '\x7b' :: rest =>
      (takeList? (takeMember? (takeValue? depth)) '\x7d' rest).map fun p => (object p.1, p.2)
  | _ + 1, cs => takeScalar? cs

/-- How deep arrays and objects may be nested in a text. -/
def maxDepth : Nat := 127

/-- Reads a text that holds one value and blanks around it. -/
def read? (s : String) : Option Json :=
  match takeValue? maxDepth (skipSpace s.toList) with
  | none => none
  | some (j, rest) => if (skipSpace rest).isEmpty then some j else none

end Assortment.Text.Json
