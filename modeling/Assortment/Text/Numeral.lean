/-!
# Numerals

Whole numbers are written in base ten without superfluous zeros, a negative one with a leading
minus, and with zeros in front where a width is asked for. Hexadecimal digits are read in either case.
-/
namespace Assortment.Text

/-- The digits of a natural number, most significant first. -/
def natDigits (n : Nat) : List Char :=
  Nat.toDigits 10 n

/-- The digits of an integer, after a minus when it is negative. -/
def intDigits : Int → List Char
  | .ofNat n => natDigits n
  | .negSucc n => '-' :: natDigits (n + 1)

/-- The digits of a natural number with zeros in front up to the width `w`. -/
def paddedDigits (w n : Nat) : List Char :=
  (natDigits n).leftpad w '0'

/-- The number that a list of digits stands for. -/
def digitsValue (cs : List Char) : Nat :=
  Nat.ofDigitChars 10 cs 0

/-- The value of a hexadecimal digit of either case. -/
def hexValue? (c : Char) : Option Nat :=
  if '0' ≤ c ∧ c ≤ '9' then some (c.toNat - '0'.toNat)
  else if 'a' ≤ c ∧ c ≤ 'f' then some (c.toNat - 'a'.toNat + 10)
  else if 'A' ≤ c ∧ c ≤ 'F' then some (c.toNat - 'A'.toNat + 10)
  else none

/-- The number that hexadecimal digits stand for, the most significant first. -/
def hexNumber? (cs : List Char) : Option Nat :=
  (cs.mapM hexValue?).map fun ds => ds.foldl (fun n d => 16 * n + d) 0

theorem digitsValue_natDigits (n : Nat) : digitsValue (natDigits n) = n :=
  Nat.ofDigitChars_ten_toDigits

theorem isDigit_of_mem_natDigits {n : Nat} {c : Char} (h : c ∈ natDigits n) : c.isDigit = true :=
  Nat.isDigit_of_mem_toDigits (by decide) (by decide) h

theorem natDigits_ne_nil {n : Nat} : natDigits n ≠ [] :=
  Nat.toDigits_ne_nil

/-- No digit is a sign, a slash or the like. -/
theorem ne_of_mem_natDigits {n : Nat} {c d : Char} (h : c ∈ natDigits n) (hd : d.isDigit = false) :
    c ≠ d := by
  rintro rfl
  rw [isDigit_of_mem_natDigits h] at hd
  cases hd

end Assortment.Text
