import Assortment.Text.Numeral

/-!
# Floating-point numbers in decimal

A finite number is written with the fewest digits that are read as it. They are found on the coarsest decimal grid
one of whose points is read as the number, and of two such points the nearer is taken, of two that are equally near
the even one. Small and large numbers have an exponent.
-/
namespace Assortment.Text.Decimal

/-- Whether a number has a minus, as one of the zeros has. -/
def isNegative (x : Float) : Bool := x.toBits >>> 63 == 1

/-- A finite number without its sign. -/
def magnitude (x : Float) : Rat :=
  let exponent : Int := ((x.toBits >>> 52) &&& 0x7FF).toNat
  let fraction : Nat := (x.toBits &&& 0xFFFFFFFFFFFFF).toNat
  if exponent = 0 then (fraction : Rat) * (2 : Rat) ^ (-1074 : Int)
  else ((0x10000000000000 + fraction : Nat) : Rat) * (2 : Rat) ^ (exponent - 1075)

/-- The number nearest to a natural number times a power of ten. -/
def scaled (n : Nat) : Int → Float
  | .ofNat k => Float.ofScientific n false k
  | .negSucc k => Float.ofScientific n true (k + 1)

/-- What a positive number is in units of a power of ten, rounded so that it is read as the number. -/
def unitsAt? (x : Float) (k : Int) : Option Nat :=
  let exact := magnitude x / 10 ^ k
  let below := exact.floor.toNat
  let reads (n : Nat) : Bool := (scaled n k).toBits == x.abs.toBits
  match reads below, reads (below + 1) with
  | false, false => none
  | true, false => some below
  | false, true => some (below + 1)
  | true, true =>
      if exact - below < 1 / 2 ∨ exact - below = 1 / 2 ∧ below % 2 = 0 then some below else some (below + 1)

/-- The fewest digits of a positive number and the power of ten that they count. -/
def shortest (x : Float) : Nat × Int :=
  ((List.range 633).findSome? fun i : Nat =>
    let k : Int := 308 - i
    (unitsAt? x k).map fun n => (n, k)).getD (0, 0)

/-- Digits with the point after so many of them. -/
def pointed (digits : List Char) (point : Int) : List Char :=
  if digits.length ≤ point ∧ point ≤ 16 then
    digits ++ List.replicate (point - digits.length).toNat '0' ++ ['.', '0']
  else if 0 < point ∧ point ≤ 16 then digits.take point.toNat ++ '.' :: digits.drop point.toNat
  else if -5 < point ∧ point ≤ 0 then '0' :: '.' :: List.replicate (-point).toNat '0' ++ digits
  else
    let fraction := if digits.length = 1 then [] else '.' :: digits.drop 1
    digits.take 1 ++ fraction ++ 'e' :: intDigits (point - 1)

/-- The text of a finite number. -/
@[irreducible]
def chars (x : Float) : List Char :=
  let (n, k) := shortest x
  let sign := if isNegative x then ['-'] else []
  if magnitude x = 0 then sign ++ ['0', '.', '0']
  else sign ++ pointed (natDigits n) ((natDigits n).length + k)

end Assortment.Text.Decimal
