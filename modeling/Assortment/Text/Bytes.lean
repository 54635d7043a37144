/-!
# Bytes

Numbers as bytes, most significant first, and bytes as text. Reading text never fails: a longest run of
bytes that begins a character but does not finish it, or a byte that begins none, stands for one
replacement character.
-/
namespace Assortment.Text

/-- The low `n` bytes of a number, most significant first. -/
def bigEndian : Nat → Nat → List UInt8
  | 0, _ => []
  | n + 1, v => UInt8.ofNat (v / 256 ^ n) :: bigEndian n v

/-- The number that bytes stand for, most significant first. -/
def ofBigEndian (bs : List UInt8) : Nat :=
  bs.foldl (fun n b => 256 * n + b.toNat) 0

/-- The bytes that may follow a first byte, position by position, as closed ranges. -/
def followers (first : UInt8) : Option (List (UInt8 × UInt8)) :=
  if first ≤ 0x7F then some []
  else if 0xC2 ≤ first ∧ first ≤ 0xDF then some [(0x80, 0xBF)]
  else if first = 0xE0 then some [(0xA0, 0xBF), (0x80, 0xBF)]
  else if first = 0xED then some [(0x80, 0x9F), (0x80, 0xBF)]
  else if 0xE1 ≤ first ∧ first ≤ 0xEF then some [(0x80, 0xBF), (0x80, 0xBF)]
  else if first = 0xF0 then some [(0x90, 0xBF), (0x80, 0xBF), (0x80, 0xBF)]
  else if 0xF1 ≤ first ∧ first ≤ 0xF3 then some [(0x80, 0xBF), (0x80, 0xBF), (0x80, 0xBF)]
  else if first = 0xF4 then some [(0x80, 0x8F), (0x80, 0xBF), (0x80, 0xBF)]
  else none

/-- The longest start of the bytes that lies in the ranges, position by position. -/
def matching : List (UInt8 × UInt8) → List UInt8 → List UInt8
  | (low, high) :: ranges, b :: bs => if low ≤ b ∧ b ≤ high then b :: matching ranges bs else []
  | _, _ => []

/-- The bits that a first byte contributes when so many bytes follow it. -/
def firstBits (first : UInt8) : Nat → Nat
  | 0 => first.toNat
  | 1 => first.toNat % 32
  | 2 => first.toNat % 16
  | _ => first.toNat % 8

/-- Reads bytes as text, what is not well formed as replacement characters. -/
def readUtf8 : List UInt8 → List Char
  | [] => []
  | first :: rest =>
      match followers first with
      | none => '\ufffd' :: readUtf8 rest
      | some ranges =>
          let tail := matching ranges rest
          let c :=
            if tail.length = ranges.length then
              Char.ofNat (tail.foldl (fun n b => 64 * n + b.toNat % 64) (firstBits first tail.length))
            else '\ufffd'
          c :: readUtf8 (rest.drop tail.length)
termination_by bs => bs.length
decreasing_by all_goals simp only [List.length_cons, List.length_drop]; omega

end Assortment.Text
