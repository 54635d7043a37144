import Assortment.Text.Numeral

/-!
# Ratios as text

A ratio is written reduced, with its sign on the numerator: `n` when it is whole, else `n/d`. Reading
is more generous. Each half may carry one sign and may hold low lines between and after its digits,
and the two halves need not be reduced; a zero denominator is refused.
-/
namespace Assortment.Text.Ratio

def encodeChars (q : Rat) : List Char :=
  if q.den = 1 then intDigits q.num else intDigits q.num ++ '/' :: natDigits q.den

def encode (q : Rat) : String :=
  String.ofList (encodeChars q)

/-- A numeral without sign starts with a digit and goes on with digits and low lines. -/
def magnitude? (cs : List Char) : Option Nat :=
  if (cs.head?.any Char.isDigit) && cs.all (fun c => c.isDigit || c == '_') then
    some (digitsValue (cs.filter Char.isDigit))
  else
    none

/-- A numeral with at most one sign in front. -/
def integer? : List Char → Option Int
  | '-' :: cs => (magnitude? cs).map fun n => -(n : Int)
  | '+' :: cs => (magnitude? cs).map Int.ofNat
  | cs => (magnitude? cs).map Int.ofNat

/-- Reads the two halves at the first slash; a missing second half stands for one. -/
def decodeChars? (cs : List Char) : Option Rat :=
  match cs.dropWhile (· != '/') with
  | [] => (integer? cs).map fun (n : Int) => (n : Rat)
  | _ :: rest =>
      match integer? (cs.takeWhile (· != '/')), integer? rest with
      | some n, some d => if d = 0 then none else some (Rat.divInt n d)
      | _, _ => none

def decode? (s : String) : Option Rat :=
  decodeChars? s.toList

theorem magnitude?_natDigits (n : Nat) : magnitude? (natDigits n) = some n := by
  have hall : ∀ c ∈ natDigits n, c.isDigit = true := fun c => isDigit_of_mem_natDigits
  have hhead : (natDigits n).head?.any Char.isDigit = true := by
    cases hd : natDigits n with
    | nil => exact absurd hd natDigits_ne_nil
    | cons c r => exact hall c (by simp [hd])
  have hgood : (natDigits n).all (fun c => c.isDigit || c == '_') = true := by
    rw [List.all_eq_true]
    intro c hc
    simp [hall c hc]
  rw [magnitude?, hhead, hgood, List.filter_eq_self.2 hall, digitsValue_natDigits]
  rfl

theorem integer?_of_digits {n : Nat} {cs : List Char} (h : cs = natDigits n) :
    integer? cs = some (n : Int) := by
  have hm : magnitude? cs = some n := by rw [h, magnitude?_natDigits]
  unfold integer?
  split
  · exact absurd rfl (ne_of_mem_natDigits (n := n) (d := '-') (by simp [← h]) (by decide))
  · exact absurd rfl (ne_of_mem_natDigits (n := n) (d := '+') (by simp [← h]) (by decide))
  · rw [hm]; rfl

theorem integer?_intDigits (z : Int) : integer? (intDigits z) = some z := by
  cases z with
  | ofNat n => exact integer?_of_digits rfl
  | negSucc n => simp [intDigits, integer?, magnitude?_natDigits, Int.negSucc_eq]

theorem slash_not_mem_intDigits {z : Int} : ∀ c ∈ intDigits z, (c != '/') = true := by
  intro c hc
  rw [bne_iff_ne]
  cases z with
  | ofNat n => exact ne_of_mem_natDigits hc (by decide)
  | negSucc n =>
      rcases List.mem_cons.1 hc with rfl | hc
      · decide
      · exact ne_of_mem_natDigits hc (by decide)

theorem decodeChars?_intDigits (z : Int) : decodeChars? (intDigits z) = some (z : Rat) := by
  have hd : (intDigits z).dropWhile (· != '/') = [] := by
    rw [← List.append_nil (intDigits z), List.dropWhile_append_of_pos slash_not_mem_intDigits]
    rfl
  simp [decodeChars?, hd, integer?_intDigits]

theorem decodeChars?_slash (z : Int) {d : Nat} (hd : d ≠ 0) :
    decodeChars? (intDigits z ++ '/' :: natDigits d) = some (Rat.divInt z d) := by
  have hdrop : (intDigits z ++ '/' :: natDigits d).dropWhile (· != '/') = '/' :: natDigits d := by
    rw [List.dropWhile_append_of_pos slash_not_mem_intDigits]
    rfl
  have htake : (intDigits z ++ '/' :: natDigits d).takeWhile (· != '/') = intDigits z := by
    rw [List.takeWhile_append_of_pos slash_not_mem_intDigits]
    simp
  simp [decodeChars?, hdrop, htake, integer?_intDigits, integer?_of_digits rfl, hd]

/-- What is written is read back. -/
theorem decodeChars?_encodeChars (q : Rat) : decodeChars? (encodeChars q) = some q := by
  unfold encodeChars
  split
  · rename_i hd
    rw [decodeChars?_intDigits]
    exact congrArg some (Rat.ext rfl hd.symm)
  · rw [decodeChars?_slash q.num q.den_nz, Rat.num_divInt_den]

theorem decode?_encode (q : Rat) : decode? (encode q) = some q := by
  simp [decode?, encode, decodeChars?_encodeChars]

end Assortment.Text.Ratio
