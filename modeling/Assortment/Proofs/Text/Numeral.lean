import Assortment.Text.Numeral
import Mathlib.Algebra.Group.Nat.Defs

/-!
# Numerals do not collide

A written number can be told from what stands behind it as long as that does not start with a digit, and a
number that fits the width it is padded to can be read back.
-/

namespace Assortment.Text

/-- Whether a text does not start with a character of a class. -/
def Stops (p : Char → Bool) (rest : List Char) : Prop := ∀ c ∈ rest.head?, p c = false

theorem stops_nil {p : Char → Bool} : Stops p [] := by
  simp [Stops]

theorem stops_cons {p : Char → Bool} {c : Char} {cs : List Char} : Stops p (c :: cs) ↔ p c = false := by
  simp [Stops]

theorem takeWhile_append_of_stops {p : Char → Bool} {cs rest : List Char} (h : ∀ c ∈ cs, p c = true)
    (hs : Stops p rest) : (cs ++ rest).takeWhile p = cs := by
  rw [List.takeWhile_append_of_pos h]
  cases rest with
  | nil => simp
  | cons c rest => simp [stops_cons.1 hs]

/-- Two texts of a class that end where it stops are the same when they go on to the same whole. -/
theorem append_inj_of_stops {p : Char → Bool} {cs ds r s : List Char} (hcs : ∀ c ∈ cs, p c = true)
    (hds : ∀ c ∈ ds, p c = true) (hr : Stops p r) (hs : Stops p s) (h : cs ++ r = ds ++ s) :
    cs = ds ∧ r = s := by
  have he : cs = ds := by
    rw [← takeWhile_append_of_stops hcs hr, h, takeWhile_append_of_stops hds hs]
  subst he
  exact ⟨rfl, List.append_cancel_left h⟩

/-! ## Numbers -/

theorem eq_of_natDigits_eq {m n : Nat} (h : natDigits m = natDigits n) : m = n := by
  rw [← digitsValue_natDigits m, h, digitsValue_natDigits]

theorem natDigits_append_inj {m n : Nat} {r s : List Char} (hr : Stops Char.isDigit r)
    (hs : Stops Char.isDigit s) (h : natDigits m ++ r = natDigits n ++ s) : m = n ∧ r = s := by
  obtain ⟨hd, hrest⟩ := append_inj_of_stops (fun _ => isDigit_of_mem_natDigits)
    (fun _ => isDigit_of_mem_natDigits) hr hs h
  exact ⟨eq_of_natDigits_eq hd, hrest⟩

theorem head?_natDigits_append (n : Nat) (r : List Char) :
    ∃ c, (natDigits n ++ r).head? = some c ∧ c.isDigit = true := by
  cases hd : natDigits n with
  | nil => exact absurd hd natDigits_ne_nil
  | cons c cs => exact ⟨c, rfl, isDigit_of_mem_natDigits (n := n) (by simp [hd])⟩

/-- The digits of a whole number, which start with a zero only if there is no other digit. -/
structure IsNumeral (cs : List Char) : Prop where
  ne_nil : cs ≠ []
  digits : ∀ c ∈ cs, c.isDigit = true
  zero : cs.head? = some '0' → cs = ['0']

theorem natDigits_of_lt {n : Nat} (h : n < 10) : natDigits n = [n.digitChar] :=
  Nat.toDigits_of_lt_base h

theorem head?_natDigits {n : Nat} (h : n ≠ 0) : (natDigits n).head? ≠ some '0' := by
  induction n using Nat.strongRecOn with
  | ind n ih =>
      by_cases hn : n < 10
      · rw [natDigits_of_lt hn]
        simpa using h
      · -- The digits in front of the last one are those of a smaller number, which is not zero either.
        have hsplit : natDigits n = natDigits (n / 10) ++ [(n % 10).digitChar] :=
          Nat.toDigits_of_base_le (by decide) (Nat.not_lt.1 hn)
        rw [hsplit, List.head?_append, Option.or_of_isSome (List.isSome_head?.2 natDigits_ne_nil)]
        exact ih (n / 10) (by omega) (by omega)

theorem isNumeral_natDigits (n : Nat) : IsNumeral (natDigits n) where
  ne_nil := natDigits_ne_nil
  digits _ := isDigit_of_mem_natDigits
  zero h := by
    by_cases hn : n = 0
    · subst hn
      rfl
    · exact absurd h (head?_natDigits hn)

theorem IsNumeral.append_ne {cs r s : List Char} {c : Char} (h : IsNumeral cs) (hc : c.isDigit = false) :
    cs ++ r ≠ c :: s := by
  obtain ⟨d, ds, rfl⟩ := List.exists_cons_of_ne_nil h.ne_nil
  intro he
  cases he
  rw [h.digits c List.mem_cons_self] at hc
  cases hc

theorem natDigits_append_ne {n : Nat} {c : Char} {r s : List Char} (hc : c.isDigit = false) :
    natDigits n ++ r ≠ c :: s :=
  (isNumeral_natDigits n).append_ne hc

theorem intDigits_append_inj {m n : Int} {r s : List Char} (hr : Stops Char.isDigit r)
    (hs : Stops Char.isDigit s) (h : intDigits m ++ r = intDigits n ++ s) : m = n ∧ r = s := by
  cases m with
  | ofNat m =>
      cases n with
      | ofNat n =>
          obtain ⟨rfl, hrest⟩ := natDigits_append_inj hr hs h
          exact ⟨rfl, hrest⟩
      | negSucc n => exact absurd h (natDigits_append_ne (by decide))
  | negSucc m =>
      cases n with
      | ofNat n => exact absurd h.symm (natDigits_append_ne (by decide))
      | negSucc n =>
          obtain ⟨he, hrest⟩ := natDigits_append_inj hr hs (List.cons.inj h).2
          exact ⟨by rw [Nat.succ.inj he], hrest⟩

theorem eq_of_intDigits_eq {m n : Int} (h : intDigits m = intDigits n) : m = n :=
  (intDigits_append_inj stops_nil stops_nil (congrArg (· ++ []) h)).1

theorem digitsValue_append (cs ds : List Char) :
    digitsValue (cs ++ ds) = 10 ^ ds.length * digitsValue cs + digitsValue ds := by
  rw [digitsValue, Nat.ofDigitChars_append, Nat.ofDigitChars_eq_ofDigitChars_zero]
  rfl

/-! ## Padded numbers -/

theorem length_paddedDigits {w n : Nat} (hw : 0 < w) (h : n < 10 ^ w) : (paddedDigits w n).length = w := by
  have hlen : (natDigits n).length ≤ w := (Nat.length_toDigits_le_iff (by decide) hw).2 h
  simp [paddedDigits, List.leftpad, hlen]

theorem digitsValue_paddedDigits (w n : Nat) : digitsValue (paddedDigits w n) = n := by
  rw [paddedDigits, List.leftpad, digitsValue, Nat.ofDigitChars_append, Nat.ofDigitChars_replicate_zero]
  simpa [digitsValue] using digitsValue_natDigits n

theorem eq_of_paddedDigits_eq {w v m n : Nat} (h : paddedDigits w m = paddedDigits v n) : m = n := by
  rw [← digitsValue_paddedDigits w m, h, digitsValue_paddedDigits]

theorem isDigit_of_mem_paddedDigits {w n : Nat} {c : Char} (h : c ∈ paddedDigits w n) : c.isDigit = true := by
  rcases List.mem_append.1 h with h | h
  · rw [List.eq_of_mem_replicate h]
    decide
  · exact isDigit_of_mem_natDigits h

/-- Two numbers that are padded to one width which they fit in are the same when they go on to the same
whole. -/
theorem paddedDigits_append_inj {w m n : Nat} {r s : List Char} (hw : 0 < w) (hm : m < 10 ^ w)
    (hn : n < 10 ^ w) (h : paddedDigits w m ++ r = paddedDigits w n ++ s) : m = n ∧ r = s := by
  obtain ⟨hd, hrest⟩ := List.append_inj h
    ((length_paddedDigits hw hm).trans (length_paddedDigits hw hn).symm)
  exact ⟨eq_of_paddedDigits_eq hd, hrest⟩

end Assortment.Text
