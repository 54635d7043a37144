import Assortment.Proofs.Text.Numeral
import Assortment.Time.Rfc3339

/-!
# RFC 3339 texts do not collide

The date ends at the `T`, month, day and time of day have fixed widths, and the length of the fraction tells
in which unit it counts.
-/

namespace Assortment.Time
open Assortment.Text

/-! ## Dates -/

theorem isDigit_yearSign {y : Int} : (if y < 0 then '-' else '+').isDigit = false := by
  split <;> decide

theorem paddedDigits_ne_cons {w n : Nat} {c : Char} {cs : List Char} (hc : c.isDigit = false) :
    paddedDigits w n ≠ c :: cs := by
  intro h
  have hd := isDigit_of_mem_paddedDigits (h ▸ List.mem_cons_self : c ∈ paddedDigits w n)
  rw [hc] at hd
  cases hd

theorem eq_of_yearChars_eq {y z : Int} (h : yearChars y = yearChars z) : y = z := by
  unfold yearChars at h
  by_cases hy : 0 ≤ y ∧ y ≤ 9999 <;> by_cases hz : 0 ≤ z ∧ z ≤ 9999
  · rw [if_pos hy, if_pos hz] at h
    have hn := eq_of_paddedDigits_eq h
    omega
  · rw [if_pos hy, if_neg hz] at h
    exact absurd h (paddedDigits_ne_cons isDigit_yearSign)
  · rw [if_neg hy, if_pos hz] at h
    exact absurd h.symm (paddedDigits_ne_cons isDigit_yearSign)
  · rw [if_neg hy, if_neg hz] at h
    obtain ⟨hsign, hpadded⟩ := List.cons.inj h
    have hn := eq_of_paddedDigits_eq hpadded
    have hlt : y < 0 ↔ z < 0 := by grind
    omega

theorem Date.ofDays_lt (n : Int) : (Date.ofDays n).month < 100 ∧ (Date.ofDays n).day < 100 := by
  have hv := (CyclePosition.valid_ofDays n).dayOfYear_le
  simp only [Date.ofDays, CyclePosition.toDate]
  split <;> constructor <;> dsimp only <;> omega

theorem Date.eq_of_chars_eq {d e : Date} (hd : d.month < 100 ∧ d.day < 100)
    (he : e.month < 100 ∧ e.day < 100) (h : d.chars = e.chars) : d = e := by
  have hlen : ∀ n < 100, (paddedDigits 2 n).length = 2 := fun n hn => length_paddedDigits (by decide) hn
  simp only [Date.chars, List.append_assoc, List.cons_append] at h
  -- What follows the year is six characters long, whatever the year.
  obtain ⟨hyear, htail⟩ := List.append_inj' h (by simp [hlen _ hd.1, hlen _ hd.2, hlen _ he.1, hlen _ he.2])
  obtain ⟨hmonth, hrest⟩ := paddedDigits_append_inj (by decide) hd.1 he.1 (List.cons.inj htail).2
  exact Date.ext (eq_of_yearChars_eq hyear) hmonth (eq_of_paddedDigits_eq (List.cons.inj hrest).2)

theorem Date.ne_T_of_mem_chars {d : Date} : ∀ c ∈ d.chars, (c != 'T') = true := by
  have hdigit : ∀ {w n : Nat} {c : Char}, c ∈ paddedDigits w n → (c != 'T') = true := by
    intro w n c hc
    refine bne_iff_ne.2 fun he => ?_
    have hd := isDigit_of_mem_paddedDigits hc
    rw [he] at hd
    cases hd
  intro c hc
  simp only [Date.chars, yearChars, List.append_assoc, List.cons_append, List.mem_append, List.mem_cons] at hc
  rcases hc with hc | rfl | hc | rfl | hc
  · split at hc
    · exact hdigit hc
    · rcases List.mem_cons.1 hc with rfl | hc
      · split <;> decide
      · exact hdigit hc
  · decide
  · exact hdigit hc
  · decide
  · exact hdigit hc

/-! ## Times of day -/

theorem timeOfDayChars_append_inj {m n : Nat} {r s : List Char} (hm : m < 86400) (hn : n < 86400)
    (h : timeOfDayChars m ++ r = timeOfDayChars n ++ s) : m = n ∧ r = s := by
  simp only [timeOfDayChars, List.append_assoc, List.cons_append] at h
  obtain ⟨hhour, h⟩ := paddedDigits_append_inj (by decide) (by omega) (by omega) h
  obtain ⟨hminute, h⟩ := paddedDigits_append_inj (by decide) (by omega) (by omega) (List.cons.inj h).2
  obtain ⟨hsecond, h⟩ := paddedDigits_append_inj (by decide) (by omega) (by omega) (List.cons.inj h).2
  exact ⟨by omega, h⟩

def fractionLength (nanos : Nat) : Nat :=
  if nanos = 0 then 0 else if nanos % 1000000 = 0 then 4 else if nanos % 1000 = 0 then 7 else 10

theorem length_fractionChars {n : Nat} (hn : n < 1000000000) :
    (fractionChars n).length = fractionLength n := by
  unfold fractionChars fractionLength
  split
  · rfl
  · split
    · rw [List.length_cons, length_paddedDigits (by decide) (by omega)]
    · split <;> rw [List.length_cons, length_paddedDigits (by decide) (by omega)]

theorem eq_of_fractionChars_eq {m n : Nat} (hm : m < 1000000000) (hn : n < 1000000000)
    (h : fractionChars m = fractionChars n) : m = n := by
  have hlen := congrArg List.length h
  rw [length_fractionChars hm, length_fractionChars hn] at hlen
  unfold fractionLength at hlen
  unfold fractionChars at h
  grind [eq_of_paddedDigits_eq]

/-! ## Instants -/

theorem Instant.eq_of_rfc3339_eq {t u : Instant} (h : t.rfc3339 = u.rfc3339) : t = u := by
  have hchars : t.rfc3339Chars = u.rfc3339Chars := String.ofList_injective h
  have hzone := List.append_cancel_right hchars
  simp only [List.append_assoc, List.cons_append] at hzone
  obtain ⟨hdate, htime⟩ := append_inj_of_stops Date.ne_T_of_mem_chars Date.ne_T_of_mem_chars
    (stops_cons.2 (by decide)) (stops_cons.2 (by decide)) hzone
  have hday := Date.eq_of_ofDays_eq (Date.eq_of_chars_eq (Date.ofDays_lt _) (Date.ofDays_lt _) hdate)
  obtain ⟨hsecond, hfraction⟩ := timeOfDayChars_append_inj (by omega) (by omega) (List.cons.inj htime).2
  have hsub : t.subsecond = u.subsecond :=
    eq_of_fractionChars_eq (by unfold subsecond; omega) (by unfold subsecond; omega) hfraction
  have hseconds : t.seconds = u.seconds := by omega
  apply Instant.ext
  unfold subsecond at hsub
  unfold seconds at hseconds
  omega

end Assortment.Time
