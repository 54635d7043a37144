import Assortment.Goods.Money
import Assortment.Proofs.Text.Numeral
import Mathlib.Algebra.Order.Field.Rat
import Mathlib.Data.Rat.Floor
import Mathlib.Tactic.FieldSimp
import Mathlib.Tactic.Linarith

/-!
# The text of an amount

The text of an amount tells one number of hundredths. That number is the nearest one, the one further from nothing
where two are equally near, so it changes sign with the amount and never falls while the amount grows.
-/

namespace Assortment.Goods
open Assortment.Text

/-! ## Rounding -/

/-- Whether an integer is the nearest one to a number, and the one further from zero where two are equally near. -/
structure NearestAway (q : Rat) (z : Int) : Prop where
  near : |q - z| ≤ 1 / 2
  tie : |q - z| = 1 / 2 → |q| < |(z : Rat)|

variable {p q : Rat} {z : Int}

theorem NearestAway.neg (h : NearestAway q z) : NearestAway (-q) (-z) := by
  have hdist : |-q - ((-z : Int) : Rat)| = |q - z| := by
    rw [Int.cast_neg, neg_sub_neg, abs_sub_comm]
  refine ⟨hdist ▸ h.near, fun ht => ?_⟩
  rw [Int.cast_neg, abs_neg, abs_neg]
  exact h.tie (hdist ▸ ht)

theorem nearestAway_floor (h : 0 ≤ q) : NearestAway q ⌊q + 1 / 2⌋ := by
  have hlow : (⌊q + 1 / 2⌋ : Rat) ≤ q + 1 / 2 := Int.floor_le _
  have hhigh : q + 1 / 2 < ⌊q + 1 / 2⌋ + 1 := Int.lt_floor_add_one _
  refine ⟨abs_le.2 ⟨by linarith, by linarith⟩, fun ht => ?_⟩
  -- A tie is only reached from below, where the floor is half a unit above the number.
  have hup : (⌊q + 1 / 2⌋ : Rat) = q + 1 / 2 := by
    rcases abs_cases (q - ⌊q + 1 / 2⌋) with ⟨he, _⟩ | ⟨he, _⟩ <;> linarith
  rw [hup, abs_of_nonneg h, abs_of_nonneg (by linarith)]
  linarith

theorem roundHalfAway_neg (q : Rat) : roundHalfAway (-q) = -roundHalfAway q := by
  unfold roundHalfAway
  rw [Rat.num_neg_eq_neg_num, Rat.neg_den, Int.sign_neg, Int.natAbs_neg, Int.neg_mul]

theorem roundHalfAway_of_nonneg (h : 0 ≤ q) : roundHalfAway q = ⌊q + 1 / 2⌋ := by
  rcases h.eq_or_lt with rfl | hpos
  · decide +kernel
  · obtain ⟨n, hn⟩ := Int.eq_ofNat_of_zero_le (Rat.num_nonneg.2 h)
    have hnum : (q.num : Rat) = n := by rw [hn, Int.cast_natCast]
    have hden : (q.den : Rat) ≠ 0 := Nat.cast_ne_zero.2 q.den_nz
    have hsum : q + 1 / 2 = ((2 * n + q.den : Nat) : Int) / ((2 * q.den : Nat) : Rat) := by
      calc q + 1 / 2 = n / q.den + 1 / 2 := by rw [← hnum, Rat.num_div_den]
        _ = (2 * n + q.den) / (2 * q.den) := by field_simp
        _ = _ := by push_cast; rfl
    rw [hsum, Rat.floor_intCast_div_natCast, roundHalfAway, Int.sign_eq_one_of_pos (Rat.num_pos.2 hpos), Int.one_mul,
      hn, Int.natAbs_natCast]
    norm_cast

theorem nearestAway_roundHalfAway (q : Rat) : NearestAway q (roundHalfAway q) := by
  rcases le_total 0 q with h | h
  · rw [roundHalfAway_of_nonneg h]
    exact nearestAway_floor h
  · have hneg : 0 ≤ -q := neg_nonneg.2 h
    have hnearest := (nearestAway_floor hneg).neg
    rwa [← roundHalfAway_of_nonneg hneg, roundHalfAway_neg, neg_neg, neg_neg] at hnearest

theorem roundHalfAway_mono (h : p ≤ q) : roundHalfAway p ≤ roundHalfAway q := by
  by_contra hlt
  have hgap : (roundHalfAway q : Rat) + 1 ≤ roundHalfAway p := by exact_mod_cast Int.not_le.1 hlt
  have hp := abs_le.1 (nearestAway_roundHalfAway p).near
  have hq := abs_le.1 (nearestAway_roundHalfAway q).near
  -- The two numbers would have to meet half a unit from both integers.
  have he : p = q := by linarith
  rw [he] at hlt
  exact hlt le_rfl

/-! ## Digits -/

/-- A text that tells a number of hundredths: a minus perhaps, a numeral, a point and two digits. The number is what
the digits spell without the point. -/
inductive TellsCents : List Char → Int → Prop where
  | plain {whole : List Char} {t u : Char} : IsNumeral whole → t.isDigit = true → u.isDigit = true →
      TellsCents (whole ++ ['.', t, u]) (digitsValue (whole ++ [t, u]))
  | minus {whole : List Char} {t u : Char} : IsNumeral whole → t.isDigit = true → u.isDigit = true →
      TellsCents ('-' :: (whole ++ ['.', t, u])) (-digitsValue (whole ++ [t, u]))

variable {cs ds : List Char} {c d : Int}

theorem TellsCents.unique (h : TellsCents cs c) (h' : TellsCents ds d) (he : cs = ds) : c = d := by
  cases h with
  | plain hw _ _ =>
      cases h' with
      | plain _ _ _ =>
          obtain ⟨rfl, htail⟩ := List.append_inj' he rfl
          cases htail
          rfl
      | minus _ _ _ => exact absurd he (hw.append_ne (by decide))
  | minus _ _ _ =>
      cases h' with
      | plain hw _ _ => exact absurd he.symm (hw.append_ne (by decide))
      | minus _ _ _ =>
          obtain ⟨rfl, htail⟩ := List.append_inj' (List.cons.inj he).2 rfl
          cases htail
          rfl

namespace Money

/-- Fewer than a hundred cents fit in a byte. -/
theorem looseCents?_eq (c : Int) : looseCents? c = some (UInt8.ofNat (c.natAbs % 100)) := by
  have hlt : c.natAbs % 100 < UInt8.size := (Nat.mod_lt _ (by decide)).trans (by decide)
  rw [looseCents?, fitByte?, if_pos hlt]

theorem centsChars_eq (c : Int) : centsChars c = (if c < 0 then ['-'] else [])
    ++ (natDigits (c.natAbs / 100) ++ '.' :: paddedDigits 2 (c.natAbs % 100)) := by
  have hbyte : (UInt8.ofNat (c.natAbs % 100)).toNat = c.natAbs % 100 :=
    UInt8.toNat_ofNat_of_lt ((Nat.mod_lt _ (by decide)).trans (by decide))
  rw [centsChars, looseCents?_eq, Option.getD_some, hbyte, List.append_assoc]

theorem toList_text (m : Money) : m.text.toList = centsChars m.cents :=
  String.toList_ofList

theorem tellsCents_centsChars (c : Int) : TellsCents (centsChars c) c := by
  have hloose : c.natAbs % 100 < 10 ^ 2 := Nat.mod_lt _ (by decide)
  have hwhole := isNumeral_natDigits (c.natAbs / 100)
  have hvalue : digitsValue (natDigits (c.natAbs / 100) ++ paddedDigits 2 (c.natAbs % 100)) = c.natAbs := by
    rw [digitsValue_append, length_paddedDigits (by decide) hloose, digitsValue_natDigits, digitsValue_paddedDigits]
    exact Nat.div_add_mod _ _
  obtain ⟨t, u, htu⟩ := List.length_eq_two.1 (length_paddedDigits (by decide) hloose)
  have hdigit : ∀ x ∈ [t, u], x.isDigit = true := fun x hx => isDigit_of_mem_paddedDigits (htu ▸ hx)
  have ht : t.isDigit = true := hdigit t (by simp)
  have hu : u.isDigit = true := hdigit u (by simp)
  rw [centsChars_eq, htu]
  rw [htu] at hvalue
  by_cases hc : c < 0
  · have htells := TellsCents.minus hwhole ht hu
    rw [hvalue, Int.ofNat_natAbs_of_nonpos hc.le, neg_neg] at htells
    rwa [if_pos hc]
  · have htells := TellsCents.plain hwhole ht hu
    rw [hvalue, Int.natAbs_of_nonneg (Int.not_lt.1 hc)] at htells
    rwa [if_neg hc]

theorem mem_centsChars_iff : '-' ∈ centsChars c ↔ c < 0 := by
  have hwhole : '-' ∉ natDigits (c.natAbs / 100) := fun h => ne_of_mem_natDigits h (by decide) rfl
  have hloose : '-' ∉ paddedDigits 2 (c.natAbs % 100) :=
    fun h => absurd (isDigit_of_mem_paddedDigits h) (by decide)
  rw [centsChars_eq]
  by_cases hc : c < 0 <;> simp [hc, hwhole, hloose]

/-! ## Texts -/

/-- The text of an amount of any size and sign tells one number of hundredths, and its loose cents fit in a byte. The
number is the nearest one, the one further from zero where two are equally near. The minus is there just if the
number is below zero, so nothing is never told with one. The opposite amount tells the opposite number, and a greater
amount no smaller one. -/
theorem text_tells_nearest (m : Money) :
    (∀ c, TellsCents m.text.toList c ↔ c = m.cents)
    ∧ NearestAway (100 * m.amount) m.cents
    ∧ ('-' ∈ m.text.toList ↔ m.cents < 0)
    ∧ m.text ≠ "-0.00"
    ∧ (⟨-m.amount⟩ : Money).cents = -m.cents
    ∧ (∀ m' : Money, m ≤ m' → m.cents ≤ m'.cents)
    ∧ looseCents? m.cents ≠ none := by
  have htells : ∀ c, TellsCents m.text.toList c ↔ c = m.cents := fun c => by
    rw [toList_text]
    exact ⟨fun h => h.unique (tellsCents_centsChars _) rfl, fun h => h ▸ tellsCents_centsChars _⟩
  have hminus : '-' ∈ m.text.toList ↔ m.cents < 0 := by
    rw [toList_text]
    exact mem_centsChars_iff
  refine ⟨htells, ?_, hminus, ?_, ?_, ?_, ?_⟩
  · rw [mul_comm]
    exact nearestAway_roundHalfAway _
  · intro htext
    rw [htext] at htells hminus
    have hnumeral : IsNumeral ['0'] := isNumeral_natDigits 0
    have hzero : 0 = m.cents := (htells 0).1 (TellsCents.minus hnumeral rfl rfl)
    exact absurd (hminus.1 (by decide)) hzero.not_gt
  · rw [cents, neg_mul]
    exact roundHalfAway_neg _
  · intro m' hle
    exact roundHalfAway_mono (mul_le_mul_of_nonneg_right hle (by norm_num))
  · rw [looseCents?_eq]
    exact Option.some_ne_none _

theorem text_tells_nearest_small :
    TellsCents (⟨-1 / 200⟩ : Money).text.toList (-1)
    ∧ TellsCents (⟨-1 / 300⟩ : Money).text.toList 0 ∧ '-' ∉ (⟨-1 / 300⟩ : Money).text.toList
    ∧ (⟨-1 / 200⟩ : Money) ≤ ⟨-1 / 300⟩ ∧ (⟨-1 / 200⟩ : Money).cents ≤ (⟨-1 / 300⟩ : Money).cents := by
  obtain ⟨htie, _, _, _, _, hmono, _⟩ := text_tells_nearest ⟨-1 / 200⟩
  obtain ⟨hzero, _, hminus, _⟩ := text_tells_nearest ⟨-1 / 300⟩
  have hle : (⟨-1 / 200⟩ : Money) ≤ ⟨-1 / 300⟩ := by decide +kernel
  exact ⟨(htie _).2 (by decide +kernel), (hzero _).2 (by decide +kernel), mt hminus.1 (by decide +kernel), hle,
    hmono _ hle⟩

end Money

end Assortment.Goods
