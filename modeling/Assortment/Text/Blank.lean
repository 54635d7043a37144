/-!
# Blank characters and trimming

A character is blank when Unicode gives it the property White_Space. Trimming removes the blank
characters at both ends and nothing else.
-/
namespace Assortment.Text

/-- The code points with the property White_Space, as closed ranges in increasing order. -/
def blankRanges : List (Nat × Nat) :=
  [(0x09, 0x0D), (0x20, 0x20), (0x85, 0x85), (0xA0, 0xA0), (0x1680, 0x1680), (0x2000, 0x200A),
    (0x2028, 0x2029), (0x202F, 0x202F), (0x205F, 0x205F), (0x3000, 0x3000)]

/-- A blank character has its code point in one of the ranges. -/
def isBlankChar (c : Char) : Bool :=
  blankRanges.any fun r => r.1 ≤ c.toNat && c.toNat ≤ r.2

def trimChars (cs : List Char) : List Char :=
  ((cs.dropWhile isBlankChar).reverse.dropWhile isBlankChar).reverse

/-- Drops the blank characters at both ends of a text. -/
def trim (s : String) : String :=
  String.ofList (trimChars s.toList)

/-- A blank text holds blank characters only. -/
def isBlank (s : String) : Bool :=
  s.toList.all isBlankChar

theorem toList_trim (s : String) : (trim s).toList = trimChars s.toList := by
  simp [trim]

theorem dropWhile_eq_nil_iff {p : Char → Bool} {cs : List Char} :
    cs.dropWhile p = [] ↔ ∀ c ∈ cs, p c = true := by
  induction cs with
  | nil => simp
  | cons c cs ih => cases h : p c <;> simp [h, ih]

/-- Trimming leaves nothing exactly when every character is blank. -/
theorem trimChars_eq_nil_iff {cs : List Char} :
    trimChars cs = [] ↔ ∀ c ∈ cs, isBlankChar c = true := by
  unfold trimChars
  rw [List.reverse_eq_nil_iff, dropWhile_eq_nil_iff]
  constructor
  · intro h
    rw [← dropWhile_eq_nil_iff]
    cases hd : cs.dropWhile isBlankChar with
    | nil => rfl
    | cons c r =>
        have hc : isBlankChar c = true := h c (by simp [hd])
        have hn : isBlankChar c = false := by
          have := List.head?_dropWhile_not isBlankChar cs
          simpa [hd] using this
        rw [hn] at hc
        cases hc
  · intro h c hc
    rw [List.mem_reverse] at hc
    exact h c (List.dropWhile_sublist _ |>.subset hc)

/-- Blank characters at either end make no difference to what is left. -/
theorem trimChars_append {before cs after : List Char}
    (hb : ∀ c ∈ before, isBlankChar c = true) (ha : ∀ c ∈ after, isBlankChar c = true) :
    trimChars (before ++ cs ++ after) = trimChars cs := by
  unfold trimChars
  rw [List.append_assoc, List.dropWhile_append_of_pos hb, List.dropWhile_append]
  cases hd : cs.dropWhile isBlankChar with
  | nil => simp [dropWhile_eq_nil_iff.2 ha]
  | cons c r =>
      have hr : ∀ c ∈ after.reverse, isBlankChar c = true := fun c hc => ha c (by simpa using hc)
      simp only [List.isEmpty_cons, Bool.false_eq_true, if_false, List.reverse_append]
      rw [List.dropWhile_append_of_pos hr]

/-- What is left after trimming is the text less a blank part at each end. -/
theorem exists_eq_append_trimChars (cs : List Char) :
    ∃ before after, (∀ c ∈ before, isBlankChar c = true) ∧ (∀ c ∈ after, isBlankChar c = true) ∧
      cs = before ++ trimChars cs ++ after := by
  refine ⟨cs.takeWhile isBlankChar,
    ((cs.dropWhile isBlankChar).reverse.takeWhile isBlankChar).reverse, ?_, ?_, ?_⟩
  · exact List.all_eq_true.1 List.all_takeWhile
  · exact fun c hc => List.all_eq_true.1 List.all_takeWhile c (List.mem_reverse.1 hc)
  · unfold trimChars
    rw [List.append_assoc, ← List.reverse_append, List.takeWhile_append_dropWhile,
      List.reverse_reverse, List.takeWhile_append_dropWhile]

theorem trimChars_trimChars (cs : List Char) : trimChars (trimChars cs) = trimChars cs := by
  obtain ⟨before, after, hb, ha, he⟩ := exists_eq_append_trimChars cs
  exact ((congrArg trimChars he).trans (trimChars_append hb ha)).symm

theorem trim_trim (s : String) : trim (trim s) = trim s := by
  rw [← String.toList_inj, toList_trim, toList_trim, trimChars_trimChars]

theorem isBlank_iff {s : String} : isBlank s = true ↔ trim s = "" := by
  rw [← String.toList_inj, toList_trim, String.toList_empty, trimChars_eq_nil_iff]
  simp [isBlank]

end Assortment.Text
