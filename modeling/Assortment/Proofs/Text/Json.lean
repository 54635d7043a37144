import Assortment.Proofs.Text.Numeral
import Assortment.Text.Json.Reader

/-!
# Compact JSON texts do not collide

The first character of a compact text tells what kind of value it is of, and the text ends where it has to:
only a number could go on, and no number is followed by a digit. So different values whose numbers are all whole have
different texts. Within an object members of different keys do not collide either: all of them stay when they are
sorted.
-/

namespace Assortment.Text.Json

/-! ## Whole numbers -/

theorem areWhole_cons {a : Json} {rest : List Json} :
    areWhole (a :: rest) = true ↔ a.isWhole = true ∧ areWhole rest = true := by
  simp [areWhole]

theorem membersWhole_cons {k : String} {a : Json} {rest : List (String × Json)} :
    membersWhole ((k, a) :: rest) = true ↔ a.isWhole = true ∧ membersWhole rest = true := by
  simp [membersWhole]

/-! ## First characters -/

/-- The kinds of values. -/
inductive Kind where
  | null
  | bool
  | int
  | float
  | str
  | arr
  | obj

def kind : Json → Kind
  | .null => .null
  | .bool _ => .bool
  | .int _ => .int
  | .float _ _ => .float
  | .str _ => .str
  | .arr _ => .arr
  | .obj _ => .obj

/-- The kind of the values with whole numbers whose texts start with a character. -/
def kindOf? (c : Char) : Option Kind :=
  if c.isDigit || c == '-' then some .int
  else match c with
    | 'n' => some .null
    | 't' | 'f' => some .bool
    | '"' => some .str
    | '[' => some .arr
    | '\x7b' => some .obj
    | _ => none

theorem kindOf?_head {j : Json} (hj : j.isWhole = true) (r : List Char) :
    (j.compactChars ++ r).head?.bind kindOf? = some j.kind := by
  cases j with
  | bool b => cases b <;> rfl
  | int n =>
      cases n with
      | ofNat n =>
          obtain ⟨c, hc, hd⟩ := head?_natDigits_append n r
          rw [compactChars, intDigits, hc]
          simp [kindOf?, hd, kind]
      | negSucc n => rfl
  | float x hx => cases hj
  | _ => rfl

theorem kind_eq {a b : Json} {r s : List Char} (ha : a.isWhole = true) (hb : b.isWhole = true)
    (h : a.compactChars ++ r = b.compactChars ++ s) : a.kind = b.kind := by
  have hk := kindOf?_head ha r
  rw [h, kindOf?_head hb] at hk
  exact (Option.some.inj hk).symm

theorem compactChars_append_ne {j : Json} {c : Char} {r s : List Char} (hj : j.isWhole = true)
    (hc : kindOf? c = none) : j.compactChars ++ r ≠ c :: s := by
  intro h
  have hk := kindOf?_head hj r
  simp [h, hc] at hk

theorem quoted_append_inj {s t : String} {r u : List Char} (h : quoted s ++ r = quoted t ++ u) :
    s = t ∧ r = u := by
  have ht := congrArg takeString? h
  rw [takeString?_quoted, takeString?_quoted] at ht
  cases ht
  exact ⟨rfl, rfl⟩

/-! ## Texts -/

mutual
theorem compactChars_append_inj : (a b : Json) → a.isWhole = true → b.isWhole = true → {r s : List Char} →
    Stops Char.isDigit r → Stops Char.isDigit s → a.compactChars ++ r = b.compactChars ++ s → a = b ∧ r = s
  | .null, b, ha, hb, _, _, _, _, h => by
      cases b <;> cases kind_eq ha hb h
      simp [compactChars] at h
      exact ⟨rfl, h⟩
  | .bool a, b, ha, hb, _, _, _, _, h => by
      cases b with
      | bool b =>
          cases a <;> cases b <;> simp [compactChars] at h
          all_goals exact ⟨rfl, h⟩
      | _ => cases kind_eq ha hb h
  | .int m, b, ha, hb, _, _, hr, hs, h => by
      cases b with
      | int n =>
          obtain ⟨rfl, hrest⟩ := intDigits_append_inj hr hs h
          exact ⟨rfl, hrest⟩
      | _ => cases kind_eq ha hb h
  | .float _ _, _, ha, _, _, _, _, _, _ => by cases ha
  | .str a, b, ha, hb, _, _, _, _, h => by
      cases b with
      | str b =>
          obtain ⟨rfl, hrest⟩ := quoted_append_inj h
          exact ⟨rfl, hrest⟩
      | _ => cases kind_eq ha hb h
  | .arr as, b, ha, hb, _, _, _, _, h => by
      cases b with
      | arr bs =>
          obtain ⟨rfl, hrest⟩ := itemChars_append_inj as bs ha hb (by simpa [compactChars] using h)
          exact ⟨rfl, hrest⟩
      | _ => cases kind_eq ha hb h
  | .obj as, b, ha, hb, _, _, _, _, h => by
      cases b with
      | obj bs =>
          obtain ⟨rfl, hrest⟩ := memberChars_append_inj as bs ha hb (by simpa [compactChars] using h)
          exact ⟨rfl, hrest⟩
      | _ => cases kind_eq ha hb h

theorem itemChars_append_inj : (as bs : List Json) → areWhole as = true → areWhole bs = true → {r s : List Char} →
    itemChars as ++ ']' :: r = itemChars bs ++ ']' :: s → as = bs ∧ r = s
  | [], [], _, _, _, _, h => by simpa [itemChars] using h
  | [], b :: bs, _, hb, _, _, h => by
      cases bs <;> simp only [itemChars, List.append_assoc, List.nil_append] at h <;>
        exact absurd h.symm (compactChars_append_ne (areWhole_cons.1 hb).1 (by decide))
  | a :: as, [], ha, _, _, _, h => by
      cases as <;> simp only [itemChars, List.append_assoc, List.nil_append] at h <;>
        exact absurd h (compactChars_append_ne (areWhole_cons.1 ha).1 (by decide))
  | [a], [b], ha, hb, _, _, h => by
      obtain ⟨rfl, hrest⟩ := compactChars_append_inj a b (areWhole_cons.1 ha).1 (areWhole_cons.1 hb).1
        (stops_cons.2 rfl) (stops_cons.2 rfl) h
      simpa using hrest
  | [a], b :: _ :: _, ha, hb, _, _, h => by
      simp only [itemChars, List.append_assoc] at h
      have hrest := (compactChars_append_inj a b (areWhole_cons.1 ha).1 (areWhole_cons.1 hb).1
        (stops_cons.2 rfl) (stops_cons.2 rfl) h).2
      simp at hrest
  | a :: _ :: _, [b], ha, hb, _, _, h => by
      simp only [itemChars, List.append_assoc] at h
      have hrest := (compactChars_append_inj a b (areWhole_cons.1 ha).1 (areWhole_cons.1 hb).1
        (stops_cons.2 rfl) (stops_cons.2 rfl) h).2
      simp at hrest
  | a :: a' :: as, b :: b' :: bs, ha, hb, _, _, h => by
      obtain ⟨hva, has⟩ := areWhole_cons.1 ha
      obtain ⟨hvb, hbs⟩ := areWhole_cons.1 hb
      simp only [itemChars, List.append_assoc] at h
      obtain ⟨rfl, hrest⟩ := compactChars_append_inj a b hva hvb (stops_cons.2 rfl) (stops_cons.2 rfl) h
      obtain ⟨hitems, hrest⟩ := itemChars_append_inj (a' :: as) (b' :: bs) has hbs (List.cons.inj hrest).2
      exact ⟨by rw [hitems], hrest⟩

theorem memberChars_append_inj : (as bs : List (String × Json)) → membersWhole as = true →
    membersWhole bs = true → {r s : List Char} →
    memberChars as ++ '\x7d' :: r = memberChars bs ++ '\x7d' :: s → as = bs ∧ r = s
  | [], [], _, _, _, _, h => by simpa [memberChars] using h
  | [], (l, b) :: bs, _, _, _, _, h => by cases bs <;> simp [memberChars, quoted] at h
  | (k, a) :: as, [], _, _, _, _, h => by cases as <;> simp [memberChars, quoted] at h
  | [(k, a)], [(l, b)], ha, hb, _, _, h => by
      simp only [memberChars, List.append_assoc, List.cons_append] at h
      obtain ⟨rfl, hvalue⟩ := quoted_append_inj h
      obtain ⟨rfl, hrest⟩ := compactChars_append_inj a b (membersWhole_cons.1 ha).1 (membersWhole_cons.1 hb).1
        (stops_cons.2 rfl) (stops_cons.2 rfl) (List.cons.inj hvalue).2
      simpa using hrest
  | [(k, a)], (l, b) :: _ :: _, ha, hb, _, _, h => by
      simp only [memberChars, List.append_assoc, List.cons_append] at h
      have hvalue := (List.cons.inj (quoted_append_inj h).2).2
      have hrest := (compactChars_append_inj a b (membersWhole_cons.1 ha).1 (membersWhole_cons.1 hb).1
        (stops_cons.2 rfl) (stops_cons.2 rfl) hvalue).2
      simp at hrest
  | (k, a) :: _ :: _, [(l, b)], ha, hb, _, _, h => by
      simp only [memberChars, List.append_assoc, List.cons_append] at h
      have hvalue := (List.cons.inj (quoted_append_inj h).2).2
      have hrest := (compactChars_append_inj a b (membersWhole_cons.1 ha).1 (membersWhole_cons.1 hb).1
        (stops_cons.2 rfl) (stops_cons.2 rfl) hvalue).2
      simp at hrest
  | (k, a) :: a' :: as, (l, b) :: b' :: bs, ha, hb, _, _, h => by
      obtain ⟨hva, has⟩ := membersWhole_cons.1 ha
      obtain ⟨hvb, hbs⟩ := membersWhole_cons.1 hb
      simp only [memberChars, List.append_assoc, List.cons_append] at h
      obtain ⟨rfl, hvalue⟩ := quoted_append_inj h
      obtain ⟨rfl, hrest⟩ := compactChars_append_inj a b hva hvb (stops_cons.2 rfl) (stops_cons.2 rfl)
        (List.cons.inj hvalue).2
      obtain ⟨hmembers, hrest⟩ := memberChars_append_inj (a' :: as) (b' :: bs) has hbs (List.cons.inj hrest).2
      exact ⟨by rw [hmembers], hrest⟩
end

/-- Different values with whole numbers have different compact texts. -/
theorem eq_of_compact_eq {a b : Json} (ha : a.isWhole = true) (hb : b.isWhole = true)
    (h : a.compact = b.compact) : a = b :=
  (compactChars_append_inj a b ha hb stops_nil stops_nil (congrArg (· ++ []) (String.ofList_injective h))).1

/-! ## Objects -/

variable {members sorted : List (String × Json)}

theorem insertMember_perm {k : String} {v : Json} (h : k ∉ sorted.map (·.1)) :
    (insertMember k v sorted).Perm ((k, v) :: sorted) := by
  induction sorted with
  | nil => exact .refl _
  | cons m rest ih =>
      obtain ⟨hk, hrest⟩ := not_or.1 (mt List.mem_cons.2 h)
      simp only [insertMember, hk, ↓reduceIte]
      split
      · exact .refl _
      · exact ((ih hrest).cons m).trans (.swap ..)

theorem foldl_insertMember_perm (h : ((sorted ++ members).map (·.1)).Nodup) :
    (members.foldl (fun sorted m => insertMember m.1 m.2 sorted) sorted).Perm (sorted ++ members) := by
  induction members generalizing sorted with
  | nil => simp
  | cons m members ih =>
      have hmoved : (sorted ++ m :: members).Perm (m :: sorted ++ members) := List.perm_middle
      have hkeys := (hmoved.map (·.1)).nodup_iff.1 h
      have hnew : m.1 ∉ sorted.map (·.1) := by
        rw [List.cons_append, List.map_cons, List.nodup_cons, List.map_append, List.mem_append, not_or] at hkeys
        exact hkeys.1.1
      have hinsert := (insertMember_perm (v := m.2) hnew).append_right members
      have hrest := ih (((hinsert.map (·.1)).nodup_iff).2 hkeys)
      exact hrest.trans (hinsert.trans hmoved.symm)

/-- An object keeps all its members when no two of them have the same key. -/
theorem object_eq_of_nodup (h : (members.map (·.1)).Nodup) :
    ∃ sorted, object members = .obj sorted ∧ sorted.Perm members :=
  ⟨_, rfl, @foldl_insertMember_perm members [] h⟩

/-- Members with the same keys in the same order are the same if they are so up to their order. -/
theorem members_eq_of_perm : {as bs : List (String × Json)} → as.Perm bs → as.map (·.1) = bs.map (·.1) →
    (bs.map (·.1)).Nodup → as = bs
  | [], _, hperm, _, _ => hperm.nil_eq
  | _ :: _, [], hperm, _, _ => hperm.eq_nil
  | a :: as, b :: bs, hperm, hkeys, hnodup => by
      obtain ⟨hkey, hrest⟩ : a.1 = b.1 ∧ as.map (·.1) = bs.map (·.1) := List.cons.inj hkeys
      obtain ⟨hfresh, hrestnodup⟩ : b.1 ∉ bs.map (·.1) ∧ (bs.map (·.1)).Nodup := List.nodup_cons.1 hnodup
      have hab : a = b := by
        rcases List.mem_cons.1 (hperm.subset List.mem_cons_self) with h | h
        · exact h
        · rw [← hkey] at hfresh
          exact absurd (List.mem_map_of_mem h) hfresh
      subst hab
      rw [members_eq_of_perm hperm.cons_inv hrest hrestnodup]

end Assortment.Text.Json
