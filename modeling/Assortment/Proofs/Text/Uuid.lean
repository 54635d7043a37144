import Assortment.Text.Uuid

/-!
# Texts of UUIDs do not collide

The hyphens of a written UUID can be taken out again, and each digit stands for its own four bits.
-/

namespace Assortment.Text.Uuid

theorem eq_of_digitChar_eq : ∀ m < 16, ∀ n < 16, Nat.digitChar m = Nat.digitChar n → m = n := by
  decide

theorem digitChar_ne_hyphen : ∀ n < 16, Nat.digitChar n ≠ '-' := by
  decide

theorem toNat_nibble_lt (u : Uuid) (i : Nat) : (u.bits.extractLsb' i 4).toNat < 16 :=
  (u.bits.extractLsb' i 4).isLt

theorem eq_of_digits_eq {u v : Uuid} (h : u.digits = v.digits) : u = v := by
  have hn : ∀ i < 32, u.bits.extractLsb' (4 * (31 - i)) 4 = v.bits.extractLsb' (4 * (31 - i)) 4 := by
    intro i hi
    have hc := List.map_inj_left.1 h i (List.mem_range.2 hi)
    exact BitVec.eq_of_toNat_eq
      (eq_of_digitChar_eq _ (toNat_nibble_lt u _) _ (toNat_nibble_lt v _) hc)
  have hb : u.bits = v.bits := by
    apply BitVec.eq_of_getLsbD_eq
    intro k hk
    -- Bit `k` is bit `k % 4` of the digit that has `k / 4` digits after it.
    have hd := congrArg (fun w => w.getLsbD (k % 4)) (hn (31 - k / 4) (by omega))
    have hlt : k % 4 < 4 := Nat.mod_lt _ (by decide)
    have hk' : 4 * (31 - (31 - k / 4)) + k % 4 = k := by omega
    simpa [BitVec.getLsbD_extractLsb', hlt, hk'] using hd
  cases u
  cases v
  exact congrArg Uuid.mk hb

theorem bne_hyphen_of_mem_digits {u : Uuid} {c : Char} (h : c ∈ u.digits) : (c != '-') = true := by
  obtain ⟨i, _, rfl⟩ := List.mem_map.1 h
  exact bne_iff_ne.2 (digitChar_ne_hyphen _ (toNat_nibble_lt u _))

/-- Without its hyphens a hyphenated text is what it was. -/
theorem filter_hyphenate {cs : List Char} (h : ∀ c ∈ cs, (c != '-') = true) :
    (hyphenate cs).filter (· != '-') = cs := by
  have hf : ∀ ds : List Char, ds.Sublist cs → ds.filter (· != '-') = ds := by
    intro ds hs
    exact List.filter_eq_self.2 fun c hc => h c (hs.subset hc)
  have htake : ∀ n m, (cs.drop n).take m |>.Sublist cs := fun n m =>
    (List.take_sublist m _).trans (List.drop_sublist n cs)
  simp only [hyphenate, List.append_assoc, List.cons_append, List.filter_append, List.filter_cons,
    hf _ (List.take_sublist 8 cs), hf _ (htake _ _), hf _ (List.drop_sublist 20 cs)]
  simp only [bne_self_eq_false, Bool.false_eq_true, ↓reduceIte]
  rw [show cs.drop 20 = (cs.drop 16).drop 4 by simp, List.take_append_drop,
    show cs.drop 16 = (cs.drop 12).drop 4 by simp, List.take_append_drop,
    show cs.drop 12 = (cs.drop 8).drop 4 by simp, List.take_append_drop, List.take_append_drop]

/-- Different UUIDs have different texts. -/
theorem eq_of_text_eq {u v : Uuid} (h : u.text = v.text) : u = v := by
  have hh : hyphenate u.digits = hyphenate v.digits := String.ofList_injective h
  apply eq_of_digits_eq
  rw [← filter_hyphenate fun _ => bne_hyphen_of_mem_digits (u := u), hh,
    filter_hyphenate fun _ => bne_hyphen_of_mem_digits (u := v)]

end Assortment.Text.Uuid
