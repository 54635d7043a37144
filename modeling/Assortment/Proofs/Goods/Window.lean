import Assortment.Goods.Discount
import Mathlib.Algebra.Order.Ring.Unbundled.Rat
import Mathlib.Order.Bounds.Defs

/-!
# The window of a discount

What becomes of a percentage and two bounds is told by the percentage and by the whole microseconds in which the
bounds lie. A discount is built again from its own parts, and its window cuts time into three phases, of which the
first two end at its bounds.
-/

namespace Assortment.Time.Instant

variable {t u : Instant}

/-! ## Whole microseconds -/

theorem isGreatest_floorMicro (t : Instant) :
    IsGreatest {m : Instant | (1000 : Int) ∣ m.nanos ∧ m ≤ t} t.floorMicro := by
  refine ⟨⟨?_, t.floorMicro_le⟩, ?_⟩
  · rw [floorMicro_nanos]
    omega
  · rintro m ⟨hwhole, hle⟩
    rw [le_def] at hle ⊢
    rw [floorMicro_nanos]
    omega

theorem floorMicro_eq_iff : t.floorMicro = u.floorMicro ↔ t.nanos / 1000 = u.nanos / 1000 := by
  rw [Instant.ext_iff, floorMicro_nanos, floorMicro_nanos]
  omega

end Assortment.Time.Instant

namespace Assortment.Goods
open Assortment.Time

namespace Discount

variable {percentage percentage' : Rat} {start finish start' finish' : Instant} {d d' : Discount}

/-! ## Construction -/

theorem make_eq_ok_iff : make percentage start finish = .ok d
    ↔ d.percentage = percentage ∧ d.start = start.floorMicro ∧ d.finish = finish.floorMicro := by
  unfold make
  constructor
  · intro h
    split at h
    · split at h
      · cases h
        exact ⟨rfl, rfl, rfl⟩
      · cases h
    · cases h
  · rintro ⟨rfl, hs, hf⟩
    have hp : 0 < d.percentage ∧ d.percentage ≤ 100 := ⟨d.percentage_pos, d.percentage_le⟩
    have ht : start.floorMicro < finish.floorMicro := hs ▸ hf ▸ d.start_lt_finish
    rw [dif_pos hp, dif_pos ht]
    exact congrArg Except.ok (Discount.ext rfl hs.symm hf.symm)

theorem make_self (d : Discount) : make d.percentage d.start d.finish = .ok d :=
  make_eq_ok_iff.2 ⟨rfl, d.start_aligned.symm, d.finish_aligned.symm⟩

theorem make_eq_invalidPercentage_iff : make percentage start finish = .error .invalidDiscountPercentage
    ↔ percentage ≤ 0 ∨ 100 < percentage := by
  have hrange : percentage ≤ 0 ∨ 100 < percentage ↔ ¬ (0 < percentage ∧ percentage ≤ 100) := by
    rw [not_and_or, not_lt, not_le]
  rw [hrange]
  unfold make
  split
  · rename_i hp
    split <;> simp [hp]
  · rename_i hp
    exact iff_of_true rfl hp

theorem make_eq_invalidPeriod_iff : make percentage start finish = .error .invalidDiscountPeriod
    ↔ 0 < percentage ∧ percentage ≤ 100 ∧ finish.floorMicro ≤ start.floorMicro := by
  have hbounds : finish.floorMicro ≤ start.floorMicro ↔ ¬ start.floorMicro < finish.floorMicro := by
    rw [Instant.le_def, Instant.lt_def, Int.not_lt]
  rw [hbounds, ← and_assoc]
  unfold make
  split
  · rename_i hp
    split
    · rename_i ht
      simp [ht]
    · rename_i ht
      exact iff_of_true rfl ⟨hp, ht⟩
  · rename_i hp
    simp [hp]

theorem exists_make_iff : (∃ d, make percentage start finish = .ok d)
    ↔ 0 < percentage ∧ percentage ≤ 100 ∧ start.floorMicro < finish.floorMicro := by
  constructor
  · rintro ⟨d, hd⟩
    obtain ⟨rfl, hs, hf⟩ := make_eq_ok_iff.1 hd
    exact ⟨d.percentage_pos, d.percentage_le, hs ▸ hf ▸ d.start_lt_finish⟩
  · rintro ⟨hpos, hle, ht⟩
    exact ⟨⟨percentage, start.floorMicro, finish.floorMicro, hpos, hle, start.floorMicro_floorMicro,
      finish.floorMicro_floorMicro, ht⟩, make_eq_ok_iff.2 ⟨rfl, rfl, rfl⟩⟩

theorem eq_iff_of_make (h : make percentage start finish = .ok d) (h' : make percentage' start' finish' = .ok d') :
    d = d' ↔ percentage = percentage' ∧ start.nanos / 1000 = start'.nanos / 1000
      ∧ finish.nanos / 1000 = finish'.nanos / 1000 := by
  obtain ⟨rfl, hs, hf⟩ := make_eq_ok_iff.1 h
  obtain ⟨rfl, hs', hf'⟩ := make_eq_ok_iff.1 h'
  rw [Discount.ext_iff, hs, hf, hs', hf', Instant.floorMicro_eq_iff, Instant.floorMicro_eq_iff]

end Discount

/-! ## Phases -/

/-- The phases of a discount, in the order in which they follow one another. -/
inductive Phase where
  | ahead
  | running
  | past
deriving DecidableEq

def Phase.rank : Phase → Nat
  | ahead => 0
  | running => 1
  | past => 2

instance : LE Phase := ⟨fun a b => a.rank ≤ b.rank⟩

theorem Phase.le_def {a b : Phase} : a ≤ b ↔ a.rank ≤ b.rank := Iff.rfl

theorem Phase.eq_of_rank_eq {a b : Phase} (h : a.rank = b.rank) : a = b := by
  cases a <;> cases b <;> cases h <;> rfl

namespace Discount

/-- Whether a discount is in a phase at a time. -/
def isIn (d : Discount) (t : Instant) : Phase → Bool
  | .ahead => !d.hasBegun t
  | .running => d.covers t
  | .past => d.isOver t

/-- Whether the phases of a discount follow one another: there is one at a time, time does not lead back to an earlier
one, the first ends and the last begins at a bound of the window, and the window is not empty. -/
structure Unfolds (d : Discount) : Prop where
  one : ∀ t, ∃! phase, d.isIn t phase = true
  forward : ∀ {t u a b}, t ≤ u → d.isIn t a = true → d.isIn u b = true → a ≤ b
  ahead_iff : ∀ t, d.isIn t .ahead = true ↔ t < d.start
  past_iff : ∀ t, d.isIn t .past = true ↔ d.finish ≤ t
  runs : d.isIn d.start .running = true

variable {d : Discount} {t u : Instant} {a b : Phase}

theorem isIn_ahead : d.isIn t .ahead = true ↔ t < d.start := by
  simp [isIn, hasBegun, Instant.le_def, Instant.lt_def]

theorem isIn_running : d.isIn t .running = true ↔ d.start ≤ t ∧ t < d.finish := by
  simp [isIn, covers]

theorem isIn_past : d.isIn t .past = true ↔ d.finish ≤ t := by
  simp [isIn, isOver]

theorem exists_isIn (d : Discount) (t : Instant) : ∃ phase, d.isIn t phase = true := by
  by_cases hs : t < d.start
  · exact ⟨.ahead, isIn_ahead.2 hs⟩
  · rw [Instant.lt_def, Int.not_lt] at hs
    by_cases hf : t < d.finish
    · exact ⟨.running, isIn_running.2 ⟨hs, hf⟩⟩
    · rw [Instant.lt_def, Int.not_lt] at hf
      exact ⟨.past, isIn_past.2 hf⟩

/-- As time goes on the phases do not go back, since a window starts before it ends. -/
theorem le_of_isIn (h : t ≤ u) (ha : d.isIn t a = true) (hb : d.isIn u b = true) : a ≤ b := by
  have hwindow := d.start_lt_finish
  simp only [Instant.le_def, Instant.lt_def] at h hwindow
  rw [Phase.le_def]
  -- of the nine pairs of phases, those that lead back contradict the order of the bounds
  cases a <;> cases b <;> simp only [isIn_ahead, isIn_running, isIn_past, Instant.le_def, Instant.lt_def] at ha hb <;>
    simp only [Phase.rank] <;> omega

theorem unfolds (d : Discount) : d.Unfolds where
  one t := by
    obtain ⟨phase, hphase⟩ := d.exists_isIn t
    exact ⟨phase, hphase, fun other hother => Phase.eq_of_rank_eq
      (Nat.le_antisymm (le_of_isIn (Int.le_refl _) hother hphase) (le_of_isIn (Int.le_refl _) hphase hother))⟩
  forward := le_of_isIn
  ahead_iff _ := isIn_ahead
  past_iff _ := isIn_past
  runs := isIn_running.2 ⟨Int.le_refl _, d.start_lt_finish⟩

end Discount

/-- A percentage and two bounds are refused for the percentage if that does not lie above 0 and up to 100, otherwise
for the period if the end is not in a later microsecond than the start, and make a discount in all other cases. A
discount has the last whole microseconds that are not after its bounds, is made again by its own parts, and is the
same as another just if the percentages and the microseconds of the bounds are. Its phases follow one another. -/
theorem windows_canonical (percentage : Rat) (start finish : Instant) :
    (∀ t : Instant, IsGreatest {m : Instant | (1000 : Int) ∣ m.nanos ∧ m ≤ t} t.floorMicro)
    ∧ (Discount.make percentage start finish = .error .invalidDiscountPercentage
      ↔ percentage ≤ 0 ∨ 100 < percentage)
    ∧ (Discount.make percentage start finish = .error .invalidDiscountPeriod
      ↔ 0 < percentage ∧ percentage ≤ 100 ∧ finish.floorMicro ≤ start.floorMicro)
    ∧ ((∃ d, Discount.make percentage start finish = .ok d)
      ↔ 0 < percentage ∧ percentage ≤ 100 ∧ start.floorMicro < finish.floorMicro)
    ∧ ∀ d, Discount.make percentage start finish = .ok d →
      (d.percentage = percentage ∧ d.start = start.floorMicro ∧ d.finish = finish.floorMicro)
      ∧ Discount.make d.percentage d.start d.finish = .ok d
      ∧ (∀ percentage' start' finish' d', Discount.make percentage' start' finish' = .ok d' →
        (d = d' ↔ percentage = percentage' ∧ start.nanos / 1000 = start'.nanos / 1000
          ∧ finish.nanos / 1000 = finish'.nanos / 1000))
      ∧ d.Unfolds :=
  ⟨Instant.isGreatest_floorMicro, Discount.make_eq_invalidPercentage_iff, Discount.make_eq_invalidPeriod_iff,
    Discount.exists_make_iff, fun d hd => ⟨Discount.make_eq_ok_iff.1 hd, d.make_self,
      fun _ _ _ _ hd' => Discount.eq_iff_of_make hd hd', d.unfolds⟩⟩

/-- Bounds that are no whole microseconds, on either side of the start of 1970, and others in the same microseconds. -/
theorem windows_canonical_epoch :
    ∃ d, Discount.make (25 / 2) ⟨-1, by decide, by decide⟩ ⟨1500, by decide, by decide⟩ = .ok d
      ∧ Discount.make (25 / 2) ⟨-999, by decide, by decide⟩ ⟨1001, by decide, by decide⟩ = .ok d
      ∧ d.start.nanos = -1000 ∧ d.finish.nanos = 1000
      ∧ Discount.make d.percentage d.start d.finish = .ok d
      ∧ d.isIn .epoch .running = true := by
  obtain ⟨_, _, _, haccepted, hall⟩ :=
    windows_canonical (25 / 2) ⟨-1, by decide, by decide⟩ ⟨1500, by decide, by decide⟩
  obtain ⟨d, hd⟩ := haccepted.2 ⟨by decide +kernel, by decide +kernel, by decide⟩
  obtain ⟨⟨_, hs, hf⟩, hself, hsame, hunfolds⟩ := hall d hd
  obtain ⟨_, _, _, haccepted', _⟩ :=
    windows_canonical (25 / 2) ⟨-999, by decide, by decide⟩ ⟨1001, by decide, by decide⟩
  obtain ⟨d', hd'⟩ := haccepted'.2 ⟨by decide +kernel, by decide +kernel, by decide⟩
  have heq : d = d' := (hsame _ _ _ _ hd').2 ⟨rfl, by decide, by decide⟩
  have hstart : d.start.nanos = -1000 := by rw [hs]; rfl
  have hfinish : d.finish.nanos = 1000 := by rw [hf]; rfl
  refine ⟨d, hd, heq ▸ hd', hstart, hfinish, hself, ?_⟩
  obtain ⟨phase, hphase, _⟩ := hunfolds.one .epoch
  cases phase with
  | ahead =>
      have hahead := (hunfolds.ahead_iff _).1 hphase
      rw [Instant.lt_def, hstart] at hahead
      exact absurd hahead (by decide)
  | running => exact hphase
  | past =>
      have hpast := (hunfolds.past_iff _).1 hphase
      rw [Instant.le_def, hfinish] at hpast
      exact absurd hpast (by decide)

end Assortment.Goods
