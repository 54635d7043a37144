import Assortment.Time.Clock
import Mathlib.Algebra.Ring.Int.Defs
import Mathlib.Data.List.Induction
import Mathlib.Logic.Function.Basic

/-!
# Clocks that are shared

A clock is reached through handles, and copies of a handle reach the same clock. It stands behind a lock, which stays
marked when a step fails while it is held, but whoever comes next takes the clock all the same. So a clock always
shows what was set last plus all the steps that succeeded since, to the nanosecond before what is shown is rounded
down, and a step that failed leaves no trace in what is answered.
-/

namespace Assortment.Time

/-! ## Calls -/

inductive Call where
  | set (t : Instant)
  | advance (delta : Int)
  | now
deriving DecidableEq

/-- What a caller gets. A step that fails does not come back with a value. -/
inductive Reply where
  | done
  | shown (t : Instant)
  | failed (e : ClockError)
deriving DecidableEq

/-- A clock behind a lock, which is marked as poisoned when something fails while it is held. -/
structure Guarded where
  clock : Clock
  poisoned : Bool := false

namespace Guarded

/-- What the lock hands out: the clock, with a warning if the lock is poisoned. -/
def acquire (g : Guarded) : Except Clock Clock := if g.poisoned then .error g.clock else .ok g.clock

/-- The clock, whether there is a warning or not. -/
def enter (g : Guarded) : Clock :=
  match g.acquire with
  | .ok clock => clock
  | .error clock => clock

def call (g : Guarded) : Call → Reply × Guarded
  | .set t => (.done, { g with clock := g.enter.set t })
  | .advance delta =>
      match g.enter.advance delta with
      | .ok clock => (.done, { g with clock := clock })
      | .error e => (.failed e, { g with poisoned := true })
  | .now => (.shown g.enter.now, g)

end Guarded

/-- A handle of a clock. Copies of one handle have different numbers and reach the same clock. -/
structure Handle where
  clock : Nat
  copy : Nat := 0
deriving DecidableEq

abbrev Clocks := Nat → Guarded

/-- A call through a handle with the reply to it. -/
structure Entry where
  handle : Handle
  call : Call
  reply : Reply
deriving DecidableEq

namespace Clocks

def reply (clocks : Clocks) (h : Handle) (c : Call) : Reply := ((clocks h.clock).call c).1

def after (clocks : Clocks) (h : Handle) (c : Call) : Clocks :=
  Function.update clocks h.clock ((clocks h.clock).call c).2

/-- The clocks after calls that are made one after the other. -/
def afterAll (clocks : Clocks) : List (Handle × Call) → Clocks
  | [] => clocks
  | (h, c) :: calls => (clocks.after h c).afterAll calls

/-- The calls with the replies to them. -/
def log (clocks : Clocks) : List (Handle × Call) → List Entry
  | [] => []
  | (h, c) :: calls => ⟨h, c, clocks.reply h c⟩ :: (clocks.after h c).log calls

end Clocks

/-! ## The exact time -/

namespace Entry

def setTo? (x : Entry) : Option Instant :=
  match x.call with
  | .set t => some t
  | .advance _ | .now => none

/-- The nanoseconds that an entry adds, which is nothing if the step failed. -/
def gain (x : Entry) : Int :=
  match x.call, x.reply with
  | .advance delta, .done => delta
  | _, _ => 0

end Entry

/-- The entries after the last one that sets the clock. -/
def sinceSet (log : List Entry) : List Entry := (log.reverse.takeWhile fun x => x.setTo?.isNone).reverse

/-- The instant that was set last, or the one at the start. -/
def lastSet (start : Instant) (log : List Entry) : Instant := (log.reverse.findSome? Entry.setTo?).getD start

/-- The nanoseconds since 1970 after all that a log says of a clock: what was set last, and every gain since. -/
def exactNanos (start : Instant) (log : List Entry) : Int :=
  (lastSet start log).nanos + ((sinceSet log).map Entry.gain).sum

/-- The entries that concern the clock of a handle. -/
def entriesOf (h : Handle) (log : List Entry) : List Entry := log.filter (·.handle.clock == h.clock)

/-- The exact time of the clock of a handle after calls. -/
def Clocks.exactTime (clocks : Clocks) (calls : List (Handle × Call)) (h : Handle) : Int :=
  exactNanos (clocks h.clock).clock.instant (entriesOf h (clocks.log calls))

variable {start t : Instant} {log : List Entry} {x : Entry}

theorem exactNanos_nil : exactNanos start [] = start.nanos := by
  simp [exactNanos, lastSet, sinceSet]

theorem exactNanos_set (h : x.setTo? = some t) : exactNanos start (log ++ [x]) = t.nanos := by
  simp [exactNanos, lastSet, sinceSet, h]

theorem exactNanos_gain (h : x.setTo? = none) :
    exactNanos start (log ++ [x]) = exactNanos start log + x.gain := by
  simp [exactNanos, lastSet, sinceSet, h, Int.add_assoc]

/-! ## Single calls -/

variable {g g' : Guarded} {h : Handle} {c : Call} {e : ClockError} {clocks clocks' : Clocks}

theorem Guarded.enter_eq (g : Guarded) : g.enter = g.clock := by
  unfold enter acquire
  cases g.poisoned <;> rfl

namespace Guarded

variable {delta : Int}

/-- A step leads to an instant in the range, or it would lead out of it and leaves nothing but the mark. -/
theorem call_advance_cases (g : Guarded) (delta : Int) :
    (∃ t : Instant, t.nanos = g.clock.instant.nanos + delta
      ∧ g.call (.advance delta) = (.done, { g with clock := ⟨t⟩ }))
    ∨ ((g.clock.instant.nanos + delta < minNanos ∨ maxNanos < g.clock.instant.nanos + delta)
      ∧ g.call (.advance delta) = (.failed .overflow, { g with poisoned := true })) := by
  simp only [call, enter_eq, Clock.advance, Instant.shift?]
  cases ht : Instant.ofNanos? (g.clock.instant.nanos + delta) with
  | some t => exact .inl ⟨t, Instant.ofNanos?_eq_some.1 ht, rfl⟩
  | none => exact .inr ⟨Instant.ofNanos?_eq_none.1 ht, rfl⟩

theorem call_now (g : Guarded) : g.call .now = (.shown g.clock.instant.floorMicro, g) := by
  simp only [call, enter_eq, Clock.now]

theorem call_advance_eq_failed : (g.call (.advance delta)).1 = .failed .overflow
    ↔ g.clock.instant.nanos + delta < minNanos ∨ maxNanos < g.clock.instant.nanos + delta := by
  rcases g.call_advance_cases delta with ⟨t, hnanos, hcall⟩ | ⟨hrange, hcall⟩
  · have hmin := t.min_le
    have hmax := t.le_max
    rw [hcall]
    exact iff_of_false (by simp) (by omega)
  · rw [hcall]
    exact iff_of_true rfl hrange

theorem call_advance_eq_done : (g.call (.advance delta)).1 = .done
    ↔ minNanos ≤ g.clock.instant.nanos + delta ∧ g.clock.instant.nanos + delta ≤ maxNanos := by
  rcases g.call_advance_cases delta with ⟨t, hnanos, hcall⟩ | ⟨hrange, hcall⟩
  · rw [hcall, ← hnanos]
    exact iff_of_true rfl ⟨t.min_le, t.le_max⟩
  · rw [hcall]
    exact iff_of_false (by simp) (by omega)

/-- A call leaves a clock at the exact time if it found it there. -/
theorem nanos_call (c : Call) (hg : g.clock.instant.nanos = exactNanos start log) :
    (g.call c).2.clock.instant.nanos = exactNanos start (log ++ [⟨h, c, (g.call c).1⟩]) := by
  cases c with
  | set t => rw [exactNanos_set rfl]; rfl
  | now =>
      rw [exactNanos_gain rfl, ← hg, call_now]
      exact (Int.add_zero _).symm
  | advance delta =>
      rw [exactNanos_gain rfl, ← hg]
      rcases g.call_advance_cases delta with ⟨t, hnanos, hcall⟩ | ⟨-, hcall⟩
      · rw [hcall]
        exact hnanos
      · rw [hcall]
        exact (Int.add_zero _).symm

theorem clock_of_failed (hf : (g.call c).1 = .failed e) : (g.call c).2.clock = g.clock := by
  cases c with
  | set t => cases hf
  | now => rfl
  | advance delta =>
      rcases g.call_advance_cases delta with ⟨t, -, hcall⟩ | ⟨-, hcall⟩
      · rw [hcall] at hf
        cases hf
      · rw [hcall]

/-- Nothing that a call does depends on whether the lock is poisoned. -/
theorem call_congr (c : Call) (hg : g.clock = g'.clock) :
    (g.call c).1 = (g'.call c).1 ∧ (g.call c).2.clock = (g'.call c).2.clock := by
  cases c with
  | set t => exact ⟨rfl, rfl⟩
  | now =>
      rw [call_now, call_now]
      exact ⟨by rw [hg], hg⟩
  | advance delta =>
      simp only [call, enter_eq, hg]
      cases g'.clock.advance delta <;> exact ⟨rfl, rfl⟩

end Guarded

/-! ## Histories -/

namespace Clocks

variable {calls later : List (Handle × Call)}

theorem afterAll_append : clocks.afterAll (calls ++ later) = (clocks.afterAll calls).afterAll later := by
  induction calls generalizing clocks with
  | nil => rfl
  | cons call calls ih => exact ih

theorem log_append : clocks.log (calls ++ later) = clocks.log calls ++ (clocks.afterAll calls).log later := by
  induction calls generalizing clocks with
  | nil => rfl
  | cons call calls ih => exact congrArg (_ :: ·) ih

/-- Whether the clocks are where a log says they are. -/
def Tracks (start clocks : Clocks) (log : List Entry) : Prop :=
  ∀ h : Handle, (clocks h.clock).clock.instant.nanos = exactNanos (start h.clock).clock.instant (entriesOf h log)

variable {start : Clocks}

theorem tracks_nil (clocks : Clocks) : Tracks clocks clocks [] :=
  fun _ => exactNanos_nil.symm

theorem Tracks.after (ht : Tracks start clocks log) (h : Handle) (c : Call) :
    Tracks start (clocks.after h c) (log ++ [⟨h, c, clocks.reply h c⟩]) := by
  intro k
  by_cases hk : k.clock = h.clock
  · have hentries : entriesOf k (log ++ [⟨h, c, clocks.reply h c⟩])
        = entriesOf k log ++ [⟨h, c, clocks.reply h c⟩] := by
      simp [entriesOf, hk]
    rw [hentries, Clocks.after, hk, Function.update_self]
    -- the copies of a handle share the clock, so what the log says of `k` is what it says of `h`
    have hclock := ht k
    rw [hk] at hclock
    exact Guarded.nanos_call c hclock
  · have hentries : entriesOf k (log ++ [⟨h, c, clocks.reply h c⟩]) = entriesOf k log := by
      simp [entriesOf, Ne.symm hk]
    rw [hentries, Clocks.after, Function.update_of_ne hk]
    exact ht k

theorem Tracks.afterAll (ht : Tracks start clocks log) (calls : List (Handle × Call)) :
    Tracks start (clocks.afterAll calls) (log ++ clocks.log calls) := by
  induction calls generalizing clocks log with
  | nil => simpa [Clocks.log, Clocks.afterAll] using ht
  | cons call calls ih =>
      have hrest := ih (ht.after call.1 call.2)
      rwa [List.append_assoc] at hrest

/-- Whether clocks show the same, whatever became of their locks. -/
def Alike (clocks clocks' : Clocks) : Prop := ∀ k, (clocks k).clock = (clocks' k).clock

theorem Alike.after (ha : Alike clocks clocks') (h : Handle) (c : Call) :
    clocks.reply h c = clocks'.reply h c ∧ Alike (clocks.after h c) (clocks'.after h c) := by
  obtain ⟨hreply, hclock⟩ := Guarded.call_congr c (ha h.clock)
  refine ⟨hreply, fun k => ?_⟩
  by_cases hk : k = h.clock
  · subst hk
    simpa [Clocks.after] using hclock
  · simpa [Clocks.after, hk] using ha k

theorem Alike.afterAll (ha : Alike clocks clocks') (calls : List (Handle × Call)) :
    clocks.log calls = clocks'.log calls ∧ Alike (clocks.afterAll calls) (clocks'.afterAll calls) := by
  induction calls generalizing clocks clocks' with
  | nil => exact ⟨rfl, ha⟩
  | cons call calls ih =>
      obtain ⟨hreply, hafter⟩ := ha.after call.1 call.2
      obtain ⟨hlog, hall⟩ := ih hafter
      exact ⟨by rw [Clocks.log, Clocks.log, hreply, hlog], hall⟩

theorem alike_of_failed (hf : clocks.reply h c = .failed e) : Alike (clocks.after h c) clocks := by
  intro k
  by_cases hk : k = h.clock
  · subst hk
    simpa [Clocks.after] using Guarded.clock_of_failed hf
  · simp [Clocks.after, hk]

theorem exactTime_eq (clocks : Clocks) (calls : List (Handle × Call)) (h : Handle) :
    ((clocks.afterAll calls) h.clock).clock.instant.nanos = clocks.exactTime calls h :=
  (tracks_nil clocks).afterAll calls h

theorem replies_of_failed {delta : Int} (hf : (clocks.afterAll calls).reply h (.advance delta) = .failed e)
    (later : List (Handle × Call)) : ∃ rest,
      clocks.log (calls ++ (h, .advance delta) :: later)
        = clocks.log calls ++ ⟨h, .advance delta, .failed e⟩ :: rest
      ∧ clocks.log (calls ++ later) = clocks.log calls ++ rest
      ∧ Alike (clocks.afterAll (calls ++ (h, .advance delta) :: later)) (clocks.afterAll (calls ++ later)) := by
  obtain ⟨hlog, hall⟩ := (alike_of_failed hf).afterAll later
  refine ⟨(clocks.afterAll calls).log later, ?_, log_append, ?_⟩
  · rw [log_append, log, hf, hlog]
  · rw [afterAll_append, afterAll_append]
    exact hall

end Clocks

/-- After any calls through any handles, a clock shows the exact time in whole microseconds: what was set last through
a copy of the handle, or the start, plus all the steps that succeeded since. A step fails just if it would lead out of
the range of instants. Then no clock has moved, and all later calls are answered as if it had not been asked for. -/
theorem readings_exact (clocks : Clocks) (calls : List (Handle × Call)) (h : Handle) :
    (∃ t : Instant, t.nanos = clocks.exactTime calls h ∧ (clocks.afterAll calls).reply h .now = .shown t.floorMicro)
    ∧ (∀ delta, ((clocks.afterAll calls).reply h (.advance delta) = .failed .overflow
        ↔ clocks.exactTime calls h + delta < minNanos ∨ maxNanos < clocks.exactTime calls h + delta)
      ∧ ((clocks.afterAll calls).reply h (.advance delta) = .done
        ↔ minNanos ≤ clocks.exactTime calls h + delta ∧ clocks.exactTime calls h + delta ≤ maxNanos))
    ∧ ∀ delta e, (clocks.afterAll calls).reply h (.advance delta) = .failed e →
      Clocks.Alike ((clocks.afterAll calls).after h (.advance delta)) (clocks.afterAll calls)
      ∧ ∀ later, ∃ rest,
        clocks.log (calls ++ (h, .advance delta) :: later)
          = clocks.log calls ++ ⟨h, .advance delta, .failed e⟩ :: rest
        ∧ clocks.log (calls ++ later) = clocks.log calls ++ rest
        ∧ Clocks.Alike (clocks.afterAll (calls ++ (h, .advance delta) :: later))
          (clocks.afterAll (calls ++ later)) := by
  have hnanos := clocks.exactTime_eq calls h
  refine ⟨⟨_, hnanos, congrArg Prod.fst (Guarded.call_now _)⟩, fun delta => ?_, fun delta e hf => ?_⟩
  · rw [← hnanos]
    exact ⟨Guarded.call_advance_eq_failed, Guarded.call_advance_eq_done⟩
  · exact ⟨Clocks.alike_of_failed hf, Clocks.replies_of_failed hf⟩

/-- Clocks that all stand a nanosecond before 1970. -/
def newYearClocks : Clocks := fun _ => ⟨⟨⟨-1, by decide, by decide⟩⟩, false⟩

/-- Two short steps through copies of one handle and one that is too far between them; another clock is set. -/
def shortSteps : List (Handle × Call) := [
  (⟨0, 0⟩, .advance 600),
  (⟨0, 1⟩, .advance maxNanos),
  (⟨1, 0⟩, .set .epoch),
  (⟨0, 2⟩, .advance 600)]

theorem readings_exact_short :
    (∃ t : Instant, t.nanos = 1199 ∧ (newYearClocks.afterAll shortSteps).reply ⟨0, 1⟩ .now = .shown t.floorMicro)
    ∧ (newYearClocks.afterAll shortSteps).reply ⟨0, 0⟩ (.advance minNanos) = .done
    ∧ (newYearClocks.afterAll shortSteps).reply ⟨0, 0⟩ (.advance (minNanos - 1200)) = .failed .overflow
    ∧ ∃ rest, newYearClocks.log (shortSteps ++ [(⟨0, 0⟩, .advance (minNanos - 1200)), (⟨0, 1⟩, .now)])
        = newYearClocks.log shortSteps ++ ⟨⟨0, 0⟩, .advance (minNanos - 1200), .failed .overflow⟩ :: rest
      ∧ newYearClocks.log (shortSteps ++ [(⟨0, 1⟩, .now)]) = newYearClocks.log shortSteps ++ rest := by
  have hsum : newYearClocks.exactTime shortSteps ⟨0, 0⟩ = 1199 := by decide +kernel
  obtain ⟨_, hadvance, hfailed⟩ := readings_exact newYearClocks shortSteps ⟨0, 0⟩
  obtain ⟨hshown, _, _⟩ := readings_exact newYearClocks shortSteps ⟨0, 1⟩
  have hover := (hadvance (minNanos - 1200)).1.2 (by rw [hsum]; decide)
  obtain ⟨rest, hwith, hwithout, _⟩ := (hfailed _ _ hover).2 [(⟨0, 1⟩, .now)]
  exact ⟨hsum ▸ hshown, (hadvance minNanos).2.2 (by rw [hsum]; decide), hover, rest, hwith, hwithout⟩

end Assortment.Time
