import Assortment.Time.Instant

/-!
# A clock that is set by hand

The clock keeps nanoseconds and drops what is below a microsecond only when it is read, so that many
small steps add up. A step out of the range of instants leaves the clock as it was.
-/
namespace Assortment.Time

/-- A clock that stands still until it is set or advanced. -/
structure Clock where
  instant : Instant
deriving DecidableEq

/-- A step that would leave the range of instants. -/
inductive ClockError where
  | overflow
deriving DecidableEq

namespace ClockError

def message : ClockError → String
  | overflow => "`DateTime + TimeDelta` overflowed"

end ClockError

namespace Clock

/-- What the clock shows: its instant at stored precision. -/
def now (c : Clock) : Instant := c.instant.floorMicro

def set (_ : Clock) (t : Instant) : Clock := ⟨t⟩

/-- Moves the clock by a number of nanoseconds, forwards or backwards. -/
def advance (c : Clock) (delta : Int) : Except ClockError Clock :=
  match c.instant.shift? delta with
  | some t => .ok ⟨t⟩
  | none => .error .overflow

end Clock

end Assortment.Time
