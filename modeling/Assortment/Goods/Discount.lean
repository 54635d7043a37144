import Assortment.Goods.Money
import Assortment.Goods.Refusal
import Assortment.Time.Instant

/-!
# Discounts

A discount takes a percentage above 0 and at most 100 off a price, from its start up to but not
including its end. Both bounds are whole microseconds and the start comes first, so a period is never
empty, also after it went through storage.
-/
namespace Assortment.Goods
open Assortment.Time

/-- A percentage off within a half-open period. -/
@[ext]
structure Discount where
  percentage : Rat
  start : Instant
  finish : Instant
  percentage_pos : 0 < percentage
  percentage_le : percentage ≤ 100
  start_aligned : start.floorMicro = start
  finish_aligned : finish.floorMicro = finish
  start_lt_finish : start < finish
deriving DecidableEq

namespace Discount

/-- Builds a discount: the percentage is checked first, then the period at stored precision. -/
def make (percentage : Rat) (start finish : Instant) : Except Refusal Discount :=
  if hp : 0 < percentage ∧ percentage ≤ 100 then
    if ht : start.floorMicro < finish.floorMicro then
      .ok {
        percentage := percentage
        start := start.floorMicro
        finish := finish.floorMicro
        percentage_pos := hp.1
        percentage_le := hp.2
        start_aligned := start.floorMicro_floorMicro
        finish_aligned := finish.floorMicro_floorMicro
        start_lt_finish := ht }
    else .error .invalidDiscountPeriod
  else .error .invalidDiscountPercentage

def hasBegun (d : Discount) (t : Instant) : Bool := decide (d.start ≤ t)

def isOver (d : Discount) (t : Instant) : Bool := decide (d.finish ≤ t)

def covers (d : Discount) (t : Instant) : Bool := decide (d.start ≤ t) && decide (t < d.finish)

/-- The price after the discount, whatever the time. -/
def reduce (d : Discount) (price : Money) : Money := price.lessPercent d.percentage

end Discount

end Assortment.Goods
