import Assortment.Goods.Product

/-!
# Prices at a time

What a product costs and what its buyer saves, given the discount that is valid then. A percentage is
taken off a base price, or nothing when there is none.
-/
namespace Assortment.Goods
open Assortment.Time

/-- A price less the percentage, if one is given. -/
def priceAfter (base : Money) : Option Rat → Money
  | some percentage => base.lessPercent percentage
  | none => base

/-- What the percentage takes off a price, nothing if none is given. -/
def reduction (base : Money) : Option Rat → Money
  | some percentage => base.percentOf percentage
  | none => .zero

namespace Product

def discountAt? (p : Product) (t : Instant) : Option Discount :=
  p.discount.filter (·.covers t)

def isReducedAt (p : Product) (t : Instant) : Bool := (p.discountAt? t).isSome

/-- The price at a time, after the discount that is valid then. -/
def priceAt (p : Product) (t : Instant) : Money :=
  match p.discountAt? t with
  | some d => d.reduce p.basePrice
  | none => p.basePrice

def savingAt (p : Product) (t : Instant) : Money :=
  reduction p.basePrice ((p.discountAt? t).map (·.percentage))

end Product

end Assortment.Goods
