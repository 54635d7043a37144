/-!
# The proleptic Gregorian calendar

Days are counted from 1 January 1970. A year is taken to start on 1 March, so that a leap day is the
last day of its year; four hundred such years have 146097 days, a hundred without the closing leap day
36524, four of them 1461.
-/
namespace Assortment.Time

@[ext]
structure Date where
  year : Int
  month : Nat
  day : Nat
deriving DecidableEq

/-- Where a day lies in the nested cycles of years that start in March. -/
structure CyclePosition where
  /-- Cycles of four hundred years since year 0. -/
  era : Int
  /-- Hundreds of years in the era, at most 3. -/
  century : Nat
  /-- Groups of four years in the century, at most 24. -/
  olympiad : Nat
  /-- Years in the group, at most 3. -/
  yearOfFour : Nat
  /-- Days since the first of March, at most 365. -/
  dayOfYear : Nat
deriving DecidableEq

/-- Days from 1 March of year 0 to 1 January 1970. -/
def daysToEpoch : Int := 719468

/-- Takes a count of days since 1970 apart. -/
def CyclePosition.ofDays (n : Int) : CyclePosition :=
  let fromMarch := n + daysToEpoch
  let dayOfEra := (fromMarch % 146097).toNat
  let century := min (dayOfEra / 36524) 3
  let dayOfCentury := dayOfEra - century * 36524
  let olympiad := dayOfCentury / 1461
  let dayOfFour := dayOfCentury - olympiad * 1461
  let yearOfFour := min (dayOfFour / 365) 3
  ⟨fromMarch / 146097, century, olympiad, yearOfFour, dayOfFour - yearOfFour * 365⟩

/-- The count of days since 1970 at a position. -/
def CyclePosition.toDays (p : CyclePosition) : Int :=
  p.era * 146097 + p.century * 36524 + p.olympiad * 1461 + p.yearOfFour * 365 + p.dayOfYear
    - daysToEpoch

/-- The year of a position, counted from March. -/
def CyclePosition.marchYear (p : CyclePosition) : Int :=
  p.era * 400 + p.century * 100 + p.olympiad * 4 + p.yearOfFour

/-- The date of a position. Five months from March on have 153 days, which fixes every month's start. -/
def CyclePosition.toDate (p : CyclePosition) : Date :=
  let month := (5 * p.dayOfYear + 2) / 153
  let day := p.dayOfYear - (153 * month + 2) / 5 + 1
  if month < 10 then ⟨p.marchYear, month + 3, day⟩ else ⟨p.marchYear + 1, month - 9, day⟩

/-- The bounds that make a position the only one of its day. -/
structure CyclePosition.Valid (p : CyclePosition) : Prop where
  century_le : p.century ≤ 3
  olympiad_le : p.olympiad ≤ 24
  yearOfFour_le : p.yearOfFour ≤ 3
  dayOfYear_le : p.dayOfYear ≤ 365

theorem CyclePosition.valid_ofDays (n : Int) : (ofDays n).Valid := by
  constructor <;> simp only [ofDays, daysToEpoch] <;> omega

theorem CyclePosition.toDays_ofDays (n : Int) : (ofDays n).toDays = n := by
  simp only [ofDays, toDays, daysToEpoch]
  omega

/-- Two positions with one date are the same. -/
theorem CyclePosition.eq_of_toDate_eq {p q : CyclePosition} (hp : p.Valid) (hq : q.Valid)
    (h : p.toDate = q.toDate) : p = q := by
  obtain ⟨hp₁, hp₂, hp₃, hp₄⟩ := hp
  obtain ⟨hq₁, hq₂, hq₃, hq₄⟩ := hq
  have hy : p.marchYear = q.marchYear ∧ p.dayOfYear = q.dayOfYear := by
    simp only [toDate] at h
    split at h <;> split at h <;> simp only [Date.mk.injEq] at h <;> constructor <;> omega
  simp only [marchYear] at hy
  cases p
  cases q
  simp only [CyclePosition.mk.injEq] at *
  omega

/-- The date of a day counted from 1 January 1970. -/
def Date.ofDays (n : Int) : Date :=
  (CyclePosition.ofDays n).toDate

theorem Date.eq_of_ofDays_eq {m n : Int} (h : ofDays m = ofDays n) : m = n := by
  have he := CyclePosition.eq_of_toDate_eq (CyclePosition.valid_ofDays m)
    (CyclePosition.valid_ofDays n) h
  rw [← CyclePosition.toDays_ofDays m, ← CyclePosition.toDays_ofDays n, he]

end Assortment.Time
