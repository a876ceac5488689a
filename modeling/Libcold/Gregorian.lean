import Mathlib.Algebra.Order.Group.Int

namespace Libcold.Gregorian

/-- A day of the calendar. Months count from 0 at January, days of the week from 0
at Sunday, and days of the year from 0. -/
structure Date where
  year : Int
  month : Int
  day : Int
  weekDay : Int
  yearDay : Int

/-- A day by its place in cycles of 400, 100, 4 and 1 years that begin on the first of
March, so that a leap day ends the cycle that it belongs to. -/
structure Cycles where
  quadricentury : Int
  century : Int
  quadrennium : Int
  year : Int
  day : Int

/-- The first of March 2000, in days since 1970. -/
def origin : Int := 11017

/-- The last cycle of its kind is the one that may be a day longer. -/
def cycles (days : Int) : Cycles :=
  let ofQuadricentury := (days - origin) % 146097
  let century := min (ofQuadricentury / 36524) 3
  let ofCentury := ofQuadricentury - century * 36524
  let quadrennium := min (ofCentury / 1461) 24
  let ofQuadrennium := ofCentury - quadrennium * 1461
  let year := min (ofQuadrennium / 365) 3
  ⟨(days - origin) / 146097, century, quadrennium, year, ofQuadrennium - year * 365⟩

namespace Cycles

def years (c : Cycles) : Int := c.year + 4 * c.quadrennium + 100 * c.century + 400 * c.quadricentury

def leap (c : Cycles) : Int := if c.year = 0 ∧ (c.quadrennium ≠ 0 ∨ c.century = 0) then 1 else 0

structure Bounded (c : Cycles) : Prop where
  century : 0 ≤ c.century ∧ c.century ≤ 3
  quadrennium : 0 ≤ c.quadrennium ∧ c.quadrennium ≤ 24
  year : 0 ≤ c.year ∧ c.year ≤ 3
  day : 0 ≤ c.day ∧ c.day ≤ 365

end Cycles

theorem cycles_bounded (days : Int) : (cycles days).Bounded := by
  constructor <;> simp only [cycles] <;> omega

theorem days_of_cycles (days : Int) :
    days = 146097 * (cycles days).quadricentury + 36524 * (cycles days).century +
      1461 * (cycles days).quadrennium + 365 * (cycles days).year + (cycles days).day + origin := by
  simp only [cycles]
  omega

/-- The months from March on have 153 days in five of them. -/
def dateOf (days : Int) : Date :=
  let c := cycles days
  let month := (5 * c.day + 2) / 153
  let day := c.day - (153 * month + 2) / 5 + 1
  { year := 2000 + c.years + if 10 ≤ month then 1 else 0
    month := if 10 ≤ month then month - 10 else month + 2
    day := day
    weekDay := (days + 4) % 7
    yearDay := if 306 ≤ c.day then c.day - 306 else c.day + 59 + c.leap }

/-- Years and months from March on. -/
def marchYear (year month : Int) : Int := if month < 2 then year - 2001 else year - 2000

def marchMonth (month : Int) : Int := if month < 2 then month + 10 else month - 2

def daysOf (year month day : Int) : Int :=
  let years := marchYear year month
  365 * years + (years / 4 - years / 100 + years / 400) + (153 * marchMonth month + 2) / 5 + (day - 1) + origin

structure Date.Valid (date : Date) : Prop where
  month : 0 ≤ date.month ∧ date.month ≤ 11
  day : 1 ≤ date.day ∧ date.day ≤ 31
  weekDay : 0 ≤ date.weekDay ∧ date.weekDay ≤ 6
  yearDay : 0 ≤ date.yearDay ∧ date.yearDay ≤ 365

theorem dateOf_valid (days : Int) : (dateOf days).Valid := by
  obtain ⟨-, -, -, hday⟩ := cycles_bounded days
  constructor
  · simp only [dateOf]
    split <;> omega
  · simp only [dateOf]
    omega
  · simp only [dateOf]
    omega
  · simp only [dateOf, Cycles.leap]
    split
    · omega
    · split <;> omega

/-- The leap days in a number of years, by the cycles. -/
theorem leapDays_of_cycles {c : Cycles} (h : c.Bounded) :
    c.years / 4 - c.years / 100 + c.years / 400 =
      97 * c.quadricentury + 24 * c.century + c.quadrennium := by
  obtain ⟨hcentury, hquadrennium, hyear, -⟩ := h
  have hfour : c.years / 4 = 100 * c.quadricentury + 25 * c.century + c.quadrennium := by
    rw [Cycles.years]
    omega
  have hhundred : c.years / 100 = 4 * c.quadricentury + c.century := by
    rw [Cycles.years]
    omega
  have hfourHundred : c.years / 400 = c.quadricentury := by
    rw [Cycles.years]
    omega
  omega

theorem march_dateOf (days : Int) :
    marchYear (dateOf days).year (dateOf days).month = (cycles days).years ∧
      marchMonth (dateOf days).month = (5 * (cycles days).day + 2) / 153 := by
  obtain ⟨-, -, -, hday⟩ := cycles_bounded days
  simp only [marchYear, marchMonth, dateOf]
  split
  · next hlate => rw [if_pos (by omega), if_pos (by omega)]; omega
  · next hearly => rw [if_neg (by omega), if_neg (by omega)]; omega

/-- A day of the calendar is the day that it was made of. -/
theorem daysOf_dateOf (days : Int) : daysOf (dateOf days).year (dateOf days).month (dateOf days).day = days := by
  obtain ⟨hyears, hmonth⟩ := march_dateOf days
  have hleap := leapDays_of_cycles (cycles_bounded days)
  have hdays := days_of_cycles days
  have hcycles : (cycles days).years = (cycles days).year + 4 * (cycles days).quadrennium +
      100 * (cycles days).century + 400 * (cycles days).quadricentury := rfl
  have hday : (dateOf days).day = (cycles days).day - (153 * ((5 * (cycles days).day + 2) / 153) + 2) / 5 + 1 := rfl
  simp only [daysOf, hyears, hmonth, hleap, hday]
  omega

end Libcold.Gregorian
