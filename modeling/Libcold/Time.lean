import Libcold.TimerQueue
import Libcold.Gregorian

namespace Libcold

structure Tm where
  tmSec : Int
  tmMin : Int
  tmHour : Int
  tmMday : Int
  tmMon : Int
  tmYear : Int
  tmWday : Int
  tmYday : Int
  tmIsdst : Int

structure TimeExploded where
  year : Int
  month : Int
  day : Int
  dayOfWeek : Int
  dayInYear : Int
  hour : Int
  minute : Int
  second : Int
  millisecond : Int

structure TimeExploded.InRange (ex : TimeExploded) : Prop where
  month : 1 ≤ ex.month ∧ ex.month ≤ 12
  day : 1 ≤ ex.day ∧ ex.day ≤ 31
  dayOfWeek : 1 ≤ ex.dayOfWeek ∧ ex.dayOfWeek ≤ 7
  dayInYear : 1 ≤ ex.dayInYear ∧ ex.dayInYear ≤ 366
  hour : 0 ≤ ex.hour ∧ ex.hour ≤ 23
  minute : 0 ≤ ex.minute ∧ ex.minute ≤ 59
  second : 0 ≤ ex.second ∧ ex.second ≤ 59
  millisecond : 0 ≤ ex.millisecond ∧ ex.millisecond ≤ 999

/-- The fields that the C library fills in, within their ranges. -/
structure Tm.InRange (t : Tm) : Prop where
  sec : 0 ≤ t.tmSec ∧ t.tmSec ≤ 60
  min : 0 ≤ t.tmMin ∧ t.tmMin ≤ 59
  hour : 0 ≤ t.tmHour ∧ t.tmHour ≤ 23
  mday : 1 ≤ t.tmMday ∧ t.tmMday ≤ 31
  mon : 0 ≤ t.tmMon ∧ t.tmMon ≤ 11
  wday : 0 ≤ t.tmWday ∧ t.tmWday ≤ 6
  yday : 0 ≤ t.tmYday ∧ t.tmYday ≤ 365

namespace Time

open TimerQueue Gregorian

def kMillisecondsPerSecond : Int := 1000

def kNanoSecondsPerSecond : Int := 1000000000

def fromTimeT (t : Int) : Int := t * kNanoSecondsPerSecond

/-- The seconds that `Exploded` gives to the C library. -/
def explodedSeconds (time : Int) : Int := (timeSinceEpochMilliSeconds time).tdiv kMillisecondsPerSecond

/-- `toTm` is `localtime_r` or `gmtime_r`. -/
def exploded (toTm : Int → Tm) (time : Int) : TimeExploded :=
  let milli := (timeSinceEpochMilliSeconds time).tmod kMillisecondsPerSecond
  let t := toTm (explodedSeconds time)
  { year := t.tmYear + 1900
    month := t.tmMon + 1
    day := t.tmMday
    dayOfWeek := if t.tmWday = 0 then 7 else t.tmWday
    dayInYear := t.tmYday + 1
    hour := t.tmHour
    minute := t.tmMin
    second := t.tmSec
    millisecond := milli }

/-- `toSeconds` is `mktime` or `timegm`. -/
def fromExploded (toSeconds : Tm → Int) (ex : TimeExploded) : Option Int :=
  let t : Tm :=
    { tmYear := ex.year - 1900
      tmMon := ex.month - 1
      tmMday := ex.day
      tmHour := ex.hour
      tmMin := ex.minute
      tmSec := ex.second
      tmWday := 0
      tmYday := 0
      tmIsdst := -1 }
  let seconds := toSeconds t
  if seconds ≠ -1 then some (fromTimeT seconds) else none

section Utc

variable (gmtimeR : Int → Tm) (timegm : Tm → Int)

def utcExplode (time : Int) : TimeExploded := exploded gmtimeR time

def fromUtcExplode (ex : TimeExploded) : Option Int := fromExploded timegm ex

/-- A second that has a calendar form, from which `timegm` reads it back. It reads
neither the day of the week, nor that of the year, nor the flag. -/
structure Representable (seconds : Int) : Prop where
  inRange : (gmtimeR seconds).InRange
  noLeapSecond : (gmtimeR seconds).tmSec ≤ 59
  inverse : timegm (gmtimeR seconds) = seconds
  ignored : ∀ t wday yday isdst, timegm { t with tmWday := wday, tmYday := yday, tmIsdst := isdst } = timegm t

/-- The calendar form gives back the time, rounded down to the millisecond. -/
def RoundTrip (time : Int) : Prop :=
  (utcExplode gmtimeR time).InRange ∧
    fromUtcExplode timegm (utcExplode gmtimeR time) = some (time / 1000000 * 1000000)

variable {gmtimeR timegm}

theorem milliseconds_cases (time : Int) :
    timeSinceEpochMilliSeconds time = if 0 ≤ time then time / 1000000 else -(-time / 1000000) := by
  rw [timeSinceEpochMilliSeconds]
  split
  · next hpos => exact Int.tdiv_eq_ediv_of_nonneg hpos
  · next hneg => rw [← Int.tdiv_eq_ediv_of_nonneg (by omega), Int.neg_tdiv, Int.neg_neg]

theorem seconds_cases (time : Int) :
    explodedSeconds time = if 0 ≤ time then time / 1000000000 else -(-time / 1000000000) := by
  rw [explodedSeconds, milliseconds_cases]
  split
  · next hpos =>
      rw [Int.tdiv_eq_ediv_of_nonneg (by omega), kMillisecondsPerSecond]
      omega
  · next hneg =>
      rw [Int.neg_tdiv, Int.tdiv_eq_ediv_of_nonneg (by omega), kMillisecondsPerSecond]
      omega

theorem millisecond_eq (toTm : Int → Tm) (time : Int) :
    (exploded toTm time).millisecond = timeSinceEpochMilliSeconds time - 1000 * explodedSeconds time :=
  Int.tmod_def _ _

theorem fromUtcExplode_utcExplode {time : Int} (h : Representable gmtimeR timegm (explodedSeconds time)) :
    fromUtcExplode timegm (utcExplode gmtimeR time) =
      if explodedSeconds time ≠ -1 then some (fromTimeT (explodedSeconds time)) else none := by
  have hread := h.ignored (gmtimeR (explodedSeconds time)) 0 0 (-1)
  rw [h.inverse] at hread
  simp only [fromUtcExplode, fromExploded, utcExplode, exploded, Int.add_sub_cancel, hread]

theorem utcExplode_inRange_iff {time : Int} (h : Representable gmtimeR timegm (explodedSeconds time)) :
    (utcExplode gmtimeR time).InRange ↔ 0 ≤ (utcExplode gmtimeR time).millisecond := by
  constructor
  · intro hrange
    exact hrange.millisecond.1
  · intro hmilli
    obtain ⟨hsec, hmin, hhour, hmday, hmon, hwday, hyday⟩ := h.inRange
    have hsplit := millisecond_eq gmtimeR time
    rw [milliseconds_cases, seconds_cases] at hsplit
    constructor
    · simp only [utcExplode, exploded]; omega
    · exact hmday
    · simp only [utcExplode, exploded]; split <;> omega
    · simp only [utcExplode, exploded]; omega
    · exact hhour
    · exact hmin
    · exact ⟨hsec.1, h.noLeapSecond⟩
    · refine ⟨hmilli, ?_⟩
      rw [utcExplode, hsplit]
      split <;> omega

/-- What comes back has lost its milliseconds, and before the epoch it is rounded up. -/
theorem roundTrip_iff (time : Int) (h : Representable gmtimeR timegm (explodedSeconds time)) :
    RoundTrip gmtimeR timegm time ↔
      0 ≤ time ∧ time / 1000000 % 1000 = 0 ∨ time < 0 ∧ time % 1000000000 = 0 ∧ time ≠ -1000000000 := by
  rw [RoundTrip, utcExplode_inRange_iff h, fromUtcExplode_utcExplode h, utcExplode, millisecond_eq,
    milliseconds_cases, seconds_cases, fromTimeT, kNanoSecondsPerSecond]
  by_cases hpos : 0 ≤ time
  · rw [if_pos hpos, if_pos hpos, if_pos (by omega), Option.some.injEq]
    omega
  · rw [if_neg hpos, if_neg hpos]
    split
    · rw [Option.some.injEq]
      omega
    · simp only [reduceCtorEq, and_false, false_iff]
      omega

end Utc

/-- The calendar form of a second of UTC. -/
def gregorianTm (seconds : Int) : Tm :=
  let date := dateOf (seconds / 86400)
  let time := seconds % 86400
  { tmSec := time % 60
    tmMin := time / 60 % 60
    tmHour := time / 3600
    tmMday := date.day
    tmMon := date.month
    tmYear := date.year - 1900
    tmWday := date.weekDay
    tmYday := date.yearDay
    tmIsdst := 0 }

def gregorianSeconds (t : Tm) : Int :=
  daysOf (t.tmYear + 1900) t.tmMon t.tmMday * 86400 + t.tmHour * 3600 + t.tmMin * 60 + t.tmSec

theorem gregorian_representable (seconds : Int) : Representable gregorianTm gregorianSeconds seconds := by
  obtain ⟨hmonth, hday, hweekDay, hyearDay⟩ := dateOf_valid (seconds / 86400)
  constructor
  · constructor <;> simp only [gregorianTm] <;> omega
  · simp only [gregorianTm]
    omega
  · simp only [gregorianSeconds, gregorianTm, Int.sub_add_cancel, daysOf_dateOf]
    omega
  · intro t wday yday isdst
    rfl

theorem roundTrip_iff_second :
    RoundTrip gregorianTm gregorianSeconds 1700000000000000000 ↔
      0 ≤ (1700000000000000000 : Int) ∧ (1700000000000000000 : Int) / 1000000 % 1000 = 0 ∨
        (1700000000000000000 : Int) < 0 ∧ (1700000000000000000 : Int) % 1000000000 = 0 ∧
          (1700000000000000000 : Int) ≠ -1000000000 :=
  roundTrip_iff 1700000000000000000 (gregorian_representable _)

/-- The milliseconds of a time are not read back. -/
theorem milliseconds_lost :
    ¬ ∀ (gmtimeR : Int → Tm) (timegm : Tm → Int) (time : Int),
      Representable gmtimeR timegm (explodedSeconds time) → RoundTrip gmtimeR timegm time := by
  intro h
  have htrip := (h gregorianTm gregorianSeconds 1700000000123000000 (gregorian_representable _)).2
  rw [fromUtcExplode_utcExplode (gregorian_representable _)] at htrip
  exact absurd htrip (by decide)

end Time

end Libcold
