import Libcold.Snprintf
import Libcold.Time

namespace Libcold

inductive LogLevel
  | trace | debug | info | warn | error | fatal | off
  deriving DecidableEq

structure SourceLocation where
  functionName : List UInt8 := []
  fileName : List UInt8 := []
  line : Nat := 0

/-- The level of a message is below `OFF`, as `SinkIt` asserts. -/
structure LogMessage where
  level : LogLevel := .trace
  threadId : List UInt8 := []
  threadName : List UInt8 := []
  loggerName : List UInt8 := []
  location : SourceLocation := {}
  baseName : List UInt8 := []
  logTime : Int := 0
  logLine : List UInt8 := []
  level_ne_off : level ≠ .off := by decide

namespace Time

open TimerQueue

/-- `Dump`, with `localtime_r` or `gmtime_r` for `toTm`. -/
def dump (toTm : Int → Tm) (time : Int) : List UInt8 :=
  let ex := exploded toTm time
  zeroPadded 4 ex.year ++ 45 :: (zeroPadded 2 ex.month ++ 45 :: (zeroPadded 2 ex.day ++ 32 ::
    (zeroPadded 2 ex.hour ++ 58 :: (zeroPadded 2 ex.minute ++ 58 :: (zeroPadded 2 ex.second ++ 46 ::
      zeroPadded 3 ex.millisecond)))))

end Time

open Time TimerQueue

/-- `static_cast<char>(v + '0')`. -/
def digitChar (v : Int) : UInt8 := UInt8.ofInt (v + 48)

def pad2 (buf : List UInt8) (begin : Nat) (v : Int) : List UInt8 :=
  (buf.set begin (digitChar (v.tdiv 10))).set (begin + 1) (digitChar (v.tmod 10))

def pad3 (buf : List UInt8) (begin : Nat) (v : Int) : List UInt8 :=
  ((buf.set begin (digitChar (v.tdiv 100))).set (begin + 1) (digitChar ((v.tdiv 10).tmod 10))).set (begin + 2)
    (digitChar (v.tmod 10))

def pad4 (buf : List UInt8) (begin : Nat) (v : Int) : List UInt8 :=
  pad3 (buf.set begin (digitChar (v.tdiv 1000))) (begin + 1) (v.tmod 1000)

structure LocalTimeFormatter where
  lastFormatSecond : Int := 0
  cachedTimeExploded : Option TimeExploded := none
  timeBuf : List UInt8 := ascii "xxxx-xx-xx oo:oo:oo.ooo" ++ List.replicate 9 0

namespace LocalTimeFormatter

def format (localtimeR : Int → Tm) (f : LocalTimeFormatter) (message : LogMessage) : LocalTimeFormatter × List UInt8 :=
  let totalMs := timeSinceEpochMilliSeconds message.logTime
  let seconds := totalMs.tdiv 1000
  let milliseconds := totalMs - seconds * 1000
  let f :=
    if seconds ≠ f.lastFormatSecond then
      let ex := exploded localtimeR message.logTime
      let timeBuf := pad2 (pad2 (pad4 f.timeBuf 0 ex.year) 5 ex.month) 8 ex.day
      { lastFormatSecond := seconds
        cachedTimeExploded := some ex
        timeBuf := pad2 (pad2 (pad2 timeBuf 11 ex.hour) 14 ex.minute) 17 ex.second }
    else f
  let timeBuf := pad3 f.timeBuf 20 milliseconds
  ({ f with timeBuf }, timeBuf.take 23)

def formatAll (localtimeR : Int → Tm) (f : LocalTimeFormatter) :
    List LogMessage → LocalTimeFormatter × List (List UInt8)
  | [] => (f, [])
  | message :: messages =>
      let (f, text) := f.format localtimeR message
      let (f, texts) := f.formatAll localtimeR messages
      (f, text :: texts)

def digits2 (v : Int) : List UInt8 := [digitChar (v.tdiv 10), digitChar (v.tmod 10)]

def digits3 (v : Int) : List UInt8 := [digitChar (v.tdiv 100), digitChar ((v.tdiv 10).tmod 10), digitChar (v.tmod 10)]

def digits4 (v : Int) : List UInt8 := digitChar (v.tdiv 1000) :: digits3 (v.tmod 1000)

def monthToSecond (t : Tm) : List UInt8 :=
  45 :: (digits2 (t.tmMon + 1) ++ 45 :: (digits2 t.tmMday ++ 32 ::
    (digits2 t.tmHour ++ 58 :: (digits2 t.tmMin ++ 58 :: (digits2 t.tmSec ++ [46])))))

/-- The part of the buffer that lasts for a second. -/
def calendarText (t : Tm) : List UInt8 := digits4 (t.tmYear + 1900) ++ monthToSecond t

def placeholder : List UInt8 := ascii "xxxx-xx-xx oo:oo:oo."

def milliseconds (message : LogMessage) : Int :=
  timeSinceEpochMilliSeconds message.logTime - explodedSeconds message.logTime * 1000

/-- What the buffer has: no second yet, or the one that it is said to have. -/
inductive Cached (localtimeR : Int → Tm) : Bool → LocalTimeFormatter → Prop
  | fresh {f : LocalTimeFormatter} (hzero : f.lastFormatSecond = 0)
      (hbuf : ∃ a b c rest, f.timeBuf = placeholder ++ a :: b :: c :: rest) : Cached localtimeR false f
  | current {f : LocalTimeFormatter}
      (hbuf : ∃ a b c rest, f.timeBuf = calendarText (localtimeR f.lastFormatSecond) ++ a :: b :: c :: rest) :
      Cached localtimeR true f

/-- Once a second other than the one that a new formatter has is printed, the buffer is right. -/
def cachedAfter (written : Bool) (message : LogMessage) : Bool :=
  written || explodedSeconds message.logTime ≠ 0

variable {localtimeR : Int → Tm} {f : LocalTimeFormatter} {written : Bool}

theorem cached_new : Cached localtimeR false {} := by
  apply Cached.fresh rfl
  refine ⟨111, 111, 111, List.replicate 9 0, ?_⟩
  simp [placeholder, ascii]

theorem pad_calendarText (t t' : Tm) (tail : List UInt8) :
    pad2 (pad2 (pad2 (pad2 (pad2 (pad4 (calendarText t ++ tail) 0 (t'.tmYear + 1900)) 5 (t'.tmMon + 1)) 8
      t'.tmMday) 11 t'.tmHour) 14 t'.tmMin) 17 t'.tmSec = calendarText t' ++ tail := by
  simp [pad2, pad3, pad4, calendarText, monthToSecond, digits2, digits3, digits4]

theorem pad_placeholder (t' : Tm) (tail : List UInt8) :
    pad2 (pad2 (pad2 (pad2 (pad2 (pad4 (placeholder ++ tail) 0 (t'.tmYear + 1900)) 5 (t'.tmMon + 1)) 8
      t'.tmMday) 11 t'.tmHour) 14 t'.tmMin) 17 t'.tmSec = calendarText t' ++ tail := by
  simp [pad2, pad3, pad4, placeholder, ascii, calendarText, monthToSecond, digits2, digits3, digits4]

theorem pad3_calendarText (t : Tm) (a b c : UInt8) (rest : List UInt8) (v : Int) :
    pad3 (calendarText t ++ a :: b :: c :: rest) 20 v = calendarText t ++ (digits3 v ++ rest) := by
  simp [pad3, calendarText, monthToSecond, digits2, digits3, digits4]

theorem pad3_placeholder (a b c : UInt8) (rest : List UInt8) (v : Int) :
    pad3 (placeholder ++ a :: b :: c :: rest) 20 v = placeholder ++ (digits3 v ++ rest) := by
  simp [pad3, placeholder, ascii, digits3]

theorem format_same (message : LogMessage) (hsame : explodedSeconds message.logTime = f.lastFormatSecond) :
    f.format localtimeR message =
      ({ f with timeBuf := pad3 f.timeBuf 20 (milliseconds message) },
        (pad3 f.timeBuf 20 (milliseconds message)).take 23) := by
  have hkept : ¬ (timeSinceEpochMilliSeconds message.logTime).tdiv 1000 ≠ f.lastFormatSecond := not_not.mpr hsame
  simp only [format, if_neg hkept]
  rfl

theorem format_other (message : LogMessage) (hother : explodedSeconds message.logTime ≠ f.lastFormatSecond)
    (hbuf : ∃ old a b c rest, (old = placeholder ∨ ∃ t, old = calendarText t) ∧
      f.timeBuf = old ++ a :: b :: c :: rest) :
    Cached localtimeR true (f.format localtimeR message).1 ∧
      (f.format localtimeR message).2 =
        calendarText (localtimeR (explodedSeconds message.logTime)) ++ digits3 (milliseconds message) := by
  obtain ⟨old, a, b, c, rest, hold, hbuf⟩ := hbuf
  have hchanged : (timeSinceEpochMilliSeconds message.logTime).tdiv 1000 ≠ f.lastFormatSecond := hother
  have hwritten : pad2 (pad2 (pad2 (pad2 (pad2 (pad4 f.timeBuf 0
      (exploded localtimeR message.logTime).year) 5 (exploded localtimeR message.logTime).month) 8
      (exploded localtimeR message.logTime).day) 11 (exploded localtimeR message.logTime).hour) 14
      (exploded localtimeR message.logTime).minute) 17 (exploded localtimeR message.logTime).second =
      calendarText (localtimeR (explodedSeconds message.logTime)) ++ a :: b :: c :: rest := by
    rw [hbuf]
    obtain rfl | ⟨t, rfl⟩ := hold
    · exact pad_placeholder _ _
    · exact pad_calendarText t _ _
  simp only [format, if_pos hchanged, hwritten, pad3_calendarText]
  constructor
  · exact .current ⟨_, _, _, rest, rfl⟩
  · rfl

/-- A message of the second that a new formatter has finds the placeholder. -/
theorem format_cached (h : Cached localtimeR written f) (message : LogMessage) :
    Cached localtimeR (cachedAfter written message) (f.format localtimeR message).1 ∧
      (f.format localtimeR message).2 =
        (if cachedAfter written message = true then calendarText (localtimeR (explodedSeconds message.logTime))
          else placeholder) ++ digits3 (milliseconds message) := by
  cases h with
  | fresh hzero hbuf =>
      obtain ⟨a, b, c, rest, hbuf⟩ := hbuf
      by_cases hsecond : explodedSeconds message.logTime = 0
      · have hafter : cachedAfter false message = false := by simp [cachedAfter, hsecond]
        rw [hafter, format_same message (hsecond.trans hzero.symm), hbuf, pad3_placeholder]
        constructor
        · exact .fresh hzero ⟨_, _, _, rest, rfl⟩
        · rfl
      · have hafter : cachedAfter false message = true := by simp [cachedAfter, hsecond]
        rw [hafter, if_pos rfl]
        rw [← hzero] at hsecond
        exact format_other message hsecond ⟨_, a, b, c, rest, .inl rfl, hbuf⟩
  | current hbuf =>
      obtain ⟨a, b, c, rest, hbuf⟩ := hbuf
      have hafter : cachedAfter true message = true := rfl
      rw [hafter, if_pos rfl]
      by_cases hsame : explodedSeconds message.logTime = f.lastFormatSecond
      · rw [format_same message hsame, hbuf, pad3_calendarText, hsame]
        constructor
        · exact .current ⟨_, _, _, rest, rfl⟩
        · rfl
      · exact format_other message hsame ⟨_, a, b, c, rest, .inr ⟨_, rfl⟩, hbuf⟩

theorem digitChar_natCast (n : Nat) : digitChar n = UInt8.ofNat (48 + n) := by
  have hsum : (n : Int) + 48 = ((48 + n : Nat) : Int) := by omega
  have hmod : ((48 + n : Nat) : Int) % 2 ^ 8 = ((48 + n) % 256 : Nat) := by omega
  apply UInt8.toNat.inj
  rw [digitChar, UInt8.ofInt, hsum, hmod, Int.toNat_natCast, UInt8.toNat_ofNat', UInt8.toNat_ofNat']
  omega

theorem digits2_natCast (n : Nat) : digits2 n = [UInt8.ofNat (48 + n / 10), UInt8.ofNat (48 + n % 10)] := by
  rw [← digitChar_natCast, ← digitChar_natCast]
  rfl

theorem digits3_natCast (n : Nat) :
    digits3 n = [UInt8.ofNat (48 + n / 100), UInt8.ofNat (48 + n / 10 % 10), UInt8.ofNat (48 + n % 10)] := by
  rw [← digitChar_natCast, ← digitChar_natCast, ← digitChar_natCast]
  rfl

theorem digits4_natCast (n : Nat) : digits4 n = UInt8.ofNat (48 + n / 1000) :: digits3 (n % 1000 : Nat) := by
  rw [← digitChar_natCast]
  rfl

theorem zeroPadded_eq_digits2 {v : Int} (hpos : 0 ≤ v) (hlt : v < 100) : zeroPadded 2 v = digits2 v := by
  lift v to Nat using hpos
  rw [zeroPadded_two (by omega), digits2_natCast]

theorem zeroPadded_eq_digits3_iff {v : Int} (hlt : v < 1000) : zeroPadded 3 v = digits3 v ↔ 0 ≤ v := by
  constructor
  · intro heq
    by_contra hneg
    have hhead := head_zeroPadded_of_neg (not_le.mp hneg) 3
    have hlength := (length_zeroPadded_le_iff 1 v).mp (by rw [heq]; rfl)
    have hzero : v.tdiv 100 = 0 := by
      rw [← Int.neg_neg v, Int.neg_tdiv, Int.tdiv_eq_ediv_of_nonneg (by omega)]
      omega
    rw [heq, digits3, hzero] at hhead
    exact absurd (Option.some.inj hhead) (by decide)
  · intro hpos
    lift v to Nat using hpos
    rw [zeroPadded_three (by omega), digits3_natCast]

theorem zeroPadded_eq_digits4_iff (v : Int) : zeroPadded 4 v = digits4 v ↔ 0 ≤ v ∧ v ≤ 9999 := by
  constructor
  · intro heq
    have hlength := (length_zeroPadded_le_iff 2 v).mp (by rw [heq]; rfl)
    refine ⟨?_, by omega⟩
    by_contra hneg
    have hhead := head_zeroPadded_of_neg (not_le.mp hneg) 4
    have hzero : v.tdiv 1000 = 0 := by
      rw [← Int.neg_neg v, Int.neg_tdiv, Int.tdiv_eq_ediv_of_nonneg (by omega)]
      omega
    rw [heq, digits4, hzero] at hhead
    exact absurd (Option.some.inj hhead) (by decide)
  · rintro ⟨hpos, hle⟩
    lift v to Nat using hpos
    have hhundreds : v % 1000 / 100 = v / 100 % 10 := by omega
    have htens : v % 1000 / 10 % 10 = v / 10 % 10 := by omega
    have hunits : v % 1000 % 10 = v % 10 := by omega
    rw [zeroPadded_four (by omega), digits4_natCast, digits3_natCast, hhundreds, htens, hunits]

/-- Texts of fixed width are equal to texts of at least that width only part by part. -/
theorem append_eq_iff {ys ys' mid xs xs' : List UInt8} (hy : ys'.length ≤ ys.length) (hx : xs'.length ≤ xs.length) :
    ys ++ (mid ++ xs) = ys' ++ (mid ++ xs') ↔ ys = ys' ∧ xs = xs' := by
  constructor
  · intro heq
    have hlength := congrArg List.length heq
    simp only [List.length_append] at hlength
    obtain ⟨hys, hrest⟩ := List.append_inj heq (by omega)
    exact ⟨hys, List.append_cancel_left hrest⟩
  · rintro ⟨rfl, rfl⟩
    rfl

/-- `Dump` agrees with the fixed digits of the buffer for four-digit years, and for
milliseconds that are not negative. -/
def Dumpable (localtimeR : Int → Tm) (message : LogMessage) : Prop :=
  0 ≤ (localtimeR (explodedSeconds message.logTime)).tmYear + 1900 ∧
    (localtimeR (explodedSeconds message.logTime)).tmYear + 1900 ≤ 9999 ∧ 0 ≤ milliseconds message

theorem dump_eq (hrange : ∀ seconds, (localtimeR seconds).InRange) (message : LogMessage) :
    dump localtimeR message.logTime =
      zeroPadded 4 ((localtimeR (explodedSeconds message.logTime)).tmYear + 1900) ++
        (monthToSecond (localtimeR (explodedSeconds message.logTime)) ++ zeroPadded 3 (milliseconds message)) := by
  obtain ⟨hsec, hmin, hhour, hmday, hmon, -, -⟩ := hrange (explodedSeconds message.logTime)
  have hmilli : (exploded localtimeR message.logTime).millisecond = milliseconds message := by
    rw [millisecond_eq, milliseconds, Int.mul_comm]
  rw [dump, hmilli]
  simp only [exploded, monthToSecond]
  rw [zeroPadded_eq_digits2 (by omega) (by omega), zeroPadded_eq_digits2 (by omega) (by omega),
    zeroPadded_eq_digits2 (by omega) (by omega), zeroPadded_eq_digits2 (by omega) (by omega),
    zeroPadded_eq_digits2 (by omega) (by omega)]
  simp

theorem buffer_eq_dump_iff (hrange : ∀ seconds, (localtimeR seconds).InRange) (message : LogMessage) :
    calendarText (localtimeR (explodedSeconds message.logTime)) ++ digits3 (milliseconds message) =
      dump localtimeR message.logTime ↔ Dumpable localtimeR message := by
  have hbound : milliseconds message < 1000 := by
    have hmod := Int.tmod_lt_of_pos (timeSinceEpochMilliSeconds message.logTime) (show (0 : Int) < 1000 by decide)
    rw [Int.tmod_def] at hmod
    rw [milliseconds, explodedSeconds, kMillisecondsPerSecond]
    omega
  have hyear (v : Int) : (digits4 v).length ≤ (zeroPadded 4 v).length := le_length_zeroPadded 4 v
  have hmilli (v : Int) : (digits3 v).length ≤ (zeroPadded 3 v).length := le_length_zeroPadded 3 v
  rw [dump_eq hrange, calendarText, List.append_assoc, eq_comm, append_eq_iff (hyear _) (hmilli _),
    zeroPadded_eq_digits4_iff, zeroPadded_eq_digits3_iff hbound, Dumpable, and_assoc]

/-- The placeholder starts with neither a digit nor a sign. -/
theorem placeholder_ne_dump (message : LogMessage) :
    placeholder ++ digits3 (milliseconds message) ≠ dump localtimeR message.logTime := by
  intro heq
  have hwidth := le_length_zeroPadded 4 (exploded localtimeR message.logTime).year
  have hbyte := zeroPadded_le 4 (exploded localtimeR message.logTime).year
  rw [dump] at heq
  cases hyear : zeroPadded 4 (exploded localtimeR message.logTime).year with
  | nil => simp [hyear] at hwidth
  | cons b year =>
      have hle := hbyte b (by rw [hyear]; exact List.mem_cons_self)
      rw [hyear] at heq
      have hhead : 120 = b := (List.cons.inj heq).1
      rw [← hhead] at hle
      exact absurd hle (by decide)

theorem format_eq_dump_iff (hrange : ∀ seconds, (localtimeR seconds).InRange) (h : Cached localtimeR written f)
    (message : LogMessage) :
    (f.format localtimeR message).2 = dump localtimeR message.logTime ↔
      Dumpable localtimeR message ∧ cachedAfter written message = true := by
  rw [(format_cached h message).2]
  split
  · next hafter => rw [buffer_eq_dump_iff hrange, and_iff_left hafter]
  · next hafter =>
      constructor
      · intro htext
        exact absurd htext (placeholder_ne_dump message)
      · intro hdump
        exact absurd hdump.2 hafter

theorem formatAll_cached (hrange : ∀ seconds, (localtimeR seconds).InRange) (h : Cached localtimeR written f)
    (messages : List LogMessage) (hdumpable : ∀ message ∈ messages, Dumpable localtimeR message)
    (hsecond : ∀ message ∈ messages, explodedSeconds message.logTime ≠ 0) :
    (f.formatAll localtimeR messages).2 = messages.map fun message => dump localtimeR message.logTime := by
  induction messages generalizing f written with
  | nil => rfl
  | cons message messages ih =>
      rw [List.forall_mem_cons] at hdumpable hsecond
      have hafter : cachedAfter written message = true := by simp [cachedAfter, hsecond.1]
      have htext := (format_eq_dump_iff hrange h message).mpr ⟨hdumpable.1, hafter⟩
      have htexts := ih (format_cached h message).1 hdumpable.2 hsecond.2
      rw [List.map_cons, ← htext, ← htexts]
      rfl

/-- A formatter that is used for a sequence of messages appends for each the text of
`Dump`, in whatever order their times are. -/
theorem formatAll_eq_dump (hrange : ∀ seconds, (localtimeR seconds).InRange) (messages : List LogMessage)
    (hepoch : ∀ message ∈ messages, 1000000000 ≤ message.logTime)
    (hyear : ∀ message ∈ messages, 0 ≤ (localtimeR (explodedSeconds message.logTime)).tmYear + 1900 ∧
      (localtimeR (explodedSeconds message.logTime)).tmYear + 1900 ≤ 9999) :
    (({} : LocalTimeFormatter).formatAll localtimeR messages).2 =
      messages.map fun message => dump localtimeR message.logTime := by
  apply formatAll_cached hrange cached_new messages
  · intro message hmem
    have hafter := hepoch message hmem
    refine ⟨(hyear message hmem).1, (hyear message hmem).2, ?_⟩
    rw [milliseconds, milliseconds_cases, seconds_cases, if_pos (by omega), if_pos (by omega)]
    omega
  · intro message hmem
    have hafter := hepoch message hmem
    rw [seconds_cases, if_pos (by omega)]
    omega

/-- Three messages, of which the second is in the second of the first and the third goes back. -/
theorem formatAll_eq_dump_back :
    (({} : LocalTimeFormatter).formatAll gregorianTm
        [{ logTime := 5250000000 }, { logTime := 5999000000 }, { logTime := 1500000000 }]).2 =
      [{ logTime := 5250000000 }, { logTime := 5999000000 }, { logTime := 1500000000 }].map
        fun message : LogMessage => dump gregorianTm message.logTime :=
  formatAll_eq_dump (fun seconds => (gregorian_representable seconds).inRange) _ (by decide) (by decide)

end LocalTimeFormatter

end Libcold
