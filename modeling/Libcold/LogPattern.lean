import Libcold.LocalTimeFormatter

namespace Libcold

open Time LocalTimeFormatter

def LogLevel.index : LogLevel → Nat
  | .trace => 0
  | .debug => 1
  | .info => 2
  | .warn => 3
  | .error => 4
  | .fatal => 5
  | .off => 6

def kLogLevels : List (List UInt8) :=
  [ascii "TRACE", ascii "DEBUG", ascii "INFO ", ascii "WARN ", ascii "ERROR", ascii "FATAL"]

theorem LogMessage.index_lt (message : LogMessage) : message.level.index < kLogLevels.length := by
  have hoff := message.level_ne_off
  cases hlevel : message.level with
  | off => exact absurd hlevel hoff
  | _ => decide

def LogMessage.levelText (message : LogMessage) : List UInt8 := kLogLevels.get ⟨_, message.index_lt⟩

namespace LogPattern

def builtinFlags : List UInt8 := ascii "tNfFlLnTcmb"

def builtinField (timeText : List UInt8) (message : LogMessage) (flag : UInt8) : List UInt8 :=
  match flag with
  | 116 => message.threadId -- t
  | 78 => message.threadName -- N
  | 102 => message.location.functionName -- f
  | 70 => message.location.fileName -- F
  | 108 => decimal message.location.line -- l
  | 76 => message.levelText -- L
  | 110 => [10] -- n
  | 84 => timeText -- T
  | 99 => message.logLine -- c
  | 109 => message.loggerName -- m
  | 98 => message.baseName -- b
  | _ => []

section Interpretation

-- What the custom flags print.
variable (customs : UInt8 → Option (LogMessage → List UInt8))

/-- Every `%` is followed by another one, by a custom flag or by one of the built-in flags. -/
def accepted : List UInt8 → Bool
  | [] => true
  | [c] => c ≠ 37
  | c :: flag :: rest =>
      if c ≠ 37 then accepted (flag :: rest)
      else (flag = 37 || (customs flag).isSome || builtinFlags.contains flag) && accepted rest

def field (timeText : List UInt8) (message : LogMessage) (flag : UInt8) : List UInt8 :=
  match customs flag with
  | some print => print message
  | none => builtinField timeText message flag

/-- The pattern read from left to right, where the local time is `timeText`. -/
def interpretWith (timeText : List UInt8) (message : LogMessage) : List UInt8 → List UInt8
  | [] => []
  | [c] => [c]
  | c :: flag :: rest =>
      if c ≠ 37 then c :: interpretWith timeText message (flag :: rest)
      else if flag = 37 then 37 :: interpretWith timeText message rest
      else field customs timeText message flag ++ interpretWith timeText message rest

def interpret (localtimeR : Int → Tm) (message : LogMessage) (pattern : List UInt8) : List UInt8 :=
  interpretWith customs (dump localtimeR message.logTime) message pattern

def timeUse (flag : UInt8) : Nat := if flag = 84 ∧ (customs flag).isNone then 1 else 0

/-- How many times the pattern asks for the local time. -/
def timeCount : List UInt8 → Nat
  | [] => 0
  | [_] => 0
  | c :: flag :: rest =>
      if c ≠ 37 then timeCount (flag :: rest)
      else if flag = 37 then timeCount rest
      else timeUse customs flag + timeCount rest

variable {customs} {message : LogMessage}

/-- Only the flag of the time prints the time. -/
theorem field_cases (message : LogMessage) (flag : UInt8) :
    (timeUse customs flag = 1 ∧ ∀ timeText, field customs timeText message flag = timeText) ∨
      (timeUse customs flag = 0 ∧
        ∀ timeText timeText', field customs timeText message flag = field customs timeText' message flag) := by
  by_cases htime : flag = 84 ∧ (customs flag).isNone
  · left
    refine ⟨if_pos htime, ?_⟩
    intro timeText
    rw [field, Option.isNone_iff_eq_none.mp htime.2, htime.1]
    rfl
  · right
    refine ⟨if_neg htime, ?_⟩
    intro timeText timeText'
    cases hcustom : customs flag with
    | some print => rw [field, field, hcustom]
    | none =>
        have hflag : flag ≠ 84 := by
          intro heq
          exact htime ⟨heq, by rw [hcustom]; rfl⟩
        rw [field, field, hcustom]
        simp only [builtinField]
        split <;> first | rfl | exact absurd rfl hflag

theorem length_interpretWith (message : LogMessage) (timeText timeText' pattern : List UInt8) :
    (interpretWith customs timeText message pattern).length + timeCount customs pattern * timeText'.length =
      (interpretWith customs timeText' message pattern).length + timeCount customs pattern * timeText.length := by
  induction pattern using timeCount.induct with
  | case1 => simp [interpretWith, timeCount]
  | case2 c => simp [interpretWith, timeCount]
  | case3 c flag rest hc ih =>
      simp only [interpretWith, timeCount, if_pos hc, List.length_cons]
      omega
  | case4 c rest hc ih =>
      simp only [interpretWith, timeCount, if_neg hc, if_pos, List.length_cons]
      omega
  | case5 c flag rest hc hescape ih =>
      simp only [interpretWith, timeCount, if_neg hc, if_neg hescape, List.length_append, Nat.add_mul]
      obtain ⟨huse, hfield⟩ | ⟨huse, hfield⟩ := @field_cases customs message flag
      · rw [huse, hfield, hfield]
        omega
      · rw [huse, hfield timeText timeText']
        omega

theorem interpretWith_injective {pattern timeText timeText' : List UInt8}
    (htime : 0 < timeCount customs pattern)
    (heq : interpretWith customs timeText message pattern = interpretWith customs timeText' message pattern) :
    timeText = timeText' := by
  have hlength := @length_interpretWith customs message timeText timeText' pattern
  rw [heq, Nat.add_left_cancel_iff] at hlength
  have hwidth := Nat.eq_of_mul_eq_mul_left htime hlength
  clear hlength
  induction pattern using timeCount.induct with
  | case1 => cases htime
  | case2 c => cases htime
  | case3 c flag rest hc ih =>
      rw [timeCount, if_pos hc] at htime
      rw [interpretWith, interpretWith, if_pos hc, if_pos hc] at heq
      exact ih htime (List.cons.inj heq).2
  | case4 c rest hc ih =>
      rw [timeCount, if_neg hc, if_pos rfl] at htime
      rw [interpretWith, interpretWith, if_neg hc, if_neg hc, if_pos rfl, if_pos rfl] at heq
      exact ih htime (List.cons.inj heq).2
  | case5 c flag rest hc hescape ih =>
      rw [timeCount, if_neg hc, if_neg hescape] at htime
      rw [interpretWith, interpretWith, if_neg hc, if_neg hc, if_neg hescape, if_neg hescape] at heq
      obtain ⟨huse, hfield⟩ | ⟨huse, hfield⟩ := @field_cases customs message flag
      · rw [hfield, hfield] at heq
        exact (List.append_inj heq hwidth.symm).1
      · rw [huse, Nat.zero_add] at htime
        rw [hfield timeText timeText'] at heq
        exact ih htime (List.append_cancel_left heq)

theorem interpretWith_timeless {pattern : List UInt8} (htime : timeCount customs pattern = 0)
    (timeText timeText' : List UInt8) :
    interpretWith customs timeText message pattern = interpretWith customs timeText' message pattern := by
  induction pattern using timeCount.induct with
  | case1 => rfl
  | case2 c => rfl
  | case3 c flag rest hc ih =>
      rw [timeCount, if_pos hc] at htime
      rw [interpretWith, interpretWith, if_pos hc, if_pos hc, ih htime]
  | case4 c rest hc ih =>
      rw [timeCount, if_neg hc, if_pos rfl] at htime
      rw [interpretWith, interpretWith, if_neg hc, if_neg hc, if_pos rfl, if_pos rfl, ih htime]
  | case5 c flag rest hc hescape ih =>
      rw [timeCount, if_neg hc, if_neg hescape, Nat.add_eq_zero_iff] at htime
      rw [interpretWith, interpretWith, if_neg hc, if_neg hc, if_neg hescape, if_neg hescape, ih htime.2]
      obtain ⟨huse, -⟩ | ⟨-, hfield⟩ := @field_cases customs message flag
      · rw [htime.1] at huse
        cases huse
      · rw [hfield timeText timeText']

/-- Two times give the same text when the pattern does not ask for them, or they are the same. -/
theorem interpretWith_eq_iff (pattern timeText timeText' : List UInt8) :
    interpretWith customs timeText message pattern = interpretWith customs timeText' message pattern ↔
      (0 < timeCount customs pattern → timeText = timeText') := by
  constructor
  · intro heq htime
    exact interpretWith_injective htime heq
  · intro hsame
    by_cases htime : timeCount customs pattern = 0
    · exact interpretWith_timeless htime _ _
    · rw [hsame (Nat.pos_of_ne_zero htime)]

end Interpretation

end LogPattern

end Libcold
