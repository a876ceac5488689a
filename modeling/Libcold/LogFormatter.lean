import Libcold.LogPattern

namespace Libcold

open Time LocalTimeFormatter LogPattern

/-- `custom` is a flag of the flag map. -/
inductive FlagFormatter (γ : Type)
  | threadId
  | threadName
  | functionName
  | fileName
  | baseName
  | fileLine
  | logLevel
  | loggerName
  | logLine
  | newLine
  | patternText (text : List UInt8)
  | localTime (formatter : LocalTimeFormatter)
  | custom (flag : γ)

structure LogFormatter (γ : Type) where
  pattern : List UInt8
  formatSequence : List (FlagFormatter γ) := []
  flagMap : UInt8 → Option γ

variable {γ : Type}

def handleFlag (c : UInt8) (sequence : List (FlagFormatter γ)) : Option (List (FlagFormatter γ)) :=
  match c with
  | 116 => some (sequence ++ [.threadId]) -- t
  | 78 => some (sequence ++ [.threadName]) -- N
  | 102 => some (sequence ++ [.functionName]) -- f
  | 70 => some (sequence ++ [.fileName]) -- F
  | 108 => some (sequence ++ [.fileLine]) -- l
  | 76 => some (sequence ++ [.logLevel]) -- L
  | 110 => some (sequence ++ [.newLine]) -- n
  | 84 => some (sequence ++ [.localTime {}]) -- T
  | 99 => some (sequence ++ [.logLine]) -- c
  | 109 => some (sequence ++ [.loggerName]) -- m
  | 98 => some (sequence ++ [.baseName]) -- b
  | _ => none

def pushText (text : List UInt8) (sequence : List (FlagFormatter γ)) : List (FlagFormatter γ) :=
  if text.isEmpty then sequence else sequence ++ [.patternText text]

namespace FlagFormatter

variable (customFormat : γ → LogMessage → List UInt8)

/-- What a formatter appends, where the local time is `timeText`. -/
def print (timeText : List UInt8) (message : LogMessage) : FlagFormatter γ → List UInt8
  | threadId => message.threadId
  | threadName => message.threadName
  | functionName => message.location.functionName
  | fileName => message.location.fileName
  | baseName => message.baseName
  | fileLine => decimal message.location.line
  | logLevel => message.levelText
  | loggerName => message.loggerName
  | logLine => message.logLine
  | newLine => [10]
  | patternText text => text
  | localTime _ => timeText
  | custom flag => customFormat flag message

def format (localtimeR : Int → Tm) (message : LogMessage) : FlagFormatter γ → FlagFormatter γ × List UInt8
  | localTime formatter =>
      let (formatter, text) := formatter.format localtimeR message
      (localTime formatter, text)
  | flag => (flag, flag.print customFormat [] message)

end FlagFormatter

namespace LogFormatter

open FlagFormatter

/-- The loop of `CompilePattern` over the rest of the pattern. A text that is moved into
the sequence is empty afterwards. -/
def compileFrom (customClone : γ → γ) (flagMap : UInt8 → Option γ) (text : List UInt8)
    (sequence : List (FlagFormatter γ)) : List UInt8 → Option (List (FlagFormatter γ))
  | [] => some (pushText text sequence)
  | c :: rest =>
      if c = 37 ∧ rest = [] then none
      else if c ≠ 37 then compileFrom customClone flagMap (text ++ [c]) sequence rest
      else match rest with
        | [] => none
        | flag :: rest =>
            if flag = 37 then compileFrom customClone flagMap (text ++ [flag]) sequence rest
            else match flagMap flag with
              | none => do
                  let sequence ← handleFlag flag (pushText text sequence)
                  compileFrom customClone flagMap [] sequence rest
              | some flag =>
                  compileFrom customClone flagMap [] (pushText text sequence ++ [.custom (customClone flag)]) rest

section Methods

variable (localtimeR : Int → Tm) (customFormat : γ → LogMessage → List UInt8) (customClone : γ → γ)

/-- The sequence stays when the pattern is refused. -/
def compilePattern (f : LogFormatter γ) : Bool × LogFormatter γ :=
  match compileFrom customClone f.flagMap [] [] f.pattern with
  | none => (false, f)
  | some sequence => (true, { f with formatSequence := sequence })

/-- What is written before `abort`; the pattern is a C string there. -/
def abortText (pattern : List UInt8) : List UInt8 :=
  ascii "compile pattern error! error pattern: " ++ (pattern.takeWhile (· ≠ 0) ++ [10])

def compilePatternOrAbort (f : LogFormatter γ) : Except (List UInt8) (LogFormatter γ) :=
  match f.compilePattern customClone with
  | (false, f) => .error (abortText f.pattern)
  | (true, f) => .ok f

def create (pattern : List UInt8) (flagMap : UInt8 → Option γ) : Except (List UInt8) (LogFormatter γ) :=
  compilePatternOrAbort customClone { pattern, flagMap }

def clone (f : LogFormatter γ) : Except (List UInt8) (LogFormatter γ) :=
  create customClone f.pattern fun flag => (f.flagMap flag).map customClone

def setPattern (f : LogFormatter γ) (pattern : List UInt8) : Except (List UInt8) (LogFormatter γ) :=
  compilePatternOrAbort customClone { f with pattern }

def format (f : LogFormatter γ) (message : LogMessage) : LogFormatter γ × List UInt8 :=
  let results := f.formatSequence.map fun flag => flag.format customFormat localtimeR message
  ({ f with formatSequence := results.map Prod.fst }, results.flatMap Prod.snd)

inductive Call
  | format (message : LogMessage)
  | setPattern (pattern : List UInt8)

/-- The texts of a sequence of calls, and the formatter after it unless one of them aborts. -/
def run (f : LogFormatter γ) : List Call → List (List UInt8) × Except (List UInt8) (LogFormatter γ)
  | [] => ([], .ok f)
  | .format message :: calls =>
      let (f, text) := f.format localtimeR customFormat message
      let (texts, last) := f.run calls
      (text :: texts, last)
  | .setPattern pattern :: calls =>
      match f.setPattern customClone pattern with
      | .error text => ([], .error text)
      | .ok f => f.run calls

end Methods

def customs (customFormat : γ → LogMessage → List UInt8) (flagMap : UInt8 → Option γ) (flag : UInt8) :
    Option (LogMessage → List UInt8) := (flagMap flag).map customFormat

/-- A flag of the local time that has come to `time`. -/
def withTime (time : LocalTimeFormatter) : FlagFormatter γ → FlagFormatter γ
  | .localTime _ => .localTime time
  | flag => flag

section Compile

variable {customFormat : γ → LogMessage → List UInt8} {customClone : γ → γ} {flagMap : UInt8 → Option γ}
  {text : List UInt8} {sequence base : List (FlagFormatter γ)}

def printAll (customFormat : γ → LogMessage → List UInt8) (timeText : List UInt8) (message : LogMessage)
    (sequence : List (FlagFormatter γ)) : List UInt8 :=
  sequence.flatMap fun flag => flag.print customFormat timeText message

theorem printAll_append (timeText : List UInt8) (message : LogMessage) (behind : List (FlagFormatter γ)) :
    printAll customFormat timeText message (sequence ++ behind) =
      printAll customFormat timeText message sequence ++ printAll customFormat timeText message behind :=
  List.flatMap_append

theorem printAll_singleton (timeText : List UInt8) (message : LogMessage) (flag : FlagFormatter γ) :
    printAll customFormat timeText message [flag] = flag.print customFormat timeText message :=
  List.flatMap_singleton _ _

theorem printAll_pushText (timeText : List UInt8) (message : LogMessage) :
    printAll customFormat timeText message (pushText text sequence) =
      printAll customFormat timeText message sequence ++ text := by
  cases text with
  | nil => simp [pushText]
  | cons c text =>
      rw [pushText, if_neg (by simp), printAll_append, printAll_singleton]
      rfl

theorem withTime_pushText (hsequence : sequence.map (withTime {}) = sequence) :
    (pushText text sequence).map (withTime {}) = pushText text sequence := by
  rw [pushText]
  split
  · exact hsequence
  · rw [List.map_append, hsequence]
    rfl

/-- A built-in flag appends one formatter, which prints its field. -/
theorem handleFlag_cases (c : UInt8) (sequence : List (FlagFormatter γ)) :
    (handleFlag c sequence = none ∧ builtinFlags.contains c = false) ∨
      ∃ flag, handleFlag c sequence = some (sequence ++ [flag]) ∧ builtinFlags.contains c = true ∧
        withTime {} flag = flag ∧
        ∀ timeText message, flag.print customFormat timeText message = builtinField timeText message c := by
  unfold handleFlag
  split
  case h_12 =>
    left
    simp_all [builtinFlags, ascii]
  all_goals
    right
    exact ⟨_, rfl, rfl, rfl, fun _ _ => rfl⟩

theorem compileFrom_literal {c : UInt8} (hc : c ≠ 37) (rest : List UInt8) :
    compileFrom customClone flagMap text sequence (c :: rest) =
      compileFrom customClone flagMap (text ++ [c]) sequence rest := by
  cases rest with
  | nil => simp [compileFrom, hc]
  | cons flag rest => simp [compileFrom, hc]

theorem compileFrom_escape (rest : List UInt8) :
    compileFrom customClone flagMap text sequence (37 :: 37 :: rest) =
      compileFrom customClone flagMap (text ++ [37]) sequence rest := by
  simp [compileFrom]

/-- A flag is refused, or one formatter that prints its field follows the text before it. -/
theorem compileFrom_flag (hclone : ∀ flag message, customFormat (customClone flag) message = customFormat flag message)
    {flag : UInt8} (hflag : flag ≠ 37) (rest : List UInt8) :
    (compileFrom customClone flagMap text sequence (37 :: flag :: rest) = none ∧
      ((customs customFormat flagMap flag).isSome || builtinFlags.contains flag) = false) ∨
    ∃ formatter : FlagFormatter γ,
      compileFrom customClone flagMap text sequence (37 :: flag :: rest) =
        compileFrom customClone flagMap [] (pushText text sequence ++ [formatter]) rest ∧
      ((customs customFormat flagMap flag).isSome || builtinFlags.contains flag) = true ∧
      withTime {} formatter = formatter ∧
      ∀ timeText message, formatter.print customFormat timeText message =
        field (customs customFormat flagMap) timeText message flag := by
  rw [compileFrom, if_neg (by simp), if_neg (by simp)]
  simp only [if_neg hflag]
  cases hcustom : flagMap flag with
  | some custom =>
      right
      refine ⟨.custom (customClone custom), rfl, ?_, rfl, ?_⟩
      · simp [customs, hcustom]
      · intro timeText message
        simp only [field, customs, hcustom, Option.map_some]
        exact hclone custom message
  | none =>
      have hnone : customs customFormat flagMap flag = none := by simp [customs, hcustom]
      obtain ⟨hhandle, hbuiltin⟩ | ⟨formatter, hhandle, hbuiltin, htime, hprint⟩ :=
        @handleFlag_cases γ customFormat flag (pushText text sequence)
      · left
        rw [hhandle, hnone, hbuiltin]
        exact ⟨rfl, rfl⟩
      · right
        refine ⟨formatter, ?_, ?_, htime, ?_⟩
        · rw [hhandle]
          rfl
        · rw [hnone, hbuiltin]
          rfl
        · intro timeText message
          rw [hprint, field, hnone]

/-- The loop refuses the patterns that are not accepted, and what it compiles of the others
prints the text that it has, followed by the interpretation of the rest. -/
theorem compileFrom_cases (hclone : ∀ flag message, customFormat (customClone flag) message = customFormat flag message)
    (hsequence : sequence.map (withTime {}) = sequence) (pattern : List UInt8) :
    (compileFrom customClone flagMap text sequence pattern = none ∧
      accepted (customs customFormat flagMap) pattern = false) ∨
    ∃ base, compileFrom customClone flagMap text sequence pattern = some base ∧
      accepted (customs customFormat flagMap) pattern = true ∧ base.map (withTime {}) = base ∧
      ∀ timeText message, printAll customFormat timeText message base =
        printAll customFormat timeText message sequence ++
          (text ++ interpretWith (customs customFormat flagMap) timeText message pattern) := by
  induction pattern using accepted.induct generalizing text sequence with
  | case1 =>
      right
      refine ⟨_, rfl, rfl, withTime_pushText hsequence, ?_⟩
      intro timeText message
      rw [printAll_pushText, interpretWith, List.append_nil]
  | case2 c =>
      by_cases hc : c = 37
      · left
        subst hc
        exact ⟨rfl, rfl⟩
      · right
        rw [compileFrom_literal hc]
        refine ⟨_, rfl, by simp [accepted, hc], withTime_pushText hsequence, ?_⟩
        intro timeText message
        rw [printAll_pushText, interpretWith]
  | case3 c flag rest hc ih =>
      rw [compileFrom_literal hc, accepted, if_pos hc]
      obtain hnone | ⟨base, hbase, haccepted, htime, hprint⟩ := @ih (text ++ [c]) sequence hsequence
      · exact .inl hnone
      · right
        refine ⟨base, hbase, haccepted, htime, ?_⟩
        intro timeText message
        rw [hprint, interpretWith, if_pos hc, List.append_assoc]
        rfl
  | case4 c flag rest hc ih =>
      obtain rfl : c = 37 := not_not.mp hc
      rw [accepted, if_neg hc]
      by_cases hflag : flag = 37
      · subst hflag
        rw [compileFrom_escape]
        obtain hnone | ⟨base, hbase, haccepted, htime, hprint⟩ := @ih (text ++ [37]) sequence hsequence
        · left
          exact ⟨hnone.1, by simp [hnone.2]⟩
        · right
          refine ⟨base, hbase, by simp [haccepted], htime, ?_⟩
          intro timeText message
          rw [hprint, interpretWith, if_neg hc, if_pos rfl, List.append_assoc]
          rfl
      · have hescape : (flag = 37 : Bool) = false := decide_eq_false hflag
        rw [hescape, Bool.false_or]
        obtain ⟨hnone, hrefused⟩ | ⟨formatter, hstep, hallowed, hstart, hfield⟩ :=
          @compileFrom_flag γ customFormat customClone flagMap text sequence hclone flag hflag rest
        · left
          exact ⟨hnone, by rw [hrefused, Bool.false_and]⟩
        · rw [hstep, hallowed, Bool.true_and]
          have hpushed : (pushText text sequence ++ [formatter]).map (withTime {}) =
              pushText text sequence ++ [formatter] := by
            rw [List.map_append, withTime_pushText hsequence, List.map_singleton, hstart]
          obtain hnone | ⟨base, hbase, haccepted, htime, hprint⟩ := @ih [] _ hpushed
          · exact .inl hnone
          · right
            refine ⟨base, hbase, haccepted, htime, ?_⟩
            intro timeText message
            rw [hprint, interpretWith, if_neg hc, if_neg hflag, printAll_append, printAll_pushText, printAll_singleton,
              hfield, List.nil_append, List.append_assoc, List.append_assoc]

end Compile

section Runs

variable (localtimeR : Int → Tm) (customFormat : γ → LogMessage → List UInt8) (customClone : γ → γ)

/-- The calls on a formatter that reads its pattern anew for every message. -/
def interpretRun (printed : UInt8 → Option (LogMessage → List UInt8)) (pattern : List UInt8) :
    List Call → List (List UInt8) × Except (List UInt8) (List UInt8)
  | [] => ([], .ok pattern)
  | .format message :: calls =>
      let (texts, last) := interpretRun printed pattern calls
      (interpret printed localtimeR message pattern :: texts, last)
  | .setPattern pattern :: calls =>
      if accepted printed pattern then interpretRun printed pattern calls else ([], .error (abortText pattern))

def observed (result : List (List UInt8) × Except (List UInt8) (LogFormatter γ)) :
    List (List UInt8) × Except (List UInt8) (List UInt8) := (result.1, result.2.map LogFormatter.pattern)

/-- A formatter with some custom flags, that is used, then cloned, and the two of them used alike. -/
structure Faithful (pattern : List UInt8) (flagMap : UInt8 → Option γ) (before after : List Call) : Prop where
  compiles : (({ pattern, flagMap } : LogFormatter γ).compilePattern customClone).1 =
    accepted (customs customFormat flagMap) pattern
  interprets : ∀ f, create customClone pattern flagMap = .ok f →
    observed (f.run localtimeR customFormat customClone before) =
      interpretRun localtimeR (customs customFormat flagMap) pattern before
  clones : ∀ f original, create customClone pattern flagMap = .ok f →
    (f.run localtimeR customFormat customClone before).2 = .ok original →
    ∃ copy, original.clone customClone = .ok copy ∧
      observed (original.run localtimeR customFormat customClone after) =
        interpretRun localtimeR (customs customFormat flagMap) original.pattern after ∧
      observed (copy.run localtimeR customFormat customClone after) =
        observed (original.run localtimeR customFormat customClone after)

/-- Whenever the time is asked for, `Dump` agrees with the buffer on it, and the second
that a new formatter has is not the first one. -/
def timely (printed : UInt8 → Option (LogMessage → List UInt8)) (pattern : List UInt8) (written : Bool) :
    List Call → Prop
  | [] => True
  | .format message :: calls =>
      (0 < timeCount printed pattern → Dumpable localtimeR message ∧ cachedAfter written message = true) ∧
        timely printed pattern (cachedAfter written message) calls
  | .setPattern pattern :: calls => accepted printed pattern = true → timely printed pattern false calls

/-- The sequence is that of the pattern, and its local times have come to `time`. -/
structure Compiled (printed : UInt8 → Option (LogMessage → List UInt8)) (time : LocalTimeFormatter)
    (f : LogFormatter γ) : Prop where
  flags : customs customFormat f.flagMap = printed
  accepts : accepted printed f.pattern = true
  sequence : ∃ base, f.formatSequence = base.map (withTime time) ∧
    ∀ timeText message, printAll customFormat timeText message base =
      interpretWith printed timeText message f.pattern

variable {localtimeR customFormat customClone} {printed : UInt8 → Option (LogMessage → List UInt8)}
  {time : LocalTimeFormatter} {written : Bool} {f : LogFormatter γ}

theorem compilePattern_cases
    (hclone : ∀ flag message, customFormat (customClone flag) message = customFormat flag message)
    (hflags : customs customFormat f.flagMap = printed) :
    (accepted printed f.pattern = false ∧ f.compilePattern customClone = (false, f)) ∨
    (accepted printed f.pattern = true ∧ ∃ f' : LogFormatter γ, f.compilePattern customClone = (true, f') ∧
      f'.pattern = f.pattern ∧ Compiled customFormat printed {} f') := by
  subst hflags
  obtain ⟨hnone, hrefused⟩ | ⟨base, hbase, haccepted, htime, hprint⟩ :=
    @compileFrom_cases γ customFormat customClone f.flagMap [] [] hclone rfl f.pattern
  · left
    exact ⟨hrefused, by rw [compilePattern, hnone]⟩
  · right
    refine ⟨haccepted, { f with formatSequence := base }, by rw [compilePattern, hbase], rfl, rfl, haccepted,
      base, ?_, ?_⟩
    · exact htime.symm
    · intro timeText message
      rw [hprint]
      rfl

theorem compilePatternOrAbort_cases
    (hclone : ∀ flag message, customFormat (customClone flag) message = customFormat flag message)
    (hflags : customs customFormat f.flagMap = printed) :
    (accepted printed f.pattern = false ∧ f.compilePatternOrAbort customClone = .error (abortText f.pattern)) ∨
    (accepted printed f.pattern = true ∧ ∃ f' : LogFormatter γ, f.compilePatternOrAbort customClone = .ok f' ∧
      f'.pattern = f.pattern ∧ Compiled customFormat printed {} f') := by
  obtain ⟨hrefused, hresult⟩ | ⟨haccepted, f', hresult, hpattern, hcompiled⟩ := compilePattern_cases hclone hflags
  · left
    exact ⟨hrefused, by rw [compilePatternOrAbort, hresult]⟩
  · right
    exact ⟨haccepted, f', by rw [compilePatternOrAbort, hresult], hpattern, hcompiled⟩

theorem format_withTime (message : LogMessage) (flag : FlagFormatter γ) :
    (withTime time flag).format customFormat localtimeR message =
      (withTime (time.format localtimeR message).1 flag,
        flag.print customFormat (time.format localtimeR message).2 message) := by
  cases flag <;> rfl

theorem format_pattern (message : LogMessage) : (f.format localtimeR customFormat message).1.pattern = f.pattern := rfl

theorem Compiled.format (h : Compiled customFormat printed time f) (message : LogMessage) :
    Compiled customFormat printed (time.format localtimeR message).1
        (f.format localtimeR customFormat message).1 ∧
      (f.format localtimeR customFormat message).2 =
        interpretWith printed (time.format localtimeR message).2 message f.pattern := by
  obtain ⟨hflags, haccepts, base, hbase, hprint⟩ := h
  constructor
  · refine ⟨hflags, haccepts, base, ?_, hprint⟩
    simp [LogFormatter.format, hbase, format_withTime, Function.comp_def]
  · rw [← hprint]
    simp [LogFormatter.format, hbase, format_withTime, printAll, List.flatMap_map]

theorem Compiled.text_iff (hrange : ∀ seconds, (localtimeR seconds).InRange)
    (h : Compiled customFormat printed time f) (hcached : Cached localtimeR written time) (message : LogMessage) :
    (f.format localtimeR customFormat message).2 = interpret printed localtimeR message f.pattern ↔
      (0 < timeCount printed f.pattern → Dumpable localtimeR message ∧ cachedAfter written message = true) := by
  rw [(h.format message).2, interpret, interpretWith_eq_iff, format_eq_dump_iff hrange hcached]

theorem run_observed_iff (hrange : ∀ seconds, (localtimeR seconds).InRange)
    (hclone : ∀ flag message, customFormat (customClone flag) message = customFormat flag message)
    (h : Compiled customFormat printed time f) (hcached : Cached localtimeR written time) (calls : List Call) :
    observed (f.run localtimeR customFormat customClone calls) = interpretRun localtimeR printed f.pattern calls ↔
      timely localtimeR printed f.pattern written calls := by
  induction calls generalizing f time written with
  | nil => exact iff_of_true rfl trivial
  | cons call calls ih =>
      cases call with
      | format message =>
          have hlater := ih (h.format message).1 (format_cached hcached message).1
          rw [format_pattern] at hlater
          rw [timely, ← h.text_iff hrange hcached message, ← hlater]
          simp only [run, interpretRun, observed, Prod.ext_iff, List.cons.injEq]
          exact and_assoc
      | setPattern pattern =>
          rw [timely, run, interpretRun, setPattern]
          obtain ⟨hrefused, hresult⟩ | ⟨haccepted, f', hresult, hpattern, hcompiled⟩ :=
            @compilePatternOrAbort_cases γ customFormat customClone printed { f with pattern } hclone h.flags
          · rw [hresult, hrefused]
            exact iff_of_true rfl (fun haccepted => nomatch haccepted)
          · subst hpattern
            rw [hresult, if_pos haccepted, forall_prop_of_true haccepted]
            exact ih hcompiled cached_new

theorem run_last (hclone : ∀ flag message, customFormat (customClone flag) message = customFormat flag message)
    (h : Compiled customFormat printed time f) (hcached : Cached localtimeR written time) (calls : List Call) :
    (f.run localtimeR customFormat customClone calls).2.map LogFormatter.pattern =
        (interpretRun localtimeR printed f.pattern calls).2 ∧
      ∀ last, (f.run localtimeR customFormat customClone calls).2 = .ok last →
        ∃ time written, Compiled customFormat printed time last ∧ Cached localtimeR written time := by
  induction calls generalizing f time written with
  | nil =>
      refine ⟨rfl, ?_⟩
      intro last hlast
      obtain rfl : f = last := Except.ok.inj hlast
      exact ⟨time, written, h, hcached⟩
  | cons call calls ih =>
      cases call with
      | format message => exact ih (h.format message).1 (format_cached hcached message).1
      | setPattern pattern =>
          rw [run, interpretRun, setPattern]
          obtain ⟨hrefused, hresult⟩ | ⟨haccepted, f', hresult, hpattern, hcompiled⟩ :=
            @compilePatternOrAbort_cases γ customFormat customClone printed { f with pattern } hclone h.flags
          · rw [hresult, hrefused]
            refine ⟨rfl, ?_⟩
            intro last hlast
            cases hlast
          · subst hpattern
            rw [hresult, if_pos haccepted]
            exact ih hcompiled cached_new

theorem timely_mono {pattern : List UInt8} {written' : Bool} (hwritten : written = true → written' = true)
    {calls : List Call} (h : timely localtimeR printed pattern written calls) :
    timely localtimeR printed pattern written' calls := by
  induction calls generalizing pattern written written' with
  | nil => trivial
  | cons call calls ih =>
      cases call with
      | format message =>
          have hafter : cachedAfter written message = true → cachedAfter written' message = true := by
            simp only [cachedAfter, Bool.or_eq_true]
            exact Or.imp_left hwritten
          refine ⟨?_, ih hafter h.2⟩
          intro htime
          exact (h.1 htime).imp_right hafter
      | setPattern pattern => exact h

theorem Compiled.clone
    (hclone : ∀ flag message, customFormat (customClone flag) message = customFormat flag message)
    (h : Compiled customFormat printed time f) :
    ∃ copy : LogFormatter γ, f.clone customClone = .ok copy ∧ copy.pattern = f.pattern ∧
      Compiled customFormat printed {} copy := by
  have hcloned : customs customFormat (fun flag => (f.flagMap flag).map customClone) = printed := by
    rw [← h.flags]
    funext flag
    simp only [customs, Option.map_map]
    congr 1
    funext custom message
    exact hclone custom message
  obtain ⟨hrefused, -⟩ | ⟨-, copy, hresult, hpattern, hcompiled⟩ :=
    @compilePatternOrAbort_cases γ customFormat customClone printed
      { pattern := f.pattern, flagMap := fun flag => (f.flagMap flag).map customClone } hclone hcloned
  · rw [h.accepts] at hrefused
    cases hrefused
  · exact ⟨copy, hresult, hpattern, hcompiled⟩

/-- The local times of a clone begin anew. -/
theorem Compiled.clones_iff (hrange : ∀ seconds, (localtimeR seconds).InRange)
    (hclone : ∀ flag message, customFormat (customClone flag) message = customFormat flag message)
    (h : Compiled customFormat printed time f) (hcached : Cached localtimeR written time) (calls : List Call) :
    (∃ copy, f.clone customClone = .ok copy ∧
      observed (f.run localtimeR customFormat customClone calls) = interpretRun localtimeR printed f.pattern calls ∧
      observed (copy.run localtimeR customFormat customClone calls) =
        observed (f.run localtimeR customFormat customClone calls)) ↔
      timely localtimeR printed f.pattern false calls := by
  obtain ⟨copy, hcopy, hpattern, hcloned⟩ := h.clone hclone
  have hcopied := run_observed_iff hrange hclone hcloned cached_new calls
  rw [hpattern] at hcopied
  rw [← hcopied]
  constructor
  · rintro ⟨copy', hcopy', hinterprets, hsame⟩
    rw [hcopy] at hcopy'
    obtain rfl : copy = copy' := Except.ok.inj hcopy'
    rw [hsame, hinterprets]
  · intro hinterprets
    have hnew : false = true → written = true := fun hfalse => nomatch hfalse
    have htimely := timely_mono hnew (hcopied.mp hinterprets)
    have horiginal := (run_observed_iff hrange hclone h hcached calls).mpr htimely
    exact ⟨copy, hcopy, horiginal, hinterprets.trans horiginal.symm⟩

/-- A formatter and its clone interpret their patterns, unless the time is asked for of a
message that `Dump` prints in another way, or first of one of the second that a new
formatter has. -/
theorem faithful_iff (hrange : ∀ seconds, (localtimeR seconds).InRange)
    (hclone : ∀ flag message, customFormat (customClone flag) message = customFormat flag message)
    (pattern : List UInt8) (flagMap : UInt8 → Option γ) (before after : List Call) :
    Faithful localtimeR customFormat customClone pattern flagMap before after ↔
      (accepted (customs customFormat flagMap) pattern = true →
        timely localtimeR (customs customFormat flagMap) pattern false before ∧
          ∀ last, (interpretRun localtimeR (customs customFormat flagMap) pattern before).2 = .ok last →
            timely localtimeR (customs customFormat flagMap) last false after) := by
  obtain ⟨hrefused, hresult⟩ | ⟨haccepted, f, hresult, hpattern, hcompiled⟩ :=
    @compilePattern_cases γ customFormat customClone (customs customFormat flagMap) { pattern, flagMap } hclone rfl
  · have hcreate : ∀ f, create customClone pattern flagMap ≠ .ok f := by
      intro f
      rw [create, compilePatternOrAbort, hresult]
      exact nofun
    constructor
    · intro _ haccepted
      rw [hrefused] at haccepted
      cases haccepted
    · intro _
      refine ⟨by rw [hresult, hrefused], ?_, ?_⟩
      · intro f hf
        exact absurd hf (hcreate f)
      · intro f original hf
        exact absurd hf (hcreate f)
  · have hcreate : create customClone pattern flagMap = .ok f := by
      rw [create, compilePatternOrAbort, hresult]
    obtain rfl : f.pattern = pattern := hpattern
    obtain ⟨hend, hlast⟩ :=
      @run_last γ localtimeR customFormat customClone _ _ false f hclone hcompiled cached_new before
    have hbefore := run_observed_iff hrange hclone hcompiled cached_new before
    constructor
    · intro h _
      refine ⟨hbefore.mp (h.interprets f hcreate), ?_⟩
      intro last hinterpreted
      rw [hinterpreted] at hend
      cases horiginal : (f.run localtimeR customFormat customClone before).2 with
      | error text =>
          rw [horiginal] at hend
          cases hend
      | ok original =>
          rw [horiginal] at hend
          obtain rfl : original.pattern = last := Except.ok.inj hend
          obtain ⟨time, written, hcurrent, hcached⟩ := hlast original horiginal
          exact (hcurrent.clones_iff hrange hclone hcached after).mp (h.clones f original hcreate horiginal)
    · intro h
      obtain ⟨hfirst, hlater⟩ := h haccepted
      refine ⟨by rw [hresult, haccepted], ?_, ?_⟩
      · intro f' hf
        rw [hcreate] at hf
        obtain rfl : f = f' := Except.ok.inj hf
        exact hbefore.mpr hfirst
      · intro f' original hf horiginal
        rw [hcreate] at hf
        obtain rfl : f = f' := Except.ok.inj hf
        obtain ⟨time, written, hcurrent, hcached⟩ := hlast original horiginal
        rw [horiginal] at hend
        exact (hcurrent.clones_iff hrange hclone hcached after).mpr (hlater original.pattern hend.symm)

end Runs

/-- A custom flag `%g`, and a clone that no longer asks for the time. -/
theorem faithful_iff_custom :
    Faithful gregorianTm (fun text _ => text) id (ascii "%g %T")
      (fun flag => if flag = 103 then some (ascii "G Flag") else none)
      [.format { logTime := 5250000000 }] [.setPattern (ascii "%N %g %n"), .format {}] := by
  apply (faithful_iff (fun seconds => (gregorian_representable seconds).inRange) (fun _ _ => rfl) _ _ _ _).mpr
  intro _
  constructor
  · refine ⟨?_, trivial⟩
    intro _
    exact ⟨⟨by decide, by decide, by decide⟩, rfl⟩
  · intro last _ _
    refine ⟨?_, trivial⟩
    intro htime
    exact absurd htime (by decide)

/-- For a message of the epoch a clone prints the placeholder, and its original the time. -/
theorem clone_prints_placeholder :
    ¬ ∀ (localtimeR : Int → Tm) (customFormat : List UInt8 → LogMessage → List UInt8)
        (customClone : List UInt8 → List UInt8) (pattern : List UInt8) (flagMap : UInt8 → Option (List UInt8))
        (before after : List Call),
      (∀ seconds, (localtimeR seconds).InRange) →
      (∀ flag message, customFormat (customClone flag) message = customFormat flag message) →
      Faithful localtimeR customFormat customClone pattern flagMap before after := by
  intro h
  have hfaithful := h gregorianTm (fun text _ => text) id (ascii "%T") (fun _ => none)
    [.format { logTime := 5000000000 }] [.format {}]
    (fun seconds => (gregorian_representable seconds).inRange) (fun _ _ => rfl)
  obtain ⟨copy, hcopy, -, hsame⟩ := hfaithful.clones _ _ rfl rfl
  cases hcopy
  exact absurd hsame (by decide)

end LogFormatter

end Libcold
