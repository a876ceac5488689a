import Libcold.LogDelivery

namespace Libcold

open Runs Time

variable {Thread SinkId γ : Type}

namespace LogSystem

section Flush

variable [DecidableEq SinkId]
variable {localtimeR : Int → Tm} {customFormat : γ → LogMessage → List UInt8} {customClone : γ → γ}
variable {mainLogger : Logger SinkId} {kind : SinkId → SinkKind} {formatters : SinkId → LogFormatter γ}

/-- What is out of the buffer of a stream is a part of it, and stays out. -/
structure Advances (s s' : LogSystem Thread SinkId γ) : Prop where
  flushed : ∀ st, s.flushed st ≤ s'.flushed st
  within : ∀ st, s'.flushed st ≤ (s'.text st).length
  grows : ∀ st, (s.text st).length ≤ (s'.text st).length

omit [DecidableEq SinkId] in
theorem Advances.refl {s : LogSystem Thread SinkId γ} (h : ∀ st, s.flushed st ≤ (s.text st).length) : Advances s s :=
  ⟨fun _ => le_rfl, h, fun _ => le_rfl⟩

theorem advances_fflush {s : LogSystem Thread SinkId γ} (h : ∀ st, s.flushed st ≤ (s.text st).length)
    (target : Option (Stream SinkId)) : Advances s (s.fflush target) := by
  cases target with
  | none => exact ⟨h, fun _ => le_rfl, fun _ => le_rfl⟩
  | some stream =>
      constructor
      · intro st
        by_cases hst : st = stream
        · subst hst
          simpa [fflush] using h st
        · simp [fflush, hst]
      · intro st
        by_cases hst : st = stream
        · subst hst
          simp [fflush]
        · simpa [fflush, hst] using h st
      · exact fun _ => le_rfl

theorem advances_doFlush {s : LogSystem Thread SinkId γ} (h : ∀ st, s.flushed st ≤ (s.text st).length) (i : SinkId) :
    Advances s (s.doFlush kind i) := by
  unfold doFlush
  split
  · exact .refl h
  · exact advances_fflush h _
  · exact advances_fflush h _
  · exact advances_fflush h _

theorem advances_flushElapsed {s : LogSystem Thread SinkId γ} (h : ∀ st, s.flushed st ≤ (s.text st).length)
    (i : SinkId) (message : LogMessage) : Advances s (s.flushElapsed kind i message) := by
  unfold flushElapsed
  split
  · exact advances_doFlush h i
  · split
    · obtain ⟨hflushed, hwithin, hgrows⟩ := @advances_doFlush _ _ _ _ kind s h i
      exact ⟨hflushed, hwithin, hgrows⟩
    · exact .refl h
  · exact .refl h
  · exact .refl h

theorem advances_apply {s : LogSystem Thread SinkId γ} (h : ∀ st, s.flushed st ≤ (s.text st).length) (t : Thread)
    (effect : LogEffect SinkId) : Advances s (s.apply localtimeR customFormat customClone kind t effect) := by
  cases effect with
  | write i message buffer =>
      simp only [apply]
      split
      · exact .refl h
      · rename_i stream _
        have hgrows (st : Stream SinkId) : (s.text st).length ≤ ((s.fwrite stream buffer).text st).length := by
          by_cases hst : st = stream
          · subst hst
            simp [fwrite]
          · simp [fwrite, hst]
        exact ⟨fun _ => le_rfl, fun st => (h st).trans (hgrows st), hgrows⟩
  | flushElapsed i message => exact advances_flushElapsed h i message
  | flush i => exact advances_doFlush h i
  | setPattern i pattern =>
      simp only [apply]
      split <;> exact ⟨fun _ => le_rfl, h, fun _ => le_rfl⟩
  | _ => exact ⟨fun _ => le_rfl, h, fun _ => le_rfl⟩

/-- All that was in the stream of a sink before is out of its buffer. -/
def Covered (kind : SinkId → SinkKind) (text : Stream SinkId → List UInt8) (flushed : Stream SinkId → Nat)
    (i : SinkId) : Prop :=
  ∀ st, Writes kind i → stream kind i = some st → (text st).length ≤ flushed st

omit [DecidableEq SinkId] in
theorem Covered.mono {text : Stream SinkId → List UInt8} {flushed flushed' : Stream SinkId → Nat} {i : SinkId}
    (h : Covered kind text flushed i) (hle : ∀ st, flushed st ≤ flushed' st) : Covered kind text flushed' i :=
  fun st hwrites hst => (h st hwrites hst).trans (hle st)

/-- `DoFlush` of a sink that writes lines brings out all that is in its stream. -/
theorem covered_flush {text : Stream SinkId → List UInt8} {s : LogSystem Thread SinkId γ} {i : SinkId}
    (htext : ∀ st, (text st).length ≤ (s.text st).length) : Covered kind text (s.doFlush kind i).flushed i := by
  intro st hwrites hst
  rcases hwrites with hkind | hkind <;>
    simp only [stream, hkind, Option.some.injEq] at hst <;> subst hst <;> simpa [doFlush, hkind, fflush] using htext _

variable [DecidableEq Thread]

theorem Step.advances {s s' : LogSystem Thread SinkId γ} {event : Option (Thread × LogEffect SinkId)}
    (h : Step localtimeR customFormat customClone mainLogger kind s event s')
    (hs : ∀ st, s.flushed st ≤ (s.text st).length) : Advances s s' := by
  cases h with
  | thread t effect frames =>
      obtain ⟨hflushed, hwithin, hgrows⟩ :=
        @advances_apply _ _ _ _ localtimeR customFormat customClone kind s hs t effect
      exact ⟨hflushed, hwithin, hgrows⟩
  | drain stream n hrunning hfrom hto =>
      constructor
      · intro st
        by_cases hst : st = stream
        · subst hst
          simpa using hfrom
        · simp [hst]
      · intro st
        by_cases hst : st = stream
        · subst hst
          simpa using hto
        · simpa [hst] using hs st
      · exact fun _ => le_rfl

theorem flushed_le {trace : List (Option (Thread × LogEffect SinkId))} {s : LogSystem Thread SinkId γ}
    (h : Run (Step localtimeR customFormat customClone mainLogger kind) (initial formatters) trace s)
    (st : Stream SinkId) : s.flushed st ≤ (s.text st).length := by
  induction h generalizing st with
  | stop => exact Nat.zero_le _
  | next _ taken ih => exact (taken.advances ih).within st

/-- How far a thread is in the `Flush` of a call, which began when the streams were `text`. -/
inductive Flushing (kind : SinkId → SinkKind) (logger : Logger SinkId) (message : LogMessage)
    (text : Stream SinkId → List UInt8) (flushed : Stream SinkId → Nat) : List (LogFrame SinkId) → Prop
  | before : Flushing kind logger message text flushed [.sinking logger message []]
  | loop (rest) (h : ∀ i ∈ logger.loggerSinks, i ∉ rest → Covered kind text flushed i) :
      Flushing kind logger message text flushed [.flushing message rest]
  | inside (i rest) (h : ∀ j ∈ logger.loggerSinks, j ∉ i :: rest → Covered kind text flushed j) :
      Flushing kind logger message text flushed [.doFlush i, .flushing message rest]
  | leaving (i rest) (h : ∀ j ∈ logger.loggerSinks, j ∉ rest → Covered kind text flushed j) :
      Flushing kind logger message text flushed [.unlock i, .flushing message rest]
  | done (frames) (h : ∀ i ∈ logger.loggerSinks, Covered kind text flushed i) :
      Flushing kind logger message text flushed frames

omit [DecidableEq SinkId] [DecidableEq Thread] in
theorem Flushing.mono {logger : Logger SinkId} {message : LogMessage} {text : Stream SinkId → List UInt8}
    {flushed flushed' : Stream SinkId → Nat} {frames : List (LogFrame SinkId)}
    (h : Flushing kind logger message text flushed frames) (hle : ∀ st, flushed st ≤ flushed' st) :
    Flushing kind logger message text flushed' frames := by
  cases h with
  | before => exact .before
  | loop rest h => exact .loop rest fun i hi hrest => (h i hi hrest).mono hle
  | inside i rest h => exact .inside i rest fun j hj hrest => (h j hj hrest).mono hle
  | leaving i rest h => exact .leaving i rest fun j hj hrest => (h j hj hrest).mono hle
  | done frames h => exact .done frames fun i hi => (h i hi).mono hle

omit [DecidableEq Thread] in
theorem Flushing.step {logger : Logger SinkId} {message : LogMessage} {text : Stream SinkId → List UInt8}
    {s : LogSystem Thread SinkId γ} {t : Thread} {frames frames' : List (LogFrame SinkId)}
    {effect : LogEffect SinkId} (hflush : logger.shouldFlush message = true)
    (htext : ∀ st, (text st).length ≤ (s.text st).length) (hs : ∀ st, s.flushed st ≤ (s.text st).length)
    (h : Flushing kind logger message text s.flushed frames) (hlocal : Local mainLogger kind frames effect frames') :
    Flushing kind logger message text (s.apply localtimeR customFormat customClone kind t effect).flushed frames' := by
  have hle : ∀ st, s.flushed st ≤ (s.apply localtimeR customFormat customClone kind t effect).flushed st :=
    (advances_apply hs t effect).flushed
  cases h with
  | done frames h => exact .done _ fun i hi => (h i hi).mono hle
  | before =>
      cases hlocal with
      | sunk =>
          rw [if_pos hflush]
          exact .loop _ fun i hi hrest => absurd hi hrest
  | loop rest h =>
      cases hlocal with
      | flush _ i rest => exact .inside i rest fun j hj hrest => (h j hj hrest).mono hle
      | returns => exact .done _ fun i hi => (h i hi List.not_mem_nil).mono hle
      | abort => exact .loop _ fun i hi hrest => (h i hi hrest).mono hle
  | inside i rest h =>
      cases hlocal with
      | doFlush =>
          refine .leaving i rest fun j hj hrest => ?_
          by_cases hji : j = i
          · subst hji
            exact covered_flush htext
          · refine (h j hj ?_).mono hle
            simp [hji, hrest]
  | leaving i rest h =>
      cases hlocal with
      | unlock => exact .loop rest fun j hj hrest => (h j hj hrest).mono hle

omit [DecidableEq SinkId] [DecidableEq Thread] in
theorem Flushing.covered {logger : Logger SinkId} {message : LogMessage} {text : Stream SinkId → List UInt8}
    {flushed : Stream SinkId → Nat} {frames : List (LogFrame SinkId)}
    (h : Flushing kind logger message text flushed frames)
    (hend : frames = [] ∨ frames = [.flushing message []]) {i : SinkId} (hi : i ∈ logger.loggerSinks) :
    Covered kind text flushed i := by
  cases h with
  | before => simp at hend
  | loop rest h =>
      obtain rfl : rest = [] := by simpa using hend
      exact h i hi List.not_mem_nil
  | inside => simp at hend
  | leaving => simp at hend
  | done _ h => exact h i hi

omit [DecidableEq SinkId] [DecidableEq Thread] in
theorem effects_append (first second : List (Option (Thread × LogEffect SinkId))) :
    effects (first ++ second) = effects first ++ effects second := by
  simp [effects]

omit [DecidableEq SinkId] in
theorem mem_effects {t : Thread} {trace : List (Option (Thread × LogEffect SinkId))} {effect : LogEffect SinkId}
    (h : effect ∈ threadEffects t trace) : effect ∈ effects trace := by
  obtain ⟨event, hevent, heffect⟩ := List.mem_filterMap.mp h
  refine List.mem_filterMap.mpr ⟨event, hevent, ?_⟩
  cases event with
  | none => cases heffect
  | some event =>
      simp only [Option.bind_some, Option.ite_none_right_eq_some] at heffect
      simpa using heffect.2

/-- A thread that has nothing in its calls for a sink has had a line written there for
each of its messages. -/
theorem line_of_call {t : Thread} {logger : Logger SinkId} {message : LogMessage}
    {trace : List (Option (Thread × LogEffect SinkId))} {s : LogSystem Thread SinkId γ} {i : SinkId}
    (h : Run (Step localtimeR customFormat customClone mainLogger kind) (initial formatters) trace s)
    (hcall : some (t, .call logger message) ∈ trace) (hi : i ∈ logger.accepted message) (hkind : Writes kind i)
    (howed : owed (s.frames t) = [])
    (hpending : (s.frames t).flatMap (@messagePassage _ mainLogger kind _ i hkind).pending = []) :
    ∃ buffer, (message, buffer) ∈ (effects trace).flatMap (linesAt i) := by
  have hcalled : (i, message) ∈ (threadEffects t trace).flatMap calledBy := by
    refine List.mem_flatMap.mpr ⟨.call logger message, ?_, List.mem_map.mpr ⟨i, hi, rfl⟩⟩
    exact List.mem_filterMap.mpr ⟨_, hcall, by simp⟩
  rw [thread_order h t, howed, List.append_nil] at hcalled
  obtain ⟨effect, heffect, hsunk⟩ := List.mem_flatMap.mp hcalled
  have harrived : message ∈ (threadEffects t trace).flatMap (@messagePassage _ mainLogger kind _ i hkind).arrives := by
    refine List.mem_flatMap.mpr ⟨effect, heffect, ?_⟩
    cases effect with
    | sink j message' depth =>
        cases depth with
        | zero =>
            obtain ⟨rfl, rfl⟩ : i = j ∧ message = message' := by simpa [sunkBy] using hsunk
            simp [messagePassage]
        | succ => cases hsunk
    | _ => cases hsunk
  have hbalanced := (@messagePassage _ mainLogger kind _ i hkind).thread_balanced h t
  rw [hpending, List.append_nil] at hbalanced
  obtain ⟨effect, heffect, hwritten⟩ := List.mem_flatMap.mp (hbalanced.mem_iff.mp harrived)
  cases effect with
  | write j message' buffer =>
      simp only [messagePassage, List.mem_ite_nil_right, List.mem_singleton] at hwritten
      obtain ⟨rfl, rfl⟩ := hwritten
      exact ⟨buffer, List.mem_flatMap.mpr ⟨_, mem_effects heffect, by simp [linesAt]⟩⟩
  | _ => cases hwritten

theorem text_grows {first second : List (Option (Thread × LogEffect SinkId))} {mid s : LogSystem Thread SinkId γ}
    (hfirst : Run (Step localtimeR customFormat customClone mainLogger kind) (initial formatters) first mid)
    (hsecond : Run (Step localtimeR customFormat customClone mainLogger kind) mid second s) (st : Stream SinkId) :
    mid.text st <+: s.text st := by
  rw [text_eq hfirst, text_eq (hfirst.append hsecond), effects_append, List.flatMap_append]
  exact List.prefix_append _ _

/-- When a call that flushes has come through its sinks and then returns or is about to
abort, its line is out of the buffer of every stream that it was written to, with all
that was in front of it. -/
theorem flushed_before_return {t : Thread} {logger : Logger SinkId} {message : LogMessage}
    {before middle after : List (Option (Thread × LogEffect SinkId))} {mid s : LogSystem Thread SinkId γ}
    (hrun : Run (Step localtimeR customFormat customClone mainLogger kind) (initial formatters)
      (before ++ some (t, .call logger message) :: middle) mid)
    (hmid : mid.frames t = [.sinking logger message []]) (hflush : logger.shouldFlush message = true)
    (hafter : Run (Step localtimeR customFormat customClone mainLogger kind) mid after s)
    (hend : s.frames t = [] ∨ s.frames t = [.flushing message []]) {i : SinkId}
    (hi : i ∈ logger.accepted message) (hkind : Writes kind i) {st : Stream SinkId} (hst : stream kind i = some st) :
    (∃ buffer, (message, buffer) ∈
        (effects (before ++ some (t, .call logger message) :: middle)).flatMap (linesAt i)) ∧
      mid.text st <+: (s.text st).take (s.flushed st) := by
  constructor
  · exact line_of_call hrun (List.mem_append_right _ List.mem_cons_self) hi hkind (by rw [hmid]; rfl)
        (by rw [hmid]; rfl)
  · have hsinks : i ∈ logger.loggerSinks := by
      unfold Logger.accepted at hi
      split at hi
      · exact hi
      · cases hi
    suffices hflushing : Flushing kind logger message mid.text s.flushed (s.frames t) by
      rw [List.prefix_take_iff]
      exact ⟨text_grows hrun hafter st, hflushing.covered hend hsinks st hkind hst⟩
    clear hend
    induction hafter with
    | stop =>
        rw [hmid]
        exact .before
    | next run taken ih =>
        have hs := flushed_le (hrun.append run)
        have htext (st : Stream SinkId) := (text_grows hrun run st).length_le
        have hle := (taken.advances hs).flushed
        cases taken with
        | drain stream n => exact ih.mono hle
        | thread t' effect frames hrunning hlocal =>
            by_cases htt : t = t'
            · subst htt
              simp only [setFrames, Function.update_self]
              exact ih.step hflush htext hs hlocal
            · have hmono := ih.mono hle
              simpa [setFrames, htt, apply_frames] using hmono

def flushingLogger : Logger Unit := { helloLogger with flushLevel := .info }

/-- The line is written by its own `fwrite`, and the call then flushes. -/
theorem flushing_run : ∃ mid s : LogSystem Unit Unit Unit,
    Run (Step gregorianTm (fun _ _ => []) id helloLogger fun _ => .stdout) (initial fun _ => helloFormatter)
      ([] ++ some ((), .call flushingLogger helloMessage) ::
        [some ((), .silent), some ((), .sink () helloMessage 0), some ((), .format () helloMessage (ascii "hi\n")),
          some ((), .write () helloMessage (ascii "hi\n")), some ((), .flushElapsed () helloMessage),
          some ((), .unlock ())]) mid ∧
      mid.frames () = [.sinking flushingLogger helloMessage []] ∧
      Run (Step gregorianTm (fun _ _ => []) id helloLogger fun _ => .stdout) mid
        [some ((), .silent), some ((), .lock ()), some ((), .flush ()), some ((), .unlock ()), some ((), .returns)] s ∧
      s.frames () = [] := by
  simp only [List.nil_append, run_cons_iff, run_nil_iff]
  refine ⟨_, _, ⟨_, .thread _ _ _ _ rfl (.call _ _) trivial, _, .thread _ _ _ _ rfl (.enter _ _ _ (by decide)) trivial,
    _, .thread _ _ _ _ rfl (.sink _ _ _ _ _) rfl, _, .thread _ _ _ _ rfl (.format _ _ _ _ (.inl rfl)) ?_,
    _, .thread _ _ _ _ rfl (.write _ _ _ _) trivial, _, .thread _ _ _ _ rfl (.flushElapsed _ _ _) trivial,
    _, .thread _ _ _ _ rfl (.unlock _ _) trivial, rfl⟩, rfl, ⟨_, .thread _ _ _ _ rfl (.sunk _ _ _) trivial,
    _, .thread _ _ _ _ rfl (.flush _ _ _ _) rfl, _, .thread _ _ _ _ rfl (.doFlush _ _) trivial,
    _, .thread _ _ _ _ rfl (.unlock _ _) trivial, _, .thread _ _ _ _ rfl (.returns _ _ (by decide)) trivial, rfl⟩, ?_⟩
  · rfl
  · rfl

theorem flushed_before_return_hello : ∃ mid s : LogSystem Unit Unit Unit,
    mid.text .stdout <+: (s.text .stdout).take (s.flushed .stdout) := by
  obtain ⟨mid, s, hrun, hmid, hafter, hend⟩ := flushing_run
  have haccepted : () ∈ flushingLogger.accepted helloMessage := by
    simp [flushingLogger, helloLogger, helloMessage, Logger.accepted, LogLevel.index]
  exact ⟨mid, s, (flushed_before_return hrun hmid (by decide) hafter (.inl hend) haccepted (.inl rfl) rfl).2⟩

end Flush

section Config

def tolower (c : UInt8) : UInt8 :=
  if 65 ≤ c ∧ c ≤ 90 then c + 32 else c

/-- The comparison of two C strings without regard to case; what is behind a NUL or the
end is not looked at. -/
def strcasecmp : List UInt8 → List UInt8 → Int
  | [], [] => 0
  | [], d :: _ => -(tolower d).toNat
  | c :: _, [] => (tolower c).toNat
  | c :: a, d :: b =>
      if c = 0 ∨ tolower c ≠ tolower d then (tolower c).toNat - (tolower d).toNat else strcasecmp a b

def levelNames : List (List UInt8 × LogLevel) :=
  [(ascii "trace", .trace), (ascii "debug", .debug), (ascii "info", .info), (ascii "warn", .warn),
    (ascii "error", .error), (ascii "fatal", .fatal), (ascii "off", .off)]

/-- The loop over the names of the levels. -/
def setLevels (level flushLevel : List UInt8) (logger : Logger SinkId) : Logger SinkId :=
  levelNames.foldl (fun logger (name, value) =>
    let logger := if strcasecmp level name = 0 then { logger with loggerLevel := value } else logger
    if strcasecmp flushLevel name ≠ 0 then { logger with flushLevel := value } else logger) logger

theorem setLevels_sinks (level flushLevel : List UInt8) (logger : Logger SinkId) :
    (setLevels level flushLevel logger).loggerSinks = logger.loggerSinks := by
  unfold setLevels
  induction levelNames generalizing logger with
  | nil => rfl
  | cons name names ih =>
      rw [List.foldl_cons, ih]
      dsimp only
      split <;> split <;> rfl

variable [DecidableEq Thread] [DecidableEq SinkId]
variable {localtimeR : Int → Tm} {customFormat : γ → LogMessage → List UInt8} {customClone : γ → γ}
variable {mainLogger : Logger SinkId} {kind : SinkId → SinkKind} {formatters : SinkId → LogFormatter γ}
variable {trace : List (Option (Thread × LogEffect SinkId))} {s : LogSystem Thread SinkId γ}

/-- The length of a file, how much of it is out of the buffer, and the time of the line
that has last brought it out. -/
structure FileState where
  length : Nat := 0
  flushed : Nat := 0
  lastFlushTime : Int := 0

/-- A line, which brings all out if it is late enough. -/
def FileState.line (file : FileState) (line : LogMessage × List UInt8) : FileState :=
  let length := file.length + line.2.length
  if kFlushInterval < line.1.logTime - file.lastFlushTime then ⟨length, length, line.1.logTime⟩
  else { file with length }

def lookedAt (i : SinkId) : LogEffect SinkId → List LogMessage
  | .flushElapsed j message => if j = i then [message] else []
  | _ => []

omit [DecidableEq Thread] in
theorem apply_file {s : LogSystem Thread SinkId γ} {t : Thread} {effect : LogEffect SinkId} {i : SinkId}
    (hflush : ∀ j, effect ≠ .flush j) (hi : lookedAt i effect = []) :
    (s.apply localtimeR customFormat customClone kind t effect).flushed (.file i) = s.flushed (.file i) ∧
      ((s.apply localtimeR customFormat customClone kind t effect).sinks i).lastFlushTime =
        (s.sinks i).lastFlushTime := by
  have hset (j : SinkId) (sink : LogSink Thread γ) (hsink : sink.lastFlushTime = (s.sinks j).lastFlushTime) :
      ((s.setSink j sink).sinks i).lastFlushTime = (s.sinks i).lastFlushTime := by
    by_cases hij : i = j
    · subst hij
      simpa [setSink] using hsink
    · simp [setSink, hij]
  cases effect with
  | flush j => exact absurd rfl (hflush j)
  | sink j | lock j | unlock j | format j => exact ⟨rfl, hset j _ rfl⟩
  | write j message buffer =>
      simp only [apply]
      split <;> exact ⟨rfl, rfl⟩
  | setPattern j pattern =>
      simp only [apply]
      split
      · exact ⟨rfl, hset j _ rfl⟩
      · exact ⟨rfl, rfl⟩
  | flushElapsed j message =>
      have hij : j ≠ i := by
        intro hij
        simp [lookedAt, hij] at hi
      simp only [apply, flushElapsed]
      split
      · rename_i hkind
        simp [doFlush, hkind, fflush]
      · rename_i hkind
        split
        · simp [doFlush, hkind, fflush, setSink, Ne.symm hij]
        · exact ⟨rfl, rfl⟩
      · exact ⟨rfl, rfl⟩
      · exact ⟨rfl, rfl⟩
  | call | callSetPattern | silent | nested | returns | abort => exact ⟨rfl, rfl⟩

theorem FileState.length_line (file : FileState) (line : LogMessage × List UInt8) :
    (file.line line).length = file.length + line.2.length := by
  simp only [FileState.line]
  split <;> rfl

/-- The state of a file sink is that of its lines so far, but for one whose time is still
to be looked at. -/
def AtLine (i : SinkId) (lines : List (LogMessage × List UInt8)) (looks : Nat) (s : LogSystem Thread SinkId γ) :
    Prop :=
  let file := (lines.take looks).foldl FileState.line {}
  s.flushed (.file i) = file.flushed ∧ (s.sinks i).lastFlushTime = file.lastFlushTime ∧
    (s.text (.file i)).length = (lines.foldl FileState.line {}).length

omit [DecidableEq Thread] in
theorem AtLine.quiet {i : SinkId} {lines : List (LogMessage × List UInt8)} {looks : Nat} (h : AtLine i lines looks s)
    {t : Thread} {effect : LogEffect SinkId} (hflush : ∀ j, effect ≠ .flush j) (hlook : lookedAt i effect = [])
    (hprinted : printedOn kind (.file i) effect = []) :
    AtLine i lines looks (s.apply localtimeR customFormat customClone kind t effect) := by
  obtain ⟨hflushed, hlast⟩ :=
    @apply_file _ _ _ _ localtimeR customFormat customClone kind s t effect i hflush hlook
  refine ⟨hflushed.trans h.1, hlast.trans h.2.1, ?_⟩
  rw [apply_text, hprinted, List.append_nil]
  exact h.2.2

omit [DecidableEq Thread] in
theorem AtLine.write {i : SinkId} {lines : List (LogMessage × List UInt8)} {looks : Nat} (h : AtLine i lines looks s)
    (hkind : kind i = .file true) (hle : looks ≤ lines.length) (t : Thread) (message : LogMessage)
    (buffer : List UInt8) :
    AtLine i (lines ++ [(message, buffer)]) looks
      (s.apply localtimeR customFormat customClone kind t (.write i message buffer)) := by
  obtain ⟨hflushed, hlast⟩ :=
    @apply_file _ _ _ _ localtimeR customFormat customClone kind s t (.write i message buffer) i (fun _ => nofun) rfl
  refine ⟨?_, ?_, ?_⟩
  · rw [List.take_append_of_le_length hle, hflushed]
    exact h.1
  · rw [List.take_append_of_le_length hle, hlast]
    exact h.2.1
  · have hprinted : printedOn kind (.file i) (.write i message buffer) = buffer := by simp [printedOn, stream, hkind]
    rw [apply_text, hprinted, List.length_append, h.2.2, List.foldl_append, List.foldl_cons, List.foldl_nil,
      FileState.length_line]

end Config

end LogSystem

end Libcold
