import Libcold.Logger

namespace Libcold

open Runs Time LogPattern LocalTimeFormatter
open scoped List

variable {Thread SinkId γ : Type}

namespace LogFormatter

variable {localtimeR : Int → Tm} {customFormat : γ → LogMessage → List UInt8} {customClone : γ → γ}

end LogFormatter

namespace LogSystem

section Lines

variable [DecidableEq SinkId]

/-- The lines that a sink has written, with their messages. -/
def linesAt (i : SinkId) : LogEffect SinkId → List (LogMessage × List UInt8)
  | .write j message buffer => if j = i then [(message, buffer)] else []
  | _ => []

def printedOn (kind : SinkId → SinkKind) (st : Stream SinkId) : LogEffect SinkId → List UInt8
  | .write j _ buffer => if stream kind j = some st then buffer else []
  | _ => []

variable {localtimeR : Int → Tm} {customFormat : γ → LogMessage → List UInt8} {customClone : γ → γ}
variable {mainLogger : Logger SinkId} {kind : SinkId → SinkKind} {formatters : SinkId → LogFormatter γ}
variable {trace : List (Option (Thread × LogEffect SinkId))} {s : LogSystem Thread SinkId γ}

omit [DecidableEq SinkId] in
theorem effects_snoc (trace : List (Option (Thread × LogEffect SinkId))) (t : Thread) (effect : LogEffect SinkId) :
    effects (trace ++ [some (t, effect)]) = effects trace ++ [effect] := by
  simp [effects]

omit [DecidableEq SinkId] in
theorem effects_drain (trace : List (Option (Thread × LogEffect SinkId))) :
    effects (trace ++ [none]) = effects trace := by
  simp [effects]

theorem doFlush_text (s : LogSystem Thread SinkId γ) (i : SinkId) : (s.doFlush kind i).text = s.text := by
  unfold doFlush
  split <;> rfl

theorem flushElapsed_text (s : LogSystem Thread SinkId γ) (i : SinkId) (message : LogMessage) :
    (s.flushElapsed kind i message).text = s.text := by
  unfold flushElapsed
  split
  · exact doFlush_text s i
  · split
    · exact doFlush_text s i
    · rfl
  · rfl
  · rfl

theorem apply_text (s : LogSystem Thread SinkId γ) (t : Thread) (effect : LogEffect SinkId) (st : Stream SinkId) :
    (s.apply localtimeR customFormat customClone kind t effect).text st = s.text st ++ printedOn kind st effect := by
  cases effect with
  | write i message buffer =>
      simp only [apply, printedOn]
      cases hstream : stream kind i with
      | none => simp
      | some st' =>
          by_cases hst : st' = st
          · subst hst
            simp [fwrite]
          · simp [fwrite, hst, Ne.symm hst]
  | flushElapsed i message => simp [apply, printedOn, flushElapsed_text]
  | flush i => simp [apply, printedOn, doFlush_text]
  | setPattern i pattern =>
      simp only [apply, printedOn, List.append_nil]
      split <;> rfl
  | _ => simp [apply, printedOn, setSink]

variable [DecidableEq Thread]

/-- A stream is the lines that were written to it, one after the other. -/
theorem text_eq (h : Run (Step localtimeR customFormat customClone mainLogger kind) (initial formatters) trace s)
    (st : Stream SinkId) : s.text st = (effects trace).flatMap (printedOn kind st) := by
  induction h with
  | stop => rfl
  | next _ taken ih =>
      cases taken with
      | thread t effect frames =>
          rw [effects_snoc, List.flatMap_append, List.flatMap_singleton, ← ih]
          exact apply_text _ _ _ _
      | drain => rwa [effects_drain]

/-- One thread logs one message to a stdout sink. -/
def helloMessage : LogMessage := { level := .info, logLine := ascii "hi" }

def helloLogger : Logger Unit := { loggerSinks := [()] }

def helloFormatter : LogFormatter Unit :=
  { pattern := ascii "%c%n", formatSequence := [.logLine, .newLine], flagMap := fun _ => none }

def helloTrace : List (Option (Unit × LogEffect Unit)) :=
  [.call helloLogger helloMessage, .silent, .sink () helloMessage 0, .format () helloMessage (ascii "hi\n"),
    .write () helloMessage (ascii "hi\n"), .flushElapsed () helloMessage, .unlock ()].map fun effect =>
      some ((), effect)

theorem hello_run : ∃ s : LogSystem Unit Unit Unit,
    Run (Step gregorianTm (fun _ _ => []) id helloLogger fun _ => .stdout) (initial fun _ => helloFormatter)
      helloTrace s ∧ (s.sinks ()).mutex = none := by
  simp only [helloTrace, List.map_cons, List.map_nil, run_cons_iff, run_nil_iff]
  refine ⟨_, ⟨_, .thread _ _ _ _ rfl (.call _ _) trivial, _, .thread _ _ _ _ rfl (.enter _ _ _ nofun) trivial,
    _, .thread _ _ _ _ rfl (.sink _ _ _ _ _) rfl, _, .thread _ _ _ _ rfl (.format _ _ _ _ (.inl rfl)) ?_,
    _, .thread _ _ _ _ rfl (.write _ _ _ _) trivial, _, .thread _ _ _ _ rfl (.flushElapsed _ _ _) trivial,
    _, .thread _ _ _ _ rfl (.unlock _ _) trivial, rfl⟩, ?_⟩
  · rfl
  · rfl

end Lines

section Order

/-- The messages that the outermost call of a thread is still to hand to its sinks. -/
def owed (frames : List (LogFrame SinkId)) : List (SinkId × LogMessage) :=
  match frames.getLast? with
  | some (.sinkIt logger message) => (logger.accepted message).map fun i => (i, message)
  | some (.sinking _ message rest) => rest.map fun i => (i, message)
  | _ => []

def calledBy : LogEffect SinkId → List (SinkId × LogMessage)
  | .call logger message => (logger.accepted message).map fun i => (i, message)
  | _ => []

/-- The calls of `Sink` by an outermost `SinkIt`. -/
def sunkBy : LogEffect SinkId → List (SinkId × LogMessage)
  | .sink i message 0 => [(i, message)]
  | _ => []

def threadEffects [DecidableEq Thread] (t : Thread) (trace : List (Option (Thread × LogEffect SinkId))) :
    List (LogEffect SinkId) :=
  trace.filterMap fun event => event.bind fun event => if event.1 = t then some event.2 else none

theorem threadEffects_same [DecidableEq Thread] (t : Thread) (trace : List (Option (Thread × LogEffect SinkId)))
    (effect : LogEffect SinkId) :
    threadEffects t (trace ++ [some (t, effect)]) = threadEffects t trace ++ [effect] := by
  simp [threadEffects]

theorem threadEffects_other [DecidableEq Thread] {t t' : Thread} (ht : t' ≠ t)
    (trace : List (Option (Thread × LogEffect SinkId)))
    (effect : LogEffect SinkId) : threadEffects t (trace ++ [some (t', effect)]) = threadEffects t trace := by
  simp [threadEffects, ht]

variable {mainLogger : Logger SinkId} {kind : SinkId → SinkKind}

theorem owed_cons (frame : LogFrame SinkId) {below : List (LogFrame SinkId)} (h : below ≠ []) :
    owed (frame :: below) = owed below := by
  cases below with
  | nil => exact absurd rfl h
  | cons => simp [owed]

theorem owed_top {frame frame' : LogFrame SinkId} (h : owed [frame] = owed [frame'])
    (below : List (LogFrame SinkId)) : owed (frame :: below) = owed (frame' :: below) := by
  cases below with
  | nil => exact h
  | cons => rw [owed_cons _ (List.cons_ne_nil _ _), owed_cons _ (List.cons_ne_nil _ _)]

/-- A call that owes nothing ends. -/
theorem owed_pop {frame : LogFrame SinkId} (h : owed [frame] = []) (below : List (LogFrame SinkId)) :
    owed (frame :: below) = owed below := by
  cases below with
  | nil => exact h
  | cons => exact owed_cons _ (List.cons_ne_nil _ _)

theorem accepted_off {logger : Logger SinkId} (h : logger.loggerLevel = .off) (message : LogMessage) :
    logger.accepted message = [] := by
  have hlt : message.level.index < LogLevel.off.index := by
    have := message.index_lt
    simpa [kLogLevels, LogLevel.index] using this
  rw [Logger.accepted, h, if_neg (by omega)]

theorem Local.owed {frames frames' : List (LogFrame SinkId)} {effect : LogEffect SinkId}
    (h : Local mainLogger kind frames effect frames') :
    calledBy effect ++ LogSystem.owed frames = sunkBy effect ++ LogSystem.owed frames' ∧
      (frames ≠ [] → calledBy effect = []) := by
  cases h with
  | call logger message => simp [LogSystem.owed, calledBy, sunkBy]
  | callSetPattern logger pattern => simp [LogSystem.owed, calledBy, sunkBy]
  | off logger message below hlevel =>
      exact ⟨owed_pop (by simp [LogSystem.owed, accepted_off hlevel]) frames', fun _ => rfl⟩
  | sink logger message i rest below =>
      refine ⟨?_, fun _ => rfl⟩
      rw [owed_cons _ (List.cons_ne_nil _ _)]
      cases below with
      | nil => rfl
      | cons frame below =>
          rw [owed_cons _ (List.cons_ne_nil _ _), owed_cons _ (List.cons_ne_nil _ _)]
          rfl
  | abort => exact ⟨rfl, fun _ => rfl⟩
  | enter | sunk | doSinkNull | format | write | flushElapsed | doFlush | setPattern =>
      refine ⟨?_, fun _ => rfl⟩
      simp only [calledBy, sunkBy, List.nil_append]
      exact owed_top (by rfl) _
  | badSink | flush | pattern =>
      refine ⟨?_, fun _ => rfl⟩
      simp only [calledBy, sunkBy, List.nil_append]
      rw [owed_cons _ (List.cons_ne_nil _ _)]
      exact owed_top (by rfl) _
  | unlock | returns | patterned =>
      refine ⟨?_, fun _ => rfl⟩
      simp only [calledBy, sunkBy, List.nil_append]
      exact owed_pop (by rfl) _

variable [DecidableEq Thread] [DecidableEq SinkId]
variable {localtimeR : Int → Tm} {customFormat : γ → LogMessage → List UInt8} {customClone : γ → γ}
variable {formatters : SinkId → LogFormatter γ}
variable {trace : List (Option (Thread × LogEffect SinkId))} {s : LogSystem Thread SinkId γ}

/-- What has arrived at a sink with a thread has departed with it, or is in its calls. -/
theorem Passage.thread_balanced {i : SinkId} {X : Type} (passage : Passage mainLogger kind i X)
    (h : Run (Step localtimeR customFormat customClone mainLogger kind) (initial formatters) trace s) (t : Thread) :
    ((threadEffects t trace).flatMap passage.arrives).Perm
      ((threadEffects t trace).flatMap passage.departs ++ (s.frames t).flatMap passage.pending) := by
  induction h with
  | stop => exact .refl _
  | @next trace s _ _ run taken ih =>
      cases taken with
      | drain stream n => simpa [threadEffects] using ih
      | thread t' effect frames hrunning hlocal henabled =>
          by_cases htt : t' = t
          · subst htt
            have hstep := passage.step _ _ _ hlocal
            rw [threadEffects_same, List.flatMap_append, List.flatMap_append, List.flatMap_singleton,
              List.flatMap_singleton]
            simp only [setFrames, Function.update_self]
            calc (threadEffects t' trace).flatMap passage.arrives ++ passage.arrives effect
                _ ~ (threadEffects t' trace).flatMap passage.departs ++ (s.frames t').flatMap passage.pending ++
                      passage.arrives effect := ih.append_right _
                _ ~ (threadEffects t' trace).flatMap passage.departs ++
                      (passage.arrives effect ++ (s.frames t').flatMap passage.pending) := by
                    rw [List.append_assoc]
                    exact List.perm_append_comm.append_left _
                _ = (threadEffects t' trace).flatMap passage.departs ++ passage.departs effect ++
                      frames.flatMap passage.pending := by rw [← hstep, List.append_assoc]
          · rw [threadEffects_other htt]
            simpa [setFrames, Ne.symm htt, apply_frames] using ih

/-- A thread hands each message that its loggers take to each of their sinks once, in the
order of its calls and of the sinks, whatever other threads, patterns and messages of bad
sinks come in between. -/
theorem thread_order
    (h : Run (Step localtimeR customFormat customClone mainLogger kind) (initial formatters) trace s) (t : Thread) :
    (threadEffects t trace).flatMap calledBy = (threadEffects t trace).flatMap sunkBy ++ owed (s.frames t) := by
  induction h with
  | stop => rfl
  | @next trace s _ _ run taken ih =>
      cases taken with
      | drain stream n => simpa [threadEffects] using ih
      | thread t' effect frames hrunning hlocal henabled =>
          by_cases htt : t' = t
          · subst htt
            obtain ⟨howed, hcalled⟩ := hlocal.owed
            have hframes : ((s.apply localtimeR customFormat customClone kind t' effect).setFrames t' frames).frames
                t' = frames := by simp [setFrames]
            rw [threadEffects_same, List.flatMap_append, List.flatMap_append, List.flatMap_singleton,
              List.flatMap_singleton, ih, hframes, List.append_assoc, List.append_assoc, ← howed]
            by_cases hidle : s.frames t' = []
            · rw [hidle]
              simp [owed]
            · rw [hcalled hidle, List.append_nil, List.nil_append]
          · rw [threadEffects_other htt]
            simpa [setFrames, Ne.symm htt, apply_frames] using ih

theorem thread_order_hello : ∃ s : LogSystem Unit Unit Unit,
    (threadEffects () helloTrace).flatMap calledBy =
      (threadEffects () helloTrace).flatMap sunkBy ++ owed (s.frames ()) := by
  obtain ⟨s, hrun, -⟩ := hello_run
  exact ⟨s, thread_order hrun ()⟩

end Order

end LogSystem

end Libcold
