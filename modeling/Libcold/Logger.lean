import Libcold.LogFormatter
import Libcold.Runs

namespace Libcold

open Runs Time

variable {Thread SinkId γ : Type}

/-- A `BasicFileSink` may have failed to open its file. -/
inductive SinkKind
  | null
  | stdout
  | file (opened : Bool)
  deriving DecidableEq

/-- The `FILE` that a sink writes to. -/
inductive Stream (SinkId : Type)
  | stdout
  | file (s : SinkId)
  deriving DecidableEq

structure LogSink (Thread γ : Type) where
  formatter : LogFormatter γ
  mutex : Option Thread := none
  lastFlushTime : Int := 0

structure Logger (SinkId : Type) where
  loggerLevel : LogLevel := .info
  flushLevel : LogLevel := .off
  loggerSinks : List SinkId

namespace Logger

/-- The sinks that a message goes to. -/
def accepted (logger : Logger SinkId) (message : LogMessage) : List SinkId :=
  if logger.loggerLevel.index ≤ message.level.index then logger.loggerSinks else []

def shouldFlush (logger : Logger SinkId) (message : LogMessage) : Bool :=
  message.level ≠ .off && logger.flushLevel.index ≤ message.level.index

end Logger

/-- The calls that a thread is in: `SinkIt`, at its entry, in its loop over the sinks or
in that of `Flush`; `Sink` in its steps under the mutex of the sink; `Flush` and
`SetPattern` of a sink; and `SetPattern` of a logger. -/
inductive LogFrame (SinkId : Type)
  | sinkIt (logger : Logger SinkId) (message : LogMessage)
  | sinking (logger : Logger SinkId) (message : LogMessage) (rest : List SinkId)
  | flushing (message : LogMessage) (rest : List SinkId)
  | doSink (s : SinkId) (message : LogMessage)
  | write (s : SinkId) (message : LogMessage) (buffer : List UInt8)
  | written (s : SinkId) (message : LogMessage)
  | doFlush (s : SinkId)
  | patterning (pattern : List UInt8) (rest : List SinkId)
  | setPattern (s : SinkId) (pattern : List UInt8)
  | unlock (s : SinkId)

namespace LogFrame

/-- The sink whose mutex the call holds. -/
def holds : LogFrame SinkId → Option SinkId
  | doSink s _ | write s _ _ | written s _ | doFlush s | setPattern s _ | unlock s => some s
  | sinkIt _ _ | sinking _ _ _ | flushing _ _ | patterning _ _ => none

end LogFrame

/-- What a step of a thread does. `sink` and `flush` are the calls that a loop makes,
which begin with the mutex, and `nested` a message of the sink itself to the main logger. -/
inductive LogEffect (SinkId : Type)
  | call (logger : Logger SinkId) (message : LogMessage)
  | callSetPattern (logger : Logger SinkId) (pattern : List UInt8)
  | silent
  | sink (s : SinkId) (message : LogMessage) (depth : Nat)
  | lock (s : SinkId)
  | format (s : SinkId) (message : LogMessage) (buffer : List UInt8)
  | write (s : SinkId) (message : LogMessage) (buffer : List UInt8)
  | flushElapsed (s : SinkId) (message : LogMessage)
  | nested (message : LogMessage)
  | flush (s : SinkId)
  | setPattern (s : SinkId) (pattern : List UInt8)
  | unlock (s : SinkId)
  | returns
  | abort

namespace LogEffect

/-- The sink whose mutex the step takes. -/
def acquires : LogEffect SinkId → Option SinkId
  | sink s _ _ | lock s => some s
  | _ => none

def releases : LogEffect SinkId → Option SinkId
  | unlock s => some s
  | _ => none

end LogEffect

def kFlushInterval : Int := 5 * 1000000000

/-- The sinks and the threads, what was written to the streams, and how much of it is
out of their buffers. -/
structure LogSystem (Thread SinkId γ : Type) where
  sinks : SinkId → LogSink Thread γ
  frames : Thread → List (LogFrame SinkId) := fun _ => []
  text : Stream SinkId → List UInt8 := fun _ => []
  flushed : Stream SinkId → Nat := fun _ => 0
  aborted : Bool := false

namespace LogSystem

section Local

variable (mainLogger : Logger SinkId) (kind : SinkId → SinkKind)

/-- A step of one thread on its own calls, the innermost first. -/
inductive Local : List (LogFrame SinkId) → LogEffect SinkId → List (LogFrame SinkId) → Prop
  | call (logger message) : Local [] (.call logger message) [.sinkIt logger message]
  | callSetPattern (logger pattern) :
      Local [] (.callSetPattern logger pattern) [.patterning pattern logger.loggerSinks]
  | off (logger message below) (hlevel : logger.loggerLevel = .off) :
      Local (.sinkIt logger message :: below) .returns below
  | enter (logger message below) (hlevel : logger.loggerLevel ≠ .off) :
      Local (.sinkIt logger message :: below) .silent (.sinking logger message (logger.accepted message) :: below)
  | sink (logger message s rest below) :
      Local (.sinking logger message (s :: rest) :: below) (.sink s message below.length)
        (.doSink s message :: .sinking logger message rest :: below)
  | doSinkNull (s message below) (hkind : kind s = .null) :
      Local (.doSink s message :: below) .silent (.unlock s :: below)
  | format (s message buffer below) (hkind : kind s = .stdout ∨ kind s = .file true) :
      Local (.doSink s message :: below) (.format s message buffer) (.write s message buffer :: below)
  | write (s message buffer below) :
      Local (.write s message buffer :: below) (.write s message buffer) (.written s message :: below)
  | flushElapsed (s message below) :
      Local (.written s message :: below) (.flushElapsed s message) (.unlock s :: below)
  | badSink (s message error below) (hkind : kind s = .file false) (hlevel : error.level = .error) :
      Local (.doSink s message :: below) (.nested error) (.sinkIt mainLogger error :: .unlock s :: below)
  | unlock (s below) : Local (.unlock s :: below) (.unlock s) below
  | sunk (logger message below) :
      Local (.sinking logger message [] :: below) .silent
        (.flushing message (if logger.shouldFlush message then logger.loggerSinks else []) :: below)
  | flush (message s rest below) :
      Local (.flushing message (s :: rest) :: below) (.lock s) (.doFlush s :: .flushing message rest :: below)
  | doFlush (s below) : Local (.doFlush s :: below) (.flush s) (.unlock s :: below)
  | returns (message below) (hlevel : message.level ≠ .fatal) : Local (.flushing message [] :: below) .returns below
  | abort (message below) (hlevel : message.level = .fatal) :
      Local (.flushing message [] :: below) .abort (.flushing message [] :: below)
  | pattern (pattern s rest below) :
      Local (.patterning pattern (s :: rest) :: below) (.lock s)
        (.setPattern s pattern :: .patterning pattern rest :: below)
  | setPattern (s pattern below) :
      Local (.setPattern s pattern :: below) (.setPattern s pattern) (.unlock s :: below)
  | patterned (pattern below) : Local (.patterning pattern [] :: below) .returns below

end Local

section Step

variable [DecidableEq Thread] [DecidableEq SinkId]
variable (localtimeR : Int → Tm) (customFormat : γ → LogMessage → List UInt8) (customClone : γ → γ)
variable (mainLogger : Logger SinkId) (kind : SinkId → SinkKind)

def setSink (s : LogSystem Thread SinkId γ) (i : SinkId) (sink : LogSink Thread γ) : LogSystem Thread SinkId γ :=
  { s with sinks := Function.update s.sinks i sink }

def setFrames (s : LogSystem Thread SinkId γ) (t : Thread) (stack : List (LogFrame SinkId)) :
    LogSystem Thread SinkId γ :=
  { s with frames := Function.update s.frames t stack }

def stream (i : SinkId) : Option (Stream SinkId) :=
  match kind i with
  | .null => none
  | .stdout => some .stdout
  | .file _ => some (.file i)

/-- `fflush`; the null pointer stands for all the streams. -/
def fflush (s : LogSystem Thread SinkId γ) : Option (Stream SinkId) → LogSystem Thread SinkId γ
  | none => { s with flushed := fun stream => (s.text stream).length }
  | some stream => { s with flushed := Function.update s.flushed stream (s.text stream).length }

def fwrite (s : LogSystem Thread SinkId γ) (stream : Stream SinkId) (buffer : List UInt8) :
    LogSystem Thread SinkId γ :=
  { s with text := Function.update s.text stream (s.text stream ++ buffer) }

def doFlush (s : LogSystem Thread SinkId γ) (i : SinkId) : LogSystem Thread SinkId γ :=
  match kind i with
  | .null => s
  | .stdout => s.fflush (some .stdout)
  | .file true => s.fflush (some (.file i))
  | .file false => s.fflush none

/-- The end of `DoSink`: a stdout sink flushes always, and a file sink by the time since
it has done so. -/
def flushElapsed (s : LogSystem Thread SinkId γ) (i : SinkId) (message : LogMessage) : LogSystem Thread SinkId γ :=
  match kind i with
  | .stdout => s.doFlush kind i
  | .file true =>
      if kFlushInterval < message.logTime - (s.sinks i).lastFlushTime then
        (s.doFlush kind i).setSink i { s.sinks i with lastFlushTime := message.logTime }
      else s
  | .null | .file false => s

/-- What a thread finds when it makes a step. -/
def Enabled (s : LogSystem Thread SinkId γ) : LogEffect SinkId → Prop
  | .sink i _ _ | .lock i => (s.sinks i).mutex = none
  | .format i message buffer => buffer = ((s.sinks i).formatter.format localtimeR customFormat message).2
  | _ => True

def apply (s : LogSystem Thread SinkId γ) (t : Thread) : LogEffect SinkId → LogSystem Thread SinkId γ
  | .sink i _ _ | .lock i => s.setSink i { s.sinks i with mutex := some t }
  | .unlock i => s.setSink i { s.sinks i with mutex := none }
  | .format i message _ =>
      s.setSink i { s.sinks i with formatter := ((s.sinks i).formatter.format localtimeR customFormat message).1 }
  | .write i _ buffer =>
      match stream kind i with
      | none => s
      | some stream => s.fwrite stream buffer
  | .flushElapsed i message => s.flushElapsed kind i message
  | .flush i => s.doFlush kind i
  | .setPattern i pattern =>
      match (s.sinks i).formatter.setPattern customClone pattern with
      | .ok formatter => s.setSink i { s.sinks i with formatter }
      | .error _ => { s with aborted := true }
  | .abort => { s with aborted := true }
  | .call _ _ | .callSetPattern _ _ | .silent | .nested _ | .returns => s

/-- A step of a thread, or of a `FILE` that writes out a part of its buffer. -/
inductive Step : LogSystem Thread SinkId γ → Option (Thread × LogEffect SinkId) → LogSystem Thread SinkId γ → Prop
  | thread (s) (t) (effect) (stack) (hrunning : s.aborted = false)
      (hlocal : Local mainLogger kind (s.frames t) effect stack)
      (henabled : s.Enabled localtimeR customFormat effect) :
      Step s (some (t, effect)) ((s.apply localtimeR customFormat customClone kind t effect).setFrames t stack)
  | drain (s) (stream) (n : Nat) (hrunning : s.aborted = false) (hfrom : s.flushed stream ≤ n)
      (hto : n ≤ (s.text stream).length) :
      Step s none { s with flushed := Function.update s.flushed stream n }

end Step

/-- The mutexes that a thread holds. -/
def locks (frames : List (LogFrame SinkId)) : List SinkId :=
  frames.filterMap LogFrame.holds

section Exclusion

variable {mainLogger : Logger SinkId} {kind : SinkId → SinkKind}

/-- A step takes a mutex, gives back the innermost one, or neither. -/
theorem Local.locks_cases {frames frames' : List (LogFrame SinkId)} {effect : LogEffect SinkId}
    (h : Local mainLogger kind frames effect frames') :
    (∃ i, effect.acquires = some i ∧ effect.releases = none ∧ locks frames' = i :: locks frames) ∨
      (∃ i, effect.acquires = none ∧ effect.releases = some i ∧ locks frames = i :: locks frames') ∨
      effect.acquires = none ∧ effect.releases = none ∧ locks frames' = locks frames := by
  cases h with
  | sink | flush | pattern => exact .inl ⟨_, rfl, rfl, rfl⟩
  | unlock => exact .inr (.inl ⟨_, rfl, rfl, rfl⟩)
  | _ => exact .inr (.inr ⟨rfl, rfl, rfl⟩)

variable [DecidableEq SinkId]
variable {localtimeR : Int → Tm} {customFormat : γ → LogMessage → List UInt8} {customClone : γ → γ}

theorem doFlush_sinks (s : LogSystem Thread SinkId γ) (i : SinkId) : (s.doFlush kind i).sinks = s.sinks := by
  unfold doFlush
  split <;> rfl

theorem flushElapsed_sinks (s : LogSystem Thread SinkId γ) (i : SinkId) (message : LogMessage) (j : SinkId) :
    ((s.flushElapsed kind i message).sinks j).mutex = (s.sinks j).mutex ∧
      ((s.flushElapsed kind i message).sinks j).formatter = (s.sinks j).formatter := by
  unfold flushElapsed
  split
  · simp [doFlush_sinks]
  · split
    · by_cases hj : j = i
      · subst hj
        simp [setSink]
      · simp [setSink, hj, doFlush_sinks]
    · exact ⟨rfl, rfl⟩
  · exact ⟨rfl, rfl⟩
  · exact ⟨rfl, rfl⟩

theorem apply_frames (s : LogSystem Thread SinkId γ) (t : Thread) (effect : LogEffect SinkId) :
    (s.apply localtimeR customFormat customClone kind t effect).frames = s.frames := by
  cases effect with
  | write i message buffer =>
      simp only [apply]
      split <;> rfl
  | flushElapsed i message =>
      simp only [apply, flushElapsed]
      split
      · simp only [doFlush]
        split <;> rfl
      · split
        · simp only [setSink, doFlush]
          split <;> rfl
        · rfl
      · rfl
      · rfl
  | flush i =>
      simp only [apply, doFlush]
      split <;> rfl
  | setPattern i pattern =>
      simp only [apply]
      split <;> rfl
  | _ => rfl

theorem apply_mutex (s : LogSystem Thread SinkId γ) (t : Thread) (effect : LogEffect SinkId) (i : SinkId) :
    ((s.apply localtimeR customFormat customClone kind t effect).sinks i).mutex =
      if effect.acquires = some i then some t
      else if effect.releases = some i then none
      else (s.sinks i).mutex := by
  have hset (j : SinkId) (sink : LogSink Thread γ) (hsink : sink.mutex = (s.sinks j).mutex) :
      ((s.setSink j sink).sinks i).mutex = (s.sinks i).mutex := by
    by_cases hij : i = j
    · subst hij
      simpa [setSink] using hsink
    · simp [setSink, hij]
  cases effect with
  | sink j | lock j | unlock j =>
      by_cases hij : i = j
      · subst hij
        simp [apply, setSink, LogEffect.acquires, LogEffect.releases]
      · simp [apply, setSink, LogEffect.acquires, LogEffect.releases, hij, Ne.symm hij]
  | format j message => exact hset j _ rfl
  | write j message buffer =>
      simp only [apply, LogEffect.acquires, LogEffect.releases]
      split <;> rfl
  | flushElapsed j message => simp [apply, LogEffect.acquires, LogEffect.releases, flushElapsed_sinks]
  | flush j => simp [apply, LogEffect.acquires, LogEffect.releases, doFlush_sinks]
  | setPattern j pattern =>
      simp only [apply, LogEffect.acquires, LogEffect.releases]
      split
      · exact hset j _ rfl
      · rfl
  | call | callSetPattern | silent | nested | returns | abort => rfl

end Exclusion

section Runs

variable {localtimeR : Int → Tm} {customFormat : γ → LogMessage → List UInt8} {customClone : γ → γ}
variable {mainLogger : Logger SinkId} {kind : SinkId → SinkKind} {formatters : SinkId → LogFormatter γ}

/-- A mutex is held by the thread whose calls hold it, and by one of them. -/
structure Exclusive (s : LogSystem Thread SinkId γ) : Prop where
  held : ∀ i t, (s.sinks i).mutex = some t ↔ i ∈ locks (s.frames t)
  nodup : ∀ t, (locks (s.frames t)).Nodup

/-- No calls and no text yet. -/
def initial (formatters : SinkId → LogFormatter γ) : LogSystem Thread SinkId γ :=
  { sinks := fun i => { formatter := formatters i } }

theorem exclusive_initial : Exclusive (initial formatters : LogSystem Thread SinkId γ) := by
  constructor <;> simp [initial, locks]

theorem Exclusive.not_mem {s : LogSystem Thread SinkId γ} (h : Exclusive s) {i : SinkId} {t : Thread}
    (hmutex : (s.sinks i).mutex ≠ some t) : i ∉ locks (s.frames t) :=
  fun hmem => hmutex ((h.held i t).mpr hmem)

theorem Enabled.mutex {s : LogSystem Thread SinkId γ} {effect : LogEffect SinkId} {i : SinkId}
    (h : s.Enabled localtimeR customFormat effect) (hacquires : effect.acquires = some i) :
    (s.sinks i).mutex = none := by
  cases effect <;> simp_all [LogEffect.acquires, Enabled]

variable [DecidableEq Thread] [DecidableEq SinkId]

/-- A step moves a mutex between its sink and the calls of the thread together. -/
theorem Exclusive.thread {s : LogSystem Thread SinkId γ} (hs : Exclusive s) {t : Thread} {effect : LogEffect SinkId}
    {frames : List (LogFrame SinkId)} (hlocal : Local mainLogger kind (s.frames t) effect frames)
    (henabled : s.Enabled localtimeR customFormat effect) :
    Exclusive ((s.apply localtimeR customFormat customClone kind t effect).setFrames t frames) := by
  have hnodup := hs.nodup t
  obtain ⟨j, hacquires, hreleases, hlocks⟩ | ⟨j, hacquires, hreleases, hlocks⟩ | ⟨hacquires, hreleases, hlocks⟩ :=
    hlocal.locks_cases
  · have hfree := henabled.mutex hacquires
    have hj (t' : Thread) : j ∉ locks (s.frames t') := hs.not_mem (by simp [hfree])
    constructor
    · intro i t'
      simp only [setFrames, apply_mutex, apply_frames, hacquires, hreleases, Option.some.injEq]
      by_cases htt : t' = t
      · subst htt
        rw [Function.update_self, hlocks, List.mem_cons]
        by_cases hij : i = j
        · simp [hij]
        · simpa [hij, Ne.symm hij] using hs.held i t'
      · rw [Function.update_of_ne htt]
        by_cases hij : i = j
        · subst hij
          simpa [Ne.symm htt] using hj t'
        · simpa [Ne.symm hij] using hs.held i t'
    · intro t'
      by_cases htt : t' = t
      · subst htt
        simpa [setFrames, hlocks] using ⟨hj t', hnodup⟩
      · simpa [setFrames, htt, apply_frames] using hs.nodup t'
  · rw [hlocks] at hnodup
    have hmutex : (s.sinks j).mutex = some t := (hs.held j t).mpr (by simp [hlocks])
    constructor
    · intro i t'
      simp only [setFrames, apply_mutex, apply_frames, hacquires, hreleases, Option.some.injEq]
      have hold := hs.held i t'
      by_cases htt : t' = t
      · subst htt
        rw [hlocks, List.mem_cons] at hold
        rw [Function.update_self]
        by_cases hij : i = j
        · subst hij
          simpa using (List.nodup_cons.mp hnodup).1
        · simpa [hij, Ne.symm hij] using hold
      · rw [Function.update_of_ne htt]
        by_cases hij : i = j
        · subst hij
          simpa using hs.not_mem (by simp [hmutex, Ne.symm htt])
        · simpa [Ne.symm hij] using hold
    · intro t'
      by_cases htt : t' = t
      · subst htt
        simpa [setFrames] using (List.nodup_cons.mp hnodup).2
      · simpa [setFrames, htt, apply_frames] using hs.nodup t'
  · constructor
    · intro i t'
      simp only [setFrames, apply_mutex, apply_frames, hacquires, hreleases]
      by_cases htt : t' = t
      · subst htt
        simpa [hlocks] using hs.held i t'
      · simpa [htt] using hs.held i t'
    · intro t'
      by_cases htt : t' = t
      · subst htt
        simpa [setFrames, hlocks] using hnodup
      · simpa [setFrames, htt, apply_frames] using hs.nodup t'

theorem Exclusive.of_run {trace : List (Option (Thread × LogEffect SinkId))} {s : LogSystem Thread SinkId γ}
    (h : Run (Step localtimeR customFormat customClone mainLogger kind) (initial formatters) trace s) :
    Exclusive s := by
  induction h with
  | stop => exact exclusive_initial
  | next _ taken ih =>
      cases taken with
      | thread t effect frames _ hlocal henabled => exact ih.thread hlocal henabled
      | drain stream n => exact ⟨ih.held, ih.nodup⟩

def effects (trace : List (Option (Thread × LogEffect SinkId))) : List (LogEffect SinkId) :=
  trace.filterMap fun event => event.map Prod.snd

/-- What passes through the calls that hold the mutex of a sink: it arrives in one step
and departs in a later one. -/
structure Passage (mainLogger : Logger SinkId) (kind : SinkId → SinkKind) (i : SinkId) (X : Type) where
  arrives : LogEffect SinkId → List X
  departs : LogEffect SinkId → List X
  pending : LogFrame SinkId → List X
  held : ∀ frame, pending frame ≠ [] → frame.holds = some i
  step : ∀ frames effect frames', Local mainLogger kind frames effect frames' →
    departs effect ++ frames'.flatMap pending = arrives effect ++ frames.flatMap pending
  inside : ∀ frames effect frames', Local mainLogger kind frames effect frames' →
    arrives effect ≠ [] ∨ departs effect ≠ [] → effect.acquires = some i ∨ i ∈ locks frames
  arrival : ∀ frames effect frames', Local mainLogger kind frames effect frames' → (locks frames).Nodup →
    arrives effect ≠ [] → effect.acquires = some i ∨ frames.flatMap pending = []

namespace Passage

variable {i : SinkId} {X : Type}

end Passage

section Lines

variable {i : SinkId}

/-- The sink writes lines. -/
def Writes (kind : SinkId → SinkKind) (i : SinkId) : Prop :=
  kind i = .stdout ∨ kind i = .file true

/-- The messages that come to a sink, up to the write of their lines. -/
def messagePassage (hkind : Writes kind i) : Passage mainLogger kind i LogMessage where
  arrives
    | .sink j message _ => if j = i then [message] else []
    | _ => []
  departs
    | .write j message _ => if j = i then [message] else []
    | _ => []
  pending
    | .doSink j message | .write j message _ => if j = i then [message] else []
    | _ => []
  held frame h := by
    cases frame <;> simp_all [LogFrame.holds]
  step frames effect frames' h := by
    cases h with
    | doSinkNull j message below hnull =>
        have hij : j ≠ i := by
          rintro rfl
          simp [Writes, hnull] at hkind
        simp [hij]
    | badSink j message error below hbad hlevel =>
        have hij : j ≠ i := by
          rintro rfl
          simp [Writes, hbad] at hkind
        simp [hij]
    | _ => simp
  inside frames effect frames' h hne := by
    cases h <;> simp_all [LogEffect.acquires, locks, LogFrame.holds]
  arrival frames effect frames' h hnodup hne := by
    cases h <;> simp_all [LogEffect.acquires]

end Lines

end Runs

end LogSystem

end Libcold
