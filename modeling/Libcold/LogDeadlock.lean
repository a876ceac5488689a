import Libcold.LogDelivery

namespace Libcold

open Runs Time

variable {Thread SinkId γ : Type}

namespace LogSystem

section Sound

variable (mainLogger : Logger SinkId) (kind : SinkId → SinkKind)

/-- The sinks of the main logger that a message of its own level comes to, be it for a flush. -/
def touched (message : LogMessage) : List SinkId :=
  if mainLogger.loggerLevel = .off then []
  else mainLogger.accepted message ++ (if mainLogger.shouldFlush message then mainLogger.loggerSinks else [])

/-- What a bad sink has to say comes to no bad sink. -/
def Sound : Prop :=
  ∀ error : LogMessage, error.level = .error → ∀ i ∈ touched mainLogger error, kind i ≠ .file false

/-- The calls of the main logger for a message of a bad sink. -/
inductive Nested : LogFrame SinkId → Prop
  | sinkIt (error : LogMessage) (hlevel : error.level = .error) : Nested (.sinkIt mainLogger error)
  | sinking (error : LogMessage) (rest) (hlevel : error.level = .error) (hon : mainLogger.loggerLevel ≠ .off)
      (hrest : ∀ i ∈ rest, kind i ≠ .file false) : Nested (.sinking mainLogger error rest)
  | flushing (error : LogMessage) (rest) (hlevel : error.level = .error)
      (hrest : ∀ i ∈ rest, kind i ≠ .file false) : Nested (.flushing error rest)

/-- The calls of a thread: at most one bad sink is held by a call that has to wait. -/
inductive Shape : List (LogFrame SinkId) → Prop
  | idle : Shape []
  | base (frame) (hbase : frame.holds = none) : Shape [frame]
  | inSink (frame i base) (hframe : frame.holds = some i) (hbase : base.holds = none) : Shape [frame, base]
  | nested (frame i base) (hframe : Nested mainLogger kind frame) (hbad : kind i = .file false)
      (hbase : base.holds = none) : Shape [frame, .unlock i, base]
  | nestedSink (sink j frame i base) (hsink : sink.holds = some j) (hj : kind j ≠ .file false)
      (hframe : Nested mainLogger kind frame) (hbad : kind i = .file false) (hbase : base.holds = none) :
      Shape [sink, frame, .unlock i, base]

end Sound

section Progress

variable {mainLogger : Logger SinkId} {kind : SinkId → SinkKind}

theorem Sound.accepted (hsound : Sound mainLogger kind) {error : LogMessage} (hlevel : error.level = .error)
    (hon : mainLogger.loggerLevel ≠ .off) {i : SinkId} (hi : i ∈ mainLogger.accepted error) :
    kind i ≠ .file false := by
  refine hsound error hlevel i ?_
  rw [touched, if_neg hon]
  exact List.mem_append_left _ hi

theorem Sound.flushed (hsound : Sound mainLogger kind) {error : LogMessage} (hlevel : error.level = .error)
    (hon : mainLogger.loggerLevel ≠ .off) {i : SinkId}
    (hi : i ∈ if mainLogger.shouldFlush error then mainLogger.loggerSinks else []) : kind i ≠ .file false := by
  refine hsound error hlevel i ?_
  rw [touched, if_neg hon]
  exact List.mem_append_right _ hi

/-- A step within a sink leads to another one there, to the message of a bad sink, or back. -/
theorem Local.inside {frame : LogFrame SinkId} {below frames' : List (LogFrame SinkId)} {effect : LogEffect SinkId}
    {i : SinkId} (h : Local mainLogger kind (frame :: below) effect frames') (hframe : frame.holds = some i) :
    (∃ frame' : LogFrame SinkId, frame'.holds = some i ∧ frames' = frame' :: below) ∨
      (∃ error : LogMessage, error.level = .error ∧ kind i = .file false ∧
        frames' = .sinkIt mainLogger error :: .unlock i :: below) ∨ frames' = below := by
  cases h with
  | unlock => exact .inr (.inr rfl)
  | badSink j message error below hkind hlevel =>
      obtain rfl : j = i := Option.some.inj hframe
      exact .inr (.inl ⟨error, hlevel, hkind, rfl⟩)
  | off | enter | sink | sunk | flush | returns | abort | pattern | patterned => cases hframe
  | _ =>
      refine .inl ⟨_, ?_, rfl⟩
      exact hframe

/-- A step of a loop stays in it, enters a sink, or ends the call. -/
theorem Local.outside {frame : LogFrame SinkId} {below frames' : List (LogFrame SinkId)} {effect : LogEffect SinkId}
    (h : Local mainLogger kind (frame :: below) effect frames') (hframe : frame.holds = none) :
    (∃ frame' : LogFrame SinkId, frame'.holds = none ∧ frames' = frame' :: below) ∨
      (∃ (sink frame' : LogFrame SinkId) (i : SinkId), sink.holds = some i ∧ frame'.holds = none ∧
        frames' = sink :: frame' :: below) ∨ frames' = below := by
  cases h with
  | off | returns | patterned => exact .inr (.inr rfl)
  | enter | sunk | abort => exact .inl ⟨_, rfl, rfl⟩
  | sink | flush | pattern => exact .inr (.inl ⟨_, _, _, rfl, rfl, rfl⟩)
  | _ => cases hframe

theorem Local.nested {frame : LogFrame SinkId} {below frames' : List (LogFrame SinkId)} {effect : LogEffect SinkId}
    (hsound : Sound mainLogger kind) (h : Local mainLogger kind (frame :: below) effect frames')
    (hframe : Nested mainLogger kind frame) :
    (∃ frame', Nested mainLogger kind frame' ∧ frames' = frame' :: below) ∨
      (∃ (sink frame' : LogFrame SinkId) (i : SinkId), sink.holds = some i ∧ kind i ≠ .file false ∧
        Nested mainLogger kind frame' ∧ frames' = sink :: frame' :: below) ∨ frames' = below := by
  cases hframe with
  | sinkIt error hlevel =>
      cases h with
      | off => exact .inr (.inr rfl)
      | enter _ _ _ hon =>
          exact .inl ⟨_, .sinking error _ hlevel hon fun i hi => hsound.accepted hlevel hon hi, rfl⟩
  | sinking error rest hlevel hon hrest =>
      cases h with
      | sink _ _ i rest below =>
          rw [List.forall_mem_cons] at hrest
          exact .inr (.inl ⟨_, _, i, rfl, hrest.1, .sinking error rest hlevel hon hrest.2, rfl⟩)
      | sunk => exact .inl ⟨_, .flushing error _ hlevel fun i hi => hsound.flushed hlevel hon hi, rfl⟩
  | flushing error rest hlevel hrest =>
      cases h with
      | flush _ i rest below =>
          rw [List.forall_mem_cons] at hrest
          exact .inr (.inl ⟨_, _, i, rfl, hrest.1, .flushing error rest hlevel hrest.2, rfl⟩)
      | returns => exact .inr (.inr rfl)
      | abort _ _ hfatal => exact .inl ⟨_, .flushing error [] hlevel hrest, rfl⟩

theorem Shape.step (hsound : Sound mainLogger kind) {frames frames' : List (LogFrame SinkId)}
    {effect : LogEffect SinkId} (hshape : Shape mainLogger kind frames)
    (h : Local mainLogger kind frames effect frames') : Shape mainLogger kind frames' := by
  cases hshape with
  | idle =>
      cases h with
      | call => exact .base _ rfl
      | callSetPattern => exact .base _ rfl
  | base frame hbase =>
      obtain ⟨frame', hframe', rfl⟩ | ⟨sink, frame', i, hsink, hframe', rfl⟩ | rfl := h.outside hbase
      · exact .base _ hframe'
      · exact .inSink sink i frame' hsink hframe'
      · exact .idle
  | inSink frame i base hframe hbase =>
      obtain ⟨frame', hframe', rfl⟩ | ⟨error, hlevel, hbad, rfl⟩ | rfl := h.inside hframe
      · exact .inSink frame' i base hframe' hbase
      · exact .nested _ i base (.sinkIt error hlevel) hbad hbase
      · exact .base _ hbase
  | nested frame i base hframe hbad hbase =>
      obtain ⟨frame', hframe', rfl⟩ | ⟨sink, frame', j, hsink, hj, hframe', rfl⟩ | rfl := h.nested hsound hframe
      · exact .nested frame' i base hframe' hbad hbase
      · exact .nestedSink sink j frame' i base hsink hj hframe' hbad hbase
      · exact .inSink _ i base rfl hbase
  | nestedSink sink j frame i base hsink hj hframe hbad hbase =>
      obtain ⟨sink', hsink', rfl⟩ | ⟨error, hlevel, hbad', rfl⟩ | rfl := h.inside hsink
      · exact .nestedSink sink' j frame i base hsink' hj hframe hbad hbase
      · exact absurd hbad' hj
      · exact .nested frame i base hframe hbad hbase

def spent : LogEffect SinkId → Nat
  | .call _ _ | .callSetPattern _ _ | .abort => 0
  | _ => 1

section System

variable {localtimeR : Int → Tm} {customFormat : γ → LogMessage → List UInt8}

/-- A thread in a call has a next step, which waits for a mutex at most. -/
structure Next (mainLogger : Logger SinkId) (kind : SinkId → SinkKind) (localtimeR : Int → Tm)
    (customFormat : γ → LogMessage → List UInt8) (s : LogSystem Thread SinkId γ) (frame : LogFrame SinkId)
    (below : List (LogFrame SinkId)) (effect : LogEffect SinkId) (frames' : List (LogFrame SinkId)) : Prop where
  isLocal : Local mainLogger kind (frame :: below) effect frames'
  isOwn : spent effect = 1 ∨ effect = .abort
  waits : (∀ i, effect.acquires = some i → (s.sinks i).mutex = none) → s.Enabled localtimeR customFormat effect
  holds : frame.holds.isSome → effect.acquires = none
  nested : Nested mainLogger kind frame → ∀ i, effect.acquires = some i → kind i ≠ .file false

theorem exists_next (s : LogSystem Thread SinkId γ) (frame : LogFrame SinkId) (below : List (LogFrame SinkId)) :
    ∃ effect frames', Next mainLogger kind localtimeR customFormat s frame below effect frames' := by
  cases frame with
  | sinkIt logger message =>
      by_cases hoff : logger.loggerLevel = .off
      · exact ⟨_, _, .off _ _ _ hoff, .inl rfl, fun _ => trivial, nofun, fun _ => nofun⟩
      · exact ⟨_, _, .enter _ _ _ hoff, .inl rfl, fun _ => trivial, nofun, fun _ => nofun⟩
  | sinking logger message rest =>
      cases rest with
      | nil => exact ⟨_, _, .sunk _ _ _, .inl rfl, fun _ => trivial, nofun, fun _ => nofun⟩
      | cons i rest =>
          refine ⟨_, _, .sink _ _ i rest _, .inl rfl, fun h => h i rfl, nofun, fun hnested j hj => ?_⟩
          obtain rfl : i = j := Option.some.inj hj
          cases hnested with
          | sinking _ _ _ _ hrest => exact hrest i List.mem_cons_self
  | flushing message rest =>
      cases rest with
      | nil =>
          by_cases hfatal : message.level = .fatal
          · exact ⟨_, _, .abort _ _ hfatal, .inr rfl, fun _ => trivial, nofun, fun _ => nofun⟩
          · exact ⟨_, _, .returns _ _ hfatal, .inl rfl, fun _ => trivial, nofun, fun _ => nofun⟩
      | cons i rest =>
          refine ⟨_, _, .flush _ i rest _, .inl rfl, fun h => h i rfl, nofun, fun hnested j hj => ?_⟩
          obtain rfl : i = j := Option.some.inj hj
          cases hnested with
          | flushing _ _ _ hrest => exact hrest i List.mem_cons_self
  | doSink i message =>
      have hwrites (h : Writes kind i) :
          ∃ effect frames', Next mainLogger kind localtimeR customFormat s (.doSink i message) below effect frames' :=
        ⟨_, _, .format i message _ _ h, .inl rfl, fun _ => rfl, fun _ => rfl, fun _ => nofun⟩
      match hkind : kind i with
      | .null => exact ⟨_, _, .doSinkNull i _ _ hkind, .inl rfl, fun _ => trivial, fun _ => rfl, fun _ => nofun⟩
      | .stdout => exact hwrites (.inl hkind)
      | .file true => exact hwrites (.inr hkind)
      | .file false =>
          exact ⟨_, _, .badSink i _ { level := .error } _ hkind rfl, .inl rfl, fun _ => trivial, fun _ => rfl,
            fun _ => nofun⟩
  | write => exact ⟨_, _, .write _ _ _ _, .inl rfl, fun _ => trivial, fun _ => rfl, fun _ => nofun⟩
  | written => exact ⟨_, _, .flushElapsed _ _ _, .inl rfl, fun _ => trivial, fun _ => rfl, fun _ => nofun⟩
  | doFlush => exact ⟨_, _, .doFlush _ _, .inl rfl, fun _ => trivial, fun _ => rfl, fun _ => nofun⟩
  | patterning pattern rest =>
      cases rest with
      | nil => exact ⟨_, _, .patterned _ _, .inl rfl, fun _ => trivial, nofun, fun _ => nofun⟩
      | cons i rest => exact ⟨_, _, .pattern _ i rest _, .inl rfl, fun h => h i rfl, nofun, fun h => nomatch h⟩
  | setPattern => exact ⟨_, _, .setPattern _ _ _, .inl rfl, fun _ => trivial, fun _ => rfl, fun _ => nofun⟩
  | unlock => exact ⟨_, _, .unlock _ _, .inl rfl, fun _ => trivial, fun _ => rfl, fun _ => nofun⟩

variable [DecidableEq Thread] [DecidableEq SinkId] {customClone : γ → γ}

/-- Some thread that is in a call makes a step. -/
def Progresses (localtimeR : Int → Tm) (customFormat : γ → LogMessage → List UInt8) (customClone : γ → γ)
    (mainLogger : Logger SinkId) (kind : SinkId → SinkKind) (s : LogSystem Thread SinkId γ) : Prop :=
  ∃ t effect s', Step localtimeR customFormat customClone mainLogger kind s (some (t, effect)) s' ∧
    (spent effect = 1 ∨ effect = .abort)

theorem Next.progresses {s : LogSystem Thread SinkId γ} {t : Thread} {frame : LogFrame SinkId}
    {below frames' : List (LogFrame SinkId)} {effect : LogEffect SinkId}
    (h : Next mainLogger kind localtimeR customFormat s frame below effect frames') (hrunning : s.aborted = false)
    (hframes : s.frames t = frame :: below) (hfree : ∀ i, effect.acquires = some i → (s.sinks i).mutex = none) :
    Progresses localtimeR customFormat customClone mainLogger kind s :=
  ⟨t, effect, _, .thread s t effect frames' hrunning (hframes ▸ h.isLocal) (h.waits hfree), h.isOwn⟩

theorem inSink_progresses {s : LogSystem Thread SinkId γ} (hrunning : s.aborted = false) {t : Thread}
    {frame : LogFrame SinkId} {below : List (LogFrame SinkId)} {i : SinkId} (hframes : s.frames t = frame :: below)
    (hframe : frame.holds = some i) : Progresses localtimeR customFormat customClone mainLogger kind s := by
  obtain ⟨effect, frames', hnext⟩ := @exists_next _ _ _ mainLogger kind localtimeR customFormat s frame below
  refine hnext.progresses hrunning hframes fun j hj => ?_
  rw [hnext.holds (by simp [hframe])] at hj
  cases hj

/-- The thread that holds a sink which is not bad is in it. -/
theorem holder_progresses {s : LogSystem Thread SinkId γ} (hs : Exclusive s) (hrunning : s.aborted = false)
    {t : Thread} (hshape : Shape mainLogger kind (s.frames t)) {i : SinkId} (hi : kind i ≠ .file false)
    (hmutex : (s.sinks i).mutex = some t) : Progresses localtimeR customFormat customClone mainLogger kind s := by
  have hmem := (hs.held i t).mp hmutex
  generalize hframes : s.frames t = frames at hshape hmem
  cases hshape with
  | idle => simp [locks] at hmem
  | base frame hbase => simp [locks, hbase] at hmem
  | inSink frame j base hframe hbase => exact inSink_progresses hrunning hframes hframe
  | nestedSink sink j frame k base hsink => exact inSink_progresses hrunning hframes hsink
  | nested frame j base hframe hbad hbase =>
      have hholds : frame.holds = none := by cases hframe <;> rfl
      rw [locks, List.filterMap_cons_none hholds, List.filterMap_cons_some (by rfl), List.filterMap_cons_none hbase,
        List.filterMap_nil, List.mem_singleton] at hmem
      exact absurd hbad (hmem ▸ hi)

/-- A thread in a call goes on, or who holds the mutex that it waits for, or who holds the
one that this waits for. -/
theorem Shape.progresses {s : LogSystem Thread SinkId γ} (hs : Exclusive s) (hrunning : s.aborted = false)
    (hshape : ∀ t, Shape mainLogger kind (s.frames t)) {t : Thread} (ht : s.frames t ≠ []) :
    Progresses localtimeR customFormat customClone mainLogger kind s := by
  obtain ⟨frame, below, hframes⟩ := List.exists_cons_of_ne_nil ht
  obtain ⟨effect, frames', hnext⟩ := @exists_next _ _ _ mainLogger kind localtimeR customFormat s frame below
  by_cases hfree : ∀ i, effect.acquires = some i → (s.sinks i).mutex = none
  · exact hnext.progresses hrunning hframes hfree
  · push Not at hfree
    obtain ⟨i, hi, hheld⟩ := hfree
    obtain ⟨t', hmutex⟩ := Option.ne_none_iff_exists'.mp hheld
    by_cases hbad : kind i = .file false
    · -- the holder is within the bad sink, or in a call of the main logger that it has made
      have hmem := (hs.held i t').mp hmutex
      have hshape' := hshape t'
      generalize hframes' : s.frames t' = held at hshape' hmem
      cases hshape' with
      | idle => simp [locks] at hmem
      | base frame hbase => simp [locks, hbase] at hmem
      | inSink frame j base hframe hbase => exact inSink_progresses hrunning hframes' hframe
      | nestedSink sink j frame k base hsink => exact inSink_progresses hrunning hframes' hsink
      | nested frame j base hframe hbad' hbase =>
          obtain ⟨effect', frames'', hnext'⟩ :=
            @exists_next _ _ _ mainLogger kind localtimeR customFormat s frame [.unlock j, base]
          by_cases hfree' : ∀ k, effect'.acquires = some k → (s.sinks k).mutex = none
          · exact hnext'.progresses hrunning hframes' hfree'
          · push Not at hfree'
            obtain ⟨k, hk, hheld'⟩ := hfree'
            obtain ⟨t'', hmutex'⟩ := Option.ne_none_iff_exists'.mp hheld'
            exact holder_progresses hs hrunning (hshape t'') (hnext'.nested hframe k hk) hmutex'
    · exact holder_progresses hs hrunning (hshape t') hbad hmutex

end System

section Work

/-- The steps that a message of a bad sink may take. -/
def nestedWork (mainLogger : Logger SinkId) : Nat :=
  3 + 8 * mainLogger.loggerSinks.length

def sinkWork (mainLogger : Logger SinkId) (kind : SinkId → SinkKind) (i : SinkId) : Nat :=
  if kind i = .file false then 3 + nestedWork mainLogger else 5

/-- The steps that a call may still take. -/
def frameWork (mainLogger : Logger SinkId) (kind : SinkId → SinkKind) : LogFrame SinkId → Nat
  | .sinkIt logger message =>
      3 + total (sinkWork mainLogger kind) (logger.accepted message) + 3 * logger.loggerSinks.length
  | .sinking logger _ rest => 2 + total (sinkWork mainLogger kind) rest + 3 * logger.loggerSinks.length
  | .flushing _ rest | .patterning _ rest => 1 + 3 * rest.length
  | .doSink i _ => sinkWork mainLogger kind i - 1
  | .write _ _ _ => 3
  | .written _ _ | .doFlush _ | .setPattern _ _ => 2
  | .unlock _ => 1

def granted (mainLogger : Logger SinkId) (kind : SinkId → SinkKind) : LogEffect SinkId → Nat
  | .call logger message => frameWork mainLogger kind (.sinkIt logger message)
  | .callSetPattern logger pattern => frameWork mainLogger kind (.patterning pattern logger.loggerSinks)
  | _ => 0

variable {mainLogger : Logger SinkId} {kind : SinkId → SinkKind}

theorem total_sinkWork {sinks : List SinkId} (h : ∀ i ∈ sinks, kind i ≠ .file false) :
    total (sinkWork mainLogger kind) sinks = 5 * sinks.length := by
  induction sinks with
  | nil => rfl
  | cons i sinks ih =>
      rw [List.forall_mem_cons] at h
      rw [total, ih h.2, sinkWork, if_neg h.1, List.length_cons]
      omega

theorem length_accepted_le (logger : Logger SinkId) (message : LogMessage) :
    (logger.accepted message).length ≤ logger.loggerSinks.length := by
  unfold Logger.accepted
  split
  · rfl
  · exact Nat.zero_le _

theorem length_flushed_le (logger : Logger SinkId) (message : LogMessage) :
    (if logger.shouldFlush message then logger.loggerSinks else []).length ≤ logger.loggerSinks.length := by
  split
  · rfl
  · exact Nat.zero_le _

theorem nested_work_le (hsound : Sound mainLogger kind) {error : LogMessage} (hlevel : error.level = .error) :
    frameWork mainLogger kind (.sinkIt mainLogger error) ≤ nestedWork mainLogger := by
  have hgood : ∀ i ∈ mainLogger.accepted error, kind i ≠ .file false := by
    intro i hi
    by_cases hoff : mainLogger.loggerLevel = .off
    · simp [accepted_off hoff] at hi
    · exact hsound.accepted hlevel hoff hi
  have hlength := length_accepted_le mainLogger error
  simp only [frameWork, total_sinkWork hgood, nestedWork]
  omega

/-- Every step of a thread in its calls leaves less of them. -/
theorem Local.work (hsound : Sound mainLogger kind) {frames frames' : List (LogFrame SinkId)}
    {effect : LogEffect SinkId} (h : Local mainLogger kind frames effect frames') :
    total (frameWork mainLogger kind) frames' + spent effect ≤
      total (frameWork mainLogger kind) frames + granted mainLogger kind effect := by
  cases h with
  | call | callSetPattern => simp [total, spent, granted]
  | sink logger message i rest below =>
      have hpos : 0 < sinkWork mainLogger kind i := by
        unfold sinkWork
        split <;> omega
      simp only [total, frameWork, spent, granted]
      omega
  | sunk logger message below =>
      have hlength := length_flushed_le logger message
      simp only [total, frameWork, spent, granted]
      omega
  | doSinkNull i message below hkind =>
      have hwork : sinkWork mainLogger kind i = 5 := if_neg (by simp [hkind])
      simp only [total, frameWork, spent, granted, hwork]
      omega
  | format i message buffer below hkind =>
      have hwork : sinkWork mainLogger kind i = 5 := by
        refine if_neg ?_
        rcases hkind with h | h <;> simp [h]
      simp only [total, frameWork, spent, granted, hwork]
      omega
  | badSink i message error below hkind hlevel =>
      have hwork : sinkWork mainLogger kind i = 3 + nestedWork mainLogger := if_pos hkind
      have hnested := nested_work_le hsound hlevel
      have hunlock : frameWork mainLogger kind (.unlock i) = 1 := rfl
      have hdoSink : frameWork mainLogger kind (.doSink i message) = sinkWork mainLogger kind i - 1 := rfl
      simp only [total, spent, granted, hdoSink, hunlock, hwork]
      omega
  | _ =>
      simp only [total, frameWork, spent, granted, List.length_cons]
      omega

end Work

end Progress

section Runs

variable [DecidableEq Thread] [DecidableEq SinkId]
variable {localtimeR : Int → Tm} {customFormat : γ → LogMessage → List UInt8} {customClone : γ → γ}
variable {mainLogger : Logger SinkId} {kind : SinkId → SinkKind} {formatters : SinkId → LogFormatter γ}
variable {trace : List (Option (Thread × LogEffect SinkId))} {s : LogSystem Thread SinkId γ}

theorem Shape.of_run (hsound : Sound mainLogger kind)
    (h : Run (Step localtimeR customFormat customClone mainLogger kind) (initial formatters) trace s) (t : Thread) :
    Shape mainLogger kind (s.frames t) := by
  induction h with
  | stop => exact .idle
  | next _ taken ih =>
      cases taken with
      | drain => exact ih
      | thread t' effect frames hrunning hlocal =>
          by_cases htt : t = t'
          · subst htt
            simpa [setFrames] using ih.step hsound hlocal
          · simpa [setFrames, htt, apply_frames] using ih

/-- Unless a message of a bad sink may come to a bad sink, no call waits for ever: where
one is going on some thread makes a step, and no thread makes more of them than its own
calls ask for. -/
theorem logging_progress (hsound : Sound mainLogger kind)
    (h : Run (Step localtimeR customFormat customClone mainLogger kind) (initial formatters) trace s) :
    (∀ t, s.aborted = false → s.frames t ≠ [] →
      Progresses localtimeR customFormat customClone mainLogger kind s) ∧
      ∀ t, total spent (threadEffects t trace) + total (frameWork mainLogger kind) (s.frames t) ≤
        total (granted mainLogger kind) (threadEffects t trace) := by
  constructor
  · intro t hrunning ht
    exact Shape.progresses (Exclusive.of_run h) hrunning (fun t => Shape.of_run hsound h t) ht
  · intro t
    induction h with
    | stop => simp [threadEffects, initial, total]
    | next _ taken ih =>
        cases taken with
        | drain => simpa [threadEffects] using ih
        | thread t' effect frames hrunning hlocal =>
            by_cases htt : t' = t
            · subst htt
              have hwork := hlocal.work hsound
              rw [threadEffects_same, total_append, total_append]
              simp only [setFrames, Function.update_self, total]
              omega
            · rw [threadEffects_other htt]
              simpa [setFrames, Ne.symm htt, apply_frames] using ih

theorem logging_progress_hello :
    ∃ s : LogSystem Unit Unit Unit, total (granted helloLogger fun _ => .stdout) (threadEffects () helloTrace) ≥
      total spent (threadEffects () helloTrace) +
        total (frameWork helloLogger fun _ => .stdout) (s.frames ()) := by
  obtain ⟨s, hrun, -⟩ := hello_run
  have hsound : Sound helloLogger fun _ => .stdout := by
    intro error _ i _ h
    cases h
  exact ⟨s, (logging_progress hsound hrun).2 ()⟩

/-- A call that has come to the bad sink `i`, or is sure to, where the message of this sink
comes back to it. `below` are the calls around it. -/
inductive Fated (mainLogger : Logger SinkId) (i : SinkId) : LogFrame SinkId → List (LogFrame SinkId) → Prop
  | sinkIt (logger message below) (hon : logger.loggerLevel ≠ .off) (hi : i ∈ logger.accepted message) :
      Fated mainLogger i (.sinkIt logger message) below
  | sinking (logger message rest below) (hi : i ∈ rest) : Fated mainLogger i (.sinking logger message rest) below
  | doSink (message below) : Fated mainLogger i (.doSink i message) below
  | nested (error below) (hlevel : error.level = .error) (hheld : i ∈ locks below) :
      Fated mainLogger i (.sinkIt mainLogger error) below
  | nestedSinking (error rest below) (hlevel : error.level = .error) (hheld : i ∈ locks below)
      (hflush : mainLogger.shouldFlush error = true) (hi : i ∈ mainLogger.loggerSinks) :
      Fated mainLogger i (.sinking mainLogger error rest) below
  | nestedFlushing (error rest below) (hheld : i ∈ locks below) (hi : i ∈ rest) :
      Fated mainLogger i (.flushing error rest) below

/-- Such a call is among the calls of a thread. -/
def Doomed (mainLogger : Logger SinkId) (i : SinkId) (frames : List (LogFrame SinkId)) : Prop :=
  ∃ above frame below, frames = above ++ frame :: below ∧ Fated mainLogger i frame below

omit [DecidableEq Thread] [DecidableEq SinkId] in
/-- A step leaves the calls below the innermost one as they are. -/
theorem Local.suffix {frame : LogFrame SinkId} {below frames' : List (LogFrame SinkId)} {effect : LogEffect SinkId}
    (h : Local mainLogger kind (frame :: below) effect frames') : ∃ above, frames' = above ++ below := by
  cases hframe : frame.holds with
  | some i =>
      obtain ⟨frame', _, rfl⟩ | ⟨error, _, _, rfl⟩ | rfl := h.inside hframe
      · exact ⟨[_], rfl⟩
      · exact ⟨[_, _], rfl⟩
      · exact ⟨[], rfl⟩
  | none =>
      obtain ⟨frame', _, rfl⟩ | ⟨sink, frame', _, _, _, rfl⟩ | rfl := h.outside hframe
      · exact ⟨[_], rfl⟩
      · exact ⟨[_, _], rfl⟩
      · exact ⟨[], rfl⟩

omit [DecidableEq Thread] [DecidableEq SinkId] in
theorem Fated.doomed {i : SinkId} {frame : LogFrame SinkId} {below : List (LogFrame SinkId)}
    (h : Fated mainLogger i frame below) (above : List (LogFrame SinkId)) :
    Doomed mainLogger i (above ++ frame :: below) :=
  ⟨above, frame, below, rfl, h⟩

omit [DecidableEq Thread] [DecidableEq SinkId] in
theorem mem_locks_cons {i : SinkId} {below : List (LogFrame SinkId)} (frame : LogFrame SinkId)
    (h : i ∈ locks below) : i ∈ locks (frame :: below) := by
  obtain ⟨held, hheld, hi⟩ := List.mem_filterMap.mp h
  exact List.mem_filterMap.mpr ⟨held, List.mem_cons_of_mem _ hheld, hi⟩

omit [DecidableEq Thread] [DecidableEq SinkId] in
/-- The call of the innermost frame comes nearer to the sink that it will not get. -/
theorem Fated.step {i : SinkId} {frame : LogFrame SinkId} {below frames' : List (LogFrame SinkId)}
    {effect : LogEffect SinkId} (hbad : kind i = .file false)
    (htouched : ∀ error : LogMessage, error.level = .error → i ∈ touched mainLogger error)
    (hfated : Fated mainLogger i frame below) (h : Local mainLogger kind (frame :: below) effect frames')
    (hfree : effect.acquires = some i → i ∉ locks (frame :: below)) : Doomed mainLogger i frames' := by
  cases hfated with
  | sinkIt logger message below hon hi =>
      cases h with
      | off _ _ _ hoff => exact absurd hoff hon
      | enter => exact (Fated.sinking _ _ _ _ hi).doomed []
  | sinking logger message rest below hi =>
      cases h with
      | sink _ _ j rest =>
          rcases List.mem_cons.mp hi with rfl | hi
          · exact (Fated.doSink _ _).doomed []
          · exact (Fated.sinking _ _ _ _ hi).doomed [_]
      | sunk => cases hi
  | doSink message below =>
      cases h with
      | doSinkNull _ _ _ hkind => simp [hbad] at hkind
      | format _ _ _ _ hkind => simp [hbad] at hkind
      | badSink _ _ error _ _ hlevel =>
          refine (Fated.nested _ _ hlevel ?_).doomed []
          exact List.mem_filterMap.mpr ⟨_, List.mem_cons_self, rfl⟩
  | nested error below hlevel hheld =>
      have hi := htouched error hlevel
      cases h with
      | off _ _ _ hoff =>
          rw [touched, if_pos hoff] at hi
          cases hi
      | enter _ _ _ hon =>
          rw [touched, if_neg hon] at hi
          rcases List.mem_append.mp hi with hi | hi
          · exact (Fated.sinking _ _ _ _ hi).doomed []
          · split at hi
            · rename_i hflush
              exact (Fated.nestedSinking _ _ _ hlevel hheld hflush hi).doomed []
            · cases hi
  | nestedSinking error rest below hlevel hheld hflush hi =>
      cases h with
      | sink _ _ j rest => exact (Fated.nestedSinking _ _ _ hlevel hheld hflush hi).doomed [_]
      | sunk =>
          rw [if_pos hflush]
          exact (Fated.nestedFlushing _ _ _ hheld hi).doomed []
  | nestedFlushing error rest below hheld hi =>
      cases h with
      | flush _ j rest =>
          rcases List.mem_cons.mp hi with rfl | hi
          · -- the thread itself has the mutex
            exact absurd (mem_locks_cons _ hheld) (hfree rfl)
          · exact (Fated.nestedFlushing _ _ _ hheld hi).doomed [_]
      | returns => cases hi
      | abort => cases hi

omit [DecidableEq Thread] [DecidableEq SinkId] in
theorem Doomed.step {i : SinkId} {frames frames' : List (LogFrame SinkId)} {effect : LogEffect SinkId}
    (hbad : kind i = .file false)
    (htouched : ∀ error : LogMessage, error.level = .error → i ∈ touched mainLogger error)
    (hdoomed : Doomed mainLogger i frames) (h : Local mainLogger kind frames effect frames')
    (hfree : effect.acquires = some i → i ∉ locks frames) : Doomed mainLogger i frames' := by
  obtain ⟨above, frame, below, rfl, hfated⟩ := hdoomed
  cases above with
  | nil => exact hfated.step hbad htouched h hfree
  | cons top above =>
      obtain ⟨above', rfl⟩ := h.suffix
      exact ⟨above' ++ above, frame, below, (List.append_assoc _ _ _).symm, hfated⟩

/-- A sink whose file was not opened says so in the main logger, under its own mutex: if
that message comes to the sink again, no call that gets to the sink ever returns. -/
theorem bad_sink_hangs {i : SinkId} (hbad : kind i = .file false)
    (htouched : ∀ error : LogMessage, error.level = .error → i ∈ touched mainLogger error)
    {before after : List (Option (Thread × LogEffect SinkId))} {t : Thread} {logger : Logger SinkId}
    {message : LogMessage} (hon : logger.loggerLevel ≠ .off) (hi : i ∈ logger.accepted message)
    (h : Run (Step localtimeR customFormat customClone mainLogger kind) (initial formatters)
      (before ++ some (t, .call logger message) :: after) s) : s.frames t ≠ [] := by
  obtain ⟨mid, hbefore, hrest⟩ := run_append_iff.mp h
  obtain ⟨called, hcall, hafter⟩ := run_cons_iff.mp hrest
  have hcalled := hbefore.next hcall
  suffices hdoomed : Doomed mainLogger i (s.frames t) by
    obtain ⟨above, frame, below, hframes, _⟩ := hdoomed
    simp [hframes]
  clear h hrest
  induction hafter with
  | stop =>
      cases hcall with
      | thread _ _ frames _ hlocal =>
          generalize mid.frames t = frames' at hlocal
          cases hlocal with
          | call =>
              simp only [setFrames, Function.update_self]
              exact (Fated.sinkIt _ _ _ hon hi).doomed []
  | next run taken ih =>
      have hs := Exclusive.of_run (hcalled.append run)
      cases taken with
      | drain => exact ih
      | thread t' effect frames hrunning hlocal henabled =>
          by_cases htt : t = t'
          · subst htt
            simp only [setFrames, Function.update_self]
            refine ih.step hbad htouched hlocal fun hacquires => ?_
            exact hs.not_mem (by simp [henabled.mutex hacquires])
          · simpa [setFrames, htt, apply_frames] using ih

def unopened (_ : Unit) : SinkKind := .file false

theorem bad_sink_hangs_hello : ∃ s : LogSystem Unit Unit Unit,
    Run (Step gregorianTm (fun _ _ => []) id helloLogger unopened) (initial fun _ => helloFormatter)
      [some ((), .call helloLogger helloMessage)] s ∧ s.frames () ≠ [] := by
  have hcall : ∃ s : LogSystem Unit Unit Unit, Step gregorianTm (fun _ _ => []) id helloLogger unopened
      (initial fun _ => helloFormatter) (some ((), .call helloLogger helloMessage)) s :=
    ⟨_, .thread _ () _ _ rfl (.call _ _) trivial⟩
  obtain ⟨s, hcall⟩ := hcall
  have htouched (error : LogMessage) (hlevel : error.level = .error) : () ∈ touched helloLogger error := by
    simp [touched, helloLogger, Logger.accepted, hlevel, LogLevel.index]
  have haccepted : () ∈ helloLogger.accepted helloMessage := by
    simp [helloLogger, helloMessage, Logger.accepted, LogLevel.index]
  have hon : helloLogger.loggerLevel ≠ .off := by decide
  have hbad : unopened () = .file false := rfl
  have hrun := run_append_iff.mpr ⟨_, Run.stop, Run.single hcall⟩
  exact ⟨s, hrun, bad_sink_hangs hbad htouched hon haccepted hrun⟩

end Runs

end LogSystem

end Libcold
