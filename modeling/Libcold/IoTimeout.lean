import Mathlib.Tactic.Common

namespace Libcold

/-- The phases of an iteration of `IoService::Start` that resume coroutines. -/
inductive LoopPhase
  | pendingTasks
  | timers
  | io
  deriving DecidableEq

/-- The inner task that `IoTimeoutAwaitable` makes of an operation. -/
inductive InnerTask
  | created
  | suspended
  | finished
  deriving DecidableEq

/-- A task given to `CoSpawn`: in the vector of the service, in that of the
iteration, at its `co_await`, or at its end. -/
inductive SpawnedTask
  | queued
  | taken
  | awaiting
  | finished
  deriving DecidableEq

/-- The timer: in the queue, among the due tasks of the iteration, or done with. -/
inductive TimerTask
  | armed
  | collected
  | ran
  | cancelled
  deriving DecidableEq

inductive AwaitResult
  | value
  | timedOut
  | notConnected
  deriving DecidableEq

inductive AwaitEvent (Effect : Type)
  | timerRan
  | outerResumed (result : AwaitResult)
  | resumedAfterEnd
  | effect (e : Effect)
  deriving DecidableEq

/-- One `co_await` of an `IoTimeoutAwaitable`, from the end of its
`await_suspend`. `wrapper` is the task that awaits the inner one. -/
structure TimedAwait where
  phase : LoopPhase
  inner : InnerTask := .created
  wrapper : SpawnedTask := .queued
  timer : TimerTask := .armed
  timeout : Bool := false
  deriving DecidableEq

namespace TimedAwait

/-- `Timer::Cancel`, which finds nothing to cancel once the task was collected. -/
def cancel : TimerTask → TimerTask
  | .armed => .cancelled
  | t => t

def swapTask : SpawnedTask → SpawnedTask
  | .queued => .taken
  | t => t

def swap (s : TimedAwait) : TimedAwait := { s with phase := .pendingTasks, wrapper := swapTask s.wrapper }

def handleTimeout (s : TimedAwait) (due : Bool) : TimedAwait :=
  { s with phase := .timers, timer := if s.timer = .armed ∧ due = true then .collected else s.timer }

def watchIo (s : TimedAwait) : TimedAwait := { s with phase := .io }

def startTask (s : TimedAwait) : TimedAwait := { s with wrapper := .awaiting }

def runTimer (s : TimedAwait) : TimedAwait := { s with timer := .ran, timeout := true }

def suspend (s : TimedAwait) : TimedAwait := { s with inner := .suspended }

/-- The inner task has its value: it resumes the outer coroutine, whose
`await_resume` cancels the timer unless it ran, and then whoever awaits it. -/
def complete (s : TimedAwait) : TimedAwait where
  phase := s.phase
  inner := .finished
  wrapper := if s.wrapper = .awaiting then .finished else s.wrapper
  timer := if s.timeout then s.timer else cancel s.timer
  timeout := s.timeout

inductive Stage
  | spawned
  | waiting
  | overtaken
  | ended

/-- The parts of the await at a stage: before the inner task was started, while
it waits, while it waits after the timer has started it, and at its end. -/
def At (s : TimedAwait) : Stage → Prop
  | .spawned => s.inner = .created ∧ (s.wrapper = .queued ∨ s.wrapper = .taken) ∧
      (s.timer = .armed ∨ s.timer = .collected) ∧ s.timeout = false
  | .waiting => s.inner = .suspended ∧ s.wrapper = .awaiting ∧
      (s.timer = .armed ∨ s.timer = .collected) ∧ s.timeout = false
  | .overtaken => s.inner = .suspended ∧ (s.wrapper = .queued ∨ s.wrapper = .taken) ∧
      s.timer = .ran ∧ s.timeout = true
  | .ended => s.inner = .finished ∧ s.wrapper = .finished ∧ (s.timer = .cancelled ∨ s.timer = .ran)

/-- Due tasks are run before the phase ends. -/
def Collected (s : TimedAwait) : Prop := s.timer = .collected → s.phase = .timers

section

variable {s : TimedAwait} {stage : Stage}

theorem At.swap (h : s.At stage) : s.swap.At stage := by
  cases stage with
  | spawned | overtaken =>
      obtain ⟨hinner, hwrapper, htimer⟩ := h
      refine ⟨hinner, .inr ?_, htimer⟩
      rcases hwrapper with hwrapper | hwrapper <;> simp [TimedAwait.swap, swapTask, hwrapper]
  | waiting | ended =>
      obtain ⟨hinner, hwrapper, htimer⟩ := h
      exact ⟨hinner, by simp [TimedAwait.swap, swapTask, hwrapper], htimer⟩

theorem At.handleTimeout (h : s.At stage) (due : Bool) : (s.handleTimeout due).At stage := by
  cases stage with
  | spawned | waiting =>
      obtain ⟨hinner, hwrapper, htimer, htimeout⟩ := h
      refine ⟨hinner, hwrapper, ?_, htimeout⟩
      by_cases hdue : s.timer = .armed ∧ due = true
      · exact .inr (if_pos hdue)
      · simpa [TimedAwait.handleTimeout, hdue] using htimer
  | overtaken =>
      obtain ⟨hinner, hwrapper, htimer, htimeout⟩ := h
      exact ⟨hinner, hwrapper, by simp [TimedAwait.handleTimeout, htimer], htimeout⟩
  | ended =>
      obtain ⟨hinner, hwrapper, htimer⟩ := h
      refine ⟨hinner, hwrapper, ?_⟩
      rcases htimer with htimer | htimer <;> simp [TimedAwait.handleTimeout, htimer]

theorem At.watchIo (h : s.At stage) : s.watchIo.At stage := by cases stage <;> exact h

theorem At.complete (h : s.At .waiting) (hcollected : s.timer ≠ .collected) : s.complete.At .ended := by
  obtain ⟨-, hwrapper, htimer, htimeout⟩ := h
  refine ⟨rfl, if_pos hwrapper, .inl ?_⟩
  simp [TimedAwait.complete, htimeout, htimer.resolve_right hcollected, cancel]

theorem At.start (h : s.At .spawned) : s.startTask.suspend.At .waiting := by
  obtain ⟨-, -, htimer, htimeout⟩ := h
  exact ⟨rfl, rfl, htimer, htimeout⟩

theorem At.timeout (h : s.At .waiting) : s.runTimer.complete.At .ended := by
  obtain ⟨-, hwrapper, -⟩ := h
  exact ⟨rfl, if_pos hwrapper, .inr rfl⟩

theorem At.overtake (h : s.At .spawned) : s.runTimer.suspend.At .overtaken := by
  obtain ⟨-, hwrapper, -⟩ := h
  exact ⟨rfl, hwrapper, rfl, rfl⟩

theorem At.late (h : s.At .overtaken) : s.startTask.complete.At .ended := by
  obtain ⟨-, -, htimer, htimeout⟩ := h
  exact ⟨rfl, rfl, .inr (by simp [TimedAwait.complete, TimedAwait.startTask, htimeout, htimer])⟩

end

end TimedAwait

section

variable {Effect : Type} {before history after : List (AwaitEvent Effect)} {result result' : AwaitResult}

/-- The results with which the outer coroutine was resumed. -/
def resumptions (history : List (AwaitEvent Effect)) : List AwaitResult :=
  history.filterMap fun
    | .outerResumed result => some result
    | _ => none

/-- Nothing has come of the await yet. -/
structure Quiet (history : List (AwaitEvent Effect)) : Prop where
  notResumed : ∀ result, .outerResumed result ∉ history
  notAfterEnd : .resumedAfterEnd ∉ history

theorem Quiet.append (h : Quiet before) (h' : Quiet after) : Quiet (before ++ after) where
  notResumed result hmem := (List.mem_append.mp hmem).elim (h.notResumed result) (h'.notResumed result)
  notAfterEnd hmem := (List.mem_append.mp hmem).elim h.notAfterEnd h'.notAfterEnd

theorem Quiet.resumptions (h : Quiet history) : resumptions history = [] := by
  rw [Libcold.resumptions, List.filterMap_eq_nil_iff]
  intro e he
  cases e with
  | outerResumed result => exact absurd he (h.notResumed result)
  | timerRan | resumedAfterEnd | effect => rfl

theorem Quiet.once (h : Quiet history) (result : AwaitResult) :
    (Libcold.resumptions (history ++ [.outerResumed result])).length ≤ 1 := by
  have hnil := h.resumptions
  rw [Libcold.resumptions] at hnil ⊢
  rw [List.filterMap_append, hnil]
  simp

theorem Quiet.never_after_end (h : Quiet history) (result : AwaitResult) :
    .resumedAfterEnd ∉ history ++ [.outerResumed result] := by
  intro hmem
  rcases List.mem_append.mp hmem with hmem | hmem
  · exact h.notAfterEnd hmem
  · cases List.mem_singleton.mp hmem

theorem Quiet.resumption (h : Quiet history)
    (heq : history ++ [.outerResumed result] = before ++ .outerResumed result' :: after) :
    history = before ∧ result = result' ∧ after = [] := by
  rcases List.append_eq_append_iff.mp heq with ⟨middle, rfl, hmiddle⟩ | ⟨middle, rfl, hmiddle⟩
  · cases middle with
    | nil =>
        simp only [List.nil_append, List.cons.injEq, AwaitEvent.outerResumed.injEq] at hmiddle
        exact ⟨(List.append_nil _).symm, hmiddle.1, hmiddle.2.symm⟩
    | cons e rest => simp at hmiddle
  · cases middle with
    | nil =>
        simp only [List.nil_append, List.cons.injEq, AwaitEvent.outerResumed.injEq] at hmiddle
        exact ⟨List.append_nil _, hmiddle.1.symm, hmiddle.2⟩
    | cons e rest =>
        simp only [List.cons_append, List.cons.injEq] at hmiddle
        exact absurd (hmiddle.1 ▸ List.mem_append_right before List.mem_cons_self) (h.notResumed result')

end

end Libcold
