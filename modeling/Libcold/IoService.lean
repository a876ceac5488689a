import Libcold.Platform
import Libcold.Runs
import Mathlib.Logic.Function.Basic
import Mathlib.Data.List.Infix

namespace Libcold

open Runs

variable {Thread Task : Type} [DecidableEq Thread]

inductive StartPc
  | outside
  | head
  | lock
  | swap
  | unlock
  | start
  | timers
  | epollWait
  | handleWakeUp
  | io
  deriving DecidableEq

/-- The control points of `AddTask` and `Stop` in the thread that calls them. -/
inductive CallPc (Task : Type)
  | idle
  | lock (task : Task)
  | push (task : Task)
  | write
  | unlock
  | stopWrite

/-- The service, with the local vector of `Start` and the counter of the eventfd.
The thread `none` is the one that runs `Start`; the coroutines resumed there
make their calls in it. -/
structure IoService (Thread Task : Type) where
  pc : StartPc := .outside
  running : Bool := false
  tasks : List Task := []
  pendingTasks : List Task := []
  mutexForPendingTasks : Option (Option Thread) := none
  wakeUpCounter : Nat := 0
  calls : Option Thread → CallPc Task := fun _ => .idle

inductive TaskEvent (Task : Type)
  | pushed (task : Task)
  | started (task : Task)
  | other

/-- Adding to the counter of an eventfd fails when it would exceed its bound. -/
@[irreducible] def eventfdWrite (counter value : Nat) : Nat :=
  if counter + value ≤ wordModulus - 2 then counter + value else counter

theorem eventfdWrite_pos (counter : Nat) : 0 < eventfdWrite counter 666 := by
  rw [eventfdWrite, wordModulus]
  by_cases h : counter + 666 ≤ 2 ^ 64 - 2
  · rw [if_pos h]
    omega
  · rw [if_neg h]
    omega

namespace IoService

/-- Where the thread of `Start` can make calls: outside of it, and in the phases
that resume coroutines. -/
def StartPc.callable : StartPc → Bool
  | .outside | .start | .timers | .io => true
  | _ => false

def goto (s : IoService Thread Task) (pc : StartPc) : IoService Thread Task := { s with pc }

def setCall (s : IoService Thread Task) (t : Option Thread) (c : CallPc Task) : IoService Thread Task :=
  { s with calls := Function.update s.calls t c }

def wakeUp (s : IoService Thread Task) : IoService Thread Task :=
  { s with wakeUpCounter := eventfdWrite s.wakeUpCounter 666 }

/-- A thread that may begin a call. -/
def MayCall (s : IoService Thread Task) (t : Option Thread) : Prop :=
  s.calls t = .idle ∧ (t = none → StartPc.callable s.pc)

/-- The steps of `Start`. None is taken while a coroutine resumed there makes a call. -/
inductive LoopStep : IoService Thread Task → TaskEvent Task → IoService Thread Task → Prop
  | enter (s) (hpc : s.pc = .outside) (hrunning : s.running = false) :
      LoopStep s .other { s with pc := .head, running := true }
  | leave (s) (hpc : s.pc = .head) (hrunning : s.running = false) : LoopStep s .other (s.goto .outside)
  | iterate (s) (hpc : s.pc = .head) (hrunning : s.running = true) :
      LoopStep s .other { s with pc := .lock, tasks := [] }
  | lock (s) (hpc : s.pc = .lock) (hmutex : s.mutexForPendingTasks = none) :
      LoopStep s .other { s with pc := .swap, mutexForPendingTasks := some none }
  | swap (s) (hpc : s.pc = .swap) :
      LoopStep s .other { s with pc := .unlock, tasks := s.pendingTasks, pendingTasks := s.tasks }
  | unlock (s) (hpc : s.pc = .unlock) :
      LoopStep s .other { s with pc := .start, mutexForPendingTasks := none }
  | startTask (s) (task) (rest) (hpc : s.pc = .start) (htasks : s.tasks = task :: rest) :
      LoopStep s (.started task) { s with tasks := rest }
  | clear (s) (hpc : s.pc = .start) (htasks : s.tasks = []) : LoopStep s .other (s.goto .timers)
  | handleTimeout (s) (hpc : s.pc = .timers) : LoopStep s .other (s.goto .epollWait)
  | epollWake (s) (hpc : s.pc = .epollWait) (hcounter : 0 < s.wakeUpCounter) :
      LoopStep s .other (s.goto .handleWakeUp)
  | epollOther (s) (hpc : s.pc = .epollWait) : LoopStep s .other (s.goto .io)
  | handleWakeUp (s) (hpc : s.pc = .handleWakeUp) : LoopStep s .other { s with pc := .io, wakeUpCounter := 0 }
  | again (s) (hpc : s.pc = .io) : LoopStep s .other (s.goto .head)

inductive CallStep (t : Option Thread) : IoService Thread Task → TaskEvent Task → IoService Thread Task → Prop
  | addTask (s) (task) (hcall : s.MayCall t) : CallStep t s .other (s.setCall t (.lock task))
  | lock (s) (task) (hcall : s.calls t = .lock task) (hmutex : s.mutexForPendingTasks = none) :
      CallStep t s .other { s.setCall t (.push task) with mutexForPendingTasks := some t }
  | push (s) (task) (hcall : s.calls t = .push task) :
      CallStep t s (.pushed task) { s.setCall t .write with pendingTasks := s.pendingTasks ++ [task] }
  | write (s) (hcall : s.calls t = .write) :
      CallStep t s .other (s.setCall t .unlock).wakeUp
  | unlock (s) (hcall : s.calls t = .unlock) :
      CallStep t s .other { s.setCall t .idle with mutexForPendingTasks := none }
  | stop (s) (hcall : s.MayCall t) : CallStep t s .other { s.setCall t .stopWrite with running := false }
  | stopWrite (s) (hcall : s.calls t = .stopWrite) :
      CallStep t s .other (s.setCall t .idle).wakeUp

inductive Step : IoService Thread Task → TaskEvent Task → IoService Thread Task → Prop
  | loop {s e s'} (hcall : s.calls none = .idle) (h : LoopStep s e s') : Step s e s'
  | call {s e s'} (t) (h : CallStep t s e s') : Step s e s'

def pushedTasks (trace : List (TaskEvent Task)) : List Task :=
  trace.filterMap fun
    | .pushed task => some task
    | _ => none

def startedTasks (trace : List (TaskEvent Task)) : List Task :=
  trace.filterMap fun
    | .started task => some task
    | _ => none

/-- From the swap to the end of `epoll_wait`. -/
def StartPc.swapped : StartPc → Bool
  | .unlock | .start | .timers | .epollWait => true
  | _ => false

/-- The section that a call executes under the mutex. -/
def CallPc.locked : CallPc Task → Bool
  | .push _ | .write | .unlock => true
  | _ => false

structure Inv (trace : List (TaskEvent Task)) (s : IoService Thread Task) : Prop where
  order : pushedTasks trace = startedTasks trace ++ (s.tasks ++ s.pendingTasks)
  cleared : s.tasks ≠ [] → s.pc = .unlock ∨ s.pc = .start
  loopIdle : StartPc.callable s.pc = false → s.calls none = .idle
  loopHolder : s.pc = .swap ∨ s.pc = .unlock → s.mutexForPendingTasks = some none
  holder : ∀ t, CallPc.locked (s.calls t) → s.mutexForPendingTasks = some t
  signal : StartPc.swapped s.pc → s.pendingTasks ≠ [] →
    0 < s.wakeUpCounter ∨ ∃ t, s.calls t = .write

@[simp] theorem pushedTasks_snoc (trace : List (TaskEvent Task)) (e : TaskEvent Task) :
    pushedTasks (trace ++ [e]) = pushedTasks trace ++ pushedTasks [e] := List.filterMap_append

@[simp] theorem startedTasks_snoc (trace : List (TaskEvent Task)) (e : TaskEvent Task) :
    startedTasks (trace ++ [e]) = startedTasks trace ++ startedTasks [e] := List.filterMap_append

omit [DecidableEq Thread] in
/-- A step of the loop that touches no task and leaves the mutex alone. -/
theorem Inv.goto {trace : List (TaskEvent Task)} {s : IoService Thread Task} (h : Inv trace s)
    (hcall : s.calls none = .idle) (htasks : s.tasks = []) (pc : StartPc) (running : Bool) (counter : Nat)
    (hpc : pc ≠ .swap ∧ pc ≠ .unlock)
    (hsignal : StartPc.swapped pc → StartPc.swapped s.pc ∧ counter = s.wakeUpCounter) :
    Inv (trace ++ [.other]) { s with pc, running, wakeUpCounter := counter } where
  order := by simpa [pushedTasks, startedTasks] using h.order
  cleared := absurd htasks
  loopIdle _ := hcall
  loopHolder hheld := by simp [hpc] at hheld
  holder := h.holder
  signal hsw := by
    obtain ⟨hpc', rfl⟩ := hsignal hsw
    exact h.signal hpc'

omit [DecidableEq Thread] in
theorem Inv.tasks_nil {trace : List (TaskEvent Task)} {s : IoService Thread Task} (h : Inv trace s)
    (hpc : s.pc ≠ .unlock ∧ s.pc ≠ .start) : s.tasks = [] := by
  by_contra hne
  rcases h.cleared hne with hunlock | hstart
  · exact hpc.1 hunlock
  · exact hpc.2 hstart

omit [DecidableEq Thread] in
theorem start_inv : Inv [] ({} : IoService Thread Task) where
  order := rfl
  cleared h := absurd rfl h
  loopIdle _ := rfl
  loopHolder h := by simp at h
  holder t h := by cases h
  signal h := by cases h

omit [DecidableEq Thread] in
theorem loopStep_inv {trace : List (TaskEvent Task)} {s s' : IoService Thread Task} {e : TaskEvent Task}
    (hs : Inv trace s) (hcall : s.calls none = .idle) (h : LoopStep s e s') : Inv (trace ++ [e]) s' := by
  have hnil (hpc : s.pc ≠ .unlock ∧ s.pc ≠ .start) := hs.tasks_nil hpc
  cases h with
  | enter hpc | leave hpc | epollWake hpc | epollOther hpc | handleWakeUp hpc | again hpc =>
      exact hs.goto hcall (hnil (by simp [hpc])) _ _ _ (by simp) (fun hsw => by cases hsw)
  | iterate hpc =>
      have htasks := hnil (by simp [hpc])
      simpa [← htasks] using hs.goto hcall htasks .lock _ _ (by simp) (fun hsw => by cases hsw)
  | clear hpc htasks => exact hs.goto hcall htasks _ _ _ (by simp) (fun _ => ⟨by rw [hpc]; rfl, rfl⟩)
  | handleTimeout hpc =>
      exact hs.goto hcall (hnil (by simp [hpc])) _ _ _ (by simp) (fun _ => ⟨by rw [hpc]; rfl, rfl⟩)
  | lock hpc hmutex =>
      refine ⟨by simpa [pushedTasks, startedTasks] using hs.order, absurd (hnil (by simp [hpc])), fun _ => hcall,
        fun _ => rfl, fun t ht => ?_, fun hsw => by cases hsw⟩
      have hheld := hs.holder t ht
      rw [hmutex] at hheld
      cases hheld
  | swap hpc =>
      have htasks := hnil (by simp [hpc])
      refine ⟨?_, fun _ => .inl rfl, fun _ => hcall, fun _ => hs.loopHolder (.inl hpc), hs.holder,
        fun _ hne => absurd htasks hne⟩
      simpa [pushedTasks, startedTasks, htasks] using hs.order
  | unlock hpc =>
      refine ⟨by simpa [pushedTasks, startedTasks] using hs.order, fun _ => .inr rfl, fun _ => hcall,
        fun hheld => by simp at hheld, fun t ht => ?_, fun _ => hs.signal (by rw [hpc]; rfl)⟩
      -- the loop holds the mutex here, and makes no call
      have hheld := hs.holder t ht
      rw [hs.loopHolder (.inr hpc)] at hheld
      cases hheld
      simp [hcall, CallPc.locked] at ht
  | startTask task rest hpc htasks =>
      refine ⟨?_, fun _ => .inr hpc, hs.loopIdle, hs.loopHolder, hs.holder, hs.signal⟩
      simpa [pushedTasks, startedTasks, htasks] using hs.order

/-- A thread that may call, or is in a call, is the one of `Start` only where that one may call. -/
theorem Inv.calls_none {trace : List (TaskEvent Task)} {s : IoService Thread Task} (h : Inv trace s)
    {t : Option Thread} (hcall : s.MayCall t ∨ s.calls t ≠ .idle) (c : CallPc Task)
    (hpc : StartPc.callable s.pc = false) : Function.update s.calls t c none = .idle := by
  have hidle := h.loopIdle hpc
  by_cases ht : t = none
  · subst t
    rcases hcall with hmay | hbusy
    · simp [hmay.2 rfl] at hpc
    · exact absurd hidle hbusy
  · rw [Function.update_of_ne (Ne.symm ht), hidle]

theorem Inv.holder_update {trace : List (TaskEvent Task)} {s : IoService Thread Task} (h : Inv trace s)
    {t : Option Thread} {c : CallPc Task} (hc : CallPc.locked c → s.mutexForPendingTasks = some t) (u : Option Thread)
    (hu : CallPc.locked (Function.update s.calls t c u)) : s.mutexForPendingTasks = some u := by
  by_cases hut : u = t
  · subst u
    exact hc (by simpa using hu)
  · exact h.holder u (by simpa [hut] using hu)

theorem Inv.signal_update {trace : List (TaskEvent Task)} {s : IoService Thread Task} (h : Inv trace s)
    {t : Option Thread} (c : CallPc Task) (ht : s.calls t ≠ .write) (hsw : StartPc.swapped s.pc)
    (hne : s.pendingTasks ≠ []) : 0 < s.wakeUpCounter ∨ ∃ u, Function.update s.calls t c u = .write := by
  rcases h.signal hsw hne with hpos | ⟨u, hu⟩
  · exact .inl hpos
  · have hut : u ≠ t := by
      rintro rfl
      exact ht hu
    exact .inr ⟨u, by rw [Function.update_of_ne hut, hu]⟩

theorem callStep_inv {trace : List (TaskEvent Task)} {s s' : IoService Thread Task} {e : TaskEvent Task}
    {t : Option Thread} (hs : Inv trace s) (h : CallStep t s e s') : Inv (trace ++ [e]) s' := by
  have horder : pushedTasks (trace ++ [.other]) = startedTasks (trace ++ [.other]) ++ (s.tasks ++ s.pendingTasks) := by
    simpa [pushedTasks, startedTasks] using hs.order
  cases h with
  | addTask task hcall =>
      exact ⟨horder, hs.cleared, hs.calls_none (.inl hcall) _, hs.loopHolder,
        hs.holder_update (fun hc => by cases hc), hs.signal_update _ (by simp [hcall.1])⟩
  | stop hcall =>
      exact ⟨horder, hs.cleared, hs.calls_none (.inl hcall) _, hs.loopHolder,
        hs.holder_update (fun hc => by cases hc), hs.signal_update _ (by simp [hcall.1])⟩
  | lock task hcall hmutex =>
      refine ⟨horder, hs.cleared, hs.calls_none (.inr (by simp [hcall])) _, fun hpc => ?_, fun u hu => ?_,
        hs.signal_update _ (by simp [hcall])⟩
      · have hheld := hs.loopHolder hpc
        rw [hmutex] at hheld
        cases hheld
      · by_cases hut : u = t
        · rw [hut]
        · have hheld := hs.holder u (by simpa [setCall, hut] using hu)
          rw [hmutex] at hheld
          cases hheld
  | push task hcall =>
      refine ⟨?_, hs.cleared, hs.calls_none (.inr (by simp [hcall])) _, hs.loopHolder,
        hs.holder_update (fun _ => hs.holder t (by rw [hcall]; rfl)), fun _ _ => .inr ⟨t, by simp [setCall]⟩⟩
      have hpush := congrArg (· ++ [task]) hs.order
      simpa [pushedTasks, startedTasks, setCall] using hpush
  | write hcall =>
      exact ⟨horder, hs.cleared, hs.calls_none (.inr (by simp [hcall])) _, hs.loopHolder,
        hs.holder_update (fun _ => hs.holder t (by rw [hcall]; rfl)), fun _ _ => .inl (eventfdWrite_pos _)⟩
  | unlock hcall =>
      have hheld := hs.holder t (by rw [hcall]; rfl)
      refine ⟨horder, hs.cleared, hs.calls_none (.inr (by simp [hcall])) _, fun hpc => ?_, fun u hu => ?_,
        hs.signal_update _ (by simp [hcall])⟩
      · -- the thread of `Start` makes no call while it holds the mutex
        have hidle := hs.loopIdle (by rcases hpc with hpc | hpc <;> exact hpc ▸ rfl)
        have hloop := hs.loopHolder hpc
        rw [hheld] at hloop
        cases hloop
        rw [hcall] at hidle
        cases hidle
      · by_cases hut : u = t
        · subst u
          simp [setCall, CallPc.locked] at hu
        · have hother := hs.holder u (by simpa [setCall, hut] using hu)
          rw [hheld] at hother
          cases hother
          exact absurd rfl hut
  | stopWrite hcall =>
      exact ⟨horder, hs.cleared, hs.calls_none (.inr (by simp [hcall])) _, hs.loopHolder,
        hs.holder_update (fun hc => by cases hc), fun _ _ => .inl (eventfdWrite_pos _)⟩

theorem step_inv {trace : List (TaskEvent Task)} {s s' : IoService Thread Task} {e : TaskEvent Task}
    (hs : Inv trace s) (h : Step s e s') : Inv (trace ++ [e]) s' := by
  cases h with
  | loop hcall h => exact loopStep_inv hs hcall h
  | call t h => exact callStep_inv hs h

theorem run_inv {trace : List (TaskEvent Task)} {s : IoService Thread Task} (h : Run Step {} trace s) : Inv trace s :=
  h.invariant start_inv fun _ _ _ _ hs hstep => step_inv hs hstep

/-- No interleaving strands a task, starts one twice or starts them out of order. -/
theorem submission_loses_nothing {trace : List (TaskEvent Task)} {s : IoService Thread Task}
    (h : Run Step {} trace s) :
    (StartPc.swapped s.pc → s.mutexForPendingTasks = none → s.pendingTasks ≠ [] → 0 < s.wakeUpCounter) ∧
      startedTasks trace <+: pushedTasks trace ∧
      pushedTasks trace = startedTasks trace ++ (s.tasks ++ s.pendingTasks) := by
  have hs := run_inv h
  refine ⟨fun hsw hmutex hne => ?_, ⟨_, hs.order.symm⟩, hs.order⟩
  rcases hs.signal hsw hne with hpos | ⟨t, ht⟩
  · exact hpos
  · have hheld := hs.holder t (by rw [ht]; rfl)
    rw [hmutex] at hheld
    cases hheld

/-- A task that arrives while the loop is about to sleep. -/
theorem late_task_signalled : ∃ s : IoService Nat Nat,
    s.pc = .epollWait ∧ s.mutexForPendingTasks = none ∧ s.pendingTasks = [7] ∧ 0 < s.wakeUpCounter := by
  have henter := (Run.stop.next (.loop rfl (.enter ({} : IoService Nat Nat) rfl rfl))).next
    (Step.loop rfl (.iterate _ rfl rfl))
  have hswap := ((henter.next (.loop rfl (.lock _ rfl rfl))).next (.loop rfl (.swap _ rfl))).next
    (.loop rfl (.unlock _ rfl))
  have hwait := (hswap.next (.loop rfl (.clear _ rfl rfl))).next (.loop rfl (.handleTimeout _ rfl))
  have hpush := ((hwait.next (.call (some 0) (.addTask _ 7 ⟨rfl, by simp⟩))).next
    (.call (some 0) (.lock _ 7 rfl rfl))).next (.call (some 0) (.push _ 7 rfl))
  have hrun := (hpush.next (.call (some 0) (.write _ rfl))).next (.call (some 0) (.unlock _ rfl))
  exact ⟨_, rfl, rfl, rfl, (submission_loses_nothing hrun).1 rfl rfl (List.cons_ne_nil _ _)⟩

end IoService

end Libcold
