import Libcold.Runs
import Mathlib.Logic.Function.Basic
import Mathlib.Data.List.Nodup

namespace Libcold

open Runs

variable {Thread Coro : Type}

/-- How far a coroutine of `WrapTask` has come: in the body of its task, or in
`TaskCompletionAwaitable`, where it announces its completion under the mutex. -/
inductive WrapStage
  | body
  | announcing
  | locked
  | pushed
  | announced

/-- What a suspended task waits for. A waiter of a mutex or a condition variable is
resumed by whoever unlocks or notifies. -/
inductive WaitsFor
  | io
  | unlock

/-- The frame that a handle belongs to. It is torn when it was destroyed before the
coroutine came to its final suspension. -/
inductive Frame (Thread : Type)
  | free
  | pending
  | running (thread : Option Thread) (stage : WrapStage)
  | suspended (waitsFor : WaitsFor)
  | done
  | torn

/-- The handle of the frame was pushed. -/
def Frame.Announced : Frame Thread → Prop
  | .running _ .pushed | .running _ .announced | .done => True
  | _ => False

/-- The coroutine was started. -/
def Frame.Started : Frame Thread → Prop
  | .running _ _ | .suspended _ | .done => True
  | _ => False

/-- The coroutine is where `await_suspend` holds the mutex. -/
def Frame.Locks (t : Option Thread) : Frame Thread → Prop
  | .running t' .locked | .running t' .pushed => t' = t
  | _ => False

inductive CleanupPc
  | pending
  | start
  | timers
  | io
  | lock
  | swap
  | unlock
  | erase
  deriving DecidableEq

def CleanupPc.Locks : CleanupPc → Prop
  | .swap | .unlock => True
  | _ => False

/-- The service as its wrapped coroutines see it, with the local vectors of `Start`.
The thread `none` is the one that runs `Start`. A thread has the coroutines that it
executes on its stack, each one resumed by the one below. -/
structure WrapService (Thread Coro : Type) where
  pc : CleanupPc := .pending
  frames : Coro → Frame Thread := fun _ => .free
  stack : Option Thread → List Coro := fun _ => []
  pendingTasks : List Coro := []
  tasks : List Coro := []
  awaitCompletionTasks : Coro → Bool := fun _ => false
  completionTasks : List Coro := []
  completions : List Coro := []
  mutexForCompletionTasks : Option (Option Thread) := none

inductive WrapEvent (Coro : Type)
  | erased (c : Coro)
  | other

namespace WrapService

section

variable [DecidableEq Thread] [DecidableEq Coro]

def setFrame (s : WrapService Thread Coro) (c : Coro) (frame : Frame Thread) : WrapService Thread Coro :=
  { s with frames := Function.update s.frames c frame }

def setStack (s : WrapService Thread Coro) (t : Option Thread) (stack : List Coro) : WrapService Thread Coro :=
  { s with stack := Function.update s.stack t stack }

/-- `resume` of a handle, in a thread. -/
def resume (s : WrapService Thread Coro) (t : Option Thread) (c : Coro) : WrapService Thread Coro :=
  (s.setFrame c (.running t .body)).setStack t (c :: s.stack t)

/-- The coroutine on top of a stack is suspended, for good or not. -/
def suspend (s : WrapService Thread Coro) (t : Option Thread) (c : Coro) (below : List Coro) (frame : Frame Thread) :
    WrapService Thread Coro :=
  (s.setFrame c frame).setStack t below

/-- `insert` into `awaitCompletionTasks_`, and the first resumption. -/
def startTask (s : WrapService Thread Coro) (c : Coro) : WrapService Thread Coro :=
  { s with awaitCompletionTasks := Function.update s.awaitCompletionTasks c true }.resume none c

/-- `erase`, which destroys the frame with the `Task` of the map. -/
def erase (s : WrapService Thread Coro) (c : Coro) : WrapService Thread Coro :=
  let frame :=
    match s.awaitCompletionTasks c, s.frames c with
    | false, frame => frame
    | true, .done => .free
    | true, _ => .torn
  { s.setFrame c frame with awaitCompletionTasks := Function.update s.awaitCompletionTasks c false }

/-- The loop of `Start`. It goes on when what it has resumed has come back to it. -/
inductive LoopStep : WrapService Thread Coro → WrapEvent Coro → WrapService Thread Coro → Prop
  | takePending (s) (hpc : s.pc = .pending) :
      LoopStep s .other { s with pc := .start, tasks := s.pendingTasks, pendingTasks := [] }
  | startPending (s c rest) (hpc : s.pc = .start) (htasks : s.tasks = c :: rest) :
      LoopStep s .other ({ s with tasks := rest }.startTask c)
  | handleTimeout (s) (hpc : s.pc = .start) (htasks : s.tasks = []) : LoopStep s .other { s with pc := .timers }
  -- a task of a timer that is due, in a wrapper that is made for it
  | startTimer (s c) (hpc : s.pc = .timers) (hfree : s.frames c = .free) : LoopStep s .other (s.startTask c)
  | watchIo (s) (hpc : s.pc = .timers) : LoopStep s .other { s with pc := .io }
  | resumeIo (s c) (hpc : s.pc = .io) (hframe : s.frames c = .suspended .io) : LoopStep s .other (s.resume none c)
  | cleanUp (s) (hpc : s.pc = .io) : LoopStep s .other { s with pc := .lock }
  | lock (s) (hpc : s.pc = .lock) (hmutex : s.mutexForCompletionTasks = none) :
      LoopStep s .other { s with pc := .swap, mutexForCompletionTasks := some none }
  | swap (s) (hpc : s.pc = .swap) :
      LoopStep s .other { s with pc := .unlock, completions := s.completionTasks, completionTasks := [] }
  | unlock (s) (hpc : s.pc = .unlock) : LoopStep s .other { s with pc := .erase, mutexForCompletionTasks := none }
  | erase (s c rest) (hpc : s.pc = .erase) (hcompletions : s.completions = c :: rest) :
      LoopStep s (.erased c) ({ s with completions := rest }.erase c)
  | again (s) (hpc : s.pc = .erase) (hcompletions : s.completions = []) :
      LoopStep s .other { s with pc := .pending }

/-- The coroutine on top of the stack of a thread goes on. -/
inductive CoroStep (t : Option Thread) (c : Coro) (below : List Coro) :
    WrapService Thread Coro → WrapService Thread Coro → Prop
  | wait (s waitsFor) (hframe : s.frames c = .running t .body) :
      CoroStep t c below s (s.suspend t c below (.suspended waitsFor))
  | unlock (s d) (hframe : s.frames c = .running t .body) (hwaits : s.frames d = .suspended .unlock) :
      CoroStep t c below s (s.resume t d)
  -- `await_suspend` of a condition variable unlocks the mutex in the waiter's place
  | waitAndUnlock (s d) (hframe : s.frames c = .running t .body) (hwaits : s.frames d = .suspended .unlock) :
      CoroStep t c below s ((s.suspend t c below (.suspended .unlock)).resume t d)
  | finish (s) (hframe : s.frames c = .running t .body) : CoroStep t c below s (s.setFrame c (.running t .announcing))
  | lock (s) (hframe : s.frames c = .running t .announcing) (hmutex : s.mutexForCompletionTasks = none) :
      CoroStep t c below s { s.setFrame c (.running t .locked) with mutexForCompletionTasks := some t }
  | push (s) (hframe : s.frames c = .running t .locked) :
      CoroStep t c below s { s.setFrame c (.running t .pushed) with completionTasks := s.completionTasks ++ [c] }
  | release (s) (hframe : s.frames c = .running t .pushed) :
      CoroStep t c below s { s.setFrame c (.running t .announced) with mutexForCompletionTasks := none }
  -- the handle that `await_suspend` returns is resumed, and comes to its end
  | finalSuspend (s) (hframe : s.frames c = .running t .announced) :
      CoroStep t c below s (s.suspend t c below .done)

inductive Step : WrapService Thread Coro → WrapEvent Coro → WrapService Thread Coro → Prop
  | loop {s e u} (hstack : s.stack none = []) (h : LoopStep s e u) : Step s e u
  | coro {s u} (t c below) (hstack : s.stack t = c :: below) (h : CoroStep t c below s u) : Step s .other u
  -- code of another thread that is no coroutine of this service unlocks or notifies
  | unlock (s) (t : Thread) (c) (hstack : s.stack (some t) = []) (hwaits : s.frames c = .suspended .unlock) :
      Step s .other (s.resume (some t) c)
  | spawn (s c) (hfree : s.frames c = .free) :
      Step s .other { s.setFrame c .pending with pendingTasks := s.pendingTasks ++ [c] }

end

/-- What is destroyed has come to its final suspension. -/
def Finished (s : WrapService Thread Coro) : Prop := ∀ c, s.frames c ≠ .torn

/-- When a handle is erased, no other thread is on the way from the release of the mutex
in `await_suspend` to the end of that coroutine. -/
def Guard (s : WrapService Thread Coro) : WrapEvent Coro → Prop
  | .erased c => ∀ t : Thread, s.frames c ≠ .running (some t) .announced
  | .other => True

structure Inv (s : WrapService Thread Coro) : Prop where
  finished : s.Finished
  stacked : ∀ t c, c ∈ s.stack t ↔ ∃ stage, s.frames c = .running t stage
  nodup : ∀ t, (s.stack t).Nodup
  pending : ∀ c ∈ s.tasks ++ s.pendingTasks, s.frames c = .pending
  pendingOnce : (s.tasks ++ s.pendingTasks).Nodup
  announced : ∀ c ∈ s.completions ++ s.completionTasks, Frame.Announced (s.frames c)
  announcedOnce : (s.completions ++ s.completionTasks).Nodup
  kept : ∀ c, Frame.Started (s.frames c) → s.awaitCompletionTasks c = true

/-- What `mutexForCompletionTasks_` keeps apart. The handles that the loop erases were
pushed before it took the mutex, and so the mutex was released behind them. -/
structure Exclusive (s : WrapService Thread Coro) : Prop where
  holder : ∀ t c, Frame.Locks t (s.frames c) → s.mutexForCompletionTasks = some t
  once : ∀ t c d, Frame.Locks t (s.frames c) → Frame.Locks t (s.frames d) → c = d
  cleaning : s.pc.Locks → s.mutexForCompletionTasks = some none ∧ s.stack none = []
  released : ∀ c ∈ s.completions, ∀ t, ¬ Frame.Locks t (s.frames c)

structure Safe (s : WrapService Thread Coro) : Prop where
  inv : s.Inv
  exclusive : s.Exclusive

variable {s u : WrapService Thread Coro} {c d : Coro} {t : Option Thread} {below : List Coro}

theorem start_inv : Inv ({} : WrapService Thread Coro) where
  finished c h := by cases h
  stacked t c := by simp
  nodup t := .nil
  pending c h := by cases h
  pendingOnce := .nil
  announced c h := by cases h
  announcedOnce := .nil
  kept c h := h.elim

theorem start_exclusive : Exclusive ({} : WrapService Thread Coro) where
  holder t c h := h.elim
  once t c d h := h.elim
  cleaning h := h.elim
  released c h := by cases h

theorem start_safe : Safe ({} : WrapService Thread Coro) := ⟨start_inv, start_exclusive⟩

theorem Inv.goto (h : Inv s) (pc : CleanupPc) (mutex : Option (Option Thread)) :
    Inv { s with pc, mutexForCompletionTasks := mutex } :=
  ⟨h.finished, h.stacked, h.nodup, h.pending, h.pendingOnce, h.announced, h.announcedOnce, h.kept⟩

theorem Inv.not_pending (h : Inv s) (hc : s.frames c ≠ .pending) : c ∉ s.tasks ++ s.pendingTasks :=
  fun hmem => hc (h.pending c hmem)

theorem Inv.not_announced (h : Inv s) (hc : ¬ Frame.Announced (s.frames c)) : c ∉ s.completions ++ s.completionTasks :=
  fun hmem => hc (h.announced c hmem)

theorem Inv.running (h : Inv s) (hstack : s.stack t = c :: below) : ∃ stage, s.frames c = .running t stage :=
  (h.stacked t c).mp (by simp [hstack])

/-- The handles that the loop erases were pushed; their coroutines are done, or in a
thread that has released the mutex. -/
theorem Inv.completion (h : Inv s) (hexclusive : s.Exclusive) (hidle : s.stack none = []) {rest : List Coro}
    (hcompletions : s.completions = c :: rest) :
    s.awaitCompletionTasks c = true ∧
      (s.frames c = .done ∨ ∃ t : Thread, s.frames c = .running (some t) .announced) := by
  have hannounced := h.announced c (by simp [hcompletions])
  have hreleased := hexclusive.released c (by simp [hcompletions])
  cases hframe : s.frames c with
  | running t stage =>
      refine ⟨h.kept c (by simp [hframe, Frame.Started]), .inr ?_⟩
      have hmem := (h.stacked t c).mpr ⟨stage, hframe⟩
      rw [hframe] at hannounced
      cases stage with
      | pushed => exact absurd (by rw [hframe]; rfl) (hreleased t)
      | announced =>
          cases t with
          | none =>
              rw [hidle] at hmem
              cases hmem
          | some t => exact ⟨t, rfl⟩
      | _ => exact hannounced.elim
  | done => exact ⟨h.kept c (by simp [hframe, Frame.Started]), .inl rfl⟩
  | _ =>
      rw [hframe] at hannounced
      exact hannounced.elim

theorem Exclusive.free (h : s.Exclusive) (hmutex : s.mutexForCompletionTasks = none) (t : Option Thread) (c : Coro) :
    ¬ Frame.Locks t (s.frames c) := by
  intro hlocks
  have hholder := h.holder t c hlocks
  rw [hmutex] at hholder
  cases hholder

/-- While the loop has the mutex, no coroutine has it. -/
theorem Exclusive.cleaning_free (h : s.Exclusive) (hinv : s.Inv) (hpc : s.pc.Locks) (t : Option Thread) (c : Coro) :
    ¬ Frame.Locks t (s.frames c) := by
  intro hlocks
  obtain ⟨hmutex, hidle⟩ := h.cleaning hpc
  have hholder := h.holder t c hlocks
  rw [hmutex] at hholder
  cases hholder
  have hmem : c ∈ s.stack none := by
    rw [hinv.stacked]
    cases hframe : s.frames c with
    | running t stage =>
        rw [hframe] at hlocks
        cases stage with
        | locked => exact ⟨.locked, by rw [show t = none from hlocks]⟩
        | pushed => exact ⟨.pushed, by rw [show t = none from hlocks]⟩
        | _ => exact hlocks.elim
    | _ =>
        rw [hframe] at hlocks
        exact hlocks.elim
  rw [hidle] at hmem
  cases hmem

section

variable [DecidableEq Coro]

theorem setFrame_frames (frame : Frame Thread) (d : Coro) :
    (s.setFrame c frame).frames d = if d = c then frame else s.frames d := Function.update_apply _ _ _ _

/-- A frame that changes where it is neither pending nor among the completions, or
stays announced. -/
theorem Inv.frame (h : Inv s) {frame : Frame Thread} (hpending : c ∉ s.tasks ++ s.pendingTasks)
    (hannounced : c ∈ s.completions ++ s.completionTasks → Frame.Announced frame) (htorn : frame ≠ .torn)
    (hstarted : Frame.Started frame → s.awaitCompletionTasks c = true) {stack : Option Thread → List Coro}
    (hstacked : ∀ t d, d ∈ stack t ↔ ∃ stage, (s.setFrame c frame).frames d = .running t stage)
    (hnodup : ∀ t, (stack t).Nodup) : Inv { s.setFrame c frame with stack } where
  finished d := by
    change (s.setFrame c frame).frames d ≠ .torn
    rw [setFrame_frames]
    split_ifs
    · exact htorn
    · exact h.finished d
  stacked := hstacked
  nodup := hnodup
  pending d hd := by
    change (s.setFrame c frame).frames d = .pending
    rw [setFrame_frames, if_neg]
    · exact h.pending d hd
    · rintro rfl
      exact hpending hd
  pendingOnce := h.pendingOnce
  announced d hd := by
    change Frame.Announced ((s.setFrame c frame).frames d)
    rw [setFrame_frames]
    split_ifs with hdc
    · exact hannounced (hdc ▸ hd)
    · exact h.announced d hd
  announcedOnce := h.announcedOnce
  kept d hd := by
    change Frame.Started ((s.setFrame c frame).frames d) at hd
    rw [setFrame_frames] at hd
    split_ifs at hd with hdc
    · exact hdc ▸ hstarted hd
    · exact h.kept d hd

/-- The coroutine on top of a stack comes to another stage. -/
theorem Inv.stage (h : Inv s) {stage stage' : WrapStage} (hframe : s.frames c = .running t stage)
    (hlater : Frame.Announced (.running t stage : Frame Thread) → Frame.Announced (.running t stage' : Frame Thread)) :
    Inv (s.setFrame c (.running t stage')) := by
  refine h.frame (h.not_pending (by simp [hframe])) (fun hmem => ?_) (by simp) (fun _ => ?_) (fun t' d => ?_) h.nodup
  · have hannounced := h.announced c hmem
    rw [hframe] at hannounced
    exact hlater hannounced
  · exact h.kept c (by simp [hframe, Frame.Started])
  · rw [setFrame_frames, h.stacked]
    split_ifs with hdc
    · subst d
      rw [hframe]
      simp
    · rfl

theorem Inv.push (h : Inv s) (hframe : s.frames c = .running t .locked) :
    Inv { s.setFrame c (.running t .pushed) with completionTasks := s.completionTasks ++ [c] } := by
  have hnone := h.not_announced (c := c) (by simp [hframe, Frame.Announced])
  have hstage : Inv (s.setFrame c (.running t .pushed)) := h.stage hframe fun hlocked => hlocked.elim
  refine ⟨hstage.finished, hstage.stacked, hstage.nodup, hstage.pending, hstage.pendingOnce, fun d hd => ?_, ?_,
    hstage.kept⟩
  · change d ∈ s.completions ++ (s.completionTasks ++ [c]) at hd
    rw [← List.append_assoc, List.mem_append, List.mem_singleton] at hd
    rcases hd with hd | rfl
    · exact hstage.announced d hd
    · change Frame.Announced ((s.setFrame d _).frames d)
      rw [setFrame_frames, if_pos rfl]
      trivial
  · change (s.completions ++ (s.completionTasks ++ [c])).Nodup
    rw [← List.append_assoc]
    exact List.nodup_append.mpr ⟨h.announcedOnce, List.nodup_singleton c, by
      rintro a ha b hb rfl
      exact hnone (List.mem_singleton.mp hb ▸ ha)⟩

theorem Inv.erase (h : Inv s) {rest : List Coro} (hcompletions : s.completions = c :: rest)
    (hdone : s.frames c = .done) : Inv ({ s with completions := rest }.erase c) := by
  have honce := h.announcedOnce
  rw [hcompletions, List.cons_append, List.nodup_cons] at honce
  have herase : { s with completions := rest }.erase c =
      { ({ s with completions := rest } : WrapService Thread Coro).setFrame c .free with
        awaitCompletionTasks := Function.update s.awaitCompletionTasks c false } := by
    rw [WrapService.erase]
    simp only [h.kept c (by simp [hdone, Frame.Started]), hdone]
  have hshorter : Inv { s with completions := rest } :=
    ⟨h.finished, h.stacked, h.nodup, h.pending, h.pendingOnce,
      fun d hd => h.announced d (by rw [hcompletions]; exact List.mem_cons_of_mem c hd), honce.2, h.kept⟩
  have hfreed : Inv (({ s with completions := rest } : WrapService Thread Coro).setFrame c .free) := by
    refine hshorter.frame (hshorter.not_pending (by simp [hdone])) (fun hmem => absurd hmem honce.1) (by simp)
      False.elim (fun t d => ?_) h.nodup
    change d ∈ s.stack t ↔ _
    rw [setFrame_frames, h.stacked]
    split_ifs with hdc
    · subst d
      simp [hdone]
    · rfl
  rw [herase]
  refine ⟨hfreed.finished, hfreed.stacked, hfreed.nodup, hfreed.pending, hfreed.pendingOnce, hfreed.announced,
    hfreed.announcedOnce, fun d hd => ?_⟩
  have hdc : d ≠ c := by
    rintro rfl
    change Frame.Started ((WrapService.setFrame _ d _).frames d) at hd
    rw [setFrame_frames, if_pos rfl] at hd
    exact hd
  have hother : Function.update s.awaitCompletionTasks c false d = s.awaitCompletionTasks d :=
    Function.update_of_ne hdc _ _
  exact hother.trans (hfreed.kept d hd)

theorem Inv.spawn (h : Inv s) (hfree : s.frames c = .free) :
    Inv { s.setFrame c .pending with pendingTasks := s.pendingTasks ++ [c] } := by
  have hnone := h.not_pending (c := c) (by simp [hfree])
  have hidle (d : Coro) (hd : d ∈ s.tasks ++ s.pendingTasks) : d ≠ c := by
    rintro rfl
    exact hnone hd
  have hframe : Inv (s.setFrame c .pending) := by
    refine h.frame hnone (fun hmem => ?_) (by simp) False.elim (fun t d => ?_) h.nodup
    · exact absurd hmem (h.not_announced (by simp [hfree, Frame.Announced]))
    · rw [setFrame_frames, h.stacked]
      split_ifs with hdc
      · subst d
        simp [hfree]
      · rfl
  refine ⟨hframe.finished, hframe.stacked, hframe.nodup, fun d hd => ?_, ?_, hframe.announced, hframe.announcedOnce,
    hframe.kept⟩
  · change d ∈ s.tasks ++ (s.pendingTasks ++ [c]) at hd
    rw [← List.append_assoc, List.mem_append, List.mem_singleton] at hd
    rcases hd with hd | rfl
    · exact hframe.pending d hd
    · exact Function.update_self _ _ _
  · change (s.tasks ++ (s.pendingTasks ++ [c])).Nodup
    rw [← List.append_assoc]
    exact List.nodup_append.mpr ⟨h.pendingOnce, List.nodup_singleton c, fun d hd b hb =>
      List.mem_singleton.mp hb ▸ hidle d hd⟩

theorem Exclusive.setFrame (h : s.Exclusive) {frame : Frame Thread}
    (hframe : ∀ t, Frame.Locks t frame → Frame.Locks t (s.frames c)) : (s.setFrame c frame).Exclusive := by
  have hbefore (t : Option Thread) (d : Coro) (hd : Frame.Locks t ((s.setFrame c frame).frames d)) :
      Frame.Locks t (s.frames d) := by
    rw [setFrame_frames] at hd
    split_ifs at hd with hdc
    · exact hdc ▸ hframe t hd
    · exact hd
  exact ⟨fun t d hd => h.holder t d (hbefore t d hd), fun t d e hd he => h.once t d e (hbefore t d hd) (hbefore t e he),
    h.cleaning, fun d hd t ht => h.released d hd t (hbefore t d ht)⟩

theorem Exclusive.erase (h : s.Exclusive) {rest : List Coro} (hcompletions : s.completions = c :: rest) :
    ({ s with completions := rest }.erase c).Exclusive := by
  have hshorter : Exclusive { s with completions := rest } :=
    ⟨h.holder, h.once, h.cleaning, fun d hd => h.released d (by rw [hcompletions]; exact List.mem_cons_of_mem c hd)⟩
  have herased : (({ s with completions := rest } : WrapService Thread Coro).setFrame c
      (match s.awaitCompletionTasks c, s.frames c with
      | false, frame => frame
      | true, .done => .free
      | true, _ => .torn)).Exclusive := by
    refine hshorter.setFrame fun t ht => ?_
    split at ht
    · exact ht
    · exact ht.elim
    · exact ht.elim
  exact ⟨herased.holder, herased.once, herased.cleaning, herased.released⟩

end

section

variable [DecidableEq Thread] [DecidableEq Coro]

/-- A coroutine that no thread executes gets on top of a stack. -/
theorem Inv.resume (h : Inv s) (hidle : ∀ t stage, s.frames c ≠ .running t stage)
    (hpending : c ∉ s.tasks ++ s.pendingTasks) (hannounced : c ∉ s.completions ++ s.completionTasks)
    (hkept : s.awaitCompletionTasks c = true) (t : Option Thread) : Inv (s.resume t c) := by
  have hnone (t' : Option Thread) : c ∉ s.stack t' := by
    rw [h.stacked]
    rintro ⟨stage, hstage⟩
    exact hidle t' stage hstage
  refine h.frame hpending (fun hmem => absurd hmem hannounced) (by simp) (fun _ => hkept) (fun t' d => ?_)
    fun t' => ?_
  · rw [setFrame_frames]
    by_cases hdc : d = c
    · subst d
      by_cases ht : t' = t
      · subst t'
        simp [setFrame]
      · simp [setFrame, ht, hnone t', Ne.symm ht]
    · rw [if_neg hdc, ← h.stacked]
      by_cases ht : t' = t
      · subst t'
        simp [setFrame, hdc]
      · simp [setFrame, ht]
  · by_cases ht : t' = t
    · subst t'
      simpa [setFrame] using ⟨hnone t, h.nodup t⟩
    · simpa [setFrame, ht] using h.nodup t'

theorem Inv.resume_suspended (h : Inv s) {waitsFor : WaitsFor} (hframe : s.frames c = .suspended waitsFor)
    (t : Option Thread) : Inv (s.resume t c) :=
  h.resume (by simp [hframe]) (h.not_pending (by simp [hframe])) (h.not_announced (by simp [hframe, Frame.Announced]))
    (h.kept c (by simp [hframe, Frame.Started])) t

/-- The coroutine on top of a stack leaves it. -/
theorem Inv.suspend (h : Inv s) (hstack : s.stack t = c :: below) {frame : Frame Thread}
    (hframe : ∀ t stage, frame ≠ .running t stage) (htorn : frame ≠ .torn)
    (hannounced : c ∈ s.completions ++ s.completionTasks → Frame.Announced frame) :
    Inv (s.suspend t c below frame) := by
  obtain ⟨stage, hrunning⟩ := h.running hstack
  have hkept := h.kept c (by simp [hrunning, Frame.Started])
  have hnodup := h.nodup t
  rw [hstack, List.nodup_cons] at hnodup
  refine h.frame (h.not_pending (by simp [hrunning])) hannounced htorn (fun _ => hkept) (fun t' d => ?_) fun t' => ?_
  · rw [setFrame_frames]
    by_cases hdc : d = c
    · subst d
      rw [if_pos rfl]
      refine iff_of_false (fun hmem => ?_) fun ⟨stage, hstage⟩ => hframe t' stage hstage
      by_cases ht : t' = t
      · subst t'
        exact hnodup.1 (by simpa [setFrame] using hmem)
      · have hother : c ∈ s.stack t' := by simpa [setFrame, ht] using hmem
        obtain ⟨stage', hstage'⟩ := (h.stacked t' c).mp hother
        rw [hrunning] at hstage'
        cases hstage'
        exact ht rfl
    · rw [if_neg hdc, ← h.stacked]
      by_cases ht : t' = t
      · subst t'
        simp [setFrame, hstack, hdc]
      · simp [setFrame, ht]
  · by_cases ht : t' = t
    · subst t'
      simpa [setFrame] using hnodup.2
    · simpa [setFrame, ht] using h.nodup t'

theorem Inv.startTask (h : Inv s) (hidle : ∀ t stage, s.frames c ≠ .running t stage)
    (hpending : c ∉ s.tasks ++ s.pendingTasks) (hannounced : ¬ Frame.Announced (s.frames c)) : Inv (s.startTask c) := by
  have hinserted : Inv { s with awaitCompletionTasks := Function.update s.awaitCompletionTasks c true } := by
    refine ⟨h.finished, h.stacked, h.nodup, h.pending, h.pendingOnce, h.announced, h.announcedOnce, fun d hd => ?_⟩
    by_cases hdc : d = c
    · subst d
      exact Function.update_self _ _ _
    · simpa [hdc] using h.kept d hd
  exact hinserted.resume hidle hpending (hinserted.not_announced hannounced) (Function.update_self _ _ _) none

theorem Inv.coroStep (h : Inv s) (hstack : s.stack t = c :: below) (hstep : CoroStep t c below s u) : Inv u := by
  cases hstep with
  | wait waitsFor hframe =>
      exact h.suspend hstack (by simp) (by simp) fun hmem =>
        absurd hmem (h.not_announced (by simp [hframe, Frame.Announced]))
  | unlock d hframe hwaits => exact h.resume_suspended hwaits t
  | waitAndUnlock d hframe hwaits =>
      have hsuspended : Inv (s.suspend t c below (.suspended .unlock)) :=
        h.suspend hstack (by simp) (by simp) fun hmem =>
          absurd hmem (h.not_announced (by simp [hframe, Frame.Announced]))
      have hwaits' : (s.suspend t c below (.suspended .unlock)).frames d = .suspended .unlock := by
        change (s.setFrame c _).frames d = _
        rw [setFrame_frames]
        split_ifs
        · rfl
        · exact hwaits
      exact hsuspended.resume_suspended hwaits' t
  | finish hframe => exact h.stage hframe fun hbody => hbody.elim
  | lock hframe hmutex => exact (h.stage hframe fun hannouncing => hannouncing.elim).goto s.pc (some t)
  | push hframe => exact h.push hframe
  | release hframe =>
      have hstage : Inv (s.setFrame c (.running t .announced)) := h.stage hframe fun _ => trivial
      exact hstage.goto s.pc none
  | finalSuspend hframe => exact h.suspend hstack (by simp) (by simp) fun _ => trivial

theorem Inv.loopStep {e : WrapEvent Coro} (h : Inv s) (hexclusive : s.Exclusive) (hidle : s.stack none = [])
    (hguard : s.Guard e) (hstep : LoopStep s e u) : Inv u := by
  cases hstep with
  | takePending hpc =>
      refine ⟨h.finished, h.stacked, h.nodup, fun d hd => ?_, ?_, h.announced, h.announcedOnce, h.kept⟩
      · exact h.pending d (List.mem_append_right _ (by simpa using hd))
      · simpa using (List.nodup_append.mp h.pendingOnce).2.1
  | startPending c rest hpc htasks =>
      have hpending := h.pending
      have honce := h.pendingOnce
      rw [htasks, List.cons_append] at hpending honce
      rw [List.nodup_cons] at honce
      have hframe := hpending c List.mem_cons_self
      have hrest : Inv { s with tasks := rest } :=
        ⟨h.finished, h.stacked, h.nodup, fun d hd => hpending d (List.mem_cons_of_mem _ hd), honce.2, h.announced,
          h.announcedOnce, h.kept⟩
      exact hrest.startTask (by simp [hframe]) honce.1 (by simp [hframe, Frame.Announced])
  | startTimer c hpc hfree =>
      exact h.startTask (by simp [hfree]) (h.not_pending (by simp [hfree])) (by simp [hfree, Frame.Announced])
  | resumeIo c hpc hframe => exact h.resume_suspended hframe none
  | swap hpc =>
      refine ⟨h.finished, h.stacked, h.nodup, h.pending, h.pendingOnce, fun d hd => ?_, ?_, h.kept⟩
      · exact h.announced d (List.mem_append_right _ (by simpa using hd))
      · simpa using (List.nodup_append.mp h.announcedOnce).2.1
  | erase c rest hpc hcompletions =>
      obtain ⟨-, hdone | ⟨t, hframe⟩⟩ := h.completion hexclusive hidle hcompletions
      · exact h.erase hcompletions hdone
      · exact absurd hframe (hguard t)
  | handleTimeout | watchIo | cleanUp | again => exact h.goto _ s.mutexForCompletionTasks
  | lock => exact h.goto .swap (some none)
  | unlock => exact h.goto .erase none

omit [DecidableEq Coro] in
/-- While the loop has the mutex, its own stack stays empty. -/
theorem Exclusive.setStack (h : s.Exclusive) {stack : List Coro} (ht : t = none → ¬ s.pc.Locks) :
    (s.setStack t stack).Exclusive := by
  refine ⟨h.holder, h.once, fun hpc => ⟨(h.cleaning hpc).1, ?_⟩, h.released⟩
  have hother : none ≠ t := by
    rintro rfl
    exact ht rfl hpc
  exact (Function.update_of_ne hother _ _).trans (h.cleaning hpc).2

theorem Exclusive.resume (h : s.Exclusive) (ht : t = none → ¬ s.pc.Locks) : (s.resume t c).Exclusive :=
  (h.setFrame fun _ => False.elim).setStack ht

theorem Exclusive.startTask (h : s.Exclusive) (hpc : ¬ s.pc.Locks) : (s.startTask c).Exclusive := by
  have hinserted : Exclusive { s with awaitCompletionTasks := Function.update s.awaitCompletionTasks c true } :=
    ⟨h.holder, h.once, h.cleaning, h.released⟩
  exact hinserted.resume fun _ => hpc

theorem Exclusive.coroStep (h : s.Exclusive) (hinv : s.Inv) (hstack : s.stack t = c :: below)
    (hstep : CoroStep t c below s u) : u.Exclusive := by
  have hcleaning : t = none → ¬ s.pc.Locks := by
    rintro rfl hpc
    rw [(h.cleaning hpc).2] at hstack
    cases hstack
  cases hstep with
  | wait => exact (h.setFrame fun _ => False.elim).setStack hcleaning
  | unlock => exact h.resume hcleaning
  | waitAndUnlock => exact ((h.setFrame fun _ => False.elim).setStack hcleaning).resume hcleaning
  | finish => exact h.setFrame fun _ => False.elim
  | lock hframe hmutex =>
      have hnew (t' : Option Thread) (d : Coro)
          (hd : Frame.Locks t' ((s.setFrame c (.running t .locked)).frames d)) : d = c ∧ t = t' := by
        rw [setFrame_frames] at hd
        split_ifs at hd with hdc
        · exact ⟨hdc, hd⟩
        · exact absurd hd (h.free hmutex t' d)
      refine ⟨fun t' d hd => ?_, fun t' d e hd he => ?_, fun hpc => ?_, fun d hd t' ht' => ?_⟩
      · exact congrArg some (hnew t' d hd).2
      · exact (hnew t' d hd).1.trans (hnew t' e he).1.symm
      · have hheld := (h.cleaning hpc).1
        rw [hmutex] at hheld
        cases hheld
      · obtain ⟨rfl, -⟩ := hnew t' d ht'
        exact hinv.not_announced (by simp [hframe, Frame.Announced]) (List.mem_append_left _ hd)
  | push hframe =>
      have hpushed : (s.setFrame c (.running t .pushed)).Exclusive := h.setFrame fun t' ht' => by
        rw [hframe]
        exact ht'
      exact ⟨hpushed.holder, hpushed.once, hpushed.cleaning, hpushed.released⟩
  | release hframe =>
      have hreleased : (s.setFrame c (.running t .announced)).Exclusive := h.setFrame fun _ => False.elim
      have hmine : Frame.Locks t (s.frames c) := by
        rw [hframe]
        rfl
      have hfree (t' : Option Thread) (d : Coro) :
          ¬ Frame.Locks t' ((s.setFrame c (.running t .announced)).frames d) := by
        intro hd
        rw [setFrame_frames] at hd
        split_ifs at hd with hdc
        · exact hd
        · have hholder := h.holder t' d hd
          rw [h.holder t c hmine] at hholder
          cases hholder
          exact hdc (h.once t d c hd hmine)
      exact ⟨fun t' d hd => absurd hd (hfree t' d), fun t' d _ hd => absurd hd (hfree t' d), fun hpc =>
        absurd hmine (h.cleaning_free hinv hpc t c), hreleased.released⟩
  | finalSuspend => exact (h.setFrame fun _ => False.elim).setStack hcleaning

theorem Exclusive.loopStep {e : WrapEvent Coro} (h : s.Exclusive) (hinv : s.Inv) (hidle : s.stack none = [])
    (hstep : LoopStep s e u) : u.Exclusive := by
  cases hstep with
  | startPending c rest hpc =>
      have hrest : Exclusive { s with tasks := rest } := ⟨h.holder, h.once, h.cleaning, h.released⟩
      exact hrest.startTask (by simp [hpc, CleanupPc.Locks])
  | startTimer c hpc => exact h.startTask (by simp [hpc, CleanupPc.Locks])
  | resumeIo c hpc => exact h.resume fun _ => by simp [hpc, CleanupPc.Locks]
  | lock hpc hmutex =>
      exact ⟨fun t c hc => absurd hc (h.free hmutex t c), h.once, fun _ => ⟨rfl, hidle⟩, h.released⟩
  | swap hpc =>
      have hfree := h.cleaning_free hinv (by rw [hpc]; trivial)
      exact ⟨h.holder, h.once, fun _ => h.cleaning (by rw [hpc]; trivial), fun c _ t => hfree t c⟩
  | unlock hpc =>
      have hfree := h.cleaning_free hinv (by rw [hpc]; trivial)
      exact ⟨fun t c hc => absurd hc (hfree t c), h.once, False.elim, h.released⟩
  | erase c rest hpc hcompletions => exact h.erase hcompletions
  | takePending | handleTimeout | watchIo | cleanUp | again => exact ⟨h.holder, h.once, False.elim, h.released⟩

theorem step_safe {e : WrapEvent Coro} (h : Safe s) (hguard : s.Guard e) (hstep : Step s e u) : Safe u := by
  obtain ⟨hinv, hexclusive⟩ := h
  cases hstep with
  | loop hstack hloop => exact ⟨hinv.loopStep hexclusive hstack hguard hloop, hexclusive.loopStep hinv hstack hloop⟩
  | coro t c below hstack hcoro => exact ⟨hinv.coroStep hstack hcoro, hexclusive.coroStep hinv hstack hcoro⟩
  | unlock t c hstack hwaits => exact ⟨hinv.resume_suspended hwaits (some t), hexclusive.resume nofun⟩
  | spawn c hfree =>
      have hpending : (s.setFrame c .pending).Exclusive := hexclusive.setFrame fun _ => False.elim
      exact ⟨hinv.spawn hfree, hpending.holder, hpending.once, hpending.cleaning, hpending.released⟩

/-- A frame that is erased on the way from the release of the mutex is torn. -/
theorem step_guarded {e : WrapEvent Coro} (h : Safe s) (hstep : Step s e u) (hfinished : u.Finished) : s.Guard e := by
  cases hstep with
  | loop hstack hloop =>
      cases hloop with
      | erase c rest hpc hcompletions =>
          intro t hrunning
          obtain ⟨hkept, -⟩ := h.inv.completion h.exclusive hstack hcompletions
          refine hfinished c ?_
          rw [WrapService.erase]
          simp only [hkept, hrunning]
          exact Function.update_self _ _ _
      | _ => trivial
  | _ => trivial

omit [DecidableEq Thread] in
theorem of_setFrame {frame : Frame Thread} {stage : WrapStage} (h : (s.setFrame c frame).frames d = .running t stage) :
    s.frames d = .running t stage ∨ d = c ∧ frame = .running t stage := by
  rw [setFrame_frames] at h
  split_ifs at h with hdc
  · exact .inr ⟨hdc, h⟩
  · exact .inl h

/-- A coroutine that has announced itself did so in the thread that executes it. -/
theorem announced_of_step {e : WrapEvent Coro} (hstep : Step s e u) {stage : WrapStage}
    (hframe : u.frames d = .running t stage) (hannounced : Frame.Announced (.running t stage : Frame Thread)) :
    s.frames d = .running t .locked ∨
      ∃ stage', s.frames d = .running t stage' ∧ Frame.Announced (.running t stage' : Frame Thread) := by
  have hbody {r : WrapService Thread Coro} {t' : Option Thread} {c' : Coro}
      (hresumed : (r.resume t' c').frames d = .running t stage) : r.frames d = .running t stage := by
    rcases of_setFrame hresumed with hsame | ⟨-, hnew⟩
    · exact hsame
    · cases hnew
      exact hannounced.elim
  suffices hcame : s.frames d = .running t stage ∨ s.frames d = .running t .locked ∨
      ∃ stage', s.frames d = .running t stage' ∧ Frame.Announced (.running t stage' : Frame Thread) by
    rcases hcame with hsame | hcame
    · exact .inr ⟨stage, hsame, hannounced⟩
    · exact hcame
  cases hstep with
  | loop hstack hloop =>
      cases hloop with
      | startPending c rest | startTimer c | resumeIo c => exact .inl (hbody hframe)
      | erase c rest hpc hcompletions =>
          rcases of_setFrame hframe with hsame | ⟨rfl, herased⟩
          · exact .inl hsame
          · refine .inl ?_
            simp only at herased
            split at herased
            · exact herased
            · cases herased
            · cases herased
      | _ => exact .inl hframe
  | coro t' c below hstack hcoro =>
      cases hcoro with
      | unlock => exact .inl (hbody hframe)
      | waitAndUnlock =>
          rcases of_setFrame (hbody hframe) with hsame | ⟨-, hnew⟩
          · exact .inl hsame
          · cases hnew
      | push hlocked =>
          rcases of_setFrame hframe with hsame | ⟨rfl, hnew⟩
          · exact .inl hsame
          · cases hnew
            exact .inr (.inl hlocked)
      | release hpushed =>
          rcases of_setFrame hframe with hsame | ⟨rfl, hnew⟩
          · exact .inl hsame
          · cases hnew
            exact .inr (.inr ⟨.pushed, hpushed, trivial⟩)
      | wait | finalSuspend =>
          rcases of_setFrame hframe with hsame | ⟨-, hnew⟩
          · exact .inl hsame
          · cases hnew
      | finish | lock =>
          rcases of_setFrame hframe with hsame | ⟨-, hnew⟩
          · exact .inl hsame
          · cases hnew
            exact hannounced.elim
  | unlock => exact .inl (hbody hframe)
  | spawn =>
      rcases of_setFrame hframe with hsame | ⟨-, hnew⟩
      · exact .inl hsame
      · cases hnew

/-- No coroutine announces its completion in another thread. -/
def AnnouncesInLoop (s : WrapService Thread Coro) : Prop := ∀ t c, s.frames c ≠ .running (some t) .locked

/-- What is completed by the thread of `Start` alone is destroyed in time. -/
theorem finished_of_announcesInLoop {trace : List (WrapEvent Coro)} {s : WrapService Thread Coro}
    (h : Run (Within AnnouncesInLoop Step) {} trace s) : s.Finished := by
  suffices hboth : Safe s ∧ ∀ t c stage, s.frames c = .running (some t) stage →
      ¬ Frame.Announced (.running (some t) stage : Frame Thread) from hboth.1.inv.finished
  refine @Run.invariant _ _ _ _ (fun _ s => Safe s ∧ ∀ t c stage, s.frames c = .running (some t) stage →
    ¬ Frame.Announced (.running (some t) stage : Frame Thread)) ⟨start_safe, by simp⟩ ?_ _ _ h
  rintro trace s e u ⟨hs, hnone⟩ ⟨hlocked, hstep, -⟩
  refine ⟨step_safe hs ?_ hstep, fun t c stage hframe hannounced => ?_⟩
  · cases hstep with
    | loop hstack hloop =>
        cases hloop with
        | erase c rest hpc hcompletions =>
            intro t hframe
            exact hnone t c .announced hframe trivial
        | _ => trivial
    | _ => trivial
  · rcases announced_of_step hstep hframe hannounced with hlock | ⟨stage', hframe', hannounced'⟩
    · exact hlocked t c hlock
    · exact hnone t c stage' hframe' hannounced'

end

end WrapService

end Libcold
