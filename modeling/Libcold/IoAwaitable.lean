import Libcold.IoTimeout
import Libcold.Runs

namespace Libcold

open Runs

/-- What a system call on the descriptor comes to. Over TLS a call that would
block may have taken a part of a record; `timedOut` is an error with `ETIMEDOUT`. -/
inductive SysResult
  | done (takes : Bool)
  | again (takes : Bool)
  | timedOut
  | failed

/-- How the awaitables of the operations differ. -/
structure IoOperation where
  reads : Bool
  checksConnected : Bool := false
  callsInReady : Bool := true
  readyOnError : Bool := true
  alwaysSuspends : Bool := false
  keepsErrno : Bool := true
  callsInResume : Bool := true
  buffers : Bool := false
  viaTask : Bool := false

namespace IoOperation

def asyncRead : IoOperation where
  reads := true
  callsInReady := false

def asyncWrite : IoOperation where
  reads := false
  callsInReady := false

def readAwaitable : IoOperation where
  reads := true
  checksConnected := true

/-- `ReadAwaitable` over TLS leaves the reading to a task of its own. -/
def readAwaitableSSL : IoOperation where
  reads := true
  checksConnected := true
  callsInReady := false
  callsInResume := false
  buffers := true
  viaTask := true

def writeAwaitable : IoOperation where
  reads := false
  checksConnected := true

def acceptAwaitable : IoOperation where
  reads := true
  readyOnError := false

def sendToAwaitable : IoOperation where
  reads := false

def recvFromAwaitable : IoOperation where
  reads := true
  alwaysSuspends := true

/-- A `connect` that fails at once leaves -1 in `errno`. -/
def connectAwaitable : IoOperation where
  reads := false
  keepsErrno := false

def sendFileAwaitable : IoOperation where
  reads := false

/-- The result is an error code of the TLS library. -/
def handshakeAwaitable : IoOperation where
  reads := true
  keepsErrno := false
  callsInResume := false
  buffers := true

def Possible (op : IoOperation) (r : SysResult) : Prop := r = .again true → op.buffers = true

def takes (op : IoOperation) : SysResult → Bool
  | .done takes | .again takes => op.reads && takes
  | .timedOut | .failed => false

/-- What `await_ready` records as `ready_`. -/
def ready (op : IoOperation) : SysResult → Bool
  | .done _ => true
  | .again _ => false
  | .timedOut | .failed => op.readyOnError

end IoOperation

/-- What a failed call reports is -1 and its `errno`. -/
def SysResult.reported : SysResult → AwaitResult
  | .timedOut => .timedOut
  | .done _ | .again _ | .failed => .value

inductive IoEffect
  | tookInput
  | callTimedOut
  deriving DecidableEq

def IoOperation.callEffects (op : IoOperation) (r : SysResult) : List (AwaitEvent IoEffect) :=
  if op.takes r then [.effect .tookInput] else if r.reported = .timedOut then [.effect .callTimedOut] else []

/-- An operation under `IoTimeoutAwaitable`: the await, the connection, whether
the handle of the inner task is in the slot of the watcher or among the active
ones, what the call came to that gave the value, if one did, and whether any call
has taken input. -/
structure TimedIo where
  await : TimedAwait
  connected : Bool
  listening : Bool := false
  active : Bool := false
  ready : Option SysResult := none
  took : Bool := false

namespace TimedIo

variable (op : IoOperation)

def systemCall (s : TimedIo) (r : SysResult) : TimedIo × List (AwaitEvent IoEffect) :=
  ({ s with took := s.took || op.takes r }, op.callEffects r)

def finish (s : TimedIo) (result : AwaitResult) : TimedIo × List (AwaitEvent IoEffect) :=
  ({ s with await := s.await.complete }, [.outerResumed result])

/-- `await_resume`, on a system call that comes to `r` if it makes one. -/
def awaitResume (s : TimedIo) (r : SysResult) : TimedIo × List (AwaitEvent IoEffect) :=
  if s.await.timeout then s.finish .timedOut
  else if op.checksConnected && !s.connected then s.finish .notConnected
  else
    match s.ready with
    | some value => s.finish (if op.keepsErrno then value.reported else .value)
    | none =>
        if op.callsInResume then
          let (s, called) := s.systemCall op r
          let (s, finished) := s.finish r.reported
          (s, called ++ finished)
        else s.finish .value

/-- `ListenIo`, unless a task of its own does the reading. -/
def awaitSuspend (s : TimedIo) : TimedIo :=
  { s with await := s.await.suspend, listening := !op.viaTask }

/-- The inner task is resumed: it comes to its `co_await`, or back from it. -/
def resumeInner (s : TimedIo) (r : SysResult) : TimedIo × List (AwaitEvent IoEffect) :=
  match s.await.inner with
  | .created =>
      if op.checksConnected && !s.connected then s.awaitResume op r
      else if op.callsInReady then
        let (s, called) := s.systemCall op r
        let s := { s with ready := if op.ready r then some r else none }
        if op.ready r && !op.alwaysSuspends then
          let (s, finished) := s.awaitResume op r
          (s, called ++ finished)
        else (s.awaitSuspend op, called)
      else (s.awaitSuspend op, [])
  | .suspended => s.awaitResume op r
  | .finished => (s, [.resumedAfterEnd])

/-- The steps of the loop, as far as they concern the await. The environment
chooses the clock, the readiness and what the system calls come to. -/
inductive Step : TimedIo → List (AwaitEvent IoEffect) → TimedIo → Prop
  | swap (s) (hphase : s.await.phase = .io) (hactive : s.active = false) :
      Step s [] { s with await := s.await.swap }
  | startTask (s) (r) (hr : op.Possible r) (hphase : s.await.phase = .pendingTasks)
      (hwrapper : s.await.wrapper = .taken) :
      Step s ({ s with await := s.await.startTask }.resumeInner op r).2
        ({ s with await := s.await.startTask }.resumeInner op r).1
  | handleTimeout (s) (due) (hphase : s.await.phase = .pendingTasks) (hwrapper : s.await.wrapper ≠ .taken) :
      Step s [] { s with await := s.await.handleTimeout due }
  -- `SetTimeout` takes the handle back from the watcher, and not the task from the service
  | runTimer (s) (r) (hr : op.Possible r) (hphase : s.await.phase = .timers) (htimer : s.await.timer = .collected) :
      Step s (.timerRan :: ({ s with await := s.await.runTimer, listening := false }.resumeInner op r).2)
        ({ s with await := s.await.runTimer, listening := false }.resumeInner op r).1
  | watchIo (s) (reported : Bool) (hphase : s.await.phase = .timers) (htimer : s.await.timer ≠ .collected) :
      Step s [] { s with
        await := s.await.watchIo, active := s.listening && reported, listening := s.listening && !reported }
  | resumeActive (s) (r) (hr : op.Possible r) (hphase : s.await.phase = .io) (hactive : s.active = true) :
      Step s ({ s with active := false }.resumeInner op r).2 ({ s with active := false }.resumeInner op r).1
  -- the task of its own runs as a pending task or after an event
  | taskReads (s) (r) (hr : op.Possible r) (hphase : s.await.phase ≠ .timers) (htask : op.viaTask = true)
      (hinner : s.await.inner = .suspended) (hagain : ∀ takes, r ≠ .again takes) :
      Step s ((s.systemCall op r).2 ++ ({ (s.systemCall op r).1 with ready := some r }.resumeInner op r).2)
        ({ (s.systemCall op r).1 with ready := some r }.resumeInner op r).1
  | taskWaits (s) (takes) (hr : op.Possible (.again takes)) (hphase : s.await.phase ≠ .timers)
      (htask : op.viaTask = true) (hinner : s.await.inner = .suspended) :
      Step s (s.systemCall op (.again takes)).2 (s.systemCall op (.again takes)).1
  | connect (s) : Step s [] { s with connected := true }
  | close (s) : Step s [] { s with connected := false, listening := false }

/-- The timer runs neither before the inner task was started nor after the
waiting operation has taken input, and no call fails with `ETIMEDOUT` itself. -/
def Guard (s : TimedIo) (label : List (AwaitEvent IoEffect)) : Prop :=
  (.timerRan ∈ label → s.await.inner ≠ .created ∧ s.took = false) ∧ .effect .callTimedOut ∉ label

def OnlyTook (history : List (AwaitEvent IoEffect)) : Prop := ∀ e ∈ history, e = .effect .tookInput

inductive Ended : List (AwaitEvent IoEffect) → Prop
  | completed (before) (result) (hbefore : OnlyTook before) (hresult : result ≠ .timedOut) :
      Ended (before ++ [.outerResumed result])
  | timedOut : Ended [.timerRan, .outerResumed .timedOut]

inductive Inv (history : List (AwaitEvent IoEffect)) (s : TimedIo) : Prop
  | spawned (hstage : s.await.At .spawned) (hcollected : s.await.Collected)
      (hslot : s.listening = false ∧ s.active = false) (htook : s.took = false) (hready : s.ready = none)
      (hhistory : history = [])
  | waiting (hstage : s.await.At .waiting) (hcollected : s.await.Collected)
      (hactive : s.active = true → s.await.phase = .io ∧ s.listening = false)
      (hready : ∀ value ∈ s.ready, value.reported ≠ .timedOut)
      (htask : op.viaTask = true → s.listening = false ∧ s.active = false) (hhistory : OnlyTook history)
      (htook : s.took = false → history = [])
  | ended (hstage : s.await.At .ended) (hslot : s.listening = false ∧ s.active = false) (hended : Ended history)

theorem OnlyTook.append {first second : List (AwaitEvent IoEffect)} (h : OnlyTook first) (h' : OnlyTook second) :
    OnlyTook (first ++ second) := fun e he => (List.mem_append.mp he).elim (h e) (h' e)

theorem OnlyTook.quiet {history : List (AwaitEvent IoEffect)} (h : OnlyTook history) : Quiet history where
  notResumed result hmem := by cases h _ hmem
  notAfterEnd hmem := by cases h _ hmem

theorem callEffects_spec {r : SysResult} (h : .effect .callTimedOut ∉ op.callEffects r) :
    OnlyTook (op.callEffects r) ∧ r.reported ≠ .timedOut ∧ (op.takes r = false → op.callEffects r = []) := by
  rw [IoOperation.callEffects] at h ⊢
  by_cases htakes : op.takes r = true
  · refine ⟨fun e he => ?_, fun hr => ?_, fun hnot => by simp [htakes] at hnot⟩
    · simpa [htakes] using he
    · cases r with
      | timedOut => simp [IoOperation.takes] at htakes
      | done | again | failed => simp [SysResult.reported] at hr
  · by_cases hr : r.reported = .timedOut
    · simp [htakes, hr] at h
    · exact ⟨fun e he => by simp [htakes, hr] at he, hr, fun _ => by simp [htakes, hr]⟩

/-- Before the timer, the await ends with what the operation came to. -/
theorem awaitResume_spec (s : TimedIo) (r : SysResult) (htimeout : s.await.timeout = false)
    (hready : ∀ value ∈ s.ready, value.reported ≠ .timedOut) (hno : .effect .callTimedOut ∉ (s.awaitResume op r).2) :
    ∃ called result, OnlyTook called ∧ result ≠ .timedOut ∧
      (s.awaitResume op r).2 = called ++ [.outerResumed result] ∧
      (s.awaitResume op r).1.await = s.await.complete ∧
      (s.awaitResume op r).1.listening = s.listening ∧ (s.awaitResume op r).1.active = s.active := by
  have hnil : OnlyTook [] := fun e he => absurd he List.not_mem_nil
  rw [awaitResume] at hno ⊢
  rw [htimeout, if_neg (by simp)] at hno ⊢
  by_cases hclosed : (op.checksConnected && !s.connected) = true
  · rw [if_pos hclosed]
    exact ⟨[], .notConnected, hnil, by simp, rfl, rfl, rfl, rfl⟩
  rw [if_neg hclosed] at hno ⊢
  cases hvalue : s.ready with
  | some value =>
      refine ⟨[], _, hnil, ?_, rfl, rfl, rfl, rfl⟩
      split
      · exact hready value hvalue
      · simp
  | none =>
      by_cases hcalls : op.callsInResume = true
      · simp only [hvalue, hcalls] at hno ⊢
        obtain ⟨htook, hresult, -⟩ := callEffects_spec op fun h => hno (List.mem_append_left _ h)
        exact ⟨_, _, htook, hresult, rfl, rfl, rfl, rfl⟩
      · simp only [hcalls]
        exact ⟨[], .value, hnil, by simp, rfl, rfl, rfl, rfl⟩

theorem awaitResume_timeout (s : TimedIo) (r : SysResult) (htimeout : s.await.timeout = true) :
    s.awaitResume op r = s.finish .timedOut := if_pos htimeout

theorem finish_inv {history : List (AwaitEvent IoEffect)} {s : TimedIo} (r : SysResult)
    (hstage : s.await.complete.At .ended) (htimeout : s.await.timeout = false)
    (hready : ∀ value ∈ s.ready, value.reported ≠ .timedOut) (hslot : s.listening = false ∧ s.active = false)
    (hhistory : OnlyTook history) (hno : .effect .callTimedOut ∉ (s.awaitResume op r).2) :
    Inv op (history ++ (s.awaitResume op r).2) (s.awaitResume op r).1 := by
  obtain ⟨called, result, hcalled, hresult, hevents, hawait, hlistening, hactive⟩ :=
    awaitResume_spec op s r htimeout hready hno
  rw [hevents, ← List.append_assoc]
  exact .ended (hawait ▸ hstage) ⟨hlistening.trans hslot.1, hactive.trans hslot.2⟩
    (.completed _ result (hhistory.append hcalled) hresult)

theorem start_inv {s : TimedIo} (r : SysResult) (hstage : s.await.At .spawned) (hcollected : s.await.timer ≠ .collected)
    (hslot : s.listening = false ∧ s.active = false) (htook : s.took = false) (hready : s.ready = none)
    (hno : .effect .callTimedOut ∉ ({ s with await := s.await.startTask }.resumeInner op r).2) :
    Inv op ({ s with await := s.await.startTask }.resumeInner op r).2
      ({ s with await := s.await.startTask }.resumeInner op r).1 := by
  have hnil : OnlyTook [] := fun e he => absurd he List.not_mem_nil
  have hended : s.await.startTask.complete.At .ended := hstage.start.complete hcollected
  have htimeout : s.await.startTask.timeout = false := hstage.2.2.2
  have hcreated : s.await.startTask.inner = .created := hstage.1
  have hwait (called : List (AwaitEvent IoEffect)) (ready : Option SysResult) (took : Bool) (hcalled : OnlyTook called)
      (hready : ∀ value ∈ ready, value.reported ≠ .timedOut) (htook : took = false → called = []) :
      Inv op called ({ s with await := s.await.startTask, ready, took }.awaitSuspend op) :=
    .waiting hstage.start (fun h => absurd h hcollected) (fun h => absurd h (by simp [awaitSuspend, hslot.2])) hready
      (fun h => ⟨by simp [awaitSuspend, h], hslot.2⟩) hcalled htook
  rw [resumeInner] at hno ⊢
  simp only [hcreated] at hno ⊢
  by_cases hclosed : (op.checksConnected && !s.connected) = true
  · rw [if_pos hclosed] at hno ⊢
    have hfinish := finish_inv (s := { s with await := s.await.startTask }) op r hended htimeout (by simp [hready])
      hslot hnil hno
    exact hfinish
  rw [if_neg hclosed] at hno ⊢
  by_cases hcalls : op.callsInReady = true
  · simp only [hcalls] at hno ⊢
    have hvalue (h : .effect .callTimedOut ∉ op.callEffects r) :
        ∀ value ∈ (if op.ready r then some r else none), value.reported ≠ .timedOut := by
      intro value hvalue
      split at hvalue
      · cases hvalue
        exact (callEffects_spec op h).2.1
      · cases hvalue
    by_cases hnow : (op.ready r && !op.alwaysSuspends) = true
    · rw [if_pos hnow] at hno ⊢
      have hcall := fun h => hno (List.mem_append_left _ h)
      exact finish_inv op r hended htimeout (hvalue hcall) hslot (callEffects_spec op hcall).1
        fun h => hno (List.mem_append_right _ h)
    · rw [if_neg hnow] at hno ⊢
      obtain ⟨hcalled, -, hquiet⟩ := callEffects_spec op hno
      refine hwait _ (if op.ready r then some r else none) (s.took || op.takes r) hcalled (hvalue hno) fun h => ?_
      rw [htook, Bool.false_or] at h
      exact hquiet h
  · simp only [hcalls]
    exact hwait [] s.ready s.took hnil (by simp [hready]) fun _ => rfl

theorem systemCall_inv {history : List (AwaitEvent IoEffect)} {s : TimedIo} (r : SysResult)
    (hstage : s.await.At .waiting) (hcollected : s.await.Collected)
    (hready : ∀ value ∈ s.ready, value.reported ≠ .timedOut) (htask : s.listening = false ∧ s.active = false)
    (hhistory : OnlyTook history) (htook : s.took = false → history = [])
    (hno : .effect .callTimedOut ∉ (s.systemCall op r).2) :
    Inv op (history ++ (s.systemCall op r).2) (s.systemCall op r).1 := by
  obtain ⟨hcalled, -, hquiet⟩ := callEffects_spec op hno
  refine .waiting hstage hcollected (fun h => absurd h (by simp [systemCall, htask.2])) hready (fun _ => htask)
    (hhistory.append hcalled) fun h => ?_
  obtain ⟨hbefore, hnow⟩ := Bool.or_eq_false_iff.mp (show (s.took || op.takes r) = false from h)
  simp [systemCall, hquiet hnow, htook hbefore]

/-- A step that runs neither task and makes no call. -/
theorem Inv.moved {history : List (AwaitEvent IoEffect)} {s s' : TimedIo} (h : Inv op history s)
    (hstage : ∀ stage, s.await.At stage → s'.await.At stage) (hcollected : s.await.Collected → s'.await.Collected)
    (hready : s'.ready = s.ready) (htook : s'.took = s.took)
    (hslot : s.listening = false ∧ s.active = false → s'.listening = false ∧ s'.active = false)
    (hactive : (s.active = true → s.await.phase = .io ∧ s.listening = false) →
      s'.active = true → s'.await.phase = .io ∧ s'.listening = false) : Inv op (history ++ []) s' := by
  rw [List.append_nil]
  cases h with
  | spawned hspawned hdue hempty hnone hvalue hhistory =>
      exact .spawned (hstage _ hspawned) (hcollected hdue) (hslot hempty) (htook.trans hnone) (hready.trans hvalue)
        hhistory
  | waiting hwaiting hdue hlistens hvalue htask hhistory hnil =>
      exact .waiting (hstage _ hwaiting) (hcollected hdue) (hactive hlistens) (by rwa [hready])
        (fun h => hslot (htask h)) hhistory (by rwa [htook])
  | ended hover hempty hended => exact .ended (hstage _ hover) (hslot hempty) hended

theorem step_inv {history label : List (AwaitEvent IoEffect)} {s s' : TimedIo} (h : Inv op history s)
    (hguard : s.Guard label) (hstep : Step op s label s') : Inv op (history ++ label) s' := by
  cases hstep with
  | swap hphase hactive =>
      exact h.moved op (fun _ => TimedAwait.At.swap) (fun hc h => absurd (hc h) (by simp [hphase])) rfl rfl id
        fun _ h => absurd h (by simp [hactive])
  | handleTimeout due hphase hwrapper =>
      exact h.moved op (fun _ hstage => hstage.handleTimeout due) (fun _ _ => rfl) rfl rfl id
        fun hactive h => absurd (hactive h).1 (by simp [hphase])
  | watchIo reported hphase htimer =>
      refine h.moved op (fun _ => TimedAwait.At.watchIo) (fun _ h => absurd h htimer) rfl rfl
        (fun hslot => by simp [hslot]) fun _ h => ⟨rfl, ?_⟩
      simp only [Bool.and_eq_true] at h
      simp [h]
  | connect => exact h.moved op (fun _ => id) id rfl rfl id id
  | close =>
      exact h.moved op (fun _ => id) id rfl rfl (fun hslot => ⟨rfl, hslot.2⟩)
        fun hactive h => ⟨(hactive h).1, rfl⟩
  | startTask r hr hphase hwrapper =>
      cases h with
      | spawned hstage hcollected hslot htook hready hhistory =>
          subst history
          exact start_inv op r hstage (fun h => by simp [hcollected h] at hphase) hslot htook hready hguard.2
      | waiting hstage | ended hstage => exact absurd hstage.2.1 (by simp [hwrapper])
  | runTimer r hr hphase htimer =>
      obtain ⟨hinner, htook⟩ := hguard.1 List.mem_cons_self
      cases h with
      | spawned hstage => exact absurd hstage.1 hinner
      | waiting hstage hcollected hactive hready htask hhistory hnil =>
          rw [hnil htook]
          have hsuspended : s.await.runTimer.inner = .suspended := hstage.1
          have hslot : s.active = false := by
            rw [Bool.eq_false_iff]
            intro h
            simp [(hactive h).1] at hphase
          rw [resumeInner]
          simp only [hsuspended]
          rw [awaitResume_timeout op _ r rfl]
          exact .ended hstage.timeout ⟨rfl, hslot⟩ .timedOut
      | ended hstage => exact absurd hstage.2.2 (by simp [htimer])
  | resumeActive r hr hphase hactive =>
      cases h with
      | spawned _ _ hslot => simp [hslot.2] at hactive
      | waiting hstage hcollected hlistening hready htask hhistory htook =>
          have hsuspended : s.await.inner = .suspended := hstage.1
          have hno := hguard.2
          rw [resumeInner] at hno ⊢
          simp only [hsuspended] at hno ⊢
          exact finish_inv op r (hstage.complete fun h => by simp [hcollected h] at hphase) hstage.2.2.2 hready
            ⟨(hlistening hactive).2, rfl⟩ hhistory hno
      | ended _ hslot => simp [hslot.2] at hactive
  | taskReads r hr hphase htask hinner hagain =>
      cases h with
      | spawned hstage => exact absurd hstage.1 (by simp [hinner])
      | waiting hstage hcollected hactive hready hvia hhistory htook =>
          have hsuspended : (s.systemCall op r).1.await.inner = .suspended := hstage.1
          have hcall := fun h => hguard.2 (List.mem_append_left _ h)
          have hno := fun h => hguard.2 (List.mem_append_right _ h)
          obtain ⟨hcalled, hresult, -⟩ := callEffects_spec op hcall
          rw [resumeInner] at hno ⊢
          simp only [hsuspended] at hno ⊢
          rw [← List.append_assoc]
          exact finish_inv op r (hstage.complete fun h => hphase (hcollected h)) hstage.2.2.2 (by simp [hresult])
            (hvia htask) (hhistory.append hcalled) hno
      | ended hstage => exact absurd hstage.1 (by simp [hinner])
  | taskWaits takes hr hphase htask hinner =>
      cases h with
      | spawned hstage => exact absurd hstage.1 (by simp [hinner])
      | waiting hstage hcollected hactive hready hvia hhistory htook =>
          exact systemCall_inv op _ hstage hcollected hready (hvia htask) hhistory htook hguard.2
      | ended hstage => exact absurd hstage.1 (by simp [hinner])

/-- The coroutine may run in any phase of the loop when it awaits the operation. -/
def start (phase : LoopPhase) (connected : Bool) : TimedIo := ⟨⟨phase, .created, .queued, .armed, false⟩, connected,
  false, false, none, false⟩

end TimedIo

end Libcold
