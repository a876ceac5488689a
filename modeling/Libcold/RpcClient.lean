import Libcold.IoTimeout
import Libcold.Runs
import Mathlib.Logic.Function.Basic

namespace Libcold

open Runs

inductive RpcEffect
  | responseWritten
  | doneRun
  deriving DecidableEq

/-- One `co_await` of a `StubCall`, and the task that `ResumeCoroutine` spawned
for it. -/
structure StubCall where
  await : TimedAwait
  resume : Option SpawnedTask := none

/-- A client: the phase of its service, its socket, the id that was given last,
the calls in `outstandings_` under their ids, and the calls awaited so far. -/
structure RpcClient (Call : Type) where
  phase : LoopPhase
  connected : Bool
  id : Int
  outstandings : Int → Option Call := fun _ => none
  calls : Call → Option StubCall := fun _ => none

namespace RpcClient

variable {Call : Type} [DecidableEq Call]

def put (s : RpcClient Call) (k : Call) (call : StubCall) : RpcClient Call :=
  { s with calls := Function.update s.calls k (some call) }

/-- `emplace` leaves an entry that is there. -/
def emplace (outstandings : Int → Option Call) (id : Int) (k : Call) : Int → Option Call :=
  if (outstandings id).isSome then outstandings else Function.update outstandings id (some k)

/-- `CallMethod`, but for the request, which `Send` writes to the socket. -/
def callMethod (s : RpcClient Call) (k : Call) : RpcClient Call :=
  { s with id := s.id + 1, outstandings := emplace s.outstandings (s.id + 1) k }

/-- `await_resume`, which gives -1 with `ETIMEDOUT` or `ENOTCONN`, or 0. -/
def awaitResume (s : RpcClient Call) (call : StubCall) : AwaitResult :=
  if call.await.timeout then .timedOut else if s.connected then .value else .notConnected

def finish (s : RpcClient Call) (k : Call) (call : StubCall) : RpcClient Call × List (AwaitEvent RpcEffect) :=
  (s.put k { call with await := call.await.complete }, [.outerResumed (s.awaitResume call)])

/-- The inner task of a call is resumed: it comes to its `co_await`, or back from it. -/
def resumeInner (s : RpcClient Call) (k : Call) (call : StubCall) :
    RpcClient Call × List (AwaitEvent RpcEffect) :=
  match call.await.inner with
  | .created =>
      if s.connected then ((s.callMethod k).put k { call with await := call.await.suspend }, [])
      else s.finish k call
  -- after a timeout the entry of the call stays in `outstandings_`
  | .suspended => s.finish k call
  | .finished => (s.put k call, [.resumedAfterEnd])

/-- `ResumeCoroutine`, which is the closure that a call is done with. -/
def resumeCoroutine (call : StubCall) : StubCall := { call with resume := some .queued }

/-- `DoClientRpc` on a message with an id, or on bytes that are no message. -/
def doClientRpc (s : RpcClient Call) (message : Option Int) : RpcClient Call × List (Call × AwaitEvent RpcEffect) :=
  match message with
  | none => (s, [])
  | some id =>
      match s.outstandings id with
      | none => (s, [])
      | some k =>
          ({ s with
              outstandings := Function.update s.outstandings id none
              calls := Function.update s.calls k ((s.calls k).map resumeCoroutine) },
            [(k, .effect .responseWritten), (k, .effect .doneRun)])

def swapCall (call : StubCall) : StubCall := ⟨call.await.swap, call.resume.map TimedAwait.swapTask⟩

/-- The steps of the loop that concern the calls of a client. The environment
chooses the clock, the messages and the state of the connection; ids are also
given to calls of other clients. -/
inductive Step : RpcClient Call → List (Call × AwaitEvent RpcEffect) → RpcClient Call → Prop
  | stubCall (s) (k) (hcall : s.calls k = none) :
      Step s [] (s.put k { await := { phase := s.phase } })
  | swap (s) (hphase : s.phase = .io) :
      Step s [] { s with phase := .pendingTasks, calls := fun k => (s.calls k).map swapCall }
  | startTask (s) (k) (call) (hcall : s.calls k = some call) (hphase : s.phase = .pendingTasks)
      (hwrapper : call.await.wrapper = .taken) :
      Step s ((s.resumeInner k { call with await := call.await.startTask }).2.map (Prod.mk k))
        (s.resumeInner k { call with await := call.await.startTask }).1
  | resumeTask (s) (k) (call) (hcall : s.calls k = some call) (hphase : s.phase = .pendingTasks)
      (hresume : call.resume = some .taken) :
      Step s ((s.resumeInner k { call with resume := some .finished }).2.map (Prod.mk k))
        (s.resumeInner k { call with resume := some .finished }).1
  | handleTimeout (s) (due : Call → Bool) (hphase : s.phase = .pendingTasks)
      (htaken : ∀ k call, s.calls k = some call → call.await.wrapper ≠ .taken ∧ call.resume ≠ some .taken) :
      Step s [] { s with
        phase := .timers
        calls := fun k => (s.calls k).map fun call => { call with await := call.await.handleTimeout (due k) } }
  -- `SetTimeout` of a call withdraws nothing, its flag apart
  | runTimer (s) (k) (call) (hcall : s.calls k = some call) (hphase : s.phase = .timers)
      (htimer : call.await.timer = .collected) :
      Step s ((k, .timerRan) :: (s.resumeInner k { call with await := call.await.runTimer }).2.map (Prod.mk k))
        (s.resumeInner k { call with await := call.await.runTimer }).1
  | watchIo (s) (hphase : s.phase = .timers)
      (htimer : ∀ k call, s.calls k = some call → call.await.timer ≠ .collected) :
      Step s [] { s with
        phase := .io, calls := fun k => (s.calls k).map fun call => { call with await := call.await.watchIo } }
  | response (s) (message) : Step s (s.doClientRpc message).2 (s.doClientRpc message).1
  | connection (s) (connected) : Step s [] { s with connected }
  | callElsewhere (s) : Step s [] { s with id := s.id + 1 }

def about (k : Call) (history : List (Call × AwaitEvent RpcEffect)) : List (AwaitEvent RpcEffect) :=
  (history.filter fun e => e.1 = k).map Prod.snd

/-- The coroutine that awaits the call is resumed once and the inner task not
after its end; nothing is done to a call that has been reported as timed out. -/
structure CompletesOnce (history : List (AwaitEvent RpcEffect)) : Prop where
  once : (resumptions history).length ≤ 1
  notAfterEnd : .resumedAfterEnd ∉ history
  afterTimeout : ∀ before after, history = before ++ .outerResumed .timedOut :: after →
    .effect .responseWritten ∉ after ∧ .effect .doneRun ∉ after

/-- The resume of the inner task waits to be run. -/
def Scheduled (call : StubCall) : Prop := call.resume = some .queued ∨ call.resume = some .taken

/-- The timer does not run between a response and the resume that it scheduled,
nor before a call on a closed socket was started; no response comes after it. -/
def Guard (s : RpcClient Call) (label : List (Call × AwaitEvent RpcEffect)) : Prop :=
  ∀ k call, s.calls k = some call →
    ((k, .timerRan) ∈ label → ¬ Scheduled call ∧ (call.await.inner = .created → s.connected = true)) ∧
    ((k, .effect .responseWritten) ∈ label → call.await.timer ≠ .ran)

def Outstanding (s : RpcClient Call) (k : Call) : Prop := ∃ id, s.outstandings id = some k

/-- No id is given twice, and no call has two of them. -/
structure Ids (s : RpcClient Call) : Prop where
  given : ∀ id, (s.outstandings id).isSome → id ≤ s.id
  unique : ∀ id id' k, s.outstandings id = some k → s.outstandings id' = some k → id = id'

/-- What holds of a call, by the stage of its await. -/
inductive CallInv (phase : LoopPhase) (outstanding : Prop) (history : List (AwaitEvent RpcEffect)) :
    Option StubCall → Prop
  | absent (hout : ¬ outstanding) (hquiet : Quiet history) : CallInv phase outstanding history none
  | running {call : StubCall} (stage : TimedAwait.Stage) (hphase : call.await.phase = phase)
      (hstage : call.await.At stage) (hgoing : stage ≠ .ended) (hcollected : call.await.Collected)
      (hspawned : stage = .spawned → ¬ outstanding)
      (hscheduled : Scheduled call → stage = .waiting ∧ ¬ outstanding) (hquiet : Quiet history) :
      CallInv phase outstanding history (some call)
  | ended {call : StubCall} (before) (result) (hphase : call.await.phase = phase) (hstage : call.await.At .ended)
      (hout : outstanding → call.await.timer = .ran) (hscheduled : ¬ Scheduled call) (hquiet : Quiet before)
      (hhistory : history = before ++ [.outerResumed result]) : CallInv phase outstanding history (some call)

structure Inv (history : List (Call × AwaitEvent RpcEffect)) (s : RpcClient Call) : Prop where
  ids : s.Ids
  calls : ∀ k, CallInv s.phase (s.Outstanding k) (about k history) (s.calls k)

theorem about_append (k : Call) (before after : List (Call × AwaitEvent RpcEffect)) :
    about k (before ++ after) = about k before ++ about k after := by
  simp [about]

theorem about_map (k : Call) (events : List (AwaitEvent RpcEffect)) : about k (events.map (Prod.mk k)) = events := by
  induction events with
  | nil => rfl
  | cons e events ih => simpa [about] using ih

theorem about_map_of_ne {k k' : Call} (hne : k' ≠ k) (events : List (AwaitEvent RpcEffect)) :
    about k' (events.map (Prod.mk k)) = [] := by
  simp [about, hne.symm]

theorem scheduled_swapCall (call : StubCall) : Scheduled (swapCall call) ↔ Scheduled call := by
  rcases call with ⟨await, _ | task⟩
  · simp [Scheduled, swapCall]
  · cases task <;> simp [Scheduled, swapCall, TimedAwait.swapTask]

section

variable {phase : LoopPhase} {outstanding : Prop} {history : List (AwaitEvent RpcEffect)} {o : Option StubCall}

theorem CallInv.completesOnce (h : CallInv phase outstanding history o) : CompletesOnce history := by
  have hopen (hquiet : Quiet history) : CompletesOnce history :=
    ⟨by simp [hquiet.resumptions], hquiet.notAfterEnd,
      fun before after heq => absurd (heq ▸ by simp) (hquiet.notResumed .timedOut)⟩
  cases h with
  | absent hout hquiet => exact hopen hquiet
  | running stage hphase hstage hgoing hcollected hspawned hscheduled hquiet => exact hopen hquiet
  | ended before result hphase hstage hout hscheduled hquiet hhistory =>
      subst hhistory
      refine ⟨hquiet.once result, hquiet.never_after_end result, fun first after heq => ?_⟩
      obtain ⟨-, -, rfl⟩ := hquiet.resumption heq
      exact ⟨List.not_mem_nil, List.not_mem_nil⟩

theorem CallInv.mono {outstanding' : Prop} (h : CallInv phase outstanding history o)
    (himp : outstanding' → outstanding) : CallInv phase outstanding' history o := by
  cases h with
  | absent hout hquiet => exact .absent (fun h => hout (himp h)) hquiet
  | running stage hphase hstage hgoing hcollected hspawned hscheduled hquiet =>
      exact .running stage hphase hstage hgoing hcollected (fun hs h => hspawned hs (himp h))
        (fun hs => ⟨(hscheduled hs).1, fun h => (hscheduled hs).2 (himp h)⟩) hquiet
  | ended before result hphase hstage hout hscheduled hquiet hhistory =>
      exact .ended before result hphase hstage (fun h => hout (himp h)) hscheduled hquiet hhistory

theorem CallInv.swap (h : CallInv phase outstanding history o) (hphase : phase ≠ .timers) :
    CallInv .pendingTasks outstanding history (o.map swapCall) := by
  cases h with
  | absent hout hquiet => exact .absent hout hquiet
  | running stage hcall hstage hgoing hcollected hspawned hscheduled hquiet =>
      exact .running stage rfl hstage.swap hgoing (fun h => absurd (hcall ▸ hcollected h) hphase) hspawned
        (fun h => hscheduled ((scheduled_swapCall _).mp h)) hquiet
  | ended before result hcall hstage hout hscheduled hquiet hhistory =>
      exact .ended before result rfl hstage.swap hout (mt (scheduled_swapCall _).mp hscheduled) hquiet hhistory

theorem CallInv.handleTimeout (h : CallInv phase outstanding history o) (due : Bool) :
    CallInv .timers outstanding history
      (o.map fun call => { call with await := call.await.handleTimeout due }) := by
  cases h with
  | absent hout hquiet => exact .absent hout hquiet
  | running stage hcall hstage hgoing hcollected hspawned hscheduled hquiet =>
      exact .running stage rfl (hstage.handleTimeout due) hgoing (fun _ => rfl) hspawned hscheduled hquiet
  | ended before result hcall hstage hout hscheduled hquiet hhistory =>
      refine .ended before result rfl (hstage.handleTimeout due) (fun h => ?_) hscheduled hquiet hhistory
      simp [TimedAwait.handleTimeout, hout h]

theorem CallInv.watchIo (h : CallInv phase outstanding history o)
    (htimer : ∀ call ∈ o, call.await.timer ≠ .collected) :
    CallInv .io outstanding history (o.map fun call => { call with await := call.await.watchIo }) := by
  cases h with
  | absent hout hquiet => exact .absent hout hquiet
  | running stage hcall hstage hgoing hcollected hspawned hscheduled hquiet =>
      have hrun := htimer _ rfl
      exact .running stage rfl hstage.watchIo hgoing (fun h => absurd h hrun) hspawned hscheduled hquiet
  | ended before result hcall hstage hout hscheduled hquiet hhistory =>
      exact .ended before result rfl hstage.watchIo hout hscheduled hquiet hhistory

theorem CallInv.respond {outstanding' : Prop} (h : CallInv phase outstanding history o) (hout : outstanding)
    (hgone : ¬ outstanding') (htimer : ∀ call ∈ o, call.await.timer ≠ .ran) :
    CallInv phase outstanding' (history ++ [.effect .responseWritten, .effect .doneRun]) (o.map resumeCoroutine) := by
  cases h with
  | absent hnot => exact absurd hout hnot
  | running stage hphase hstage hgoing hcollected hspawned hscheduled hquiet =>
      have hnot := htimer _ rfl
      cases stage with
      | spawned => exact absurd hout (hspawned rfl)
      | waiting =>
          exact .running .waiting hphase hstage hgoing hcollected (fun _ => hgone) (fun _ => ⟨rfl, hgone⟩)
            (hquiet.append ⟨by simp, by simp⟩)
      | overtaken => exact absurd hstage.2.2.1 hnot
      | ended => exact absurd rfl hgoing
  | ended before result hphase hstage hran =>
      have hnot := htimer _ rfl
      exact absurd (hran hout) hnot

end

section

variable {history : List (Call × AwaitEvent RpcEffect)} {s : RpcClient Call} {k : Call} {call : StubCall}

omit [DecidableEq Call] in
theorem Ids.unused (h : s.Ids) : s.outstandings (s.id + 1) = none := by
  rw [← Option.not_isSome_iff_eq_none]
  intro hsome
  have hle := h.given _ hsome
  omega

omit [DecidableEq Call] in
theorem callMethod_outstandings (h : s.Ids) (k : Call) :
    (s.callMethod k).outstandings = Function.update s.outstandings (s.id + 1) (some k) := by
  simp [callMethod, emplace, h.unused]

omit [DecidableEq Call] in
theorem callMethod_outstanding (h : s.Ids) {k' : Call} (hk' : k' ≠ k) (hout : (s.callMethod k).Outstanding k') :
    s.Outstanding k' := by
  obtain ⟨id, hid⟩ := hout
  rw [callMethod_outstandings h] at hid
  by_cases heq : id = s.id + 1
  · subst heq
    rw [Function.update_self] at hid
    exact absurd (Option.some.inj hid).symm hk'
  · exact ⟨id, by rwa [Function.update_of_ne heq] at hid⟩

omit [DecidableEq Call] in
theorem callMethod_ids (h : s.Ids) (hout : ¬ s.Outstanding k) : (s.callMethod k).Ids := by
  have hupdate := callMethod_outstandings h k
  refine ⟨fun id hsome => ?_, fun id id' k' hid hid' => ?_⟩
  · rw [hupdate] at hsome
    by_cases heq : id = s.id + 1
    · exact Int.le_of_eq heq
    · rw [Function.update_of_ne heq] at hsome
      exact Int.le_add_one (h.given id hsome)
  · rw [hupdate] at hid hid'
    by_cases heq : id = s.id + 1
    · by_cases heq' : id' = s.id + 1
      · exact heq.trans heq'.symm
      · rw [heq, Function.update_self] at hid
        rw [Function.update_of_ne heq'] at hid'
        exact absurd ⟨id', Option.some.inj hid ▸ hid'⟩ hout
    · rw [Function.update_of_ne heq] at hid
      by_cases heq' : id' = s.id + 1
      · rw [heq', Function.update_self] at hid'
        exact absurd ⟨id, Option.some.inj hid' ▸ hid⟩ hout
      · rw [Function.update_of_ne heq'] at hid'
        exact h.unique id id' k' hid hid'

theorem Inv.of_call {o : Option StubCall} (h : Inv history s) (hcall : s.calls k = o) :
    CallInv s.phase (s.Outstanding k) (about k history) o :=
  hcall ▸ h.calls k

/-- A step that only concerns one call. -/
theorem Inv.one_call {s' : RpcClient Call} {events : List (AwaitEvent RpcEffect)} (h : Inv history s)
    (hphase : s'.phase = s.phase) (hcalls : ∀ k' ≠ k, s'.calls k' = s.calls k')
    (hout : ∀ k' ≠ k, s'.Outstanding k' → s.Outstanding k') (hids : s'.Ids)
    (hcall : CallInv s.phase (s'.Outstanding k) (about k history ++ events) (s'.calls k)) :
    Inv (history ++ events.map (Prod.mk k)) s' := by
  refine ⟨hids, fun k' => ?_⟩
  rw [about_append, hphase]
  by_cases hk' : k' = k
  · subst hk'
    rwa [about_map]
  · rw [about_map_of_ne hk', List.append_nil, hcalls k' hk']
    exact (h.calls k').mono (hout k' hk')

theorem put_calls_of_ne (s : RpcClient Call) {k' : Call} (hk' : k' ≠ k) (call : StubCall) :
    (s.put k call).calls k' = s.calls k' := Function.update_of_ne hk' _ _

theorem put_calls_self (s : RpcClient Call) (k : Call) (call : StubCall) : (s.put k call).calls k = some call :=
  Function.update_self ..

theorem Inv.finish {events : List (AwaitEvent RpcEffect)} (h : Inv history s) (call : StubCall)
    (hphase : call.await.phase = s.phase) (hstage : call.await.complete.At .ended)
    (hout : s.Outstanding k → call.await.complete.timer = .ran) (hscheduled : ¬ Scheduled call)
    (hquiet : Quiet (about k history ++ events)) :
    Inv (history ++ (events ++ (s.finish k call).2).map (Prod.mk k)) (s.finish k call).1 := by
  refine h.one_call rfl (fun k' hk' => put_calls_of_ne s hk' _) (fun _ _ hout => hout) ⟨h.ids.given, h.ids.unique⟩ ?_
  rw [← List.append_assoc, RpcClient.finish, put_calls_self]
  exact .ended _ _ hphase hstage hout hscheduled hquiet rfl

theorem Inv.suspend {events : List (AwaitEvent RpcEffect)} {stage : TimedAwait.Stage} (h : Inv history s)
    (call : StubCall) (hphase : call.await.phase = s.phase) (hstage : call.await.suspend.At stage)
    (hgoing : stage ≠ .ended) (hspawned : stage ≠ .spawned) (hcollected : call.await.Collected)
    (hout : ¬ s.Outstanding k) (hscheduled : ¬ Scheduled call) (hquiet : Quiet (about k history ++ events)) :
    Inv (history ++ events.map (Prod.mk k))
      ((s.callMethod k).put k { call with await := call.await.suspend }) := by
  have hids := callMethod_ids h.ids hout
  refine h.one_call rfl (fun k' hk' => put_calls_of_ne _ hk' _)
    (fun k' hk' => callMethod_outstanding h.ids hk') ⟨hids.given, hids.unique⟩ ?_
  rw [put_calls_self]
  exact .running stage hphase hstage hgoing hcollected (fun h => absurd h hspawned)
    (fun h => absurd h hscheduled) hquiet

theorem Inv.startTask (h : Inv history s) (hcall : s.calls k = some call) (hphase : s.phase = .pendingTasks)
    (hwrapper : call.await.wrapper = .taken) :
    Inv (history ++ (s.resumeInner k { call with await := call.await.startTask }).2.map (Prod.mk k))
      (s.resumeInner k { call with await := call.await.startTask }).1 := by
  cases h.of_call hcall with
  | running stage hcallPhase hstage hgoing hcollected hspawned hscheduled hquiet =>
      rw [← List.append_nil (about k history)] at hquiet
      cases stage with
      | spawned =>
          have htimer : call.await.timer ≠ .collected := fun h => by
            simpa [hcallPhase, hphase] using hcollected h
          have hnot : ¬ Scheduled call := fun h => by cases (hscheduled h).1
          have hcreated : call.await.startTask.inner = .created := hstage.1
          rw [resumeInner]
          simp only [hcreated]
          split
          · exact h.suspend { call with await := call.await.startTask } hcallPhase hstage.start (by simp) (by simp)
              hcollected (hspawned rfl) hnot hquiet
          · exact h.finish { call with await := call.await.startTask } hcallPhase (hstage.start.complete htimer)
              (fun h => absurd h (hspawned rfl)) hnot hquiet
      | overtaken =>
          have hnot : ¬ Scheduled call := fun h => by cases (hscheduled h).1
          have hsuspended : call.await.startTask.inner = .suspended := hstage.1
          rw [resumeInner]
          simp only [hsuspended]
          refine h.finish { call with await := call.await.startTask } hcallPhase hstage.late (fun _ => ?_) hnot hquiet
          simp [TimedAwait.complete, TimedAwait.startTask, hstage.2.2.1, hstage.2.2.2]
      | waiting => simp [hstage.2.1] at hwrapper
      | ended => exact absurd rfl hgoing
  | ended before result hcallPhase hstage => simp [hstage.2.1] at hwrapper

theorem Inv.resumeTask (h : Inv history s) (hcall : s.calls k = some call) (hphase : s.phase = .pendingTasks)
    (hresume : call.resume = some .taken) :
    Inv (history ++ (s.resumeInner k { call with resume := some .finished }).2.map (Prod.mk k))
      (s.resumeInner k { call with resume := some .finished }).1 := by
  cases h.of_call hcall with
  | running stage hcallPhase hstage hgoing hcollected hspawned hscheduled hquiet =>
      rw [← List.append_nil (about k history)] at hquiet
      obtain ⟨rfl, hout⟩ := hscheduled (.inr hresume)
      have hsuspended : call.await.inner = .suspended := hstage.1
      rw [resumeInner]
      simp only [hsuspended]
      exact h.finish { call with resume := some .finished } hcallPhase
        (hstage.complete fun h => by simpa [hcallPhase, hphase] using hcollected h)
        (fun h => absurd h hout) (by simp [Scheduled]) hquiet
  | ended before result hcallPhase hstage hout hscheduled => exact absurd (.inr hresume) hscheduled

theorem Inv.runTimer (h : Inv history s) (hcall : s.calls k = some call) (htimer : call.await.timer = .collected)
    (hnot : ¬ Scheduled call) (hopen : call.await.inner = .created → s.connected = true) (hphase : s.phase = .timers) :
    Inv (history ++
        (k, .timerRan) :: (s.resumeInner k { call with await := call.await.runTimer }).2.map (Prod.mk k))
      (s.resumeInner k { call with await := call.await.runTimer }).1 := by
  cases h.of_call hcall with
  | running stage hcallPhase hstage hgoing hcollected hspawned hscheduled hquiet =>
      replace hquiet : Quiet (about k history ++ [.timerRan]) := hquiet.append ⟨by simp, by simp⟩
      cases stage with
      | spawned =>
          have hcreated : call.await.runTimer.inner = .created := hstage.1
          rw [resumeInner]
          simp only [hcreated, hopen hstage.1]
          exact h.suspend { call with await := call.await.runTimer } hcallPhase hstage.overtake (by simp) (by simp)
            (fun _ => hcallPhase.trans hphase) (hspawned rfl) hnot hquiet
      | waiting =>
          have hsuspended : call.await.runTimer.inner = .suspended := hstage.1
          rw [resumeInner]
          simp only [hsuspended]
          exact h.finish { call with await := call.await.runTimer } hcallPhase hstage.timeout (fun _ => rfl) hnot hquiet
      | overtaken => simp [hstage.2.2.1] at htimer
      | ended => exact absurd rfl hgoing
  | ended before result hcallPhase hstage => rcases hstage.2.2 with h | h <;> simp [h] at htimer

omit [DecidableEq Call] in
theorem of_erased {id id' : Int} (h : Function.update s.outstandings id none id' = some k) :
    id' ≠ id ∧ s.outstandings id' = some k := by
  by_cases heq : id' = id
  · subst heq
    simp at h
  · exact ⟨heq, by rwa [Function.update_of_ne heq] at h⟩

/-- An entry is taken out once, and its call is then no longer outstanding. -/
theorem Inv.response (h : Inv history s) (message : Option Int) (hguard : s.Guard (s.doClientRpc message).2) :
    Inv (history ++ (s.doClientRpc message).2) (s.doClientRpc message).1 := by
  have hsame : Inv (history ++ []) s := by rwa [List.append_nil]
  cases message with
  | none => exact hsame
  | some id =>
      rw [doClientRpc] at hguard ⊢
      cases hid : s.outstandings id with
      | none => simpa [hid] using hsame
      | some k =>
          simp only [hid] at hguard ⊢
          change Inv (history ++ [AwaitEvent.effect .responseWritten, .effect .doneRun].map (Prod.mk k)) _
          have hgone : ¬ ∃ id', Function.update s.outstandings id none id' = some k := by
            rintro ⟨id', hid'⟩
            obtain ⟨hne, hid'⟩ := of_erased hid'
            exact hne (h.ids.unique id' id k hid' hid)
          have hids (id' : Int) (hsome : (Function.update s.outstandings id none id').isSome) : id' ≤ s.id := by
            obtain ⟨k', hk'⟩ := Option.isSome_iff_exists.mp hsome
            exact h.ids.given id' (by simp [(of_erased hk').2])
          refine h.one_call rfl (fun k' hk' => Function.update_of_ne hk' _ _)
            (fun k' _ ⟨id', hid'⟩ => ⟨id', (of_erased hid').2⟩)
            ⟨hids, fun id' id'' k' hid' hid'' => h.ids.unique id' id'' k' (of_erased hid').2 (of_erased hid'').2⟩ ?_
          dsimp only
          rw [Function.update_self]
          exact (h.calls k).respond ⟨id, hid⟩ hgone fun call hcall => (hguard k call hcall).2 (by simp)

theorem step_inv {s' : RpcClient Call} {label : List (Call × AwaitEvent RpcEffect)} (h : Inv history s)
    (hguard : s.Guard label) (hstep : Step s label s') : Inv (history ++ label) s' := by
  cases hstep with
  | stubCall k hcall =>
      cases h.of_call hcall with
      | absent hout hquiet =>
          change Inv (history ++ ([] : List (AwaitEvent RpcEffect)).map (Prod.mk k)) _
          refine h.one_call rfl (fun k' hk' => put_calls_of_ne s hk' _) (fun _ _ hout => hout)
            ⟨h.ids.given, h.ids.unique⟩ ?_
          rw [put_calls_self, List.append_nil]
          exact .running .spawned rfl ⟨rfl, .inl rfl, .inl rfl, rfl⟩ (by simp) (fun h => by cases h) (fun _ => hout)
            (by simp [Scheduled]) hquiet
  | swap hphase =>
      rw [List.append_nil]
      exact ⟨⟨h.ids.given, h.ids.unique⟩, fun k => (h.calls k).swap (by simp [hphase])⟩
  | startTask k call hcall hphase hwrapper => exact h.startTask hcall hphase hwrapper
  | resumeTask k call hcall hphase hresume => exact h.resumeTask hcall hphase hresume
  | handleTimeout due hphase htaken =>
      rw [List.append_nil]
      exact ⟨⟨h.ids.given, h.ids.unique⟩, fun k => (h.calls k).handleTimeout (due k)⟩
  | runTimer k call hcall hphase htimer =>
      obtain ⟨hnot, hopen⟩ := (hguard k call hcall).1 List.mem_cons_self
      exact h.runTimer hcall htimer hnot hopen hphase
  | watchIo hphase htimer =>
      rw [List.append_nil]
      exact ⟨⟨h.ids.given, h.ids.unique⟩, fun k => (h.calls k).watchIo fun call hcall => htimer k call hcall⟩
  | response message => exact h.response message hguard
  | connection connected =>
      rw [List.append_nil]
      exact ⟨⟨h.ids.given, h.ids.unique⟩, h.calls⟩
  | callElsewhere =>
      rw [List.append_nil]
      exact ⟨⟨fun id hsome => Int.le_add_one (h.ids.given id hsome), h.ids.unique⟩, h.calls⟩

end

def start (phase : LoopPhase) (connected : Bool) (id : Int) : RpcClient Call where
  phase := phase
  connected := connected
  id := id

theorem start_inv (phase : LoopPhase) (connected : Bool) (id : Int) :
    Inv ([] : List (Call × AwaitEvent RpcEffect)) (start phase connected id) where
  ids := ⟨fun id hsome => by simp [start] at hsome, fun id id' k hid => by simp [start] at hid⟩
  calls k := .absent (fun ⟨id, hid⟩ => by simp [start] at hid) ⟨by simp [about], by simp [about]⟩

theorem call_completes_once {phase : LoopPhase} {connected : Bool} {id : Int}
    {trace : List (List (Call × AwaitEvent RpcEffect))} {s : RpcClient Call}
    (h : Run (Guarded Guard Step) (start phase connected id) trace s) (k : Call) :
    CompletesOnce (about k trace.flatten) := by
  suffices hs : Inv trace.flatten s from (hs.calls k).completesOnce
  induction h with
  | stop => exact start_inv phase connected id
  | next _ taken hs =>
      rw [List.flatten_append, List.flatten_singleton]
      exact step_inv hs taken.1 taken.2

omit [DecidableEq Call] in
theorem guard_quiet (s : RpcClient Call) {label : List (Call × AwaitEvent RpcEffect)}
    (h : ∀ k, (k, .timerRan) ∉ label ∧ (k, .effect .responseWritten) ∉ label) : s.Guard label :=
  fun k _ _ => ⟨fun hmem => absurd hmem (h k).1, fun hmem => absurd hmem (h k).2⟩

/-- A call whose response comes in time. -/
theorem answered_call : ∃ s : RpcClient Unit,
    Run (Guarded Guard Step) (start .pendingTasks true 0)
      [[], [], [], [], [], [((), .effect .responseWritten), ((), .effect .doneRun)], [], [], [],
        [((), .outerResumed .value)]] s ∧
    CompletesOnce (about () [[], [], [], [], [], [((), .effect .responseWritten), ((), .effect .doneRun)], [], [], [],
      [((), .outerResumed .value)]].flatten) := by
  have hspawn : Run (Guarded Guard Step) (start .pendingTasks true 0 : RpcClient Unit) [[], [], []] _ :=
    ((Run.stop.next ⟨guard_quiet _ (by simp), .stubCall _ () rfl⟩).next
      ⟨guard_quiet _ (by simp), .handleTimeout _ (fun _ => false) rfl (by rintro ⟨⟩ _ ⟨⟩; decide)⟩).next
      ⟨guard_quiet _ (by simp), .watchIo _ rfl (by rintro ⟨⟩ _ ⟨⟩; decide)⟩
  have hcalled : Run (Guarded Guard Step) (start .pendingTasks true 0 : RpcClient Unit) [[], [], [], [], []] _ :=
    (hspawn.next ⟨guard_quiet _ (by simp), .swap _ rfl⟩).next
      ⟨guard_quiet _ (by simp), .startTask _ () ⟨⟨.pendingTasks, .created, .taken, .armed, false⟩, none⟩ rfl rfl rfl⟩
  have hanswered : Run (Guarded Guard Step) (start .pendingTasks true 0 : RpcClient Unit)
      [[], [], [], [], [], [((), .effect .responseWritten), ((), .effect .doneRun)]] _ :=
    hcalled.next ⟨fun ⟨⟩ _ hcall => ⟨by simp, fun _ => by cases hcall; decide⟩, .response _ (some 1)⟩
  have hrun : Run (Guarded Guard Step) (start .pendingTasks true 0 : RpcClient Unit)
      [[], [], [], [], [], [((), .effect .responseWritten), ((), .effect .doneRun)], [], [], [],
        [((), .outerResumed .value)]] _ :=
    (((hanswered.next
      ⟨guard_quiet _ (by simp), .handleTimeout _ (fun _ => false) rfl (by rintro ⟨⟩ _ ⟨⟩; decide)⟩).next
      ⟨guard_quiet _ (by simp), .watchIo _ rfl (by rintro ⟨⟩ _ ⟨⟩; decide)⟩).next
      ⟨guard_quiet _ (by simp), .swap _ rfl⟩).next ⟨guard_quiet _ (by simp),
        .resumeTask _ () ⟨⟨.pendingTasks, .suspended, .awaiting, .armed, false⟩, some .taken⟩ rfl rfl rfl⟩
  exact ⟨_, hrun, call_completes_once hrun ()⟩

/-- The timer reports the call as timed out and leaves its entry; the response
comes later, writes to the call and schedules a resume of the finished task. -/
theorem late_response : ∃ s : RpcClient Unit,
    Run Step (start .pendingTasks true 0)
      [[], [], [], [], [], [], [((), .timerRan), ((), .outerResumed .timedOut)], [],
        [((), .effect .responseWritten), ((), .effect .doneRun)], [], [((), .resumedAfterEnd)]] s ∧
    ¬ CompletesOnce (about () [((), .timerRan), ((), .outerResumed .timedOut),
      ((), .effect .responseWritten), ((), .effect .doneRun), ((), .resumedAfterEnd)]) := by
  have hcalled : Run Step (start .pendingTasks true 0 : RpcClient Unit) [[], [], [], [], []] _ :=
    ((((Run.stop.next (.stubCall _ () rfl)).next
      (.handleTimeout _ (fun _ => false) rfl (by rintro ⟨⟩ _ ⟨⟩; decide))).next
      (.watchIo _ rfl (by rintro ⟨⟩ _ ⟨⟩; decide))).next (.swap _ rfl)).next
      (.startTask _ () ⟨⟨.pendingTasks, .created, .taken, .armed, false⟩, none⟩ rfl rfl rfl)
  have htimed : Run Step (start .pendingTasks true 0 : RpcClient Unit)
      [[], [], [], [], [], [], [((), .timerRan), ((), .outerResumed .timedOut)]] _ :=
    (hcalled.next (.handleTimeout _ (fun _ => true) rfl (by rintro ⟨⟩ _ ⟨⟩; decide))).next
      (.runTimer _ () ⟨⟨.timers, .suspended, .awaiting, .collected, false⟩, none⟩ rfl rfl rfl)
  have hrun : Run Step (start .pendingTasks true 0 : RpcClient Unit) _ _ :=
    (((htimed.next (.watchIo _ rfl (by rintro ⟨⟩ _ ⟨⟩; decide))).next (.response _ (some 1))).next
      (.swap _ rfl)).next 
      (.resumeTask _ () ⟨⟨.pendingTasks, .finished, .finished, .ran, true⟩, some .taken⟩ rfl rfl rfl)
  exact ⟨_, hrun, fun h => h.notAfterEnd (by decide)⟩

end RpcClient

end Libcold
