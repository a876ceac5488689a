import Libcold.IoService

namespace Libcold

open Runs

variable {Thread Task : Type} [DecidableEq Thread]

namespace IoService

/-- A step of the service, by who takes it. -/
inductive ServiceEvent (Thread Task : Type)
  | loop (e : TaskEvent Task)
  | addTask (t : Option Thread) (task : Task)
  | stop (t : Option Thread)
  | inCall (t : Option Thread) (e : TaskEvent Task)

inductive ServiceStep : IoService Thread Task → ServiceEvent Thread Task → IoService Thread Task → Prop
  | loop {s e s'} (hcall : s.calls none = .idle) (h : LoopStep s e s') : ServiceStep s (.loop e) s'
  | addTask (s) (t) (task) (hcall : s.MayCall t) : ServiceStep s (.addTask t task) (s.setCall t (.lock task))
  | stop (s) (t) (hcall : s.MayCall t) : ServiceStep s (.stop t) { s.setCall t .stopWrite with running := false }
  | inCall {s e s'} (t) (hbusy : s.calls t ≠ .idle) (h : CallStep t s e s') : ServiceStep s (.inCall t e) s'

def ServiceEvent.task : ServiceEvent Thread Task → TaskEvent Task
  | .loop e | .inCall _ e => e
  | .addTask _ _ | .stop _ => .other

theorem step_iff {s s' : IoService Thread Task} {e : TaskEvent Task} :
    Step s e s' ↔ ∃ event, ServiceStep s event s' ∧ event.task = e := by
  constructor
  · intro h
    cases h with
    | loop hcall h => exact ⟨_, .loop hcall h, rfl⟩
    | call t h =>
        cases h with
        | addTask task hcall => exact ⟨_, .addTask s t task hcall, rfl⟩
        | stop hcall => exact ⟨_, .stop s t hcall, rfl⟩
        | lock task hcall hmutex => exact ⟨.inCall t _, .inCall t (by simp [hcall]) (.lock s task hcall hmutex), rfl⟩
        | push task hcall => exact ⟨.inCall t _, .inCall t (by simp [hcall]) (.push s task hcall), rfl⟩
        | write hcall => exact ⟨.inCall t _, .inCall t (by simp [hcall]) (.write s hcall), rfl⟩
        | unlock hcall => exact ⟨.inCall t _, .inCall t (by simp [hcall]) (.unlock s hcall), rfl⟩
        | stopWrite hcall => exact ⟨.inCall t _, .inCall t (by simp [hcall]) (.stopWrite s hcall), rfl⟩
  · rintro ⟨event, h, rfl⟩
    cases h with
    | loop hcall h => exact .loop hcall h
    | addTask t task hcall => exact .call t (.addTask s task hcall)
    | stop t hcall => exact .call t (.stop s hcall)
    | inCall t hbusy h => exact .call t h

theorem run_tasks {trace : List (ServiceEvent Thread Task)} {s : IoService Thread Task}
    (h : Run ServiceStep {} trace s) : Run Step {} (trace.map ServiceEvent.task) s := by
  induction h with
  | stop => exact .stop
  | next _ taken ih =>
      rw [List.map_append]
      exact ih.next (step_iff.mpr ⟨_, taken, rfl⟩)

/-- From the test of `running_` to the end of `epoll_wait`. -/
def StartPc.iterating : StartPc → Bool
  | .lock | .swap | .unlock | .start | .timers | .epollWait => true
  | _ => false

/-- Whoever holds the mutex is in its section, and a `Stop` that the loop has not seen
yet ends the next `epoll_wait`. -/
structure Watched (s : IoService Thread Task) : Prop where
  holder : ∀ t, s.mutexForPendingTasks = some t →
    CallPc.locked (s.calls t) ∨ t = none ∧ (s.pc = .swap ∨ s.pc = .unlock)
  signal : s.running = false → StartPc.iterating s.pc →
    0 < s.wakeUpCounter ∨ ∃ t, s.calls t = .stopWrite

omit [DecidableEq Thread] in
theorem loopStep_watched {s s' : IoService Thread Task} {e : TaskEvent Task} (h : Watched s)
    (hstep : LoopStep s e s') : Watched s' := by
  have hfree (t : Option Thread) (hmutex : s.mutexForPendingTasks = some t)
      (hpc : s.pc ≠ .swap ∧ s.pc ≠ .unlock) : CallPc.locked (s.calls t) := by
    rcases h.holder t hmutex with hheld | ⟨-, hswap | hunlock⟩
    · exact hheld
    · exact absurd hswap hpc.1
    · exact absurd hunlock hpc.2
  have hsignal (hrunning : s.running = false) (hpc : StartPc.iterating s.pc) := h.signal hrunning hpc
  cases hstep with
  | enter hpc | iterate hpc hrunning =>
      refine ⟨fun t hmutex => .inl (hfree t hmutex (by simp [hpc])), fun hstopped => ?_⟩
      simp_all
  | leave hpc | epollWake hpc | epollOther hpc | handleWakeUp hpc | again hpc =>
      exact ⟨fun t hmutex => .inl (hfree t hmutex (by simp [hpc])), fun _ hpc => by cases hpc⟩
  | clear hpc | handleTimeout hpc =>
      refine ⟨fun t hmutex => .inl (hfree t hmutex (by simp [hpc])), fun hstopped _ => ?_⟩
      exact hsignal hstopped (by rw [hpc]; rfl)
  | lock hpc hmutex =>
      refine ⟨fun t ht => ?_, fun hstopped _ => hsignal hstopped (by rw [hpc]; rfl)⟩
      cases ht
      exact .inr ⟨rfl, .inl rfl⟩
  | swap hpc =>
      refine ⟨fun t ht => ?_, fun hstopped _ => hsignal hstopped (by rw [hpc]; rfl)⟩
      rcases h.holder t ht with hheld | ⟨ht, -⟩
      · exact .inl hheld
      · exact .inr ⟨ht, .inr rfl⟩
  | unlock hpc => exact ⟨nofun, fun hstopped _ => hsignal hstopped (by rw [hpc]; rfl)⟩
  | startTask task rest hpc htasks =>
      exact ⟨fun t hmutex => .inl (hfree t hmutex (by simp [hpc])), hsignal⟩

omit [DecidableEq Thread] in
theorem Watched.start : Watched ({} : IoService Thread Task) :=
  ⟨nofun, fun _ hpc => by cases hpc⟩

theorem Watched.holder_update {s : IoService Thread Task} (h : Watched s) {t : Option Thread} {c : CallPc Task}
    (hc : s.mutexForPendingTasks = some t → CallPc.locked c ∨ t = none ∧ (s.pc = .swap ∨ s.pc = .unlock))
    (u : Option Thread) (hmutex : s.mutexForPendingTasks = some u) :
    CallPc.locked (Function.update s.calls t c u) ∨ u = none ∧ (s.pc = .swap ∨ s.pc = .unlock) := by
  by_cases hut : u = t
  · subst hut
    simpa using hc hmutex
  · simpa [hut] using h.holder u hmutex

theorem Watched.signal_update {s : IoService Thread Task} (h : Watched s) {t : Option Thread} (c : CallPc Task)
    (ht : s.calls t ≠ .stopWrite) (hstopped : s.running = false) (hpc : StartPc.iterating s.pc) :
    0 < s.wakeUpCounter ∨ ∃ u, Function.update s.calls t c u = .stopWrite := by
  rcases h.signal hstopped hpc with hpos | ⟨u, hu⟩
  · exact .inl hpos
  · have hut : u ≠ t := by
      rintro rfl
      exact ht hu
    exact .inr ⟨u, by rw [Function.update_of_ne hut, hu]⟩

theorem callStep_watched {s s' : IoService Thread Task} {e : TaskEvent Task} {t : Option Thread} (h : Watched s)
    (hstep : CallStep t s e s') : Watched s' := by
  have hkept (hcall : CallPc.locked (s.calls t) = false) {c : CallPc Task} (hmutex : s.mutexForPendingTasks = some t) :
      CallPc.locked c ∨ t = none ∧ (s.pc = .swap ∨ s.pc = .unlock) := by
    rcases h.holder t hmutex with hheld | hloop
    · simp [hcall] at hheld
    · exact .inr hloop
  cases hstep with
  | addTask task hcall =>
      exact ⟨h.holder_update (hkept (by rw [hcall.1]; rfl)), h.signal_update _ (by simp [hcall.1])⟩
  | stop hcall =>
      exact ⟨h.holder_update (hkept (by rw [hcall.1]; rfl)), fun _ _ => .inr ⟨t, by simp [setCall]⟩⟩
  | lock task hcall hmutex =>
      refine ⟨fun u hu => .inl ?_, h.signal_update _ (by simp [hcall])⟩
      cases hu
      simp [setCall, CallPc.locked]
  | push task hcall =>
      exact ⟨h.holder_update fun _ => .inl rfl, h.signal_update _ (by simp [hcall])⟩
  | write hcall =>
      exact ⟨h.holder_update fun _ => .inl rfl, fun _ _ => .inl (eventfdWrite_pos _)⟩
  | unlock hcall =>
      refine ⟨fun u hu => ?_, h.signal_update _ (by simp [hcall])⟩
      simp at hu
  | stopWrite hcall =>
      exact ⟨h.holder_update (hkept (by rw [hcall]; rfl)), fun _ _ => .inl (eventfdWrite_pos _)⟩

theorem run_watched {trace : List (TaskEvent Task)} {s : IoService Thread Task} (h : Run Step {} trace s) :
    Watched s := by
  induction h with
  | stop => exact .start
  | next run taken ih =>
      cases taken with
      | loop hcall hstep => exact loopStep_watched ih hstep
      | call t hstep => exact callStep_watched ih hstep

/-- Some step of the loop or of a call that has begun can be taken, and it is not the
return of `epoll_wait` with no wake-up. -/
def Goes (s : IoService Thread Task) : Prop :=
  (s.calls none = .idle ∧ ∃ e s', LoopStep s e s' ∧ (s.pc = .epollWait → s'.pc = .handleWakeUp)) ∨
    ∃ t e s', s.calls t ≠ .idle ∧ CallStep t s e s'

/-- The holder of the mutex goes on. -/
theorem Watched.holder_goes {s : IoService Thread Task} (h : Watched s) (hin : s.calls none = .idle ∨
    (s.pc ≠ .swap ∧ s.pc ≠ .unlock)) {t : Option Thread} (hmutex : s.mutexForPendingTasks = some t) : Goes s := by
  rcases h.holder t hmutex with hheld | ⟨-, hpc⟩
  · right
    refine ⟨t, ?_⟩
    generalize hc : s.calls t = c at hheld
    cases c with
    | idle | lock | stopWrite => cases hheld
    | push task => exact ⟨_, _, by simp, .push s task hc⟩
    | write => exact ⟨_, _, by simp, .write s hc⟩
    | unlock => exact ⟨_, _, by simp, .unlock s hc⟩
  · rcases hin with hidle | hne
    · refine .inl ⟨hidle, ?_⟩
      rcases hpc with hpc | hpc
      · exact ⟨_, _, .swap s hpc, by simp [hpc]⟩
      · exact ⟨_, _, .unlock s hpc, by simp [hpc]⟩
    · rcases hpc with hpc | hpc
      · exact absurd hpc hne.1
      · exact absurd hpc hne.2

theorem Watched.call_goes {s : IoService Thread Task} (h : Watched s) (hin : s.calls none = .idle ∨
    (s.pc ≠ .swap ∧ s.pc ≠ .unlock)) {t : Option Thread} (hbusy : s.calls t ≠ .idle) : Goes s := by
  have hgo {e : TaskEvent Task} {s' : IoService Thread Task} (hstep : CallStep t s e s') : Goes s :=
    .inr ⟨t, e, s', hbusy, hstep⟩
  cases hc : s.calls t with
  | idle => exact absurd hc hbusy
  | lock task =>
      cases hmutex : s.mutexForPendingTasks with
      | none => exact hgo (.lock s task hc hmutex)
      | some u => exact h.holder_goes hin hmutex
  | push task => exact hgo (.push s task hc)
  | write => exact hgo (.write s hc)
  | unlock => exact hgo (.unlock s hc)
  | stopWrite => exact hgo (.stopWrite s hc)

/-- A loop that has been stopped does not wait for anybody but those that go on. -/
theorem Watched.goes {trace : List (TaskEvent Task)} {s : IoService Thread Task} (hs : Inv trace s) (h : Watched s)
    (hin : s.pc ≠ .outside) (hstopped : s.running = false) : Goes s := by
  by_cases hidle : s.calls none = .idle
  · have hgo {e : TaskEvent Task} {s' : IoService Thread Task} (hstep : LoopStep s e s') (hpc : s.pc ≠ .epollWait) :
        Goes s := .inl ⟨hidle, e, s', hstep, fun hwait => absurd hwait hpc⟩
    cases hpc : s.pc with
    | outside => exact absurd hpc hin
    | head => exact hgo (.leave s hpc hstopped) (by simp [hpc])
    | lock =>
        cases hmutex : s.mutexForPendingTasks with
        | none => exact hgo (.lock s hpc hmutex) (by simp [hpc])
        | some u => exact h.holder_goes (.inl hidle) hmutex
    | swap => exact hgo (.swap s hpc) (by simp [hpc])
    | unlock => exact hgo (.unlock s hpc) (by simp [hpc])
    | start =>
        cases htasks : s.tasks with
        | nil => exact hgo (.clear s hpc htasks) (by simp [hpc])
        | cons task rest => exact hgo (.startTask s task rest hpc htasks) (by simp [hpc])
    | timers => exact hgo (.handleTimeout s hpc) (by simp [hpc])
    | epollWait =>
        rcases h.signal hstopped (by rw [hpc]; rfl) with hpos | ⟨t, ht⟩
        · exact .inl ⟨hidle, _, _, .epollWake s hpc hpos, fun _ => rfl⟩
        · exact h.call_goes (.inl hidle) (show s.calls t ≠ .idle by simp [ht])
    | handleWakeUp => exact hgo (.handleWakeUp s hpc) (by simp [hpc])
    | io => exact hgo (.again s hpc) (by simp [hpc])
  · refine h.call_goes (.inr ⟨?_, ?_⟩) hidle
    · intro hpc
      exact hidle (hs.loopIdle (by rw [hpc]; rfl))
    · intro hpc
      exact hidle (hs.loopIdle (by rw [hpc]; rfl))

/-- The steps from a control point to the end of `Start`, but for the tasks. -/
def StartPc.left : StartPc → Nat
  | .outside => 0
  | .head => 1
  | .io => 2
  | .handleWakeUp => 3
  | .epollWait => 4
  | .timers => 5
  | .start => 6
  | .unlock => 7
  | .swap => 8
  | .lock => 9

def loopLeft (s : IoService Thread Task) : Nat :=
  StartPc.left s.pc + s.tasks.length + if s.pc = .lock ∨ s.pc = .swap then s.pendingTasks.length else 0

def loopSpent : ServiceEvent Thread Task → Nat
  | .loop _ => 1
  | _ => 0

def taskPushed : ServiceEvent Thread Task → Nat
  | .inCall _ (.pushed _) => 1
  | _ => 0

def CallPc.left : CallPc Task → Nat
  | .idle => 0
  | .lock _ => 4
  | .push _ => 3
  | .write => 2
  | .unlock | .stopWrite => 1

def callSpent (t : Option Thread) : ServiceEvent Thread Task → Nat
  | .inCall u _ => if u = t then 1 else 0
  | _ => 0

def callBegun (t : Option Thread) : ServiceEvent Thread Task → Nat
  | .addTask u _ => if u = t then 4 else 0
  | .stop u => if u = t then 1 else 0
  | _ => 0

/-- `Start` is not called again. -/
def Entered (s : IoService Thread Task) : ServiceEvent Thread Task → Prop
  | .loop _ => s.pc ≠ .outside
  | _ => True

theorem ServiceStep.loopLeft {trace : List (TaskEvent Task)} {s s' : IoService Thread Task}
    {event : ServiceEvent Thread Task} (hs : Inv trace s) (hstopped : s.running = false)
    (h : Guarded Entered ServiceStep s event s') :
    s'.running = false ∧ s'.loopLeft + loopSpent event ≤ s.loopLeft + taskPushed event := by
  obtain ⟨hin, hstep⟩ := h
  cases hstep with
  | loop hcall hloop =>
      cases hloop with
      | enter hpc => exact absurd hpc hin
      | iterate hpc hrunning => simp [hrunning] at hstopped
      | swap hpc =>
          have htasks := hs.tasks_nil (by simp [hpc])
          refine ⟨hstopped, ?_⟩
          simp only [IoService.loopLeft, loopSpent, taskPushed, StartPc.left, hpc, htasks, List.length_nil,
            reduceCtorEq, or_true, or_self, if_true, if_false]
          omega
      | startTask task rest hpc htasks =>
          refine ⟨hstopped, ?_⟩
          simp only [IoService.loopLeft, loopSpent, taskPushed, StartPc.left, hpc, htasks, List.length_cons,
            reduceCtorEq, or_self, if_false]
          omega
      | leave hpc | lock hpc | unlock hpc | clear hpc | handleTimeout hpc | epollWake hpc | epollOther hpc
      | handleWakeUp hpc | again hpc =>
          refine ⟨hstopped, ?_⟩
          simp only [IoService.loopLeft, loopSpent, taskPushed, StartPc.left, goto, hpc, reduceCtorEq, or_self,
            or_true, true_or, if_true, if_false]
          omega
  | addTask t task hcall => exact ⟨hstopped, le_rfl⟩
  | stop t hcall => exact ⟨rfl, le_rfl⟩
  | inCall t hbusy hcall =>
      cases hcall with
      | push task hcall =>
          refine ⟨hstopped, ?_⟩
          simp only [IoService.loopLeft, loopSpent, taskPushed, setCall, List.length_append, List.length_singleton]
          split <;> omega
      | stop hcall => exact ⟨rfl, le_rfl⟩
      | _ => exact ⟨hstopped, le_rfl⟩

theorem ServiceStep.callLeft {s s' : IoService Thread Task} {event : ServiceEvent Thread Task} (t : Option Thread)
    (h : ServiceStep s event s') :
    CallPc.left (s'.calls t) + callSpent t event ≤ CallPc.left (s.calls t) + callBegun t event := by
  cases h with
  | loop hcall hloop => cases hloop <;> simp [callSpent, callBegun, goto]
  | addTask u task hcall =>
      by_cases hut : u = t
      · subst hut
        simp [callSpent, callBegun, setCall, CallPc.left]
      · simp [callSpent, callBegun, setCall, hut, Ne.symm hut]
  | stop u hcall =>
      by_cases hut : u = t
      · subst hut
        simp [callSpent, callBegun, setCall, CallPc.left]
      · simp [callSpent, callBegun, setCall, hut, Ne.symm hut]
  | inCall u hbusy hcall =>
      by_cases hut : u = t
      · subst hut
        cases hcall with
        | addTask task hcall => exact absurd hcall.1 hbusy
        | stop hcall => exact absurd hcall.1 hbusy
        | _ => simp_all [callSpent, callBegun, setCall, wakeUp, CallPc.left]
      · cases hcall <;> simp [callSpent, callBegun, setCall, wakeUp, hut, Ne.symm hut]

/-- A step of a service that nobody has stopped keeps it in `Start`. -/
theorem ServiceStep.running {s s' : IoService Thread Task} {event : ServiceEvent Thread Task}
    (h : ServiceStep s event s') (hin : s.pc ≠ .outside) (hrunning : s.running = true)
    (hstop : ∀ t, event ≠ .stop t) : s'.pc ≠ .outside ∧ s'.running = true := by
  cases h with
  | loop hcall hloop => cases hloop <;> simp_all [goto]
  | addTask t task hcall => exact ⟨hin, hrunning⟩
  | stop t hcall => exact absurd rfl (hstop t)
  | inCall t hbusy hcall =>
      cases hcall with
      | stop hcall => exact absurd hcall.1 hbusy
      | _ => exact ⟨hin, hrunning⟩

/-- `Start` ends by a `Stop` that came after its entry, and by that alone: without one it
goes on, and with one the loop is through within the iteration it is in, where neither
the mutex nor `epoll_wait` can keep it. -/
theorem start_ends_by_stop {before after : List (ServiceEvent Thread Task)} {s s' : IoService Thread Task}
    (hreach : Run ServiceStep {} before s) (hin : s.pc ≠ .outside)
    (h : Run (Guarded Entered ServiceStep) s after s') :
    (s.running = true → (∀ t, .stop t ∉ after) → s'.pc ≠ .outside ∧ s'.running = true) ∧
      (s.running = false →
        (s'.pc ≠ .outside → Goes s') ∧ total loopSpent after ≤ s.loopLeft + total taskPushed after) ∧
      ∀ t, total (callSpent t) after ≤ CallPc.left (s.calls t) + total (callBegun t) after := by
  have hsteps : Run ServiceStep s after s' := h.mono fun _ _ _ taken => taken.2
  refine ⟨fun hrunning hstop => ?_, fun hstopped => ?_, fun t => ?_⟩
  · clear h
    induction hsteps with
    | stop => exact ⟨hin, hrunning⟩
    | next _ taken ih =>
        obtain ⟨hin', hrunning'⟩ := ih fun t ht => hstop t (List.mem_append_left _ ht)
        refine taken.running hin' hrunning' fun t ht => hstop t ?_
        simp [ht]
  · have hinv (trace : List (ServiceEvent Thread Task)) (u : IoService Thread Task)
        (hrun : Run ServiceStep s trace u) : Inv ((before ++ trace).map ServiceEvent.task) u :=
      run_inv (run_tasks (hreach.append hrun))
    have haccount : s'.running = false ∧
        s'.loopLeft + total loopSpent after ≤ s.loopLeft + total taskPushed after := by
      clear hsteps
      induction h with
      | stop => exact ⟨hstopped, le_rfl⟩
      | next run taken ih =>
          have hone := ServiceStep.loopLeft (hinv _ _ (run.mono fun _ _ _ taken => taken.2)) ih.1 taken
          refine ⟨hone.1, ?_⟩
          simp only [total_append, total]
          omega
    refine ⟨fun hin' => ?_, by omega⟩
    exact (run_watched (run_tasks (hreach.append hsteps))).goes (hinv _ _ hsteps) hin' haccount.1
  · have haccount := @Run.account _ _ _ s (fun _ => True) (fun u => CallPc.left (u.calls t)) (callSpent t)
      (callBegun t) trivial (fun _ _ _ _ _ => trivial) (fun _ _ _ _ taken => ServiceStep.callLeft t taken) _ _ hsteps
    omega

/-- A `Stop` that comes while the loop is about to sleep. -/
theorem stopped_loop_goes : ∃ s : IoService Nat Nat, s.pc = .epollWait ∧ s.running = false ∧ Goes s := by
  have henter := (Run.stop.next (.loop rfl (.enter ({} : IoService Nat Nat) rfl rfl))).next
    (ServiceStep.loop rfl (.iterate _ rfl rfl))
  have hswap := ((henter.next (.loop rfl (.lock _ rfl rfl))).next (.loop rfl (.swap _ rfl))).next
    (.loop rfl (.unlock _ rfl))
  have hwait := (hswap.next (.loop rfl (.clear _ rfl rfl))).next (.loop rfl (.handleTimeout _ rfl))
  have hstop := hwait.next (.stop _ (some 0) ⟨rfl, by simp⟩)
  exact ⟨_, rfl, rfl, ((start_ends_by_stop hstop (by simp [setCall, goto]) .stop).2.1 rfl).1 (by simp [setCall, goto])⟩

end IoService

end Libcold
