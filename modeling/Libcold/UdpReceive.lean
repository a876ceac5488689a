import Libcold.IoTimeout
import Libcold.Platform
import Libcold.Runs

namespace Libcold

open Runs

structure Datagram (Address : Type) where
  length : Nat
  sender : Address

/-- What an await of `RecvFrom` or `RecvFromWithTimeout` gives. -/
inductive RecvResult (Address : Type)
  | received (d : Datagram Address)
  | failed
  | timedOut

/-- A handle in the watcher: of the await that goes on, or of one that has ended. -/
inductive HandleOwner
  | current
  | stale

/-- An await of a `RecvFromAwaitable`: its buffer, what `await_ready` came to where
`ready_` is set (no datagram for an error), and its tasks where it has a timeout. -/
structure RecvFrom (Address : Type) where
  length : Nat
  ready : Option (Option (Datagram Address)) := none
  timed : Option TimedAwait := none

namespace RecvFrom

variable {Address : Type}

def timeout (c : RecvFrom Address) : Bool := c.timed.any (·.timeout)

/-- The datagram that `await_ready` took. -/
def held (c : RecvFrom Address) : List (Datagram Address) := c.ready.join.toList

def result : Option (Datagram Address) → RecvResult Address
  | some d => .received d
  | none => .failed

theorem timeout_startTask {c : RecvFrom Address} {a : TimedAwait} (h : c.timed = some a) :
    RecvFrom.timeout { c with timed := some a.startTask } = c.timeout := by
  simp [timeout, h, TimedAwait.startTask]

end RecvFrom

/-- A `UdpSocket` in its loop: the datagrams in the kernel, whether a notification of
them is pending, the handle that the entry of the watcher keeps and the one that is to
be resumed, whether the service has a task yet whose inner task has ended, and the
await. `taken` and `results` are what `recvfrom` took and what the awaits gave. -/
structure UdpReceiver (Address : Type) where
  phase : LoopPhase := .pendingTasks
  queue : List (Datagram Address) := []
  notified : Bool := false
  readHandle : Option HandleOwner := none
  active : Option HandleOwner := none
  staleTask : Bool := false
  await : Option (RecvFrom Address) := none
  taken : List (Datagram Address) := []
  results : List (RecvResult Address) := []

inductive RecvLabel
  | awaitReady (received : Bool)
  | timesOut
  | other

namespace UdpReceiver

variable {Address : Type}

def arrive (s : UdpReceiver Address) (d : Datagram Address) : UdpReceiver Address :=
  { s with queue := s.queue ++ [d], notified := true }

/-- Whether `recvfrom` gives a datagram. -/
def receives (s : UdpReceiver Address) (fails : Bool) : Bool := !fails && !s.queue.isEmpty

/-- `recvfrom`, which cuts a datagram that is too long. Nothing is EAGAIN. -/
def recvfrom (s : UdpReceiver Address) (length : Nat) (fails : Bool) :
    Option (Option (Datagram Address)) × UdpReceiver Address :=
  if fails then (some none, s)
  else
    match s.queue with
    | [] => (none, s)
    | d :: rest =>
        let d := { d with length := min d.length length }
        (some (some d), { s with queue := rest, taken := s.taken ++ [d] })

/-- `await_ready` and `await_suspend`. -/
def awaitReady (s : UdpReceiver Address) (c : RecvFrom Address) (fails : Bool) : UdpReceiver Address :=
  { (s.recvfrom c.length fails).2 with
    readHandle := some .current
    await := some
      { c with ready := (s.recvfrom c.length fails).1, timed := c.timed.map TimedAwait.suspend } }

/-- The coroutine that awaits goes on. The handle, where the watcher still has it, is
of a task that has ended, and so is the task that the service has not started. -/
def finish (s : UdpReceiver Address) (c : RecvFrom Address) (result : RecvResult Address) : UdpReceiver Address :=
  { s with
    readHandle := s.readHandle.map fun _ => .stale
    staleTask := s.staleTask || c.timed.any fun a => decide (a.wrapper ≠ .awaiting)
    await := none
    results := s.results ++ [result] }

def awaitResume (s : UdpReceiver Address) (c : RecvFrom Address) (fails : Bool) : UdpReceiver Address :=
  if c.timeout then s.finish c .timedOut
  else
    match c.ready with
    | some value => s.finish c (RecvFrom.result value)
    | none => (s.recvfrom c.length fails).2.finish c (RecvFrom.result (s.recvfrom c.length fails).1.join)

def resumeLabel (c : RecvFrom Address) : RecvLabel := if c.timeout then .timesOut else .other

/-- What `epoll_wait` reports. `rechecks` says whether it passes over a descriptor
whose input was taken since. -/
def pending (s : UdpReceiver Address) (rechecks : Bool) : Bool :=
  s.notified && !(rechecks && s.queue.isEmpty)

/-- `epoll_wait` may be full before it considers the descriptor, and reports an error too. -/
def watchIo (s : UdpReceiver Address) (considered reported : Bool) : UdpReceiver Address :=
  { s with
    phase := .io
    notified := s.notified && !considered
    active := if reported then s.readHandle else none
    readHandle := if reported then none else s.readHandle
    await := s.await.map fun c => { c with timed := c.timed.map TimedAwait.watchIo } }

/-- The steps of the loop, of the kernel and of the coroutine that uses the socket. No
step resumes a task that has ended. -/
inductive Step (P : Platform) (rechecks : Bool) : UdpReceiver Address → RecvLabel → UdpReceiver Address → Prop
  | arrival (s) (d : Datagram Address) : Step P rechecks s .other (s.arrive d)
  -- a change of the registration is notified of what is there
  | listenWrite (s) : Step P rechecks s .other { s with notified := s.notified || !s.queue.isEmpty }
  | recvFrom (s) (length) (fails) (hidle : s.await = none) (hassert : P.ndebug = true ∨ s.readHandle = none) :
      Step P rechecks s (.awaitReady (s.receives fails)) (s.awaitReady { length } fails)
  | recvFromWithTimeout (s) (length) (hidle : s.await = none) :
      Step P rechecks s .other { s with await := some { length, timed := some { phase := s.phase } } }
  | swap (s) (hphase : s.phase = .io) (hactive : s.active = none) (htask : s.staleTask = false) :
      Step P rechecks s .other { s with
        phase := .pendingTasks
        await := s.await.map fun c => { c with timed := c.timed.map TimedAwait.swap } }
  | startTask (s) (c) (a) (fails) (hphase : s.phase = .pendingTasks) (hawait : s.await = some c)
      (htimed : c.timed = some a) (hwrapper : a.wrapper = .taken) (hinner : a.inner = .created)
      (hassert : P.ndebug = true ∨ s.readHandle = none) :
      Step P rechecks s (.awaitReady (s.receives fails)) (s.awaitReady { c with timed := some a.startTask } fails)
  | startTaskLate (s) (c) (a) (fails) (hphase : s.phase = .pendingTasks) (hawait : s.await = some c)
      (htimed : c.timed = some a) (hwrapper : a.wrapper = .taken) (hinner : a.inner = .suspended) :
      Step P rechecks s (resumeLabel c) (s.awaitResume { c with timed := some a.startTask } fails)
  | handleTimeout (s) (due) (hphase : s.phase = .pendingTasks)
      (hwrapper : ∀ c ∈ s.await, ∀ a ∈ c.timed, a.wrapper ≠ .taken) :
      Step P rechecks s .other { s with
        phase := .timers
        await := s.await.map fun c => { c with timed := c.timed.map (·.handleTimeout due) } }
  | runTimer (s) (c) (a) (fails) (hphase : s.phase = .timers) (hawait : s.await = some c) (htimed : c.timed = some a)
      (htimer : a.timer = .collected) (hinner : a.inner = .suspended) :
      Step P rechecks s .timesOut
        ({ s with readHandle := none }.awaitResume { c with timed := some a.runTimer } fails)
  -- the inner task starts in the timer's
  | runTimerFirst (s) (c) (a) (fails) (hphase : s.phase = .timers) (hawait : s.await = some c)
      (htimed : c.timed = some a) (htimer : a.timer = .collected) (hinner : a.inner = .created) :
      Step P rechecks s (.awaitReady (s.receives fails))
        ({ s with readHandle := none }.awaitReady { c with timed := some a.runTimer } fails)
  | watchIo (s) (considered reported) (hphase : s.phase = .timers)
      (htimer : ∀ c ∈ s.await, ∀ a ∈ c.timed, a.timer ≠ .collected)
      (hreported : considered = true → s.pending rechecks = true → reported = true) :
      Step P rechecks s .other (s.watchIo considered reported)
  | resumeActive (s) (c) (fails) (hawait : s.await = some c) (hactive : s.active = some .current) :
      Step P rechecks s (resumeLabel c) ({ s with active := none }.awaitResume c fails)

def returned (s : UdpReceiver Address) : List (Datagram Address) :=
  s.results.filterMap fun
    | .received d => some d
    | _ => none

/-- What an await has received and not given yet. -/
def held (s : UdpReceiver Address) : List (Datagram Address) := s.await.toList.flatMap RecvFrom.held

/-- The await goes on without another arrival: its handle is to be resumed, or
`epoll_wait` is going to report the descriptor. -/
def Due (s : UdpReceiver Address) (rechecks : Bool) : Prop :=
  s.active = some .current ∨ s.readHandle = some .current ∧ s.pending rechecks = true

/-- Every datagram that was taken is what one await gave, in their order, or is held by
the await that goes on, which is due. -/
structure Delivered (rechecks : Bool) (s : UdpReceiver Address) : Prop where
  lossless : s.taken = s.returned ++ s.held
  due : s.held ≠ [] → s.Due rechecks

/-- An `await_ready` that receives leaves a notification, of another datagram where
`epoll_wait` looks again. No await times out with a datagram. -/
def NothingHeld (rechecks : Bool) (s : UdpReceiver Address) : RecvLabel → Prop
  | .awaitReady received => received = true → s.notified = true ∧ (rechecks = true → 2 ≤ s.queue.length)
  | .timesOut => s.held = []
  | .other => True

structure Inv (rechecks : Bool) (s : UdpReceiver Address) : Prop where
  delivered : s.Delivered rechecks
  activeInIo : s.active ≠ none → s.phase = .io
  owned : s.await = none → s.active ≠ some .current ∧ s.readHandle ≠ some .current
  fresh : ∀ c ∈ s.await, ∀ a ∈ c.timed, a.inner = .created → c.ready = none

section

variable {P : Platform} {rechecks : Bool} {s t : UdpReceiver Address} {e : RecvLabel} {c : RecvFrom Address}

theorem pending_iff (s : UdpReceiver Address) (rechecks : Bool) :
    s.pending rechecks = true ↔ s.notified = true ∧ (rechecks = true → s.queue ≠ []) := by
  cases rechecks <;> simp [pending]

theorem held_none (h : s.await = none) : s.held = [] := by simp [held, h]

theorem held_some (h : s.await = some c) : s.held = c.held := by simp [held, h]

theorem held_fresh (hawait : s.await = some c) (h : c.ready = none) : s.held = [] := by
  simp [held, hawait, RecvFrom.held, h]

theorem recvfrom_cases (s : UdpReceiver Address) (length : Nat) (fails : Bool) :
    s.receives fails = false ∧ (s.recvfrom length fails).1.join = none ∧ (s.recvfrom length fails).2 = s ∨
    ∃ d rest, s.queue = d :: rest ∧ s.receives fails = true ∧
      s.recvfrom length fails = (some (some { d with length := min d.length length }),
        { s with queue := rest, taken := s.taken ++ [{ d with length := min d.length length }] }) := by
  rw [recvfrom, receives]
  cases fails with
  | true => exact .inl ⟨rfl, rfl, rfl⟩
  | false =>
      cases hqueue : s.queue with
      | nil => exact .inl ⟨rfl, rfl, rfl⟩
      | cons d rest => exact .inr ⟨d, rest, rfl, rfl, rfl⟩

theorem recvfrom_taken (s : UdpReceiver Address) (length : Nat) (fails : Bool) :
    (s.recvfrom length fails).2.taken = s.taken ++ (s.recvfrom length fails).1.join.toList := by
  obtain ⟨-, hnone, hsame⟩ | ⟨d, rest, -, -, htakes⟩ := recvfrom_cases s length fails
  · rw [hnone, hsame, Option.toList_none, List.append_nil]
  · rw [htakes]
    rfl

theorem recvfrom_results (s : UdpReceiver Address) (length : Nat) (fails : Bool) :
    (s.recvfrom length fails).2.results = s.results ∧ (s.recvfrom length fails).2.active = s.active ∧
      (s.recvfrom length fails).2.phase = s.phase ∧ (s.recvfrom length fails).2.notified = s.notified := by
  obtain ⟨-, -, hsame⟩ | ⟨d, rest, -, -, htakes⟩ := recvfrom_cases s length fails
  · rw [hsame]
    exact ⟨rfl, rfl, rfl, rfl⟩
  · rw [htakes]
    exact ⟨rfl, rfl, rfl, rfl⟩

theorem awaitReady_held (s : UdpReceiver Address) (c : RecvFrom Address) (fails : Bool) :
    (s.awaitReady c fails).held = (s.recvfrom c.length fails).1.join.toList := by
  simp [awaitReady, held, RecvFrom.held]

theorem awaitReady_lossless (c : RecvFrom Address) (fails : Bool) (hlossless : s.taken = s.returned) :
    (s.awaitReady c fails).taken = (s.awaitReady c fails).returned ++ (s.awaitReady c fails).held := by
  obtain ⟨hresults, -⟩ := recvfrom_results s c.length fails
  have hreturned : (s.awaitReady c fails).returned = s.returned := by simp only [returned, awaitReady, hresults]
  rw [awaitReady_held, hreturned, ← hlossless]
  exact recvfrom_taken s c.length fails

/-- A datagram that `await_ready` receives is due exactly where a notification is left. -/
theorem awaitReady_due_iff (c : RecvFrom Address) (fails : Bool) (hactive : s.active ≠ some .current) :
    ((s.awaitReady c fails).held ≠ [] → (s.awaitReady c fails).Due rechecks) ↔
      s.NothingHeld rechecks (.awaitReady (s.receives fails)) := by
  rw [awaitReady_held, NothingHeld]
  obtain ⟨hreceives, hnone, -⟩ | ⟨d, rest, hqueue, hreceives, htakes⟩ := recvfrom_cases s c.length fails
  · simp [hreceives, hnone]
  · have hdue : (s.awaitReady c fails).Due rechecks ↔ s.notified = true ∧ (rechecks = true → rest ≠ []) := by
      simp [Due, awaitReady, htakes, hactive, pending_iff]
    rw [hdue]
    simp [hreceives, htakes, hqueue, Nat.one_le_iff_ne_zero]

theorem awaitReady_inv (c : RecvFrom Address) (fails : Bool) (hlossless : s.taken = s.returned)
    (hio : s.active ≠ none → s.phase = .io) (hactive : s.active ≠ some .current)
    (hguard : s.NothingHeld rechecks (.awaitReady (s.receives fails))) :
    Inv rechecks (s.awaitReady c fails) where
  delivered := ⟨awaitReady_lossless c fails hlossless, (awaitReady_due_iff c fails hactive).mpr hguard⟩
  activeInIo h := by
    obtain ⟨-, hsame, hphase, -⟩ := recvfrom_results s c.length fails
    exact hphase.trans (hio (hsame ▸ h))
  owned hidle := by cases hidle
  fresh c' hc' a ha hcreated := by
    obtain rfl := Option.some.inj hc'
    obtain ⟨b, -, rfl⟩ := Option.map_eq_some_iff.mp ha
    cases hcreated

theorem finish_inv (c : RecvFrom Address) (result : RecvResult Address) (hactive : s.active = none)
    (hlossless : s.taken = (s.finish c result).returned) : Inv rechecks (s.finish c result) where
  delivered := ⟨by simpa [held, finish] using hlossless, fun hheld => absurd (held_none rfl) hheld⟩
  activeInIo h := absurd hactive h
  owned _ := by cases hhandle : s.readHandle <;> simp [finish, hactive, hhandle]
  fresh c' hc' := by cases hc'

theorem finish_returned (s : UdpReceiver Address) (c : RecvFrom Address) (value : Option (Datagram Address)) :
    (s.finish c (RecvFrom.result value)).returned = s.returned ++ value.toList := by
  cases value <;> simp [returned, finish, RecvFrom.result]

theorem finish_timedOut (s : UdpReceiver Address) (c : RecvFrom Address) :
    (s.finish c .timedOut).returned = s.returned := by simp [returned, finish]

theorem awaitResume_inv (c : RecvFrom Address) (fails : Bool) (hlossless : s.taken = s.returned ++ c.held)
    (hactive : s.active = none) (htimeout : c.timeout = true → c.held = []) :
    Inv rechecks (s.awaitResume c fails) := by
  rw [awaitResume]
  split_ifs with htimed
  · refine finish_inv c _ hactive ?_
    rw [hlossless, htimeout htimed, List.append_nil, finish_timedOut]
  · cases hready : c.ready with
    | some value =>
        refine finish_inv c _ hactive ?_
        rw [hlossless, finish_returned, RecvFrom.held, hready, Option.join_some]
    | none =>
        obtain ⟨hresults, hnone, -⟩ := recvfrom_results s c.length fails
        refine finish_inv c _ (hnone.trans hactive) ?_
        rw [finish_returned, recvfrom_taken, hlossless, RecvFrom.held, hready]
        simp [returned, hresults]

theorem awaitResume_timeout (c : RecvFrom Address) (fails : Bool) (htimeout : c.timeout = true)
    (hlossless : s.taken = s.returned ++ c.held) (h : (s.awaitResume c fails).Delivered rechecks) : c.held = [] := by
  have hdelivered := h.lossless
  rw [awaitResume, if_pos htimeout, finish_timedOut, held_none rfl, List.append_nil] at hdelivered
  exact List.append_right_eq_self.mp (hlossless.symm.trans hdelivered)

theorem Inv.inactive (h : Inv rechecks s) (hphase : s.phase ≠ .io) : s.active = none := by
  by_contra hactive
  exact hphase (h.activeInIo hactive)

theorem resume_guard_iff (hawait : s.await = some c) :
    s.NothingHeld rechecks (resumeLabel c) ↔ (c.timeout = true → c.held = []) := by
  rw [resumeLabel]
  split_ifs with htimeout
  · simp [NothingHeld, htimeout, held_some hawait]
  · simp [NothingHeld, htimeout]

theorem Inv.of_frame (h : Inv rechecks s) (hheld : t.held = s.held) (htaken : t.taken = s.taken)
    (hresults : t.results = s.results) (hdue : s.held ≠ [] → s.Due rechecks → t.Due rechecks)
    (hio : t.active ≠ none → t.phase = .io)
    (howned : t.await = none → t.active ≠ some .current ∧ t.readHandle ≠ some .current)
    (hfresh : ∀ c ∈ t.await, ∀ a ∈ c.timed, a.inner = .created → c.ready = none) : Inv rechecks t where
  delivered := by
    refine ⟨?_, fun hnonempty => ?_⟩
    · rw [htaken, hheld, h.delivered.lossless, returned, returned, hresults]
    · rw [hheld] at hnonempty
      exact hdue hnonempty (h.delivered.due hnonempty)
  activeInIo := hio
  owned := howned
  fresh := hfresh

/-- The tasks of an await go on and the inner one stays. -/
theorem Inv.of_tasks (h : Inv rechecks s) {f : TimedAwait → TimedAwait} (hf : ∀ a, (f a).inner = a.inner)
    (hawait : t.await = s.await.map fun c => { c with timed := c.timed.map f }) (htaken : t.taken = s.taken)
    (hresults : t.results = s.results) (hdue : s.held ≠ [] → s.Due rechecks → t.Due rechecks)
    (hio : t.active ≠ none → t.phase = .io)
    (howned : s.await = none → t.active ≠ some .current ∧ t.readHandle ≠ some .current) : Inv rechecks t := by
  refine h.of_frame ?_ htaken hresults hdue hio (fun hidle => howned ?_) ?_
  · rw [held, held, hawait]
    cases s.await with
    | none => rfl
    | some c => rfl
  · rwa [hawait, Option.map_eq_none_iff] at hidle
  · intro c hc a ha hcreated
    rw [hawait] at hc
    obtain ⟨c', hc', rfl⟩ := Option.map_eq_some_iff.mp hc
    obtain ⟨a', ha', rfl⟩ := Option.map_eq_some_iff.mp ha
    exact h.fresh c' hc' a' ha' ((hf a').symm.trans hcreated)

theorem Inv.arrive (h : Inv rechecks s) (d : Datagram Address) : Inv rechecks (s.arrive d) := by
  refine h.of_frame rfl rfl rfl (fun _ hdue => ?_) h.activeInIo h.owned h.fresh
  refine hdue.imp id fun hlistening => ⟨hlistening.1, (pending_iff _ _).mpr ⟨rfl, ?_⟩⟩
  simp [UdpReceiver.arrive]

theorem Inv.listenWrite (h : Inv rechecks s) : Inv rechecks { s with notified := s.notified || !s.queue.isEmpty } := by
  refine h.of_frame rfl rfl rfl (fun _ hdue => ?_) h.activeInIo h.owned h.fresh
  refine hdue.imp id fun hlistening => ⟨hlistening.1, ?_⟩
  obtain ⟨hnotified, hqueue⟩ := (pending_iff _ _).mp hlistening.2
  exact (pending_iff _ _).mpr ⟨Bool.or_eq_true_iff.mpr (.inl hnotified), hqueue⟩

theorem Inv.watchIo (h : Inv rechecks s) {considered reported : Bool} (hphase : s.phase = .timers)
    (hreported : considered = true → s.pending rechecks = true → reported = true) :
    Inv rechecks (s.watchIo considered reported) := by
  refine h.of_tasks (f := TimedAwait.watchIo) (fun _ => rfl) rfl rfl rfl (fun _ hdue => ?_) (fun _ => rfl)
    fun hidle => ?_
  · rcases hdue with hactive | ⟨hhandle, hpending⟩
    · cases hphase.symm.trans (h.activeInIo (by simp [hactive]))
    · cases reported with
      | true => exact .inl hhandle
      | false =>
          cases considered with
          | true => cases hreported rfl hpending
          | false =>
              refine .inr ⟨hhandle, ?_⟩
              simpa [pending, UdpReceiver.watchIo] using hpending
  · have howned := h.owned hidle
    cases reported with
    | true => exact ⟨howned.2, nofun⟩
    | false => exact ⟨nofun, howned.2⟩

/-- An await that is due gives its datagram once `epoll_wait` has considered the descriptor. -/
theorem Due.gives (P : Platform) {d : Datagram Address} {reported : Bool} (h : s.Due rechecks)
    (hactive : s.active = none) (hreported : s.pending rechecks = true → reported = true) (hawait : s.await = some c)
    (hready : c.ready = some (some d)) (htimeout : c.timeout = false) :
    ∃ t, Step P rechecks (s.watchIo true reported) .other t ∧ t.results = s.results ++ [.received d] := by
  obtain hcurrent | ⟨hhandle, hpending⟩ := h
  · cases hactive.symm.trans hcurrent
  · obtain rfl := hreported hpending
    let watched : RecvFrom Address := { c with timed := c.timed.map TimedAwait.watchIo }
    have hwatched : watched.timeout = c.timeout := by
      simp only [watched, RecvFrom.timeout]
      cases c.timed <;> rfl
    rw [htimeout] at hwatched
    have hresume : Step P rechecks (s.watchIo true true) (resumeLabel watched) _ :=
      .resumeActive _ watched false (by simp [UdpReceiver.watchIo, hawait, watched]) hhandle
    rw [resumeLabel, if_neg (by simp [hwatched])] at hresume
    refine ⟨_, hresume, ?_⟩
    rw [awaitResume, if_neg (by simp [hwatched])]
    simp [watched, hready, finish, UdpReceiver.watchIo, RecvFrom.result]

theorem start_inv : Inv rechecks ({} : UdpReceiver Address) :=
  ⟨⟨rfl, fun hheld => absurd rfl hheld⟩, fun h => absurd rfl h, fun _ => ⟨nofun, nofun⟩, fun c hc => by cases hc⟩

/-- A step keeps what holds of every run when no await is left with a datagram. -/
theorem step_inv (h : Inv rechecks s) (hguard : NothingHeld rechecks s e) (hstep : Step P rechecks s e t) :
    Inv rechecks t := by
  have hlossless := h.delivered.lossless
  cases hstep with
  | arrival d => exact h.arrive d
  | listenWrite => exact h.listenWrite
  | recvFrom length fails hidle hassert =>
      rw [held_none hidle, List.append_nil] at hlossless
      exact awaitReady_inv _ fails hlossless h.activeInIo (h.owned hidle).1 hguard
  | recvFromWithTimeout length hidle =>
      refine h.of_frame ?_ rfl rfl (fun hheld => absurd (held_none hidle) hheld) h.activeInIo nofun ?_
      · rw [held_none hidle]
        rfl
      · rintro c ⟨rfl⟩ a - -
        rfl
  | swap hphase hactive htask =>
      exact h.of_tasks (f := TimedAwait.swap) (fun _ => rfl) rfl rfl rfl (fun _ hdue => hdue)
        (fun hnone => absurd hactive hnone) h.owned
  | startTask c a fails hphase hawait htimed hwrapper hinner hassert =>
      rw [held_fresh hawait (h.fresh c hawait a htimed hinner), List.append_nil] at hlossless
      have hactive := h.inactive (by simp [hphase])
      exact awaitReady_inv _ fails hlossless h.activeInIo (by simp [hactive]) hguard
  | startTaskLate c a fails hphase hawait htimed hwrapper hinner =>
      rw [held_some hawait] at hlossless
      refine awaitResume_inv _ fails hlossless (h.inactive (by simp [hphase])) fun htimeout => ?_
      exact (resume_guard_iff hawait).mp hguard ((RecvFrom.timeout_startTask htimed).symm.trans htimeout)
  | handleTimeout due hphase hwrapper =>
      exact h.of_tasks (f := (·.handleTimeout due)) (fun _ => rfl) rfl rfl rfl (fun _ hdue => hdue)
        (fun hnone => absurd (h.inactive (by simp [hphase])) hnone) h.owned
  | runTimer c a fails hphase hawait htimed htimer hinner =>
      rw [held_some hawait] at hlossless
      exact awaitResume_inv (s := { s with readHandle := none }) _ fails hlossless (h.inactive (by simp [hphase]))
        fun _ => (held_some hawait).symm.trans hguard
  | runTimerFirst c a fails hphase hawait htimed htimer hinner =>
      rw [held_fresh hawait (h.fresh c hawait a htimed hinner), List.append_nil] at hlossless
      have hactive := h.inactive (by simp [hphase])
      exact awaitReady_inv (s := { s with readHandle := none }) _ fails hlossless h.activeInIo (by simp [hactive])
        hguard
  | watchIo considered reported hphase htimer hreported => exact h.watchIo hphase hreported
  | resumeActive c fails hawait hactive =>
      rw [held_some hawait] at hlossless
      exact awaitResume_inv (s := { s with active := none }) c fails hlossless rfl
        ((resume_guard_iff hawait).mp hguard)

theorem step_guarded (h : Inv rechecks s) (hstep : Step P rechecks s e t) (ht : Delivered rechecks t) :
    NothingHeld rechecks s e := by
  have hlossless := h.delivered.lossless
  cases hstep with
  | recvFrom length fails hidle hassert =>
      exact (awaitReady_due_iff _ fails (h.owned hidle).1).mp ht.due
  | startTask c a fails hphase hawait htimed hwrapper hinner hassert =>
      have hactive := h.inactive (by simp [hphase])
      exact (awaitReady_due_iff _ fails (by simp [hactive])).mp ht.due
  | runTimerFirst c a fails hphase hawait htimed htimer hinner =>
      have hactive := h.inactive (by simp [hphase])
      exact (awaitReady_due_iff (s := { s with readHandle := none }) _ fails (by simp [hactive])).mp ht.due
  | startTaskLate c a fails hphase hawait htimed hwrapper hinner =>
      rw [held_some hawait] at hlossless
      refine (resume_guard_iff hawait).mpr fun htimeout => ?_
      exact awaitResume_timeout { c with timed := some a.startTask } fails
        ((RecvFrom.timeout_startTask htimed).trans htimeout) hlossless ht
  | runTimer c a fails hphase hawait htimed htimer hinner =>
      rw [held_some hawait] at hlossless
      exact (held_some hawait).trans (awaitResume_timeout (s := { s with readHandle := none })
        { c with timed := some a.runTimer } fails rfl hlossless ht)
  | resumeActive c fails hawait hactive =>
      rw [held_some hawait] at hlossless
      exact (resume_guard_iff hawait).mpr fun htimeout =>
        awaitResume_timeout (s := { s with active := none }) c fails htimeout hlossless ht
  | arrival | listenWrite | recvFromWithTimeout => trivial
  | swap | handleTimeout | watchIo => trivial

/-- Every datagram that `recvfrom` takes is given by one await, in order, and an await that
holds one is due, exactly where each `await_ready` that receives leaves a notification and
no await times out with a datagram. -/
theorem datagrams_delivered_iff (P : Platform) (rechecks : Bool) (trace : List RecvLabel) (s : UdpReceiver Address) :
    Run (Guarded (NothingHeld rechecks) (Step P rechecks)) {} trace s ↔
      Run (Within (Delivered rechecks) (Step P rechecks)) {} trace s := by
  refine run_guarded_iff_within start_inv (fun _ h => h.delivered) ?_ ?_ trace s
  · intro s e t h hguard hstep
    exact step_inv h hguard hstep
  · intro s e t h hstep ht
    exact step_guarded h hstep ht

/-- Two datagrams that arrive together, and an await for each: the second one takes its
datagram at once and is not resumed. -/
theorem recvFrom_waits_with_datagram : ¬ ∀ (P : Platform) (rechecks : Bool) (trace : List RecvLabel)
    (s : UdpReceiver Unit), Run (Step P rechecks) {} trace s → Delivered rechecks s := by
  intro h
  have hrun : Run (Step ⟨.little, false⟩ false) ({} : UdpReceiver Unit)
      [.other, .other, .awaitReady true, .other, .other, .other, .awaitReady true] _ :=
    run_cons_iff.mpr ⟨_, .arrival _ ⟨1, ()⟩,
      run_cons_iff.mpr ⟨_, .arrival _ ⟨2, ()⟩,
      run_cons_iff.mpr ⟨_, .recvFrom _ 8 false rfl (.inr rfl),
      run_cons_iff.mpr ⟨_, .handleTimeout _ false rfl (by rintro c ⟨rfl⟩ a ⟨⟩),
      run_cons_iff.mpr ⟨_, .watchIo _ true true rfl (by rintro c ⟨rfl⟩ a ⟨⟩) (fun _ _ => rfl),
      run_cons_iff.mpr ⟨_, .resumeActive _ ⟨8, some (some ⟨1, ()⟩), none⟩ false rfl rfl,
      .single (.recvFrom _ 8 false rfl (.inr rfl))⟩⟩⟩⟩⟩⟩
  obtain hactive | ⟨-, hpending⟩ := (h _ _ _ _ hrun).due (List.cons_ne_nil _ _)
  · cases hactive
  · cases hpending

end

end UdpReceiver

end Libcold
