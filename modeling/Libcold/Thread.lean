import Libcold.Runs

namespace Libcold

open Runs

variable {Task : Type}

/-- The control points of the thread that owns a `Thread`. In `Start` it holds the
mutex but while it is in `pthread_cond_wait`. -/
inductive OwnerPc
  | outside
  | creating
  | testing
  | waiting
  | waking
  | leaving
  | destroyed
  deriving DecidableEq

/-- The control points of `ThreadMainFunc`, with its local copy of the task. -/
inductive MainPc (Task : Type)
  | absent
  | entered
  | identified
  | named
  | locked
  | flagged
  | notified
  | unlocked
  | moved (task : Option Task)
  | ended

/-- The new thread has given the mutex back. -/
def MainPc.Released : MainPc Task → Prop
  | .unlocked | .moved _ | .ended => True
  | _ => False

def MainPc.Holds : MainPc Task → Prop
  | .locked | .flagged | .notified => True
  | _ => False

def MainPc.Flagged : MainPc Task → Prop
  | .flagged | .notified | .unlocked | .moved _ | .ended => True
  | _ => False

def MainPc.Identified : MainPc Task → Prop
  | .absent | .entered => False
  | _ => True

def OwnerPc.Holds : OwnerPc → Prop
  | .creating | .testing | .leaving => True
  | _ => False

/-- What is left for the two threads to do, without the wake-ups that nobody asked for. -/
def OwnerPc.rank (started joined : Bool) : OwnerPc → Nat
  | .outside => if started then (if joined then 1 else 2) else 17
  | .creating => 16
  | .testing => 4
  | .waiting => 3
  | .waking => 5
  | .leaving => 3
  | .destroyed => 0

def MainPc.rank : MainPc Task → Nat
  | .absent => 0
  | .entered => 11
  | .identified => 10
  | .named => 9
  | .locked => 8
  | .flagged => 7
  | .notified => 4
  | .unlocked => 3
  | .moved (some _) => 2
  | .moved none => 1
  | .ended => 0

inductive MutexHolder
  | owner
  | main
  deriving DecidableEq

structure Thread (Task : Type) where
  owner : OwnerPc := .outside
  main : MainPc Task := .absent
  mutex : Option MutexHolder := none
  task : Option Task
  started : Bool := false
  joined : Bool := false
  threadId : Nat := 0

/-- What a step of the owner or of the new thread does. Only the steps of
`ThreadMainFunc` up to the move of the task use the object. -/
inductive ThreadEvent (Task : Type)
  | start
  | starting
  | createFails
  | spuriousWakeup
  | join
  | detach
  | destroy
  | access
  | moveTask
  | run (task : Task)
  | exit

/-- A step that does not wait for a call of the owner or for chance. -/
def ThreadEvent.Owed : ThreadEvent Task → Prop
  | .starting | .access | .moveTask | .run _ | .exit => True
  | _ => False

/-- A use of the object by the new thread. -/
def ThreadEvent.Uses : ThreadEvent Task → Prop
  | .access | .moveTask => True
  | _ => False

namespace Thread

def Joinable (s : Thread Task) : Bool := s.started && !s.joined

/-- The steps of the two threads, where `tid` is the identifier that the kernel gives
to the new one. `pthread_create` may fail, which `Start` does not look at. The owner
keeps to the assertions of the class. The function that is moved out of a destroyed
object may be any. -/
inductive Step (tid : Nat) : Thread Task → ThreadEvent Task → Thread Task → Prop
  | lock (s) (howner : s.owner = .outside) (hstarted : s.started = false) (hmutex : s.mutex = none) :
      Step tid s .start { s with owner := .creating, mutex := some .owner }
  | create (s) (howner : s.owner = .creating) : Step tid s .starting { s with owner := .testing, main := .entered }
  | createFails (s) (howner : s.owner = .creating) : Step tid s .createFails { s with owner := .testing }
  | wait (s) (howner : s.owner = .testing) (hstarted : s.started = false) :
      Step tid s .starting { s with owner := .waiting, mutex := none }
  | spurious (s) (howner : s.owner = .waiting) : Step tid s .spuriousWakeup { s with owner := .waking }
  | relock (s) (howner : s.owner = .waking) (hmutex : s.mutex = none) :
      Step tid s .starting { s with owner := .testing, mutex := some .owner }
  | leaveLoop (s) (howner : s.owner = .testing) (hstarted : s.started = true) :
      Step tid s .starting { s with owner := .leaving }
  | unlock (s) (howner : s.owner = .leaving) : Step tid s .starting { s with owner := .outside, mutex := none }
  | join (s) (howner : s.owner = .outside) (hjoinable : s.Joinable = true) (hmain : s.main = .ended) :
      Step tid s .join { s with joined := true }
  | detach (s) (howner : s.owner = .outside) (hjoinable : s.Joinable = true) :
      Step tid s .detach { s with joined := true }
  | destroy (s) (howner : s.owner = .outside) :
      Step tid s .destroy { s with owner := .destroyed, joined := s.joined || s.Joinable }
  | identify (s) (hmain : s.main = .entered) : Step tid s .access { s with main := .identified, threadId := tid }
  | name (s) (hmain : s.main = .identified) : Step tid s .access { s with main := .named }
  | mainLock (s) (hmain : s.main = .named) (hmutex : s.mutex = none) :
      Step tid s .access { s with main := .locked, mutex := some .main }
  | flag (s) (hmain : s.main = .locked) : Step tid s .access { s with main := .flagged, started := true }
  | notifyOne (s) (hmain : s.main = .flagged) :
      Step tid s .access
        { s with main := .notified, owner := if s.owner = .waiting then .waking else s.owner }
  | mainUnlock (s) (hmain : s.main = .notified) : Step tid s .access { s with main := .unlocked, mutex := none }
  | moveTask (s) (hmain : s.main = .unlocked) (halive : s.owner ≠ .destroyed) :
      Step tid s .moveTask { s with main := .moved s.task, task := none }
  | moveDestroyed (s) (task : Option Task) (hmain : s.main = .unlocked) (halive : s.owner = .destroyed) :
      Step tid s .moveTask { s with main := .moved task }
  | run (s) (task : Task) (hmain : s.main = .moved (some task)) :
      Step tid s (.run task) { s with main := .moved none }
  | exit (s) (hmain : s.main = .moved none) : Step tid s .exit { s with main := .ended }

/-- The handshake between `Start` and `ThreadMainFunc`. A notification cannot come
before the wait, since the flag is set under the mutex. -/
structure Handshake (tid : Nat) (s : Thread Task) : Prop where
  holdsOwner : s.mutex = some .owner ↔ s.owner.Holds
  holdsMain : s.mutex = some .main ↔ s.main.Holds
  flagged : s.started = true ↔ s.main.Flagged
  identified : s.main.Identified → s.threadId = tid
  waiting : s.owner = .waiting → s.main.Flagged → s.main = .flagged
  outside : s.owner = .outside ∨ s.owner = .destroyed → s.main = .absent ∧ s.started = false ∨ s.main.Released
  creating : s.owner = .creating → s.main = .absent
  leaving : s.owner = .leaving → s.main.Released

attribute [local simp] MainPc.Released MainPc.Holds MainPc.Flagged MainPc.Identified OwnerPc.Holds Joinable

theorem handshake_init (tid : Nat) (task : Option Task) : Handshake tid ({ task } : Thread Task) := by
  constructor <;> simp

theorem released_iff (main : MainPc Task) : main.Released ↔ main.Flagged ∧ ¬main.Holds := by
  cases main <;> simp

theorem Step.handshake {tid : Nat} {s t : Thread Task} {event : ThreadEvent Task} (h : Step tid s event t)
    (hs : Handshake tid s) : Handshake tid t := by
  obtain ⟨hOwner, hMain, hFlag, hTid, hWait, hOut, hCreate, hLeave⟩ := hs
  cases h with
  | lock howner hstarted hmutex =>
      have habsent : s.main = .absent := by
        rcases hOut (.inl howner) with h | h
        · exact h.1
        · rw [released_iff, ← hFlag, hstarted] at h
          exact absurd h.1 Bool.false_ne_true
      constructor <;> simp_all
  | leaveLoop howner hstarted =>
      have hreleased : s.main.Released := by
        rw [released_iff, ← hFlag, ← hMain, hOwner.mpr (by simp [howner])]
        exact ⟨hstarted, by simp⟩
      constructor <;> simp_all
  | notifyOne hmain => by_cases hwaiting : s.owner = .waiting <;> constructor <;> simp_all
  | create | createFails | wait | spurious | relock | unlock | join | detach | destroy | identify | name | mainLock
  | flag | mainUnlock | moveTask | moveDestroyed | run | exit => constructor <;> simp_all

theorem rank_outside (started joined : Bool) :
    0 < OwnerPc.outside.rank started joined ∧ OwnerPc.outside.rank true joined ≤ 2 := by
  cases started <;> cases joined <;> decide

theorem rank_moved (task : Option Task) : (MainPc.moved task).rank ≤ 2 := by
  cases task <;> simp [MainPc.rank]

def potential (s : Thread Task) : Nat :=
  s.owner.rank s.started s.joined + s.main.rank

def spent : ThreadEvent Task → Nat
  | .spuriousWakeup => 0
  | _ => 1

def gained : ThreadEvent Task → Nat
  | .spuriousWakeup => 2
  | _ => 0

theorem Step.potential {tid : Nat} {s t : Thread Task} {event : ThreadEvent Task} (h : Step tid s event t)
    (hs : Handshake tid s) : t.potential + spent event ≤ s.potential + gained event := by
  have houtside := rank_outside s.started s.joined
  cases h with
  | create howner => simp [Thread.potential, spent, howner, hs.creating howner, OwnerPc.rank, MainPc.rank]
  | unlock howner =>
      have hstarted := hs.flagged.mpr ((released_iff _).mp (hs.leaving howner)).1
      simp only [Thread.potential, spent, gained, howner, hstarted]
      have hleaving : OwnerPc.leaving.rank true s.joined = 3 := rfl
      omega
  | notifyOne hmain =>
      by_cases hwaiting : s.owner = .waiting <;>
        simp [Thread.potential, spent, gained, hwaiting, hmain, OwnerPc.rank, MainPc.rank]
  | destroy howner =>
      simp only [Thread.potential, spent, gained, howner]
      have hdestroyed : OwnerPc.destroyed.rank s.started (s.joined || s.Joinable) = 0 := rfl
      omega
  | flag hmain =>
      -- the flag lowers the rank of an owner outside and no other
      have hflag : s.owner.rank true s.joined ≤ s.owner.rank s.started s.joined := by
        cases s.owner <;> cases s.started <;> cases s.joined <;> decide
      simp only [Thread.potential, spent, gained, hmain, MainPc.rank]
      omega
  | moveTask hmain =>
      have hmoved := rank_moved s.task
      simp only [Thread.potential, spent, gained, hmain]
      have hunlocked : (MainPc.unlocked : MainPc Task).rank = 3 := rfl
      omega
  | moveDestroyed task hmain =>
      have hmoved := rank_moved task
      simp only [Thread.potential, spent, gained, hmain]
      have hunlocked : (MainPc.unlocked : MainPc Task).rank = 3 := rfl
      omega
  | lock howner hstarted =>
      simp only [Thread.potential, spent, gained, howner, hstarted, OwnerPc.rank, Bool.false_eq_true, if_false]
      omega
  | createFails howner | wait howner | spurious howner | relock howner | leaveLoop howner =>
      simp only [Thread.potential, spent, gained, howner, OwnerPc.rank]
      omega
  | join howner hjoinable | detach howner hjoinable =>
      simp only [Joinable, Bool.and_eq_true, Bool.not_eq_true'] at hjoinable
      simp only [Thread.potential, spent, gained, howner, hjoinable, OwnerPc.rank, Bool.false_eq_true, if_false,
        if_true]
      omega
  | identify | name | mainLock | mainUnlock | run | exit => simp_all [Thread.potential, spent, gained, MainPc.rank]

theorem Handshake.of_run {tid : Nat} {task : Option Task} {trace : List (ThreadEvent Task)} {s : Thread Task}
    (h : Run (Step tid) { task } trace s) : Handshake tid s := by
  induction h with
  | stop => exact handshake_init tid task
  | next _ taken ih => exact taken.handshake ih

/-- No use of a destroyed object. -/
def Valid (s : Thread Task) (event : ThreadEvent Task) : Prop :=
  event.Uses → s.owner ≠ .destroyed

/-- The object is not destroyed between the return of `Start` and the move of the task. -/
def Settled (s : Thread Task) (event : ThreadEvent Task) : Prop :=
  event = .destroy → s.main ≠ .unlocked

/-- A call of `Start` in which the wait comes first, a `Join` and the destructor. -/
def joinedTrace (task : Task) : List (ThreadEvent Task) :=
  [.start, .starting, .starting, .access, .access, .access, .access, .access, .access, .starting, .starting,
    .starting, .moveTask, .run task, .exit, .join, .destroy]

def joinedEnd (tid : Nat) : Thread Task :=
  { owner := .destroyed, main := .ended, task := none, started := true, joined := true, threadId := tid }

theorem joined_run (tid : Nat) (task : Task) :
    Run (Guarded Settled (Step tid)) { task := some task } (joinedTrace task) (joinedEnd tid) := by
  have hsettled {s : Thread Task} {event : ThreadEvent Task} (h : event ≠ .destroy) : Settled s event :=
    fun h' => absurd h' h
  simp only [joinedTrace, run_cons_iff, run_nil_iff]
  refine ⟨_, ⟨hsettled nofun, .lock _ rfl rfl rfl⟩, _, ⟨hsettled nofun, .create _ rfl⟩,
    _, ⟨hsettled nofun, .wait _ rfl rfl⟩, _, ⟨hsettled nofun, .identify _ rfl⟩, _, ⟨hsettled nofun, .name _ rfl⟩,
    _, ⟨hsettled nofun, .mainLock _ rfl rfl⟩, _, ⟨hsettled nofun, .flag _ rfl⟩,
    _, ⟨hsettled nofun, .notifyOne _ rfl⟩, _, ⟨hsettled nofun, .mainUnlock _ rfl⟩,
    _, ⟨hsettled nofun, .relock _ rfl rfl⟩, _, ⟨hsettled nofun, .leaveLoop _ rfl rfl⟩,
    _, ⟨hsettled nofun, .unlock _ rfl⟩, _, ⟨hsettled nofun, .moveTask _ rfl nofun⟩,
    _, ⟨hsettled nofun, .run _ task rfl⟩, _, ⟨hsettled nofun, .exit _ rfl⟩,
    _, ⟨hsettled nofun, .join _ rfl rfl rfl⟩, _, ⟨fun _ => nofun, .destroy _ rfl⟩, ?_⟩
  rfl

/-- What the trace says of a call of `Start`. Without a new thread it stays in its loop. -/
structure Called (trace : List (ThreadEvent Task)) (s : Thread Task) : Prop where
  idle : .start ∉ trace → (s.owner = .outside ∨ s.owner = .destroyed) ∧ s.main = .absent
  created : .start ∈ trace → .createFails ∉ trace → s.owner = .creating ∨ s.main ≠ .absent
  failed : .createFails ∈ trace →
    s.main = .absent ∧ (s.owner = .testing ∨ s.owner = .waiting ∨ s.owner = .waking)

theorem Called.of_run {tid : Nat} {task : Option Task} {trace : List (ThreadEvent Task)} {s : Thread Task}
    (h : Run (Step tid) { task } trace s) : Called trace s := by
  induction h with
  | stop => constructor <;> simp
  | @next trace s t event run taken ih =>
      have hs := Handshake.of_run run
      obtain ⟨hIdle, hCreated, hFailed⟩ := ih
      have hcreating := hs.creating
      by_cases hfail : ThreadEvent.createFails ∈ trace
      · obtain ⟨habsent, howner⟩ := hFailed hfail
        have hstarted : s.started = false := by simpa [habsent] using hs.flagged
        by_cases hstart : ThreadEvent.start ∈ trace <;> cases taken <;> constructor <;> simp_all
      · by_cases hstart : ThreadEvent.start ∈ trace <;> cases taken <;> constructor <;> simp_all

/-- What `Start` relies on when it has returned, whatever the interleaving: the new
thread has told its identifier and will not use the mutex or the condition again.
It never returns without a new thread. -/
theorem start_handshake {tid : Nat} {task : Option Task} {trace : List (ThreadEvent Task)} {s : Thread Task}
    (h : Run (Step tid) { task } trace s) (hstart : .start ∈ trace) :
    (.createFails ∈ trace → s.owner ≠ .outside ∧ s.owner ≠ .destroyed ∧ s.started = false) ∧
      (s.owner = .outside ∨ s.owner = .destroyed →
        s.started = true ∧ s.threadId = tid ∧ s.mutex = none ∧ s.main.Released) := by
  have hs := Handshake.of_run h
  have hcalled := Called.of_run h
  constructor
  · intro hfail
    obtain ⟨habsent, howner⟩ := hcalled.failed hfail
    have hstarted : s.started = false := by simpa [habsent] using hs.flagged
    rcases howner with howner | howner | howner <;> simp [howner, hstarted]
  · intro howner
    have hfail : .createFails ∉ trace := by
      intro hfail
      rcases howner with h | h <;> simpa [h] using (hcalled.failed hfail).2
    have hmain : s.main ≠ .absent := by
      rcases hcalled.created hstart hfail with h | h
      · rcases howner with h' | h' <;> simp [h] at h'
      · exact h
    have hreleased : s.main.Released := by
      rcases hs.outside howner with h | h
      · exact absurd h.1 hmain
      · exact h
    obtain ⟨hflagged, hholds⟩ := (released_iff _).mp hreleased
    refine ⟨hs.flagged.mpr hflagged, hs.identified ?_, ?_, hreleased⟩
    · revert hflagged
      cases s.main <;> simp
    · have hholder := hs.holdsMain.not.mpr hholds
      have hholder' : s.mutex ≠ some .owner := by
        rw [Ne, hs.holdsOwner]
        rcases howner with h | h <;> simp [h]
      match hmutex : s.mutex with
      | none => rfl
      | some .owner => exact absurd hmutex hholder'
      | some .main => exact absurd hmutex hholder

theorem Handshake.main_done {tid : Nat} {s : Thread Task} (hs : Handshake tid s)
    (hstuck : ∀ event t, Step tid s event t → ¬event.Owed) : s.main = .absent ∨ s.main = .ended := by
  cases hmain : s.main with
  | absent => exact .inl rfl
  | entered => exact absurd trivial (hstuck _ _ (.identify s hmain))
  | identified => exact absurd trivial (hstuck _ _ (.name s hmain))
  | named =>
      -- whoever holds the mutex can go on
      cases hmutex : s.mutex with
      | none => exact absurd trivial (hstuck _ _ (.mainLock s hmain hmutex))
      | some holder =>
          cases holder with
          | main => simpa [hmain] using hs.holdsMain.mp hmutex
          | owner =>
              have howner := hs.holdsOwner.mp hmutex
              have hstarted : s.started = false := by simpa [hmain] using hs.flagged
              match hpc : s.owner with
              | .creating => simpa [hmain] using hs.creating hpc
              | .testing => exact absurd trivial (hstuck _ _ (.wait s hpc hstarted))
              | .leaving => exact absurd trivial (hstuck _ _ (.unlock s hpc))
              | .outside | .waiting | .waking | .destroyed => simp [hpc] at howner
  | locked => exact absurd trivial (hstuck _ _ (.flag s hmain))
  | flagged => exact absurd trivial (hstuck _ _ (.notifyOne s hmain))
  | notified => exact absurd trivial (hstuck _ _ (.mainUnlock s hmain))
  | unlocked =>
      by_cases halive : s.owner = .destroyed
      · exact absurd trivial (hstuck _ _ (.moveDestroyed s none hmain halive))
      · exact absurd trivial (hstuck _ _ (.moveTask s hmain halive))
  | moved task =>
      cases task with
      | none => exact absurd trivial (hstuck _ _ (.exit s hmain))
      | some task => exact absurd trivial (hstuck _ _ (.run s task hmain))
  | ended => exact .inr rfl

theorem Handshake.owner_done {tid : Nat} {s : Thread Task} (hs : Handshake tid s)
    (hstuck : ∀ event t, Step tid s event t → ¬event.Owed) :
    s.owner = .outside ∨ s.owner = .destroyed ∨ s.owner = .waiting ∧ s.main = .absent := by
  have hmain := hs.main_done hstuck
  cases howner : s.owner with
  | outside => exact .inl rfl
  | destroyed => exact .inr (.inl rfl)
  | creating => exact absurd trivial (hstuck _ _ (.create s howner))
  | testing =>
      by_cases hstarted : s.started = true
      · exact absurd trivial (hstuck _ _ (.leaveLoop s howner hstarted))
      · exact absurd trivial (hstuck _ _ (.wait s howner (by simpa using hstarted)))
  | leaving => exact absurd trivial (hstuck _ _ (.unlock s howner))
  | waiting =>
      -- an ended thread would have notified the owner
      rcases hmain with h | h
      · exact .inr (.inr ⟨rfl, h⟩)
      · simpa [h] using hs.waiting howner
  | waking =>
      have hfree : s.mutex = none := by
        have hholder := hs.holdsMain
        have hholder' := hs.holdsOwner
        cases hmutex : s.mutex with
        | none => rfl
        | some holder => cases holder <;> rcases hmain with h | h <;> simp_all
      exact absurd trivial (hstuck _ _ (.relock s howner hfree))

def spuriousWakeups (trace : List (ThreadEvent Task)) : Nat :=
  total (fun event => 1 - spent event) trace

theorem spent_event (event : ThreadEvent Task) : spent event ≤ 1 ∧ gained event = 2 * (1 - spent event) := by
  cases event <;> simp [spent, gained]

theorem total_spent (trace : List (ThreadEvent Task)) :
    total spent trace + spuriousWakeups trace = trace.length ∧ total gained trace = 2 * spuriousWakeups trace := by
  induction trace with
  | nil => exact ⟨rfl, rfl⟩
  | cons event trace ih =>
      have hone := spent_event event
      simp only [spuriousWakeups, total, List.length_cons] at ih ⊢
      omega

theorem start_handshake_joined :
    (joinedEnd 7 : Thread Unit).threadId = 7 ∧ (joinedEnd 7 : Thread Unit).mutex = none :=
  have h := (start_handshake ((joined_run 7 ()).mono fun _ _ _ h => h.2) (by simp [joinedTrace])).2 (.inr rfl)
  ⟨h.2.1, h.2.2.1⟩

/-- No wake-up is lost and nothing goes on for ever: the number of steps is bounded but
for the wake-ups that nobody asked for, and where only such a one or a call of the owner
is left to come the new thread has ended and `Start` has returned, unless there was no
new thread. -/
theorem start_terminates {tid : Nat} {task : Option Task} {trace : List (ThreadEvent Task)} {s : Thread Task}
    (h : Run (Step tid) { task } trace s) :
    trace.length ≤ 17 + 3 * spuriousWakeups trace ∧
      ((∀ event t, Step tid s event t → ¬event.Owed) →
        (s.main = .absent ∨ s.main = .ended) ∧
          (s.owner = .outside ∨ s.owner = .destroyed ∨ .createFails ∈ trace ∧ s.owner = .waiting)) := by
  constructor
  · have haccount := h.account potential spent gained (handshake_init tid task)
      (fun _ _ _ hs taken => taken.handshake hs) (fun _ _ _ hs taken => taken.potential hs)
    have htotal := total_spent trace
    have hstart : ({ task } : Thread Task).potential = 17 := rfl
    omega
  · intro hstuck
    have hs := Handshake.of_run h
    refine ⟨hs.main_done hstuck, ?_⟩
    rcases hs.owner_done hstuck with howner | howner | ⟨howner, habsent⟩
    · exact .inl howner
    · exact .inr (.inl howner)
    · have hcalled := Called.of_run h
      refine .inr (.inr ⟨?_, howner⟩)
      by_contra hfail
      by_cases hstart : .start ∈ trace
      · rcases hcalled.created hstart hfail with h | h
        · simp [howner] at h
        · exact h habsent
      · simpa [howner] using (hcalled.idle hstart).1

theorem start_terminates_joined : (joinedTrace ()).length ≤ 17 + 3 * spuriousWakeups (joinedTrace ()) :=
  (start_terminates ((joined_run 7 ()).mono fun _ _ _ h => h.2)).1

/-- Where the uses of the object are valid no other is to come after its end. -/
theorem Step.settled {tid : Nat} {s t : Thread Task} {event : ThreadEvent Task} (h : Step tid s event t)
    (hs : Handshake tid s) (hsettled : Settled s event)
    (hend : s.owner = .destroyed → s.main = .absent ∨ s.main.Released ∧ s.main ≠ .unlocked) :
    t.owner = .destroyed → t.main = .absent ∨ t.main.Released ∧ t.main ≠ .unlocked := by
  have hout := hs.outside
  cases h with
  | destroy howner =>
      intro _
      rcases hout (.inl howner) with h | h
      · exact .inl h.1
      · exact .inr ⟨h, hsettled rfl⟩
  | notifyOne hmain =>
      intro howner
      by_cases hwaiting : s.owner = .waiting <;> simp_all
  | lock | create | createFails | wait | spurious | relock | leaveLoop | unlock | join | detach | identify | name
  | mainLock | flag | mainUnlock | moveTask | moveDestroyed | run | exit => simp_all

/-- Once the object is destroyed in front of the move the new thread is stuck, as
long as it does not use the object. -/
theorem Step.unsettled {tid : Nat} {s t : Thread Task} {event : ThreadEvent Task} (h : Step tid s event t)
    (hvalid : Valid s event) (hend : s.owner = .destroyed ∧ s.main = .unlocked) :
    t.owner = .destroyed ∧ t.main = .unlocked := by
  obtain ⟨howner, hmain⟩ := hend
  cases h with
  | moveDestroyed task _ _ => exact absurd howner (hvalid trivial)
  | _ => simp_all

/-- In the runs in which the new thread comes to its end, the uses of the object are
valid exactly if nobody destroys it before the task is moved out. `Start` does not wait
for that move, `Detach` and the destructor neither. -/
theorem uses_valid_iff {tid : Nat} {task : Option Task} {trace : List (ThreadEvent Task)} {s : Thread Task}
    (hdone : s.main = .absent ∨ s.main = .ended) :
    Run (Guarded Valid (Step tid)) { task } trace s ↔ Run (Guarded Settled (Step tid)) { task } trace s := by
  constructor
  · intro h
    suffices hor : Run (Guarded Settled (Step tid)) { task } trace s ∨ s.owner = .destroyed ∧ s.main = .unlocked by
      rcases hor with h | h
      · exact h
      · rcases hdone with h' | h' <;> simp [h'] at h
    clear hdone
    induction h with
    | stop => exact .inl .stop
    | @next trace s t event run taken ih =>
        rcases ih with ih | ih
        · by_cases hsettled : Settled s event
          · exact .inl (ih.next ⟨hsettled, taken.2⟩)
          · obtain ⟨hdestroy, hmain⟩ : event = .destroy ∧ s.main = .unlocked := by simpa [Settled] using hsettled
            right
            subst hdestroy
            cases taken.2 with
            | destroy howner => exact ⟨rfl, hmain⟩
        · exact .inr (taken.2.unsettled taken.1 ih)
  · intro h
    suffices hboth : Run (Guarded Valid (Step tid)) { task } trace s ∧
        (s.owner = .destroyed → s.main = .absent ∨ s.main.Released ∧ s.main ≠ .unlocked) from hboth.1
    clear hdone
    induction h with
    | stop => exact ⟨.stop, by simp⟩
    | @next trace s t event run taken ih =>
        have hs := Handshake.of_run (run.mono fun _ _ _ h => h.2)
        refine ⟨ih.1.next ⟨?_, taken.2⟩, taken.2.settled hs taken.1 ih.2⟩
        intro huses howner
        have hpc := ih.2 howner
        cases taken.2 <;> simp_all [ThreadEvent.Uses]

theorem uses_valid_joined :
    Run (Guarded Valid (Step 7)) { task := some () } (joinedTrace ()) (joinedEnd 7) :=
  (uses_valid_iff (.inr rfl)).mpr (joined_run 7 ())

/-- What the new thread is still to execute. -/
def remaining (s : Thread Task) : List Task :=
  match s.main with
  | .moved task => task.toList
  | .ended => []
  | _ => s.task.toList

def executed (trace : List (ThreadEvent Task)) : List Task :=
  trace.filterMap fun
    | .run task => some task
    | _ => none

theorem Settled.of_run {tid : Nat} {task : Option Task} {trace : List (ThreadEvent Task)} {s : Thread Task}
    (h : Run (Guarded Settled (Step tid)) { task } trace s) :
    s.owner = .destroyed → s.main = .absent ∨ s.main.Released ∧ s.main ≠ .unlocked := by
  induction h with
  | stop => simp
  | next run taken ih => exact taken.2.settled (Handshake.of_run (run.mono fun _ _ _ h => h.2)) taken.1 ih

theorem executed_snoc (trace : List (ThreadEvent Task)) (event : ThreadEvent Task) :
    executed (trace ++ [event]) = executed trace ++ executed [event] := by
  simp only [executed, List.filterMap_append]

theorem Step.executed {tid : Nat} {s t : Thread Task} {event : ThreadEvent Task} (h : Step tid s event t)
    (hs : Handshake tid s) (hend : s.owner = .destroyed → s.main ≠ .unlocked) :
    Thread.executed [event] ++ t.remaining = s.remaining := by
  cases h with
  | create howner => simp [Thread.executed, remaining, hs.creating howner]
  | moveDestroyed task hmain halive => exact absurd hmain (hend halive)
  | _ => simp_all [Thread.executed, remaining]

/-- The task is run at most once, and it has been run once a `Join` has returned: a
`Thread` that is joined before its end is never used after it. -/
theorem task_runs_once {tid : Nat} {task : Option Task} {trace : List (ThreadEvent Task)} {s : Thread Task}
    (h : Run (Guarded Settled (Step tid)) { task } trace s) :
    executed trace ++ s.remaining = task.toList ∧
      (.join ∈ trace → s.main = .ended ∧ executed trace = task.toList) := by
  have hall : executed trace ++ s.remaining = task.toList := by
    induction h with
    | stop => simp [executed, remaining]
    | next run taken ih =>
        have hend := Settled.of_run run
        have hs := Handshake.of_run (run.mono fun _ _ _ h => h.2)
        rw [executed_snoc, List.append_assoc, taken.2.executed hs, ih]
        intro howner hmain
        rcases hend howner with h | h
        · simp [hmain] at h
        · exact h.2 hmain
  refine ⟨hall, fun hjoin => ?_⟩
  have hended : s.main = .ended := by
    clear hall
    induction h with
    | stop => simp at hjoin
    | next run taken ih =>
        have hs := Handshake.of_run (run.mono fun _ _ _ h => h.2)
        rcases List.mem_append.mp hjoin with h | h
        · have hended := ih h
          cases taken.2 with
          | create howner => simpa [hended] using hs.creating howner
          | _ => simp_all
        · obtain rfl := (List.mem_singleton.mp h).symm
          cases taken.2 with
          | join howner hjoinable hmain => exact hmain
  refine ⟨hended, ?_⟩
  simpa [remaining, hended] using hall

theorem task_runs_once_joined : executed (joinedTrace ()) = [()] :=
  ((task_runs_once (joined_run 7 ())).2 (by simp [joinedTrace])).2

end Thread

end Libcold
