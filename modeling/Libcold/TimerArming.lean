import Libcold.Runs
import Libcold.Timers
import Mathlib.Data.List.Nodup

namespace Libcold.TimerArming

open Runs TimerMap

variable {Task : Type}

inductive TimerEvent (Task : Type)
  | op (op : TimerOp Task)
  | handleTimeout (now : Int) (timeoutCoroutines : List (Option Task))

/-- The calls on the timers, in any order, between those of `HandleTimeout`. -/
inductive Step : Timers Task → TimerEvent Task → Timers Task → Prop
  | op (s) (op) : Step s (.op op) (s.apply op)
  | handleTimeout (s) (now) : Step s (.handleTimeout now (s.handleTimeout now).1) (s.handleTimeout now).2

def returnedBy : TimerEvent Task → List (Option Task)
  | .op _ => []
  | .handleTimeout _ timeoutCoroutines => timeoutCoroutines

def returned (trace : List (TimerEvent Task)) : List (Option Task) := trace.flatMap returnedBy

def passedBy : TimerEvent Task → Option Task
  | .op (.asyncWait _ task) => some task
  | _ => none

/-- The tasks passed to `AsyncWait`, in order. -/
def passed (trace : List (TimerEvent Task)) : List Task := trace.filterMap passedBy

/-- The last wait on a timer: over or never begun, live, or cancelled and not yet due. -/
inductive Wait (Task : Type)
  | idle
  | live (task : Task)
  | cancelled

def Wait.arm (task : Task) : Wait Task → Wait Task
  | .live old => .live old
  | _ => .live task

def Wait.cancel : Wait Task → Wait Task
  | .live _ => .cancelled
  | wait => wait

/-- What the calls so far say of the timers. -/
structure Armings (Task : Type) where
  expiry : Nat → Int := fun _ => 0
  wait : Nat → Wait Task := fun _ => .idle

def Armings.next (a : Armings Task) : TimerEvent Task → Armings Task
  | .op (.expiresAt id time) => { a with expiry := Function.update a.expiry id time }
  | .op (.asyncWait id task) => { a with wait := Function.update a.wait id ((a.wait id).arm task) }
  | .op (.cancel id) => { a with wait := Function.update a.wait id (a.wait id).cancel }
  | .handleTimeout now _ => { a with wait := fun id => if a.expiry id ≤ now then .idle else a.wait id }

def armings (trace : List (TimerEvent Task)) : Armings Task := trace.foldl Armings.next {}

/-- The events that neither cancel the wait on a timer nor reach its expiry. -/
def Undisturbed (id : Nat) (before : List (TimerEvent Task)) (mid : List (TimerEvent Task)) : Prop :=
  ∀ done event rest, mid = done ++ event :: rest → event ≠ .op (.cancel id) ∧
    ∀ now out, event = .handleTimeout now out → now < (armings (before ++ done)).expiry id

/-- A task passed for a timer without a live wait comes back from the first
`HandleTimeout` that reaches the expiry, and from no other, unless it is cancelled. -/
def Honoured [DecidableEq Task] (trace : List (TimerEvent Task)) : Prop :=
  ∀ before id task mid now out after,
    trace = before ++ .op (.asyncWait id task) :: (mid ++ .handleTimeout now out :: after) →
    (∀ old, (armings before).wait id ≠ .live old) →
    Undisturbed id (before ++ [.op (.asyncWait id task)]) mid →
    (armings (before ++ .op (.asyncWait id task) :: mid)).expiry id ≤ now →
    some task ∈ out ∧ (returned trace).count (some task) = 1

/-- No timer is armed while its cancelled wait is not yet due. -/
def CollectedFirst (trace : List (TimerEvent Task)) : Prop :=
  ∀ before id task after, trace = before ++ .op (.asyncWait id task) :: after →
    (armings before).wait id ≠ .cancelled

/-- What the queue holds for a timer. -/
inductive Holds : Wait Task → Option (TimerEntry Task) → Prop
  | idle : Holds .idle none
  | live (task) (expiry) : Holds (.live task) (some ⟨expiry, some task, true⟩)
  | cancelled (e : TimerEntry Task) (hvalid : e.valid = false) : Holds .cancelled (some e)

structure Tracks (trace : List (TimerEvent Task)) (s : Timers Task) : Prop where
  consistent : s.Consistent
  expiry : ∀ id, (armings trace).expiry id = (s.timer id).expiry
  holds : ∀ id, Holds ((armings trace).wait id) (s.armed id)

/-- Where the tasks are: returned, live on one timer, or neither, but never two of these. -/
structure Once (trace : List (TimerEvent Task)) : Prop where
  nodup : (returned trace).Nodup
  fromPassed : ∀ task, some task ∈ returned trace → task ∈ passed trace
  live : ∀ id task, (armings trace).wait id = .live task → task ∈ passed trace ∧ some task ∉ returned trace
  unique : ∀ id id' task, (armings trace).wait id = .live task → (armings trace).wait id' = .live task → id = id'

theorem armings_snoc (trace : List (TimerEvent Task)) (event : TimerEvent Task) :
    armings (trace ++ [event]) = (armings trace).next event := by
  simp [armings]

theorem returned_snoc (trace : List (TimerEvent Task)) (event : TimerEvent Task) :
    returned (trace ++ [event]) = returned trace ++ returnedBy event := by
  simp [returned]

theorem passed_snoc (trace : List (TimerEvent Task)) (event : TimerEvent Task) :
    passed (trace ++ [event]) = passed trace ++ (passedBy event).toList := by
  cases h : passedBy event with
  | none => simp [passed, h]
  | some task => simp [passed, h]

theorem CollectedFirst.of_append {first second : List (TimerEvent Task)} (h : CollectedFirst (first ++ second)) :
    CollectedFirst first := by
  intro before id task after htrace
  exact h before id task (after ++ second) (by simp [htrace])

theorem Holds.reschedule {wait : Wait Task} {e : Option (TimerEntry Task)} (h : Holds wait e) (time : Int) :
    Holds wait (e.map fun entry => { entry with expiry := time }) := by
  cases h with
  | idle => exact .idle
  | live task old => exact .live task time
  | cancelled entry hvalid => exact .cancelled _ hvalid

theorem Holds.arm {wait : Wait Task} {e : Option (TimerEntry Task)} (h : Holds wait e) (task : Task) (expiry : Int)
    (hguard : wait ≠ .cancelled) :
    Holds (wait.arm task) (if e.isSome then e else some ⟨expiry, some task, true⟩) := by
  cases h with
  | idle => exact .live task expiry
  | live old time => exact .live old time
  | cancelled entry hvalid => exact absurd rfl hguard

theorem Holds.cancel {wait : Wait Task} {e : Option (TimerEntry Task)} (h : Holds wait e) :
    Holds wait.cancel (e.map fun entry => { entry with valid := false }) := by
  cases h with
  | idle => exact .idle
  | live task time => exact .cancelled _ rfl
  | cancelled entry hvalid => exact .cancelled _ rfl

theorem Holds.expire {wait : Wait Task} {e : Option (TimerEntry Task)} {expiry now : Int} (h : Holds wait e)
    (hexpiry : ∀ entry, e = some entry → entry.expiry = expiry) :
    Holds (if expiry ≤ now then .idle else wait) (e.filter fun entry => now < entry.expiry) := by
  cases h with
  | idle => split_ifs <;> exact .idle
  | live task time =>
      have htime : time = expiry := hexpiry _ rfl
      split_ifs with hdue
      · rw [Option.filter, if_neg (by simpa [htime] using hdue)]
        exact .idle
      · rw [Option.filter, if_pos (by simpa [htime] using hdue)]
        exact .live task time
  | cancelled entry hvalid =>
      have htime := hexpiry _ rfl
      split_ifs with hdue
      · rw [Option.filter, if_neg (by simpa [htime] using hdue)]
        exact .idle
      · rw [Option.filter, if_pos (by simpa [htime] using hdue)]
        exact .cancelled entry hvalid

theorem holds_update {wait : Nat → Wait Task} {armed : TimerMap Task} (h : ∀ id, Holds (wait id) (armed id)) (id : Nat)
    {newWait : Wait Task} {entry : Option (TimerEntry Task)} (hnew : Holds newWait entry) (id' : Nat) :
    Holds (Function.update wait id newWait id') (Function.update armed id entry id') := by
  by_cases hid : id' = id
  · subst hid
    simpa using hnew
  · simpa [hid] using h id'

theorem step_tracks {trace : List (TimerEvent Task)} {s t : Timers Task} {event : TimerEvent Task}
    (h : Tracks trace s) (hguard : CollectedFirst (trace ++ [event])) (hstep : Step s event t) :
    Tracks (trace ++ [event]) t := by
  obtain ⟨hcons, hexpiry, hholds⟩ := h
  cases hstep with
  | op op =>
      cases op with
      | expiresAt id time =>
          obtain ⟨hcons', harmed⟩ := Timers.expiresAt_spec hcons id time
          refine ⟨hcons', ?_, ?_⟩
          · intro id'
            rw [armings_snoc]
            by_cases hid : id' = id
            · subst hid; simp [Armings.next, Timers.apply, Timers.expiresAt, Timers.put]
            · simp [Armings.next, Timers.apply, Timers.expiresAt, Timers.put, hid, hexpiry]
          · intro id'
            have hnew := holds_update hholds id ((hholds id).reschedule time) id'
            rw [Function.update_eq_self] at hnew
            rw [armings_snoc, Timers.apply, harmed]
            exact hnew
      | asyncWait id task =>
          obtain ⟨hcons', hsame, harmed⟩ := Timers.asyncWait_spec hcons id task
          refine ⟨hcons', ?_, ?_⟩
          · intro id'
            rw [armings_snoc]
            exact (hexpiry id').trans (hsame id').symm
          · intro id'
            have hnew := holds_update hholds id
              ((hholds id).arm task (s.timer id).expiry (hguard trace id task [] rfl)) id'
            rw [armings_snoc, Timers.apply, harmed]
            cases he : s.armed id with
            | none => simpa [Armings.next, he] using hnew
            | some entry =>
                simp only [he, Option.isSome_some, if_true] at hnew ⊢
                rwa [← he, Function.update_eq_self] at hnew
      | cancel id =>
          obtain ⟨hcons', harmed⟩ := Timers.cancel_spec hcons id
          refine ⟨hcons', ?_, ?_⟩
          · intro id'
            rw [armings_snoc]
            exact hexpiry id'
          · intro id'
            rw [armings_snoc, Timers.apply, harmed]
            exact holds_update hholds id (hholds id).cancel id'
  | handleTimeout now =>
      obtain ⟨hcons', htimer, harmed, -⟩ := Timers.handleTimeout_spec hcons now
      refine ⟨hcons', ?_, ?_⟩
      · intro id
        rw [armings_snoc, htimer]
        exact hexpiry id
      · intro id
        rw [armings_snoc, harmed]
        exact (hholds id).expire fun entry he => (hcons.expiry id entry he).trans (hexpiry id).symm

theorem run_tracks {trace : List (TimerEvent Task)} {s : Timers Task} (h : Run Step {} trace s)
    (hguard : CollectedFirst trace) : Tracks trace s := by
  induction h with
  | stop => exact ⟨Timers.consistent_start, fun _ => rfl, fun _ => .idle⟩
  | next _ taken ih => exact step_tracks (ih hguard.of_append) hguard taken

theorem Holds.live_iff {wait : Wait Task} {e : Option (TimerEntry Task)} (h : Holds wait e) (task : Task) :
    wait = .live task ↔ ∃ entry, e = some entry ∧ entry.valid = true ∧ entry.task = some task := by
  cases h with
  | idle => simp
  | live old time => simp
  | cancelled entry hvalid => simp [hvalid]

theorem Holds.task_of_valid {wait : Wait Task} {entry : TimerEntry Task} (h : Holds wait (some entry))
    (hvalid : entry.valid = true) : ∃ task, entry.task = some task ∧ wait = .live task := by
  cases h with
  | live task time => exact ⟨task, rfl, rfl⟩
  | cancelled _ hinvalid => simp [hinvalid] at hvalid

/-- `HandleTimeout` returns the live tasks that are due, and each of them once. -/
theorem handleTimeout_returns {trace : List (TimerEvent Task)} {s : Timers Task} (h : Tracks trace s) (now : Int) :
    (∀ result, result ∈ (s.handleTimeout now).1 ↔ ∃ task id, result = some task ∧
      (armings trace).wait id = .live task ∧ (armings trace).expiry id ≤ now) ∧
    (Once trace → (s.handleTimeout now).1.Nodup) := by
  obtain ⟨-, -, -, due, hdue, hout⟩ := Timers.handleTimeout_spec h.consistent now
  have hlive : ∀ id e, (id, e) ∈ due → e.valid = true →
      ∃ task, e.task = some task ∧ (armings trace).wait id = .live task := by
    intro id e hmem hvalid
    have hholds := h.holds id
    rw [((hdue.mem_iff id e).mp hmem).1] at hholds
    exact hholds.task_of_valid hvalid
  rw [hout]
  refine ⟨?_, ?_⟩
  · intro result
    rw [mem_validTasks]
    constructor
    · rintro ⟨id, e, hmem, hvalid, rfl⟩
      obtain ⟨task, htask, hwait⟩ := hlive id e hmem hvalid
      obtain ⟨harmed, hle⟩ := (hdue.mem_iff id e).mp hmem
      refine ⟨task, id, htask, hwait, ?_⟩
      rwa [h.expiry, ← h.consistent.expiry id e harmed]
    · rintro ⟨task, id, rfl, hwait, hle⟩
      obtain ⟨e, harmed, hvalid, htask⟩ := ((h.holds id).live_iff task).mp hwait
      rw [h.expiry, ← h.consistent.expiry id e harmed] at hle
      exact ⟨id, e, (hdue.mem_iff id e).mpr ⟨harmed, hle⟩, hvalid, htask⟩
  · intro hunique
    have hdistinct : due.Nodup := hdue.sorted.imp fun hlt heq => by rw [heq] at hlt; exact lt_irrefl _ hlt
    refine List.Nodup.map_on ?_ (hdistinct.filter _)
    rintro ⟨id, e⟩ hmem ⟨id', e'⟩ hmem' hsame
    simp only [List.mem_filter] at hmem hmem'
    obtain ⟨task, htask, hwait⟩ := hlive id e hmem.1 hmem.2
    obtain ⟨task', htask', hwait'⟩ := hlive id' e' hmem'.1 hmem'.2
    simp only at hsame
    rw [htask, htask'] at hsame
    obtain rfl := Option.some.inj hsame
    obtain rfl := hunique.unique id id' task hwait hwait'
    have he := ((hdue.mem_iff id e).mp hmem.1).1
    rw [((hdue.mem_iff id e').mp hmem'.1).1] at he
    rw [Option.some.inj he]

theorem Wait.arm_live {wait : Wait Task} {task old : Task} (h : wait.arm task = .live old) :
    wait = .live old ∨ old = task := by
  cases wait with
  | idle => cases h; exact .inr rfl
  | live t => cases h; exact .inl rfl
  | cancelled => cases h; exact .inr rfl

theorem Wait.cancel_live {wait : Wait Task} {task : Task} : wait.cancel ≠ .live task := by
  cases wait <;> simp [Wait.cancel]

/-- A wait becomes live by `AsyncWait` alone. -/
theorem live_of_op {trace : List (TimerEvent Task)} {op : TimerOp Task} {id : Nat} {task : Task}
    (h : (armings (trace ++ [.op op])).wait id = .live task) :
    (armings trace).wait id = .live task ∨ op = .asyncWait id task := by
  rw [armings_snoc] at h
  cases op with
  | expiresAt id' time => exact .inl h
  | asyncWait id' newTask =>
      by_cases hid : id = id'
      · subst hid
        simp only [Armings.next, Function.update_self] at h
        rcases Wait.arm_live h with hold | rfl
        · exact .inl hold
        · exact .inr rfl
      · exact .inl (by simpa [Armings.next, hid] using h)
  | cancel id' =>
      by_cases hid : id = id'
      · subst hid
        simp only [Armings.next, Function.update_self] at h
        exact absurd h Wait.cancel_live
      · exact .inl (by simpa [Armings.next, hid] using h)

theorem step_once {trace : List (TimerEvent Task)} {s t : Timers Task} {event : TimerEvent Task} (h : Tracks trace s)
    (honce : Once trace) (hpassed : (passed (trace ++ [event])).Nodup) (hstep : Step s event t) :
    Once (trace ++ [event]) := by
  cases hstep with
  | op op =>
      have hreturned : returned (trace ++ [.op op]) = returned trace := by simp [returned_snoc, returnedBy]
      have hfresh : ∀ id task, op = .asyncWait id task →
          task ∈ passed (trace ++ [.op op]) ∧ task ∉ passed trace := by
        rintro id task rfl
        rw [passed_snoc] at hpassed ⊢
        obtain ⟨-, -, hdisjoint⟩ := List.nodup_append'.mp hpassed
        exact ⟨by simp [passedBy], fun hmem => hdisjoint hmem (by simp [passedBy])⟩
      have hmono : ∀ task, task ∈ passed trace → task ∈ passed (trace ++ [.op op]) := by
        intro task htask
        rw [passed_snoc]
        exact List.mem_append_left _ htask
      refine ⟨by rw [hreturned]; exact honce.nodup, ?_, ?_, ?_⟩
      · rw [hreturned]
        exact fun task htask => hmono task (honce.fromPassed task htask)
      · intro id task hwait
        rw [hreturned]
        rcases live_of_op hwait with hold | hop
        · exact ⟨hmono task (honce.live id task hold).1, (honce.live id task hold).2⟩
        · obtain ⟨hmem, hnew⟩ := hfresh id task hop
          exact ⟨hmem, fun hret => hnew (honce.fromPassed task hret)⟩
      · intro id id' task hwait hwait'
        rcases live_of_op hwait with hold | hop
        · rcases live_of_op hwait' with hold' | hop'
          · exact honce.unique id id' task hold hold'
          · exact absurd (honce.live id task hold).1 (hfresh id' task hop').2
        · rcases live_of_op hwait' with hold' | hop'
          · exact absurd (honce.live id' task hold').1 (hfresh id task hop).2
          · rw [hop] at hop'
            cases hop'
            rfl
  | handleTimeout now =>
      obtain ⟨hmem, hnodup⟩ := handleTimeout_returns h now
      have hlive : ∀ id task, (armings (trace ++ [.handleTimeout now (s.handleTimeout now).1])).wait id = .live task →
          (armings trace).wait id = .live task ∧ now < (armings trace).expiry id := by
        intro id task hwait
        simp only [armings_snoc, Armings.next] at hwait
        split_ifs at hwait with hdue
        exact ⟨hwait, not_le.mp hdue⟩
      have hpassed_same : passed (trace ++ [.handleTimeout now (s.handleTimeout now).1]) = passed trace := by
        simp [passed_snoc, passedBy]
      refine ⟨?_, ?_, ?_, ?_⟩
      · rw [returned_snoc]
        refine List.nodup_append'.mpr ⟨honce.nodup, hnodup honce, ?_⟩
        intro result hreturned hresult
        obtain ⟨task, id, rfl, hwait, -⟩ := (hmem result).mp hresult
        exact (honce.live id task hwait).2 hreturned
      · intro task htask
        rw [hpassed_same]
        rw [returned_snoc] at htask
        rcases List.mem_append.mp htask with htask | htask
        · exact honce.fromPassed task htask
        · obtain ⟨task', id, heq, hwait, -⟩ := (hmem _).mp htask
          obtain rfl := Option.some.inj heq
          exact (honce.live id task hwait).1
      · intro id task hwait
        obtain ⟨hwait, hlater⟩ := hlive id task hwait
        rw [hpassed_same, returned_snoc]
        refine ⟨(honce.live id task hwait).1, ?_⟩
        intro hreturned
        rcases List.mem_append.mp hreturned with hreturned | hreturned
        · exact (honce.live id task hwait).2 hreturned
        · obtain ⟨task', id', heq, hwait', hdue⟩ := (hmem _).mp hreturned
          obtain rfl := Option.some.inj heq
          obtain rfl := honce.unique id id' task hwait hwait'
          omega
      · intro id id' task hwait hwait'
        exact honce.unique id id' task (hlive id task hwait).1 (hlive id' task hwait').1

theorem run_once {trace : List (TimerEvent Task)} {s : Timers Task} (h : Run Step {} trace s)
    (hguard : CollectedFirst trace) (hpassed : (passed trace).Nodup) : Once trace := by
  induction h with
  | stop => exact ⟨.nil, by simp [returned], by rintro id task ⟨⟩, by rintro id id' task ⟨⟩⟩
  | next run taken ih =>
      have hbefore := hguard.of_append
      have hold := hpassed
      rw [passed_snoc] at hold
      exact step_once (run_tracks run hbefore) (ih hbefore (List.nodup_append'.mp hold).1) hpassed taken

/-- A live wait stays so while it is neither cancelled nor due. -/
theorem live_of_undisturbed {before mid : List (TimerEvent Task)} {id : Nat} {task : Task}
    (h : (armings before).wait id = .live task) (hmid : Undisturbed id before mid) :
    (armings (before ++ mid)).wait id = .live task := by
  induction mid using List.reverseRecOn with
  | nil => simpa using h
  | append_singleton mid event ih =>
      have hlive := ih fun done e rest hdone => hmid done e (rest ++ [event]) (by simp [hdone])
      obtain ⟨hcancel, hdue⟩ := hmid mid event [] rfl
      rw [← List.append_assoc, armings_snoc]
      cases event with
      | handleTimeout now out =>
          have := hdue now out rfl
          simp only [Armings.next]
          rw [if_neg (by omega), hlive]
      | op op =>
          cases op with
          | expiresAt id' time => exact hlive
          | asyncWait id' newTask =>
              by_cases hid : id = id'
              · subst hid; simp [Armings.next, hlive, Wait.arm]
              · simp [Armings.next, hid, hlive]
          | cancel id' =>
              have hid : id ≠ id' := by rintro rfl; exact hcancel rfl
              simp [Armings.next, hid, hlive]

/-- A timer that is armed only when its last wait was collected keeps to its arming. -/
theorem armings_honoured [DecidableEq Task] (trace : List (TimerEvent Task)) (s : Timers Task)
    (h : Run Step {} trace s) (hpassed : (passed trace).Nodup) (hguard : CollectedFirst trace) : Honoured trace := by
  rintro before id task mid now out after rfl hidle hmid hdue
  have hsplit : before ++ .op (.asyncWait id task) :: (mid ++ .handleTimeout now out :: after) =
      before ++ .op (.asyncWait id task) :: mid ++ .handleTimeout now out :: after := by simp
  have hlive : (armings (before ++ .op (.asyncWait id task) :: mid)).wait id = .live task := by
    have hstart : (armings (before ++ [.op (.asyncWait id task)])).wait id = .live task := by
      rw [armings_snoc]
      cases hwait : (armings before).wait id with
      | live old => exact absurd hwait (hidle old)
      | idle => simp [Armings.next, hwait, Wait.arm]
      | cancelled => simp [Armings.next, hwait, Wait.arm]
    simpa using live_of_undisturbed hstart hmid
  have hout : some task ∈ out := by
    rw [hsplit] at h hguard
    obtain ⟨mid', hfirst, hrest⟩ := run_append_iff.mp h
    obtain ⟨last, hstep, -⟩ := run_cons_iff.mp hrest
    cases hstep
    exact ((handleTimeout_returns (run_tracks hfirst hguard.of_append) now).1 _).mpr ⟨task, id, rfl, hlive, hdue⟩
  refine ⟨hout, List.count_eq_one_of_mem (run_once h hguard hpassed).nodup ?_⟩
  rw [hsplit, returned, List.flatMap_append, List.flatMap_cons]
  exact List.mem_append_right _ (List.mem_append_left _ hout)

theorem armings_honoured_once :
    ∃ s, Run Step {} [.op (.expiresAt 1 10), .op (.asyncWait 1 7), .handleTimeout 10 [some 7]] s ∧
      Honoured [.op (.expiresAt 1 10), .op (.asyncWait 1 7), .handleTimeout 10 [some 7]] := by
  have hguard : ∀ out : List (Option Nat),
      CollectedFirst [.op (.expiresAt 1 10), .op (.asyncWait 1 7), .handleTimeout 10 out] := by
    rintro out (_ | ⟨_, _ | ⟨_, _ | ⟨_, _ | ⟨_, _⟩⟩⟩⟩) id task after h <;> cases h
    simp [armings, Armings.next]
  have hrun : Run Step {} [.op (.expiresAt 1 10), .op (.asyncWait 1 7)]
      ((({} : Timers Nat).expiresAt 1 10).asyncWait 1 7) :=
    run_cons_iff.mpr ⟨_, .op _ _, .single (.op _ _)⟩
  have hbefore : CollectedFirst [.op (.expiresAt 1 10), .op (.asyncWait 1 7)] :=
    CollectedFirst.of_append (hguard [])
  obtain ⟨hmem, hnodup⟩ := handleTimeout_returns (run_tracks hrun hbefore) 10
  have hout : (((({} : Timers Nat).expiresAt 1 10).asyncWait 1 7).handleTimeout 10).1 = [some 7] := by
    refine List.perm_singleton.mp ((List.perm_ext_iff_of_nodup
      (hnodup (run_once hrun hbefore (by decide))) (by simp)).mpr fun result => ?_)
    rw [hmem, List.mem_singleton]
    constructor
    · rintro ⟨task, id, rfl, hwait, -⟩
      by_cases hid : id = 1
      · subst hid
        cases hwait
        rfl
      · simp [armings, Armings.next, hid] at hwait
    · rintro rfl
      exact ⟨7, 1, rfl, rfl, by decide⟩
  have hstep := Step.handleTimeout ((({} : Timers Nat).expiresAt 1 10).asyncWait 1 7) 10
  rw [hout] at hstep
  exact ⟨_, hrun.next hstep, armings_honoured _ _ (hrun.next hstep) (by decide) (hguard [some 7])⟩

/-- The task passed after a cancel is refused: the cancelled node is in the way. -/
def rearmed : List (TimerEvent Nat) :=
  [.op (.expiresAt 1 10), .op (.asyncWait 1 7), .op (.cancel 1), .op (.asyncWait 1 8), .handleTimeout 10 []]

theorem rearming_not_honoured : (∃ s, Run Step {} rearmed s) ∧ (passed rearmed).Nodup ∧ ¬ Honoured rearmed := by
  refine ⟨?_, by decide, ?_⟩
  · obtain ⟨hcons, harmed⟩ := Timers.expiresAt_spec (Timers.consistent_start : ({} : Timers Nat).Consistent) 1 10
    obtain ⟨hcons, -, harmed'⟩ := Timers.asyncWait_spec hcons 1 7
    obtain ⟨hcons, harmed''⟩ := Timers.cancel_spec hcons 1
    obtain ⟨hcons, -, hlast⟩ := Timers.asyncWait_spec hcons 1 8
    have hstart : ({} : Timers Nat).armed = fun _ => none := rfl
    rw [harmed'', harmed', harmed, hstart] at hlast
    obtain ⟨-, -, -, due, hdue, hout⟩ := Timers.handleTimeout_spec hcons 10
    have hnone : TimerMap.validTasks due = [] := by
      refine List.eq_nil_iff_forall_not_mem.mpr ?_
      intro task htask
      obtain ⟨id, e, hmem, hvalid, -⟩ := mem_validTasks.mp htask
      have hentry := ((hdue.mem_iff id e).mp hmem).1
      rw [hlast] at hentry
      by_cases hid : id = 1
      · subst hid
        simp only [Option.map_none, Function.update_self, Option.isSome_none, Bool.false_eq_true, if_false,
          Option.map_some, Option.isSome_some, if_true, Option.some.injEq] at hentry
        rw [← hentry] at hvalid
        cases hvalid
      · simp [hid] at hentry
    have hstep := Step.handleTimeout ((((({} : Timers Nat).expiresAt 1 10).asyncWait 1 7).cancel 1).asyncWait 1 8) 10
    rw [hout, hnone] at hstep
    exact ⟨_, run_cons_iff.mpr ⟨_, .op _ _, run_cons_iff.mpr ⟨_, .op _ _, run_cons_iff.mpr ⟨_, .op _ _,
      run_cons_iff.mpr ⟨_, .op _ _, .single hstep⟩⟩⟩⟩⟩
  · intro h
    have hlost := (h [.op (.expiresAt 1 10), .op (.asyncWait 1 7), .op (.cancel 1)] 1 8 [] 10 [] [] rfl
      (by intro old hold; cases hold) (by rintro (_ | ⟨_, _⟩) event rest ⟨⟩) (by decide)).1
    cases hlost

end Libcold.TimerArming
