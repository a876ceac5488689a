import Libcold.TimerRefinement

namespace Libcold

variable {Task : Type}

/-- The `Timer` objects of a service, and its queue. A fresh timer has the epoch
for its expiry. -/
structure Timers (Task : Type) where
  timer : Nat → Timer Task := fun id => ⟨id, 0, none⟩
  queue : TimerQueue Task := .empty

/-- The calls on a timer; `ExpiresAfter` is `ExpiresAt` with a time read off the
clock, and the destructor is `Cancel`. -/
inductive TimerOp (Task : Type)
  | expiresAt (id : Nat) (time : Int)
  | asyncWait (id : Nat) (task : Task)
  | cancel (id : Nat)

namespace Timers

def put (s : Timers Task) (id : Nat) (timer : Timer Task) (queue : TimerQueue Task) : Timers Task :=
  ⟨Function.update s.timer id timer, queue⟩

def expiresAt (s : Timers Task) (id : Nat) (time : Int) : Timers Task :=
  let timer := { s.timer id with expiry := time }
  s.put id timer (s.queue.updateTimer timer)

def asyncWait (s : Timers Task) (id : Nat) (task : Task) : Timers Task :=
  let (queue, timer) := s.queue.addTimer { s.timer id with task := some task }
  s.put id timer queue

def cancel (s : Timers Task) (id : Nat) : Timers Task := { s with queue := s.queue.cancelTimer (s.timer id) }

def apply (s : Timers Task) : TimerOp Task → Timers Task
  | .expiresAt id time => s.expiresAt id time
  | .asyncWait id task => s.asyncWait id task
  | .cancel id => s.cancel id

/-- The tasks that are due, and the timers after them. -/
def handleTimeout (s : Timers Task) (now : Int) : List (Option Task) × Timers Task :=
  let (queue, timeoutCoroutines, _) := s.queue.handleTimeout now []
  (timeoutCoroutines, { s with queue })

def armed (s : Timers Task) : TimerMap Task := s.queue.contents

/-- A node has the expiry of its timer. -/
structure Consistent (s : Timers Task) : Prop where
  wellFormed : s.queue.WellFormed
  named : ∀ id, (s.timer id).timerId = id
  expiry : ∀ id e, s.armed id = some e → e.expiry = (s.timer id).expiry

theorem consistent_start : ({} : Timers Task).Consistent :=
  ⟨TimerQueue.empty_wellFormed, fun _ => rfl, by rintro id e ⟨⟩⟩

theorem expiresAt_spec {s : Timers Task} (h : s.Consistent) (id : Nat) (time : Int) :
    (s.expiresAt id time).Consistent ∧ (s.expiresAt id time).armed =
      Function.update s.armed id ((s.armed id).map fun e => { e with expiry := time }) := by
  obtain ⟨hw, hc⟩ := TimerQueue.updateTimer_spec h.wellFormed { s.timer id with expiry := time }
  have harmed : (s.expiresAt id time).armed =
      Function.update s.armed id ((s.armed id).map fun e => { e with expiry := time }) := by
    simpa only [armed, expiresAt, put, TimerMap.reschedule, h.named] using hc
  refine ⟨⟨hw, ?_, ?_⟩, harmed⟩
  · intro id'
    by_cases hid : id' = id
    · subst hid; simp [expiresAt, put, h.named]
    · simp [expiresAt, put, hid, h.named]
  · intro id' e he
    rw [harmed] at he
    by_cases hid : id' = id
    · subst hid
      simp only [Function.update_self, Option.map_eq_some_iff] at he
      obtain ⟨e, -, rfl⟩ := he
      simp [expiresAt, put]
    · rw [Function.update_of_ne hid] at he
      simpa [expiresAt, put, hid] using h.expiry id' e he

theorem asyncWait_spec {s : Timers Task} (h : s.Consistent) (id : Nat) (task : Task) :
    (s.asyncWait id task).Consistent ∧ (∀ id', ((s.asyncWait id task).timer id').expiry = (s.timer id').expiry) ∧
      (s.asyncWait id task).armed =
        if (s.armed id).isSome then s.armed
        else Function.update s.armed id (some ⟨(s.timer id).expiry, some task, true⟩) := by
  obtain ⟨hw, hc⟩ := TimerQueue.addTimer_spec h.wellFormed { s.timer id with task := some task }
  have htimer : (s.queue.addTimer { s.timer id with task := some task }).2 = { s.timer id with task := none } := by
    rw [TimerQueue.addTimer]
    dsimp only
    split <;> rfl
  have hsame : ∀ id', ((s.asyncWait id task).timer id').timerId = id' ∧
      ((s.asyncWait id task).timer id').expiry = (s.timer id').expiry := by
    intro id'
    by_cases hid : id' = id
    · subst hid
      have hself : (s.asyncWait id' task).timer id' = { s.timer id' with task := none } := by
        simp only [asyncWait, put, Function.update_self]
        exact htimer
      rw [hself]
      exact ⟨h.named id', rfl⟩
    · simp [asyncWait, put, hid, h.named]
  have harmed : (s.asyncWait id task).armed =
      if (s.armed id).isSome then s.armed
      else Function.update s.armed id (some ⟨(s.timer id).expiry, some task, true⟩) := by
    cases he : s.queue.contents id with
    | none => simpa [armed, asyncWait, put, TimerMap.add, h.named, he] using hc
    | some e => simpa [armed, asyncWait, put, TimerMap.add, h.named, he] using hc
  refine ⟨⟨hw, fun id' => (hsame id').1, ?_⟩, fun id' => (hsame id').2, harmed⟩
  intro id' e he
  rw [(hsame id').2]
  rw [harmed] at he
  split_ifs at he with hold
  · exact h.expiry id' e he
  · by_cases hid : id' = id
    · subst hid
      rw [Function.update_self] at he
      cases he
      rfl
    · rw [Function.update_of_ne hid] at he
      exact h.expiry id' e he

theorem cancel_spec {s : Timers Task} (h : s.Consistent) (id : Nat) :
    (s.cancel id).Consistent ∧ (s.cancel id).armed =
      Function.update s.armed id ((s.armed id).map fun e => { e with valid := false }) := by
  obtain ⟨hw, hc⟩ := TimerQueue.cancelTimer_spec h.wellFormed (s.timer id)
  have harmed : (s.cancel id).armed =
      Function.update s.armed id ((s.armed id).map fun e => { e with valid := false }) := by
    simpa only [armed, cancel, TimerMap.cancel, h.named] using hc
  refine ⟨⟨hw, h.named, ?_⟩, harmed⟩
  intro id' e he
  rw [harmed] at he
  by_cases hid : id' = id
  · subst hid
    simp only [Function.update_self, Option.map_eq_some_iff] at he
    obtain ⟨e, he, rfl⟩ := he
    exact h.expiry id' e he
  · rw [Function.update_of_ne hid] at he
    exact h.expiry id' e he

theorem handleTimeout_spec {s : Timers Task} (h : s.Consistent) (now : Int) :
    (s.handleTimeout now).2.Consistent ∧ (s.handleTimeout now).2.timer = s.timer ∧
      (s.handleTimeout now).2.armed = s.armed.expire now ∧
      ∃ due, TimerMap.Due s.armed now due ∧ (s.handleTimeout now).1 = TimerMap.validTasks due := by
  obtain ⟨due, hdue, hout, hw, hc⟩ := TimerQueue.popTimeouts_spec h.wellFormed now []
  have harmed : (s.handleTimeout now).2.armed = s.armed.expire now := hc
  have htasks : (s.handleTimeout now).1 = TimerMap.validTasks due := by
    rw [← List.nil_append (TimerMap.validTasks due)]
    exact hout
  refine ⟨⟨hw, h.named, ?_⟩, rfl, harmed, due, hdue, htasks⟩
  intro id e he
  rw [harmed, TimerMap.expire, Option.filter_eq_some_iff] at he
  exact h.expiry id e he.1

end Timers

end Libcold
