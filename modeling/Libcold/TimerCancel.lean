import Libcold.Runs
import Libcold.Timers
import Mathlib.Data.List.Nodup

namespace Libcold

open Runs TimerMap

variable {Task : Type}

/-- The timers of a service, and the due tasks that `Start` has not come to yet. -/
structure TimerLoop (Task : Type) where
  timers : Timers Task := {}
  tasks : List (Option Task) := []

inductive LoopEvent (Task : Type)
  | op (op : TimerOp Task)
  | handleTimeout (now : Int) (tasks : List (Option Task))
  | start (task : Option Task)

namespace TimerLoop

/-- `Start` collects the tasks that are due and resumes one after the other; a
task that runs, like every other coroutine of the thread, may use any timer. -/
inductive Step : TimerLoop Task → LoopEvent Task → TimerLoop Task → Prop
  | op (s) (op) : Step s (.op op) { s with timers := s.timers.apply op }
  | handleTimeout (s) (now) (hdone : s.tasks = []) :
      Step s (.handleTimeout now (s.timers.handleTimeout now).1)
        ⟨(s.timers.handleTimeout now).2, (s.timers.handleTimeout now).1⟩
  | start (s) (task) (rest) (hnext : s.tasks = task :: rest) : Step s (.start task) { s with tasks := rest }

def passedBy : LoopEvent Task → Option Task
  | .op (.asyncWait _ task) => some task
  | _ => none

def passed (trace : List (LoopEvent Task)) : List Task := trace.filterMap passedBy

/-- A task that was armed on a timer and had not been started when the timer was
cancelled is never started. -/
def StaysCancelled (trace : List (LoopEvent Task)) : Prop :=
  ∀ before id after task, trace = before ++ .op (.cancel id) :: after → .op (.asyncWait id task) ∈ before →
    .start (some task) ∉ before → .start (some task) ∉ after

def Collected (trace : List (LoopEvent Task)) (task : Task) : Prop :=
  ∃ now tasks, .handleTimeout now tasks ∈ trace ∧ some task ∈ tasks

/-- No timer is cancelled between the collection of its task and the start of it. -/
def CancelledInTime (trace : List (LoopEvent Task)) : Prop :=
  ∀ before id after task, trace = before ++ .op (.cancel id) :: after → .op (.asyncWait id task) ∈ before →
    Collected before task → .start (some task) ∈ before

/-- What the tasks of the loop and of the queue have to do with the events so far. -/
structure Traced (trace : List (LoopEvent Task)) (s : TimerLoop Task) : Prop where
  consistent : s.timers.Consistent
  armed : ∀ id e task, s.timers.armed id = some e → e.task = some task → .op (.asyncWait id task) ∈ trace
  collected : ∀ task, some task ∈ s.tasks → Collected trace task
  pending : ∀ task, Collected trace task → .start (some task) ∈ trace ∨ some task ∈ s.tasks

/-- A task that nothing can start any more. -/
structure Withdrawn (s : TimerLoop Task) (task : Task) : Prop where
  notCollected : some task ∉ s.tasks
  invalid : ∀ id e, s.timers.armed id = some e → e.task = some task → e.valid = false

/-- What a call on a timer leaves in the queue was there before, or is newly armed. -/
theorem apply_armed {s : Timers Task} (h : s.Consistent) (op : TimerOp Task) :
    (s.apply op).Consistent ∧ ∀ id e, (s.apply op).armed id = some e →
      (∃ old, s.armed id = some old ∧ e.task = old.task ∧ (e.valid = old.valid ∨ e.valid = false) ∧
        (op = .cancel id → e.valid = false)) ∨
      ∃ task, op = .asyncWait id task ∧ e.task = some task := by
  cases op with
  | expiresAt id' time =>
      obtain ⟨hcons, harmed⟩ := Timers.expiresAt_spec h id' time
      refine ⟨hcons, ?_⟩
      intro id e he
      rw [Timers.apply, harmed] at he
      by_cases hid : id = id'
      · subst hid
        simp only [Function.update_self, Option.map_eq_some_iff] at he
        obtain ⟨old, hold, rfl⟩ := he
        exact .inl ⟨old, hold, rfl, .inl rfl, by rintro ⟨⟩⟩
      · rw [Function.update_of_ne hid] at he
        exact .inl ⟨e, he, rfl, .inl rfl, by rintro ⟨⟩⟩
  | asyncWait id' task =>
      obtain ⟨hcons, -, harmed⟩ := Timers.asyncWait_spec h id' task
      refine ⟨hcons, ?_⟩
      intro id e he
      rw [Timers.apply, harmed] at he
      split_ifs at he
      · exact .inl ⟨e, he, rfl, .inl rfl, by rintro ⟨⟩⟩
      · by_cases hid : id = id'
        · subst hid
          rw [Function.update_self] at he
          cases he
          exact .inr ⟨task, rfl, rfl⟩
        · rw [Function.update_of_ne hid] at he
          exact .inl ⟨e, he, rfl, .inl rfl, by rintro ⟨⟩⟩
  | cancel id' =>
      obtain ⟨hcons, harmed⟩ := Timers.cancel_spec h id'
      refine ⟨hcons, ?_⟩
      intro id e he
      rw [Timers.apply, harmed] at he
      by_cases hid : id = id'
      · subst hid
        simp only [Function.update_self, Option.map_eq_some_iff] at he
        obtain ⟨old, hold, rfl⟩ := he
        exact .inl ⟨old, hold, rfl, .inr rfl, fun _ => rfl⟩
      · rw [Function.update_of_ne hid] at he
        exact .inl ⟨e, he, rfl, .inl rfl, by rintro ⟨⟩; exact absurd rfl hid⟩

theorem collected_snoc {trace : List (LoopEvent Task)} {event : LoopEvent Task} {task : Task} :
    Collected (trace ++ [event]) task ↔
      Collected trace task ∨ ∃ now tasks, event = .handleTimeout now tasks ∧ some task ∈ tasks := by
  constructor
  · rintro ⟨now, tasks, hmem, htask⟩
    rcases List.mem_append.mp hmem with hmem | hmem
    · exact .inl ⟨now, tasks, hmem, htask⟩
    · exact .inr ⟨now, tasks, (List.mem_singleton.mp hmem).symm, htask⟩
  · rintro (⟨now, tasks, hmem, htask⟩ | ⟨now, tasks, rfl, htask⟩)
    · exact ⟨now, tasks, List.mem_append_left _ hmem, htask⟩
    · exact ⟨now, tasks, List.mem_append_right _ (List.mem_singleton.mpr rfl), htask⟩

theorem step_traced {trace : List (LoopEvent Task)} {s t : TimerLoop Task} {event : LoopEvent Task}
    (h : Traced trace s) (hstep : Step s event t) : Traced (trace ++ [event]) t := by
  obtain ⟨hcons, harmed, hcollected, hpending⟩ := h
  cases hstep with
  | op op =>
      obtain ⟨hcons', happly⟩ := apply_armed hcons op
      refine ⟨hcons', ?_, ?_, ?_⟩
      · intro id e task he htask
        rcases happly id e he with ⟨old, hold, hsame, -, -⟩ | ⟨new, rfl, hnew⟩
        · exact List.mem_append_left _ (harmed id old task hold (hsame ▸ htask))
        · rw [hnew] at htask
          cases htask
          exact List.mem_append_right _ (List.mem_singleton.mpr rfl)
      · intro task htask
        exact collected_snoc.mpr (.inl (hcollected task htask))
      · intro task htask
        rcases collected_snoc.mp htask with htask | ⟨now, tasks, ⟨⟩, -⟩
        exact (hpending task htask).imp (List.mem_append_left _) id
  | handleTimeout now hdone =>
      obtain ⟨hcons', -, hexpire, -⟩ := Timers.handleTimeout_spec hcons now
      refine ⟨hcons', ?_, ?_, ?_⟩
      · intro id e task he htask
        rw [hexpire, TimerMap.expire, Option.filter_eq_some_iff] at he
        exact List.mem_append_left _ (harmed id e task he.1 htask)
      · intro task htask
        exact collected_snoc.mpr (.inr ⟨now, _, rfl, htask⟩)
      · intro task htask
        rcases collected_snoc.mp htask with htask | ⟨now', tasks, heq, htask⟩
        · rcases hpending task htask with hstarted | hwaits
          · exact .inl (List.mem_append_left _ hstarted)
          · rw [hdone] at hwaits
            cases hwaits
        · cases heq
          exact .inr htask
  | start task rest hnext =>
      refine ⟨hcons, ?_, ?_, ?_⟩
      · intro id e task' he htask
        exact List.mem_append_left _ (harmed id e task' he htask)
      · intro task' htask
        exact collected_snoc.mpr (.inl (hcollected task' (by rw [hnext]; exact List.mem_cons_of_mem _ htask)))
      · intro task' htask
        rcases collected_snoc.mp htask with htask | ⟨now, tasks, ⟨⟩, -⟩
        rcases hpending task' htask with hstarted | hwaits
        · exact .inl (List.mem_append_left _ hstarted)
        · rw [hnext] at hwaits
          rcases List.mem_cons.mp hwaits with rfl | hwaits
          · exact .inl (List.mem_append_right _ (List.mem_singleton.mpr rfl))
          · exact .inr hwaits

theorem run_traced {trace : List (LoopEvent Task)} {s : TimerLoop Task} (h : Run Step {} trace s) : Traced trace s := by
  refine h.invariant ⟨Timers.consistent_start, by rintro id e task ⟨⟩, by rintro task ⟨⟩, ?_⟩
    fun _ _ _ _ => step_traced
  rintro task ⟨now, tasks, ⟨⟩, -⟩

theorem step_withdrawn {s t : TimerLoop Task} {event : LoopEvent Task} {task : Task}
    (hcons : s.timers.Consistent) (h : Withdrawn s task) (hpassed : passedBy event ≠ some task)
    (hstep : Step s event t) : Withdrawn t task := by
  obtain ⟨hcollected, hinvalid⟩ := h
  cases hstep with
  | op op =>
      refine ⟨hcollected, ?_⟩
      intro id e he htask
      rcases (apply_armed hcons op).2 id e he with ⟨old, hold, hsame, hvalid, -⟩ | ⟨new, rfl, hnew⟩
      · rcases hvalid with hvalid | hvalid
        · rw [hvalid]
          exact hinvalid id old hold (hsame ▸ htask)
        · exact hvalid
      · rw [hnew] at htask
        exact absurd htask hpassed
  | handleTimeout now hdone =>
      obtain ⟨-, -, hexpire, due, hdue, hout⟩ := Timers.handleTimeout_spec hcons now
      refine ⟨?_, ?_⟩
      · intro hmem
        rw [hout] at hmem
        obtain ⟨id, e, hmem, hvalid, htask⟩ := mem_validTasks.mp hmem
        rw [hinvalid id e ((hdue.mem_iff id e).mp hmem).1 htask] at hvalid
        cases hvalid
      · intro id e he htask
        rw [hexpire, TimerMap.expire, Option.filter_eq_some_iff] at he
        exact hinvalid id e he.1 htask
  | start first rest hnext =>
      refine ⟨fun hmem => hcollected ?_, hinvalid⟩
      rw [hnext]
      exact List.mem_cons_of_mem _ hmem

theorem run_withdrawn {before after : List (LoopEvent Task)} {s t : TimerLoop Task} {task : Task}
    (hbefore : Traced before s) (h : Withdrawn s task) (hrun : Run Step s after t) (hpassed : task ∉ passed after) :
    Withdrawn t task ∧ .start (some task) ∉ after := by
  suffices hall : Withdrawn t task ∧ Traced (before ++ after) t ∧ .start (some task) ∉ after from ⟨hall.1, hall.2.2⟩
  induction hrun with
  | stop => exact ⟨h, by simpa using hbefore, by simp⟩
  | next run taken ih =>
      rename_i trace s t event
      have hsplit : task ∉ passed trace ∧ passedBy event ≠ some task := by
        refine ⟨fun hmem => hpassed ?_, fun heq => hpassed ?_⟩
        · rw [passed, List.filterMap_append]
          exact List.mem_append_left _ hmem
        · exact List.mem_filterMap.mpr ⟨event, by simp, heq⟩
      obtain ⟨hwithdrawn, htraced, hquiet⟩ := ih hsplit.1
      refine ⟨step_withdrawn htraced.consistent hwithdrawn hsplit.2 taken, ?_, ?_⟩
      · rw [← List.append_assoc]
        exact step_traced htraced taken
      · intro hmem
        rcases List.mem_append.mp hmem with hmem | hmem
        · exact hquiet hmem
        · obtain rfl := List.mem_singleton.mp hmem
          cases taken with
          | start _ rest hnext => exact hwithdrawn.notCollected (by rw [hnext]; exact List.mem_cons_self)

/-- A task belongs to one timer. -/
theorem timer_unique {trace : List (LoopEvent Task)} (h : (passed trace).Nodup) {id id' : Nat} {task : Task}
    (hmem : .op (.asyncWait id task) ∈ trace) (hmem' : .op (.asyncWait id' task) ∈ trace) : id = id' := by
  induction trace with
  | nil => cases hmem
  | cons event trace ih =>
      have hlater : (passed trace).Nodup := by
        cases hevent : passedBy event with
        | none => simpa [passed, hevent] using h
        | some new =>
            simp only [passed, List.filterMap_cons, hevent] at h
            exact (List.nodup_cons.mp h).2
      have hfirst : ∀ i, event = .op (.asyncWait i task) → ∀ j, .op (.asyncWait j task) ∉ trace := by
        rintro i rfl j hj
        simp only [passed, List.filterMap_cons, passedBy] at h
        exact (List.nodup_cons.mp h).1 (List.mem_filterMap.mpr ⟨_, hj, rfl⟩)
      rcases List.mem_cons.mp hmem with heq | hmem
      · rcases List.mem_cons.mp hmem' with heq' | hmem'
        · rw [← heq] at heq'
          cases heq'
          rfl
        · exact absurd hmem' (hfirst id heq.symm id')
      · rcases List.mem_cons.mp hmem' with heq' | hmem'
        · exact absurd hmem (hfirst id' heq'.symm id)
        · exact ih hlater hmem hmem'

theorem staysCancelled_of_inTime {trace : List (LoopEvent Task)} {s : TimerLoop Task} (h : Run Step {} trace s)
    (hpassed : (passed trace).Nodup) (hguard : CancelledInTime trace) : StaysCancelled trace := by
  rintro before id after task rfl harm hstart
  obtain ⟨mid, hbefore, hrest⟩ := run_append_iff.mp h
  obtain ⟨next, hcancel, hafter⟩ := run_cons_iff.mp hrest
  have htraced := run_traced hbefore
  have hnodup := hpassed
  rw [passed, List.filterMap_append] at hnodup
  obtain ⟨hnodup, -, hdisjoint⟩ := List.nodup_append'.mp hnodup
  have hwithdrawn : Withdrawn next task := by
    have hstep := hcancel
    cases hstep with
    | op op =>
        refine ⟨fun hmem => hstart (hguard before id after task rfl harm (htraced.collected task hmem)), ?_⟩
        intro id' e he htask
        rcases (apply_armed htraced.consistent (.cancel id)).2 id' e he with
          ⟨old, hold, hsame, -, hinvalid⟩ | ⟨_, ⟨⟩, _⟩
        have harm' := htraced.armed id' old task hold (hsame ▸ htask)
        exact hinvalid (by rw [timer_unique hnodup harm harm'])
  refine (run_withdrawn (step_traced htraced hcancel) hwithdrawn hafter ?_).2
  intro hmem
  exact hdisjoint (List.mem_filterMap.mpr ⟨_, harm, rfl⟩) (by simpa [passed, passedBy] using hmem)

/-- The loop goes on to start what it has collected. -/
theorem run_starts (s : TimerLoop Task) : Run Step s (s.tasks.map .start) { s with tasks := [] } := by
  obtain ⟨timers, tasks⟩ := s
  induction tasks with
  | nil => exact .stop
  | cons task tasks ih => exact run_cons_iff.mpr ⟨_, .start _ task tasks rfl, ih⟩

/-- A cancel is effective, whichever tasks the loop then starts, exactly when it
comes before the collection of the task or after its start. -/
theorem staysCancelled_iff (trace : List (LoopEvent Task)) (s : TimerLoop Task) (h : Run Step {} trace s)
    (hpassed : (passed trace).Nodup) :
    (∀ (starts : List (Option Task)) t, Run Step s (starts.map .start) t →
      StaysCancelled (trace ++ starts.map .start)) ↔ CancelledInTime trace := by
  constructor
  · intro hstays before id after task htrace harm hcollected
    by_contra hstart
    have hnever := hstays s.tasks _ (run_starts s) before id (after ++ s.tasks.map .start) task
      (by simp [htrace]) harm hstart
    obtain ⟨now, tasks, hmem, htask⟩ := hcollected
    have hpending := (run_traced h).pending task ⟨now, tasks, by rw [htrace]; exact List.mem_append_left _ hmem, htask⟩
    rcases hpending with hstarted | hwaits
    · rw [htrace] at hstarted
      rcases List.mem_append.mp hstarted with hstarted | hstarted
      · exact hstart hstarted
      · rcases List.mem_cons.mp hstarted with heq | hlater
        · cases heq
        · exact hnever (List.mem_append_left _ hlater)
    · exact hnever (List.mem_append_right _ (List.mem_map_of_mem hwaits))
  · intro hguard starts t hstarts
    refine staysCancelled_of_inTime (h.append hstarts) ?_ ?_
    · have hnone : passed (starts.map LoopEvent.start) = [] := by
        simp [passed, List.filterMap_map, passedBy, Function.comp_def]
      rw [passed, List.filterMap_append, ← passed, ← passed, hnone, List.append_nil]
      exact hpassed
    · intro before id after task htrace
      rcases List.append_eq_append_iff.mp htrace with ⟨more, rfl, hstarts⟩ | ⟨more, rfl, hafter⟩
      · have hcancel : LoopEvent.op (.cancel id) ∈ starts.map LoopEvent.start := by
          rw [hstarts]
          exact List.mem_append_right _ List.mem_cons_self
        obtain ⟨_, _, ⟨⟩⟩ := List.mem_map.mp hcancel
      · cases more with
        | nil =>
            have hcancel : LoopEvent.op (.cancel id) ∈ starts.map LoopEvent.start := by
              rw [List.nil_append] at hafter
              rw [← hafter]
              exact List.mem_cons_self
            obtain ⟨_, _, ⟨⟩⟩ := List.mem_map.mp hcancel
        | cons event more =>
            obtain ⟨rfl, -⟩ := List.cons.inj hafter
            exact hguard before id more task rfl

theorem staysCancelled_iff_queued : ∃ s, Run Step {} [.op (.asyncWait 1 7), .op (.cancel 1), .op (.asyncWait 2 8)] s ∧
    ((∀ (starts : List (Option Nat)) t, Run Step s (starts.map .start) t →
      StaysCancelled ([.op (.asyncWait 1 7), .op (.cancel 1), .op (.asyncWait 2 8)] ++ starts.map .start)) ↔
      CancelledInTime [.op (.asyncWait 1 7), .op (.cancel 1), .op (.asyncWait 2 8)]) := by
  have hrun : Run Step {} [.op (.asyncWait 1 7), .op (.cancel 1), .op (.asyncWait 2 8)]
      ⟨((({} : Timers Nat).asyncWait 1 7).cancel 1).asyncWait 2 8, []⟩ :=
    run_cons_iff.mpr ⟨_, .op _ _, run_cons_iff.mpr ⟨_, .op _ _, .single (.op _ _)⟩⟩
  exact ⟨_, hrun, staysCancelled_iff _ _ hrun (by decide)⟩

/-- Two timers are due together, and the task of the first cancels the second. -/
def cancelledLate (out : List (Option Nat)) : List (LoopEvent Nat) :=
  [.op (.expiresAt 1 10), .op (.asyncWait 1 7), .op (.expiresAt 2 10), .op (.asyncWait 2 8), .handleTimeout 10 out,
    .start (some 7), .op (.cancel 2), .start (some 8)]

theorem cancel_not_effective :
    (∃ s, Run Step {} (cancelledLate [some 7, some 8]) s) ∧ (passed (cancelledLate [some 7, some 8])).Nodup ∧
      ¬ StaysCancelled (cancelledLate [some 7, some 8]) := by
  refine ⟨?_, by decide, ?_⟩
  · obtain ⟨hcons, ha⟩ := Timers.expiresAt_spec (Timers.consistent_start : ({} : Timers Nat).Consistent) 1 10
    obtain ⟨hcons, hsame, hb⟩ := Timers.asyncWait_spec hcons 1 7
    obtain ⟨hcons, hc⟩ := Timers.expiresAt_spec hcons 2 10
    obtain ⟨hcons, hsame', hd⟩ := Timers.asyncWait_spec hcons 2 8
    have hstart : ({} : Timers Nat).armed = fun _ => none := rfl
    rw [hc, hb, ha, hstart] at hd
    obtain ⟨-, -, -, due, hdue, hout⟩ := Timers.handleTimeout_spec hcons 10
    have hlist : due = [(1, ⟨10, some 7, true⟩), (2, ⟨10, some 8, true⟩)] := by
      have harmed : (((((({} : Timers Nat).expiresAt 1 10).asyncWait 1 7).expiresAt 2 10).asyncWait 2 8)).armed =
          Function.update (Function.update (fun _ => none) 1 (some ⟨10, some 7, true⟩)) 2
            (some ⟨10, some 8, true⟩) := by
        rw [hd]
        funext id
        by_cases h1 : id = 1
        · subst h1; rfl
        · by_cases h2 : id = 2
          · subst h2; rfl
          · simp [Function.update_of_ne, h1, h2]
      rw [harmed] at hdue
      refine hdue.unique ⟨by simp [dueKey, Prod.Lex.toLex_lt_toLex], ?_⟩
      intro id e
      constructor
      · rintro (_ | ⟨_, _ | ⟨_, ⟨⟩⟩⟩)
        · exact ⟨rfl, le_rfl⟩
        · exact ⟨rfl, le_rfl⟩
      · rintro ⟨he, -⟩
        by_cases h2 : id = 2
        · subst h2
          obtain rfl := Option.some.inj he
          simp
        · by_cases h1 : id = 1
          · subst h1
            obtain rfl := Option.some.inj he
            simp
          · simp [h1, h2] at he
    rw [hlist] at hout
    have hstep := Step.handleTimeout
      (⟨(((({} : Timers Nat).expiresAt 1 10).asyncWait 1 7).expiresAt 2 10).asyncWait 2 8, []⟩ : TimerLoop Nat) 10 rfl
    rw [hout] at hstep
    exact ⟨_, run_cons_iff.mpr ⟨_, .op _ _, run_cons_iff.mpr ⟨_, .op _ _, run_cons_iff.mpr ⟨_, .op _ _,
      run_cons_iff.mpr ⟨_, .op _ _, run_cons_iff.mpr ⟨_, hstep, run_cons_iff.mpr ⟨_, .start _ _ [some 8] rfl,
        run_cons_iff.mpr ⟨_, .op _ (.cancel 2), .single (.start _ _ [] rfl)⟩⟩⟩⟩⟩⟩⟩⟩
  · intro h
    exact h [.op (.expiresAt 1 10), .op (.asyncWait 1 7), .op (.expiresAt 2 10), .op (.asyncWait 2 8),
      .handleTimeout 10 [some 7, some 8], .start (some 7)] 2 [.start (some 8)] 8 rfl (by simp) (by simp) (by simp)

end TimerLoop

end Libcold
