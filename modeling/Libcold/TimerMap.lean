import Libcold.TimerQueue
import Mathlib.Data.Prod.Lex
import Mathlib.Order.Nat
import Mathlib.Algebra.Order.Group.Int
import Mathlib.Data.Int.ConditionallyCompleteOrder
import Mathlib.Order.ConditionallyCompleteLattice.Basic

namespace Libcold

variable {Task : Type}

structure TimerEntry (Task : Type) where
  expiry : Int
  task : Option Task
  valid : Bool

/-- What the timer queue is for: which timer is armed, when it is due, what it
runs, and whether it was cancelled in the meantime. -/
abbrev TimerMap (Task : Type) := Nat → Option (TimerEntry Task)

/-- The calls on a timer queue. The reading of the clock and the vector that
the due tasks are appended to belong to the call. -/
inductive TimerCall (Task : Type)
  | addTimer (timer : Timer Task)
  | updateTimer (timer : Timer Task)
  | cancelTimer (timer : Timer Task)
  | handleTimeout (now : Int) (timeoutCoroutines : List (Option Task))

namespace TimerMap

abbrev DueKey := Int ×ₗ Nat

def dueKey (p : Nat × TimerEntry Task) : DueKey := toLex (p.2.expiry, p.1)

def add (m : TimerMap Task) (timer : Timer Task) : TimerMap Task :=
  match m timer.timerId with
  | none => Function.update m timer.timerId (some ⟨timer.expiry, timer.task, true⟩)
  | some _ => m

def reschedule (m : TimerMap Task) (timer : Timer Task) : TimerMap Task :=
  Function.update m timer.timerId
    ((m timer.timerId).map fun e => { e with expiry := timer.expiry })

def cancel (m : TimerMap Task) (timer : Timer Task) : TimerMap Task :=
  Function.update m timer.timerId ((m timer.timerId).map fun e => { e with valid := false })

def expire (m : TimerMap Task) (now : Int) : TimerMap Task :=
  fun id => (m id).filter fun e => now < e.expiry

/-- The entries due at a reading of the clock, each once, in the order of
their expiry and, for equal expiries, of their id. -/
structure Due (m : TimerMap Task) (now : Int) (due : List (Nat × TimerEntry Task)) : Prop where
  sorted : due.Pairwise fun p q => dueKey p < dueKey q
  mem_iff : ∀ id e, (id, e) ∈ due ↔ m id = some e ∧ e.expiry ≤ now

def validTasks (due : List (Nat × TimerEntry Task)) : List (Option Task) :=
  (due.filter (·.2.valid)).map (·.2.task)

theorem Due.cons {m : TimerMap Task} {now : Int} {id : Nat} {e : TimerEntry Task}
    {due : List (Nat × TimerEntry Task)} (h : Due (Function.update m id none) now due)
    (hm : m id = some e) (hle : e.expiry ≤ now)
    (hfirst : ∀ id' e', m id' = some e' → id' ≠ id → dueKey (id, e) < dueKey (id', e')) :
    Due m now ((id, e) :: due) := by
  have hother (id' : Nat) (e' : TimerEntry Task) (hd : (id', e') ∈ due) : id' ≠ id ∧ m id' = some e' := by
    have hu := ((h.mem_iff id' e').mp hd).1
    by_cases hid : id' = id
    · subst hid; simp at hu
    · exact ⟨hid, by rwa [Function.update_of_ne hid] at hu⟩
  constructor
  · refine List.pairwise_cons.mpr ⟨?_, h.sorted⟩
    rintro ⟨id', e'⟩ hd
    obtain ⟨hid, he⟩ := hother id' e' hd
    exact hfirst id' e' he hid
  · intro id' e'
    by_cases hid : id' = id
    · subst hid
      have hd : (id', e') ∉ due := fun hd => (hother id' e' hd).1 rfl
      simp only [List.mem_cons, Prod.mk.injEq, true_and, hd, or_false, hm, Option.some.injEq]
      constructor
      · rintro rfl; exact ⟨rfl, hle⟩
      · exact fun h => h.1.symm
    · simp [hid, h.mem_iff]

theorem Due.nil {m : TimerMap Task} {now : Int} (h : ∀ id e, m id = some e → now < e.expiry) :
    Due m now [] := by
  refine ⟨List.Pairwise.nil, ?_⟩
  intro id e
  simp only [List.not_mem_nil, false_iff, not_and, not_le]
  exact h id e

theorem Due.unique {m : TimerMap Task} {now : Int} {due due' : List (Nat × TimerEntry Task)} (h : Due m now due)
    (h' : Due m now due') : due = due' := by
  have hnodup (l : List (Nat × TimerEntry Task)) (hl : Due m now l) : l.Nodup :=
    hl.sorted.imp fun hlt heq => by rw [heq] at hlt; exact lt_irrefl _ hlt
  have hperm : due.Perm due' := (List.perm_ext_iff_of_nodup (hnodup due h) (hnodup due' h')).mpr fun p => by
    rw [h.mem_iff, h'.mem_iff]
  exact hperm.eq_of_pairwise (fun p q _ _ hlt hgt => absurd hgt (lt_asymm hlt)) h.sorted h'.sorted

theorem expire_later {m : TimerMap Task} {now : Int}
    (h : ∀ id e, m id = some e → now < e.expiry) : m.expire now = m := by
  funext id
  cases hm : m id with
  | none => simp [expire, hm]
  | some e => simp [expire, hm, h id e hm]

theorem expire_update_none {m : TimerMap Task} {now : Int} {id : Nat} {e : TimerEntry Task}
    (hm : m id = some e) (hle : e.expiry ≤ now) :
    TimerMap.expire (Function.update m id none) now = m.expire now := by
  funext id'
  by_cases hid : id' = id
  · subst hid; simp [expire, hm, Option.filter, hle]
  · simp [expire, Function.update_of_ne hid]

theorem validTasks_cons (p : Nat × TimerEntry Task) (due : List (Nat × TimerEntry Task)) :
    validTasks (p :: due) = (if p.2.valid then [p.2.task] else []) ++ validTasks due := by
  cases hv : p.2.valid <;> simp [validTasks, hv]

theorem mem_validTasks {due : List (Nat × TimerEntry Task)} {task : Option Task} :
    task ∈ validTasks due ↔ ∃ id e, (id, e) ∈ due ∧ e.valid = true ∧ e.task = task := by
  simp [validTasks, and_assoc]

/-- One call on the map, with the vector of tasks it leaves behind. -/
inductive Step : TimerMap Task → TimerCall Task → List (Option Task) → TimerMap Task → Prop
  | addTimer (m timer) : Step m (.addTimer timer) [] (m.add timer)
  | updateTimer (m timer) : Step m (.updateTimer timer) [] (m.reschedule timer)
  | cancelTimer (m timer) : Step m (.cancelTimer timer) [] (m.cancel timer)
  | handleTimeout (m now out due) (h : Due m now due) :
      Step m (.handleTimeout now out) (out ++ validTasks due) (m.expire now)

inductive Run : TimerMap Task → List (TimerCall Task) → List (List (Option Task)) →
    TimerMap Task → Prop
  | nil (m) : Run m [] [] m
  | cons {m m' m'' call calls out outs} (hs : Step m call out m') (hr : Run m' calls outs m'') :
      Run m (call :: calls) (out :: outs) m''

end TimerMap

end Libcold
