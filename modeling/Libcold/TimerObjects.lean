import Libcold.Runs
import Libcold.TimerRefinement
import Mathlib.Data.List.Basic

namespace Libcold

open Runs TimerMap

variable {Obj Service Task : Type}

/-- A `Timer`, with the service that it points to. -/
structure TimerObject (Service Task : Type) where
  service : Service
  timer : Timer Task

/-- What a move leaves behind. -/
def TimerObject.movedFrom (x : TimerObject Service Task) : TimerObject Service Task :=
  { x with timer := { x.timer with timerId := 0, task := none } }

/-- The static counter of `Timer`, the objects that are alive, and the queues of the services. -/
structure TimerObjects (Obj Service Task : Type) where
  numCreated : Nat := 0
  object : Obj → Option (TimerObject Service Task) := fun _ => none
  queue : Service → TimerQueue Task := fun _ => .empty

inductive ObjectEvent (Obj Service Task : Type)
  | constructs (o : Obj) (service : Service)
  | movesTo (o other : Obj)
  | assigns (o other : Obj)
  | expiresAt (o : Obj) (time : Int)
  | asyncWait (o : Obj) (task : Task)
  | cancel (o : Obj)
  | destroys (o : Obj)
  | handleTimeout (service : Service) (now : Int) (timeoutCoroutines : List (Option Task))

namespace TimerObjects

variable [DecidableEq Obj] [DecidableEq Service]

def put (s : TimerObjects Obj Service Task) (o : Obj) (x : Option (TimerObject Service Task)) :
    TimerObjects Obj Service Task :=
  { s with object := Function.update s.object o x }

def putQueue (s : TimerObjects Obj Service Task) (service : Service) (queue : TimerQueue Task) :
    TimerObjects Obj Service Task :=
  { s with queue := Function.update s.queue service queue }

def cancelTimer (s : TimerObjects Obj Service Task) (x : TimerObject Service Task) : TimerObjects Obj Service Task :=
  s.putQueue x.service ((s.queue x.service).cancelTimer x.timer)

/-- The members are taken over, and the other object keeps none of them but its service
and its expiry. -/
def give (s : TimerObjects Obj Service Task) (o other : Obj) (x : TimerObject Service Task) :
    TimerObjects Obj Service Task :=
  (s.put o (some x)).put other (some x.movedFrom)

/-- The members of `Timer`, on objects that are alive, and `HandleTimeout` of a service. -/
inductive Step : TimerObjects Obj Service Task → ObjectEvent Obj Service Task → TimerObjects Obj Service Task → Prop
  | constructs (s) (o) (service) (ho : s.object o = none) :
      Step s (.constructs o service)
        { s.put o (some ⟨service, s.numCreated + 1, 0, none⟩) with numCreated := s.numCreated + 1 }
  | movesTo (s) (o) (other) (x) (ho : s.object o = none) (hother : s.object other = some x) :
      Step s (.movesTo o other) (s.give o other x)
  | assigns (s) (o) (other) (y) (x) (hne : o ≠ other) (ho : s.object o = some y) (hother : s.object other = some x) :
      Step s (.assigns o other) ((s.cancelTimer y).give o other x)
  | assignsSelf (s) (o) (x) (ho : s.object o = some x) : Step s (.assigns o o) s
  | expiresAt (s) (o) (x) (time) (ho : s.object o = some x) :
      Step s (.expiresAt o time)
        ((s.put o (some { x with timer := { x.timer with expiry := time } })).putQueue x.service
          ((s.queue x.service).updateTimer { x.timer with expiry := time }))
  | asyncWait (s) (o) (x) (task) (ho : s.object o = some x) :
      Step s (.asyncWait o task)
        ((s.put o (some { x with timer :=
            ((s.queue x.service).addTimer { x.timer with task := some task }).2 })).putQueue x.service
          ((s.queue x.service).addTimer { x.timer with task := some task }).1)
  | cancel (s) (o) (x) (ho : s.object o = some x) : Step s (.cancel o) (s.cancelTimer x)
  | destroys (s) (o) (x) (ho : s.object o = some x) : Step s (.destroys o) ((s.cancelTimer x).put o none)
  | handleTimeout (s) (service) (now) :
      Step s (.handleTimeout service now ((s.queue service).handleTimeout now []).2.1)
        (s.putQueue service ((s.queue service).handleTimeout now []).1)

/-- No timer is armed after it has been moved away. -/
def Own (s : TimerObjects Obj Service Task) : ObjectEvent Obj Service Task → Prop
  | .asyncWait o _ => ∀ x, s.object o = some x → x.timer.timerId ≠ 0
  | _ => True

end TimerObjects

/-- What a timer is for: the service, the expiry and at most one wait, of its own. -/
structure OwnWait (Service Task : Type) where
  service : Service
  expiry : Int
  entry : Option (TimerEntry Task)

abbrev OwnWaits (Obj Service Task : Type) := Obj → Option (OwnWait Service Task)

namespace OwnWaits

variable [DecidableEq Obj] [DecidableEq Service]

def give (w : OwnWaits Obj Service Task) (o other : Obj) (x : OwnWait Service Task) : OwnWaits Obj Service Task :=
  Function.update (Function.update w o (some x)) other (some { x with entry := none })

def expire (w : OwnWaits Obj Service Task) (service : Service) (now : Int) : OwnWaits Obj Service Task :=
  fun o => (w o).map fun x =>
    if x.service = service then { x with entry := x.entry.filter fun e => now < e.expiry } else x

/-- The waits of a service that are due and not cancelled, in the order of their expiries. -/
structure Due (w : OwnWaits Obj Service Task) (service : Service) (now : Int) (due : List (Obj × TimerEntry Task)) :
    Prop where
  once : (due.map Prod.fst).Nodup
  sorted : due.Pairwise fun p q => p.2.expiry ≤ q.2.expiry
  mem_iff : ∀ o e, (o, e) ∈ due ↔ ∃ x, w o = some x ∧ x.service = service ∧ x.entry = some e ∧ e.valid = true ∧
    e.expiry ≤ now

/-- Each object with its own wait, which goes where the object is moved and ends with it. -/
inductive Step : OwnWaits Obj Service Task → ObjectEvent Obj Service Task → OwnWaits Obj Service Task → Prop
  | constructs (w) (o) (service) (ho : w o = none) :
      Step w (.constructs o service) (Function.update w o (some ⟨service, 0, none⟩))
  | movesTo (w) (o) (other) (x) (ho : w o = none) (hother : w other = some x) :
      Step w (.movesTo o other) (w.give o other x)
  | assigns (w) (o) (other) (y) (x) (hne : o ≠ other) (ho : w o = some y) (hother : w other = some x) :
      Step w (.assigns o other) (w.give o other x)
  | assignsSelf (w) (o) (x) (ho : w o = some x) : Step w (.assigns o o) w
  | expiresAt (w) (o) (x) (time) (ho : w o = some x) :
      Step w (.expiresAt o time) (Function.update w o
        (some ⟨x.service, time, x.entry.map fun e => { e with expiry := time }⟩))
  | asyncWait (w) (o) (x) (task) (ho : w o = some x) :
      Step w (.asyncWait o task) (Function.update w o
        (some { x with entry := x.entry.or (some ⟨x.expiry, some task, true⟩) }))
  | cancel (w) (o) (x) (ho : w o = some x) :
      Step w (.cancel o) (Function.update w o (some { x with entry := x.entry.map fun e => { e with valid := false } }))
  | destroys (w) (o) (x) (ho : w o = some x) : Step w (.destroys o) (Function.update w o none)
  | handleTimeout (w) (service) (now) (due) (hdue : w.Due service now due) :
      Step w (.handleTimeout service now (due.map fun p => p.2.task)) (w.expire service now)

end OwnWaits

namespace TimerObjects

variable [DecidableEq Obj] [DecidableEq Service] {s t : TimerObjects Obj Service Task}

def waitOf (s : TimerObjects Obj Service Task) (x : TimerObject Service Task) : OwnWait Service Task :=
  ⟨x.service, x.timer.expiry, (s.queue x.service).contents x.timer.timerId⟩

def waits (s : TimerObjects Obj Service Task) : OwnWaits Obj Service Task := fun o => (s.object o).map s.waitOf

/-- The ids are their objects' own, but for that of the timers that were moved away, which
no queue has. -/
structure Inv (s : TimerObjects Obj Service Task) : Prop where
  wellFormed : ∀ v, (s.queue v).WellFormed
  zero : ∀ v, (s.queue v).contents 0 = none
  known : ∀ v id e, (s.queue v).contents id = some e → id ≤ s.numCreated
  created : ∀ o x, s.object o = some x → x.timer.timerId ≤ s.numCreated
  distinct : ∀ o o' x x', s.object o = some x → s.object o' = some x' → x.timer.timerId = x'.timer.timerId →
    x.timer.timerId ≠ 0 → o = o'
  owned : ∀ v id e, (s.queue v).contents id = some e → e.valid = true →
    ∃ o x, s.object o = some x ∧ x.service = v ∧ x.timer.timerId = id

/-- An entry of a queue changes under the id of an object: the waits of the others do not. -/
theorem Inv.waits_putQueue (h : s.Inv) {o : Obj} {x : TimerObject Service Task} (ho : s.object o = some x)
    {queue : TimerQueue Task} {entry : Option (TimerEntry Task)}
    (hqueue : queue.contents = Function.update (s.queue x.service).contents x.timer.timerId entry)
    (hzero : x.timer.timerId = 0 → entry = none) :
    (s.putQueue x.service queue).waits = Function.update s.waits o (some { s.waitOf x with entry }) := by
  funext o'
  by_cases heq : o' = o
  · subst heq
    simp [waits, putQueue, waitOf, ho, hqueue]
  · rw [Function.update_of_ne heq]
    cases ho' : s.object o' with
    | none => simp [waits, putQueue, ho']
    | some x' =>
        have hcontents : (Function.update s.queue x.service queue x'.service).contents x'.timer.timerId =
            (s.queue x'.service).contents x'.timer.timerId := by
          by_cases hservice : x'.service = x.service
          · rw [hservice, Function.update_self, hqueue]
            by_cases hid : x'.timer.timerId = x.timer.timerId
            · have hnull : x'.timer.timerId = 0 := by
                by_contra hne
                exact heq (h.distinct o' o x' x ho' ho hid hne)
              rw [hid, Function.update_self, hzero (hid ▸ hnull), ← hid, hnull, h.zero]
            · rw [Function.update_of_ne hid]
          · rw [Function.update_of_ne hservice]
        simp [waits, putQueue, waitOf, ho', hcontents]

omit [DecidableEq Obj] in
theorem Inv.set_queue (h : s.Inv) {o : Obj} {x : TimerObject Service Task} (ho : s.object o = some x)
    {queue : TimerQueue Task} (hwell : queue.WellFormed) {entry : Option (TimerEntry Task)}
    (hqueue : queue.contents = Function.update (s.queue x.service).contents x.timer.timerId entry)
    (hzero : x.timer.timerId = 0 → entry = none) : (s.putQueue x.service queue).Inv := by
  have hcontents (v : Service) (id : Nat) (e : TimerEntry Task)
      (he : (Function.update s.queue x.service queue v).contents id = some e) :
      v = x.service ∧ id = x.timer.timerId ∨ (s.queue v).contents id = some e := by
    by_cases hv : v = x.service
    · subst hv
      rw [Function.update_self, hqueue] at he
      by_cases hid : id = x.timer.timerId
      · exact .inl ⟨rfl, hid⟩
      · rw [Function.update_of_ne hid] at he
        exact .inr he
    · rw [Function.update_of_ne hv] at he
      exact .inr he
  constructor
  · intro v
    by_cases hv : v = x.service
    · subst hv
      simpa [putQueue] using hwell
    · simpa [putQueue, hv] using h.wellFormed v
  · intro v
    by_cases hv : v = x.service
    · subst hv
      simp only [putQueue, Function.update_self, hqueue]
      by_cases hid : x.timer.timerId = 0
      · rw [hid, Function.update_self, hzero hid]
      · rw [Function.update_of_ne (Ne.symm hid), h.zero]
    · simpa [putQueue, hv] using h.zero v
  · intro v id e he
    rcases hcontents v id e he with ⟨-, rfl⟩ | he
    · exact h.created o x ho
    · exact h.known v id e he
  · exact h.created
  · exact h.distinct
  · intro v id e he hvalid
    rcases hcontents v id e he with ⟨rfl, rfl⟩ | he
    · exact ⟨o, x, ho, rfl, rfl⟩
    · exact h.owned v id e he hvalid

omit [DecidableEq Service] in
theorem waits_put (s : TimerObjects Obj Service Task) (o : Obj) (x : Option (TimerObject Service Task)) :
    (s.put o x).waits = Function.update s.waits o (x.map s.waitOf) := by
  funext o'
  by_cases heq : o' = o
  · subst heq
    simp only [waits, put, Function.update_self]
    rfl
  · simp only [waits, put, Function.update_of_ne heq]
    rfl

omit [DecidableEq Service] in
theorem Inv.put_like (h : s.Inv) {o : Obj} {x x' : TimerObject Service Task} (ho : s.object o = some x)
    (hservice : x'.service = x.service) (hid : x'.timer.timerId = x.timer.timerId) : (s.put o (some x')).Inv := by
  have hobject (o' : Obj) (y : TimerObject Service Task) (hy : (s.put o (some x')).object o' = some y) :
      ∃ z, s.object o' = some z ∧ y.service = z.service ∧ y.timer.timerId = z.timer.timerId := by
    by_cases heq : o' = o
    · subst heq
      simp only [put, Function.update_self, Option.some.injEq] at hy
      exact ⟨x, ho, hy ▸ hservice, hy ▸ hid⟩
    · simp only [put, Function.update_of_ne heq] at hy
      exact ⟨y, hy, rfl, rfl⟩
  refine ⟨h.wellFormed, h.zero, h.known, ?_, ?_, ?_⟩
  · intro o' y hy
    obtain ⟨z, hz, -, hid'⟩ := hobject o' y hy
    rw [hid']
    exact h.created o' z hz
  · intro o₁ o₂ y₁ y₂ hy₁ hy₂ heq hne
    obtain ⟨z₁, hz₁, -, hid₁⟩ := hobject o₁ y₁ hy₁
    obtain ⟨z₂, hz₂, -, hid₂⟩ := hobject o₂ y₂ hy₂
    rw [hid₁] at heq hne
    exact h.distinct o₁ o₂ z₁ z₂ hz₁ hz₂ (heq.trans hid₂) hne
  · intro v id e he hvalid
    obtain ⟨o', z, hz, hv, hid'⟩ := h.owned v id e he hvalid
    by_cases heq : o' = o
    · subst heq
      rw [ho] at hz
      cases hz
      exact ⟨o', x', by simp [put], hservice.trans hv, hid.trans hid'⟩
    · exact ⟨o', z, by simpa [put, heq] using hz, hv, hid'⟩

omit [DecidableEq Obj] in
/-- An object has no wait that is not cancelled. -/
def Idle (s : TimerObjects Obj Service Task) (x : TimerObject Service Task) : Prop :=
  ∀ e, (s.queue x.service).contents x.timer.timerId = some e → e.valid = false

omit [DecidableEq Service] in
theorem Inv.drop (h : s.Inv) {o : Obj} (hidle : ∀ x, s.object o = some x → s.Idle x) : (s.put o none).Inv := by
  have hobject (o' : Obj) (y : TimerObject Service Task) (hy : (s.put o none).object o' = some y) :
      s.object o' = some y := by
    by_cases heq : o' = o
    · simp [put, heq] at hy
    · simpa [put, heq] using hy
  refine ⟨h.wellFormed, h.zero, h.known, fun o' y hy => h.created o' y (hobject o' y hy),
    fun o₁ o₂ y₁ y₂ hy₁ hy₂ => h.distinct o₁ o₂ y₁ y₂ (hobject _ _ hy₁) (hobject _ _ hy₂), ?_⟩
  intro v id e he hvalid
  obtain ⟨o', x, hx, rfl, rfl⟩ := h.owned v id e he hvalid
  by_cases heq : o' = o
  · subst heq
    simp [hidle x hx e he] at hvalid
  · exact ⟨o', x, by simpa [put, heq] using hx, rfl, rfl⟩

omit [DecidableEq Service] in
theorem Inv.give (h : s.Inv) {o other : Obj} {x : TimerObject Service Task} (ho : s.object o = none)
    (hother : s.object other = some x) : (s.give o other x).Inv := by
  have hne : o ≠ other := by
    rintro rfl
    simp [ho] at hother
  have hobject (o' : Obj) (y : TimerObject Service Task) (hy : (s.give o other x).object o' = some y) :
      (o' = o ∧ y = x) ∨ (o' = other ∧ y = x.movedFrom) ∨ (o' ≠ o ∧ o' ≠ other ∧ s.object o' = some y) := by
    by_cases hmoved : o' = other
    · subst hmoved
      simp only [TimerObjects.give, put, Function.update_self, Option.some.injEq] at hy
      exact .inr (.inl ⟨rfl, hy.symm⟩)
    · by_cases hnew : o' = o
      · subst hnew
        simp only [TimerObjects.give, put, Function.update_of_ne hmoved, Function.update_self, Option.some.injEq] at hy
        exact .inl ⟨rfl, hy.symm⟩
      · simp only [TimerObjects.give, put, Function.update_of_ne hmoved, Function.update_of_ne hnew] at hy
        exact .inr (.inr ⟨hnew, hmoved, hy⟩)
  refine ⟨h.wellFormed, h.zero, h.known, ?_, ?_, ?_⟩
  · intro o' y hy
    rcases hobject o' y hy with ⟨-, rfl⟩ | ⟨-, rfl⟩ | ⟨-, -, hy⟩
    · exact h.created other y hother
    · exact Nat.zero_le _
    · exact h.created o' y hy
  · have hapart (o' : Obj) (y : TimerObject Service Task) (hne : o' ≠ other) (hy : s.object o' = some y)
        (heq : y.timer.timerId = x.timer.timerId) : x.timer.timerId = 0 := by
      by_contra hid
      exact hne (h.distinct o' other y x hy hother heq (heq ▸ hid))
    intro o₁ o₂ y₁ y₂ hy₁ hy₂ heq hid
    rcases hobject o₁ y₁ hy₁ with ⟨rfl, rfl⟩ | ⟨rfl, rfl⟩ | ⟨-, hne₁, hold₁⟩
    · rcases hobject o₂ y₂ hy₂ with ⟨rfl, rfl⟩ | ⟨rfl, rfl⟩ | ⟨-, hne₂, hold₂⟩
      · rfl
      · exact absurd heq hid
      · exact absurd (hapart o₂ y₂ hne₂ hold₂ heq.symm) hid
    · exact absurd rfl hid
    · rcases hobject o₂ y₂ hy₂ with ⟨rfl, rfl⟩ | ⟨rfl, rfl⟩ | ⟨-, hne₂, hold₂⟩
      · exact absurd (heq.trans (hapart o₁ y₁ hne₁ hold₁ heq)) hid
      · exact absurd heq hid
      · exact h.distinct o₁ o₂ y₁ y₂ hold₁ hold₂ heq hid
  · intro v id e he hvalid
    obtain ⟨o', y, hy, rfl, rfl⟩ := h.owned v id e he hvalid
    by_cases hmoved : o' = other
    · subst hmoved
      rw [hother] at hy
      cases hy
      exact ⟨o, x, by simp [TimerObjects.give, put, hne], rfl, rfl⟩
    · have hold : o' ≠ o := by
        rintro rfl
        simp [ho] at hy
      exact ⟨o', y, by simpa [TimerObjects.give, put, hmoved, hold] using hy, rfl, rfl⟩

omit [DecidableEq Service] in
theorem waits_give (h : s.Inv) (o other : Obj) (x : TimerObject Service Task) :
    (s.give o other x).waits = s.waits.give o other (s.waitOf x) := by
  have hmoved : s.waitOf x.movedFrom = { s.waitOf x with entry := none } := by
    simp only [waitOf, TimerObject.movedFrom, h.zero]
  have hold : (s.put o (some x)).waitOf = s.waitOf := rfl
  rw [TimerObjects.give, waits_put, waits_put, hold, Option.map_some, Option.map_some, hmoved]
  rfl

omit [DecidableEq Obj] [DecidableEq Service] in
theorem cancelTimer_contents (h : s.Inv) (x : TimerObject Service Task) :
    ((s.queue x.service).cancelTimer x.timer).contents = Function.update (s.queue x.service).contents x.timer.timerId
      (((s.queue x.service).contents x.timer.timerId).map fun e => { e with valid := false }) :=
  (TimerQueue.cancelTimer_spec (h.wellFormed x.service) x.timer).2

theorem Inv.cancelTimer (h : s.Inv) {o : Obj} {x : TimerObject Service Task} (ho : s.object o = some x) :
    (s.cancelTimer x).Inv ∧ (s.cancelTimer x).Idle x ∧ (s.cancelTimer x).waits =
      Function.update s.waits o (some { s.waitOf x with
        entry := (s.waitOf x).entry.map fun e => { e with valid := false } }) := by
  have hzero (hid : x.timer.timerId = 0) :
      ((s.queue x.service).contents x.timer.timerId).map (fun e => { e with valid := false }) = none := by
    rw [hid, h.zero]
    rfl
  refine ⟨h.set_queue ho (TimerQueue.cancelTimer_spec (h.wellFormed x.service) x.timer).1
    (cancelTimer_contents h x) hzero, ?_, h.waits_putQueue ho (cancelTimer_contents h x) hzero⟩
  intro e he
  simp only [TimerObjects.cancelTimer, putQueue, Function.update_self, cancelTimer_contents h x] at he
  obtain ⟨old, -, rfl⟩ := Option.map_eq_some_iff.mp he
  rfl

omit [DecidableEq Obj] [DecidableEq Service] in
theorem waits_eq_some {o : Obj} {x : TimerObject Service Task} (ho : s.object o = some x) :
    s.waits o = some (s.waitOf x) := by
  rw [waits, ho]
  rfl

omit [DecidableEq Obj] [DecidableEq Service] in
theorem waits_eq_none {o : Obj} (ho : s.object o = none) : s.waits o = none := by
  rw [waits, ho]
  rfl

omit [DecidableEq Service] in
theorem Inv.construct (h : s.Inv) {o : Obj} (ho : s.object o = none) (v : Service) {s' : TimerObjects Obj Service Task}
    (hs' : s' = { s.put o (some ⟨v, s.numCreated + 1, 0, none⟩) with numCreated := s.numCreated + 1 }) :
    s'.Inv ∧ s'.waits = Function.update s.waits o (some ⟨v, 0, none⟩) := by
  have hfresh (u : Service) : (s.queue u).contents (s.numCreated + 1) = none := by
    cases he : (s.queue u).contents (s.numCreated + 1) with
    | none => rfl
    | some e => exact absurd (h.known u _ e he) (by omega)
  have hobject (o' : Obj) (y : TimerObject Service Task) (hy : s'.object o' = some y) :
      o' = o ∧ y = ⟨v, s.numCreated + 1, 0, none⟩ ∨ o' ≠ o ∧ s.object o' = some y := by
    by_cases heq : o' = o
    · subst heq
      simp only [hs', put, Function.update_self, Option.some.injEq] at hy
      exact .inl ⟨rfl, hy.symm⟩
    · simp only [hs', put, Function.update_of_ne heq] at hy
      exact .inr ⟨heq, hy⟩
  have hcount : s'.numCreated = s.numCreated + 1 := by rw [hs']
  have hqueue : s'.queue = s.queue := by rw [hs']; rfl
  constructor
  · refine ⟨hqueue ▸ h.wellFormed, hqueue ▸ h.zero, ?_, ?_, ?_, ?_⟩
    · intro u id e he
      rw [hqueue] at he
      exact hcount ▸ Nat.le_succ_of_le (h.known u id e he)
    · intro o' y hy
      rcases hobject o' y hy with ⟨-, rfl⟩ | ⟨-, hold⟩
      · exact hcount ▸ Nat.le_refl _
      · exact hcount ▸ Nat.le_succ_of_le (h.created o' y hold)
    · intro o₁ o₂ y₁ y₂ hy₁ hy₂ heq hid
      rcases hobject o₁ y₁ hy₁ with ⟨rfl, rfl⟩ | ⟨-, hold₁⟩
      · rcases hobject o₂ y₂ hy₂ with ⟨rfl, -⟩ | ⟨-, hold₂⟩
        · rfl
        · exact absurd (h.created o₂ y₂ hold₂) (by simp only at heq; omega)
      · rcases hobject o₂ y₂ hy₂ with ⟨rfl, rfl⟩ | ⟨-, hold₂⟩
        · exact absurd (h.created o₁ y₁ hold₁) (by simp only at heq; omega)
        · exact h.distinct o₁ o₂ y₁ y₂ hold₁ hold₂ heq hid
    · intro u id e he hvalid
      rw [hqueue] at he
      obtain ⟨o', y, hy, rfl, rfl⟩ := h.owned u id e he hvalid
      have hne : o' ≠ o := by
        rintro rfl
        simp [ho] at hy
      exact ⟨o', y, by simpa [hs', put, hne] using hy, rfl, rfl⟩
  · have hwait : s'.waits = (s.put o (some ⟨v, s.numCreated + 1, 0, none⟩)).waits := by rw [hs']; rfl
    rw [hwait, waits_put, Option.map_some, waitOf, hfresh]

omit [DecidableEq Obj] [DecidableEq Service] in
theorem Inv.owner (h : s.Inv) (v : Service) : ∃ owner : Nat → Option Obj, ∀ id e, (s.queue v).contents id = some e →
    e.valid = true → ∃ o x, owner id = some o ∧ s.object o = some x ∧ x.service = v ∧ x.timer.timerId = id := by
  have howned (id : Nat) : ∃ o : Option Obj, ∀ e, (s.queue v).contents id = some e → e.valid = true →
      ∃ o' x, o = some o' ∧ s.object o' = some x ∧ x.service = v ∧ x.timer.timerId = id := by
    by_cases hvalid : ∃ e, (s.queue v).contents id = some e ∧ e.valid = true
    · obtain ⟨e, he, hvalid⟩ := hvalid
      obtain ⟨o, x, ho, hv, hid⟩ := h.owned v id e he hvalid
      exact ⟨some o, fun _ _ _ => ⟨o, x, rfl, ho, hv, hid⟩⟩
    · exact ⟨none, fun e he hvalid' => absurd ⟨e, he, hvalid'⟩ hvalid⟩
  exact Classical.skolem.mp howned

omit [DecidableEq Obj] [DecidableEq Service] in
/-- What is due in a queue, by the objects that it is due for. -/
theorem Inv.due (h : s.Inv) {v : Service} {now : Int} {due : List (Nat × TimerEntry Task)}
    (hdue : TimerMap.Due (s.queue v).contents now due) :
    ∃ own : List (Obj × TimerEntry Task), s.waits.Due v now own ∧ own.map (fun p => p.2.task) = validTasks due := by
  obtain ⟨owner, howner⟩ := h.owner v
  have hown (p : Nat × TimerEntry Task) (hp : p ∈ due.filter (·.2.valid)) :
      ∃ o x, owner p.1 = some o ∧ s.object o = some x ∧ x.service = v ∧ x.timer.timerId = p.1 := by
    obtain ⟨hmem, hvalid⟩ := List.mem_filter.mp hp
    exact howner p.1 p.2 ((hdue.mem_iff p.1 p.2).mp hmem).1 hvalid
  let own := (due.filter (·.2.valid)).filterMap fun p => (owner p.1).map fun o => (o, p.2)
  have hmem (o : Obj) (e : TimerEntry Task) :
      (o, e) ∈ own ↔ ∃ p ∈ due.filter (·.2.valid), owner p.1 = some o ∧ p.2 = e := by
    simp [own, List.mem_filterMap]
  have hpairs := List.Pairwise.and_mem.mp (hdue.sorted.filter fun p => p.2.valid)
  refine ⟨own, ⟨?_, ?_, ?_⟩, ?_⟩
  · rw [List.Nodup, List.pairwise_map]
    refine List.pairwise_filterMap.mpr (hpairs.imp ?_)
    rintro p q ⟨hp, hq, hlt⟩ a ha b hb heq
    obtain ⟨o, hop, rfl⟩ := Option.map_eq_some_iff.mp ha
    obtain ⟨o', hoq, rfl⟩ := Option.map_eq_some_iff.mp hb
    -- one object has one id, and an id one entry
    obtain ⟨_, x, hop', hx, -, hidp⟩ := hown p hp
    obtain ⟨_, y, hoq', hy, -, hidq⟩ := hown q hq
    rw [hop] at hop'
    rw [hoq] at hoq'
    cases hop'
    cases hoq'
    have hxy : x = y := by
      simp only at heq
      rw [← heq, hx] at hy
      exact Option.some.inj hy
    have hid : p.1 = q.1 := by rw [← hidp, ← hidq, hxy]
    have hentry := ((hdue.mem_iff p.1 p.2).mp (List.mem_filter.mp hp).1).1
    rw [hid, ((hdue.mem_iff q.1 q.2).mp (List.mem_filter.mp hq).1).1] at hentry
    rw [Prod.ext hid (Option.some.inj hentry).symm] at hlt
    exact lt_irrefl _ hlt
  · refine List.pairwise_filterMap.mpr (hpairs.imp ?_)
    rintro p q ⟨-, -, hlt⟩ a ha b hb
    obtain ⟨o, -, rfl⟩ := Option.map_eq_some_iff.mp ha
    obtain ⟨o', -, rfl⟩ := Option.map_eq_some_iff.mp hb
    simp only [dueKey, Prod.Lex.toLex_lt_toLex] at hlt
    simp only
    omega
  · intro o e
    rw [hmem]
    constructor
    · rintro ⟨p, hp, hop, rfl⟩
      obtain ⟨o', x, hop', hx, hv, hid⟩ := hown p hp
      rw [hop] at hop'
      cases hop'
      obtain ⟨hdue', hvalid⟩ := List.mem_filter.mp hp
      obtain ⟨hentry, hle⟩ := (hdue.mem_iff p.1 p.2).mp hdue'
      refine ⟨s.waitOf x, waits_eq_some hx, hv, ?_, hvalid, hle⟩
      rw [waitOf, hv, hid, hentry]
    · rintro ⟨w, hw, hv, hentry, hvalid, hle⟩
      obtain ⟨x, hx, rfl⟩ := Option.map_eq_some_iff.mp hw
      simp only [waitOf] at hv hentry
      rw [hv] at hentry
      have hp : (x.timer.timerId, e) ∈ due.filter (·.2.valid) :=
        List.mem_filter.mpr ⟨(hdue.mem_iff _ e).mpr ⟨hentry, hle⟩, hvalid⟩
      obtain ⟨o', x', hop, hx', hv', hid⟩ := hown _ hp
      have hnull : x'.timer.timerId ≠ 0 := by
        intro hzero
        have hnone := h.zero v
        rw [← hzero, hid, hentry] at hnone
        cases hnone
      obtain rfl := h.distinct o' o x' x hx' hx hid hnull
      exact ⟨_, hp, hop, rfl⟩
  · have htasks : own.map (fun p => p.2.task) = (due.filter (·.2.valid)).filterMap fun p => some p.2.task := by
      rw [List.map_filterMap]
      refine List.filterMap_congr fun p hp => ?_
      obtain ⟨o, -, hop, -⟩ := hown p hp
      simp [hop]
    rw [htasks, validTasks, ← List.filterMap_eq_map]
    rfl

theorem Inv.assign (h : s.Inv) {o other : Obj} {x y : TimerObject Service Task} (hne : o ≠ other)
    (ho : s.object o = some y) (hother : s.object other = some x) : ((s.cancelTimer y).give o other x).Inv ∧
      ((s.cancelTimer y).give o other x).waits = s.waits.give o other (s.waitOf x) := by
  obtain ⟨hinv, hidle, hwaits⟩ := h.cancelTimer ho
  have hdropped : ((s.cancelTimer y).put o none).Inv := by
    refine hinv.drop fun z hz => ?_
    have hsame : s.object o = some z := hz
    rw [ho] at hsame
    cases hsame
    exact hidle
  have hgive : ((s.cancelTimer y).put o none).give o other x = (s.cancelTimer y).give o other x := by
    simp only [TimerObjects.give, put, Function.update_idem]
  have hsame : ((s.cancelTimer y).put o none).waitOf x = s.waitOf x := by
    have hkept := congrFun hwaits other
    rw [Function.update_of_ne (Ne.symm hne), waits_eq_some hother] at hkept
    have hmoved : (s.cancelTimer y).waits other = some ((s.cancelTimer y).waitOf x) := waits_eq_some hother
    rw [hmoved] at hkept
    exact Option.some.inj hkept
  have hempty : ((s.cancelTimer y).put o none).object o = none := by simp [put]
  have hkept := Function.update_of_ne (Ne.symm hne) (none : Option (TimerObject Service Task)) s.object
  have hpresent : ((s.cancelTimer y).put o none).object other = some x := hkept.trans hother
  refine ⟨hgive ▸ hdropped.give hempty hpresent, ?_⟩
  rw [← hgive, waits_give hdropped, hsame, waits_put, hwaits]
  simp only [OwnWaits.give, Function.update_idem]

theorem Inv.expiresAt (h : s.Inv) {o : Obj} {x : TimerObject Service Task} (ho : s.object o = some x) (time : Int)
    {t : TimerObjects Obj Service Task}
    (ht : t = (s.put o (some { x with timer := { x.timer with expiry := time } })).putQueue x.service
      ((s.queue x.service).updateTimer { x.timer with expiry := time })) :
    t.Inv ∧ t.waits = Function.update s.waits o
      (some ⟨x.service, time, (s.waitOf x).entry.map fun e => { e with expiry := time }⟩) := by
  have hput : (s.put o (some { x with timer := { x.timer with expiry := time } })).Inv :=
    h.put_like ho rfl rfl
  have hobject : (s.put o (some { x with timer := { x.timer with expiry := time } })).object o =
      some { x with timer := { x.timer with expiry := time } } := by simp [put]
  obtain ⟨hwell, hcontents⟩ := TimerQueue.updateTimer_spec (h.wellFormed x.service) { x.timer with expiry := time }
  have hzero (hid : x.timer.timerId = 0) :
      ((s.queue x.service).contents x.timer.timerId).map (fun e => { e with expiry := time }) = none := by
    rw [hid, h.zero]
    rfl
  subst ht
  refine ⟨hput.set_queue hobject hwell hcontents hzero, ?_⟩
  rw [hput.waits_putQueue hobject hcontents hzero, waits_put, Function.update_idem]
  rfl

theorem addTimer_moved (q : TimerQueue Task) (timer : Timer Task) :
    (q.addTimer timer).2 = { timer with task := none } := by
  unfold TimerQueue.addTimer
  split <;> rfl

theorem Inv.asyncWait (h : s.Inv) {o : Obj} {x : TimerObject Service Task} (ho : s.object o = some x)
    (hid : x.timer.timerId ≠ 0) (task : Task) {t : TimerObjects Obj Service Task}
    (ht : t = (s.put o (some { x with
        timer := ((s.queue x.service).addTimer { x.timer with task := some task }).2 })).putQueue x.service
      ((s.queue x.service).addTimer { x.timer with task := some task }).1) :
    t.Inv ∧ t.waits = Function.update s.waits o
      (some { s.waitOf x with entry := (s.waitOf x).entry.or (some ⟨x.timer.expiry, some task, true⟩) }) := by
  rw [addTimer_moved] at ht
  have hput : (s.put o (some { x with timer := { x.timer with task := none } })).Inv :=
    h.put_like ho rfl rfl
  have hobject : (s.put o (some { x with timer := { x.timer with task := none } })).object o =
      some { x with timer := { x.timer with task := none } } := by simp [put]
  obtain ⟨hwell, hadd⟩ := TimerQueue.addTimer_spec (h.wellFormed x.service) { x.timer with task := some task }
  have hcontents : ((s.queue x.service).addTimer { x.timer with task := some task }).1.contents =
      Function.update (s.queue x.service).contents x.timer.timerId
        (((s.queue x.service).contents x.timer.timerId).or (some ⟨x.timer.expiry, some task, true⟩)) := by
    rw [hadd, TimerMap.add]
    cases hentry : (s.queue x.service).contents x.timer.timerId with
    | none => rfl
    | some e =>
        simp only [Option.some_or]
        rw [← hentry, Function.update_eq_self]
  subst ht
  refine ⟨hput.set_queue hobject hwell hcontents fun hnull => absurd hnull hid, ?_⟩
  rw [hput.waits_putQueue hobject hcontents fun hnull => absurd hnull hid, waits_put, Function.update_idem]
  rfl

omit [DecidableEq Obj] in
theorem Inv.handleTimeout (h : s.Inv) (v : Service) (now : Int) {queue : TimerQueue Task} (hwell : queue.WellFormed)
    (hqueue : queue.contents = (s.queue v).contents.expire now) :
    (s.putQueue v queue).Inv ∧ (s.putQueue v queue).waits = s.waits.expire v now := by
  have hcontents (u : Service) (id : Nat) : (Function.update s.queue v queue u).contents id =
      if u = v then ((s.queue u).contents id).filter fun e => now < e.expiry else (s.queue u).contents id := by
    by_cases hu : u = v
    · subst hu
      rw [Function.update_self, hqueue, if_pos rfl, TimerMap.expire]
    · rw [Function.update_of_ne hu, if_neg hu]
  have hsome (u : Service) (id : Nat) (e : TimerEntry Task)
      (he : (Function.update s.queue v queue u).contents id = some e) : (s.queue u).contents id = some e := by
    rw [hcontents] at he
    split_ifs at he
    · exact (Option.filter_eq_some_iff.mp he).1
    · exact he
  constructor
  · refine ⟨?_, ?_, fun u id e he => h.known u id e (hsome u id e he), h.created, h.distinct,
      fun u id e he => h.owned u id e (hsome u id e he)⟩
    · intro u
      by_cases hu : u = v
      · subst hu
        simpa [putQueue] using hwell
      · simpa [putQueue, hu] using h.wellFormed u
    · intro u
      simp only [putQueue, hcontents, h.zero]
      split_ifs <;> rfl
  · funext o
    cases ho : s.object o with
    | none => simp [waits, putQueue, OwnWaits.expire, ho]
    | some x =>
        simp only [waits, putQueue, OwnWaits.expire, ho, Option.map_some, waitOf, hcontents]
        split_ifs <;> rfl

/-- Each step of the objects is one of their waits. -/
theorem step_refines (h : s.Inv) {event : ObjectEvent Obj Service Task} (hown : Own s event) (hstep : Step s event t) :
    t.Inv ∧ OwnWaits.Step s.waits event t.waits := by
  cases hstep with
  | constructs o service ho =>
      obtain ⟨hinv, hwaits⟩ := h.construct ho service rfl
      exact ⟨hinv, hwaits ▸ .constructs _ o service (waits_eq_none ho)⟩
  | movesTo o other x ho hother =>
      refine ⟨h.give ho hother, ?_⟩
      rw [waits_give h]
      exact .movesTo _ o other _ (waits_eq_none ho) (waits_eq_some hother)
  | assigns o other y x hne ho hother =>
      obtain ⟨hinv, hwaits⟩ := h.assign hne ho hother
      exact ⟨hinv, hwaits ▸ .assigns _ o other _ _ hne (waits_eq_some ho) (waits_eq_some hother)⟩
  | assignsSelf o x ho => exact ⟨h, .assignsSelf _ o _ (waits_eq_some ho)⟩
  | expiresAt o x time ho =>
      obtain ⟨hinv, hwaits⟩ := h.expiresAt ho time rfl
      exact ⟨hinv, hwaits ▸ .expiresAt _ o _ time (waits_eq_some ho)⟩
  | asyncWait o x task ho =>
      obtain ⟨hinv, hwaits⟩ := h.asyncWait ho (hown x ho) task rfl
      exact ⟨hinv, hwaits ▸ .asyncWait _ o _ task (waits_eq_some ho)⟩
  | cancel o x ho =>
      obtain ⟨hinv, -, hwaits⟩ := h.cancelTimer ho
      exact ⟨hinv, hwaits ▸ .cancel _ o _ (waits_eq_some ho)⟩
  | destroys o x ho =>
      obtain ⟨hinv, hidle, hwaits⟩ := h.cancelTimer ho
      refine ⟨hinv.drop fun y hy => ?_, ?_⟩
      · have hsame : s.object o = some y := hy
        rw [ho] at hsame
        cases hsame
        exact hidle
      · rw [waits_put, hwaits, Function.update_idem]
        exact .destroys _ o _ (waits_eq_some ho)
  | handleTimeout service now =>
      obtain ⟨due, hdue, hout, hwell, hcontents⟩ := TimerQueue.popTimeouts_spec (h.wellFormed service) now []
      obtain ⟨hinv, hwaits⟩ := h.handleTimeout service now hwell hcontents
      obtain ⟨own, hown, htasks⟩ := h.due hdue
      have hreturned : ((s.queue service).handleTimeout now []).2.1 = own.map fun p => p.2.task := by
        rw [htasks]
        exact hout
      rw [hreturned]
      exact ⟨hinv, hwaits ▸ .handleTimeout _ service now own hown⟩

omit [DecidableEq Obj] [DecidableEq Service] in
theorem start_inv : ({} : TimerObjects Obj Service Task).Inv := by
  have hnone (v : Service) (id : Nat) : (({} : TimerObjects Obj Service Task).queue v).contents id = none := rfl
  refine ⟨fun _ => TimerQueue.empty_wellFormed, fun v => hnone v 0, ?_, ?_, ?_, ?_⟩
  · intro v id e he
    rw [hnone] at he
    cases he
  · exact nofun
  · exact nofun
  · intro v id e he
    rw [hnone] at he
    cases he

/-- As long as no timer is armed that was moved away, each object has its own wait, which
goes where the object is moved, and ends with it. -/
theorem objects_own_waits {trace : List (ObjectEvent Obj Service Task)}
    (h : Run (Guarded Own Step) ({} : TimerObjects Obj Service Task) trace s) :
    Run OwnWaits.Step (fun _ => none) trace s.waits := by
  have hboth : s.Inv ∧ Run OwnWaits.Step (fun _ => none) trace s.waits := by
    induction h with
    | stop => exact ⟨start_inv, .stop⟩
    | next _ taken ih =>
        obtain ⟨hinv, hstep⟩ := step_refines ih.1 taken.1 taken.2
        exact ⟨hinv, ih.2.next hstep⟩
  exact hboth.2

/-- A timer is armed, moved and destroyed where it was. -/
theorem objects_own_waits_moved : ∃ s : TimerObjects Nat Unit Nat, s.object 1 = none ∧
    Run OwnWaits.Step (fun _ => none) [.constructs 1 (), .asyncWait 1 7, .movesTo 2 1, .destroys 1] s.waits := by
  have hconstructs : Guarded Own Step ({} : TimerObjects Nat Unit Nat) (.constructs 1 ()) _ :=
    ⟨trivial, .constructs _ 1 () rfl⟩
  have hfirst := Run.stop.next hconstructs
  have harmed := hfirst.next (show Guarded Own Step _ (.asyncWait 1 7) _ from
    ⟨fun x hx => by cases hx; exact Nat.one_ne_zero, .asyncWait _ 1 _ 7 rfl⟩)
  have hmoved := harmed.next (show Guarded Own Step _ (.movesTo 2 1) _ from ⟨trivial, .movesTo _ 2 1 _ rfl rfl⟩)
  have hdestroyed := hmoved.next (show Guarded Own Step _ (.destroys 1) _ from ⟨trivial, .destroys _ 1 _ rfl⟩)
  exact ⟨_, rfl, objects_own_waits hdestroyed⟩

end TimerObjects

end Libcold
