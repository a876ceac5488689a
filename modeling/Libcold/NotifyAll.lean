import Libcold.ConditionVariable

namespace Libcold

variable {Coro : Type}

/-- The control points of a coroutine: in other code, in `Wait` with the awaiter
that lies in the frame of that call, or in `NotifyAll`. -/
inductive CvPoint
  | client
  | waiting (node : Nat) (point : WaitPoint)
  | suspended (node : Nat)
  | relocking (node : Nat)
  | notifying
  | loaded (cur : Nat)
  | resuming (node : Nat)
  | awaiting (node : Nat)
  | aborted

inductive NotifyEvent (Coro : Type)
  | writes (node value : Nat)
  | leaves (node : Nat)
  | notifies (p : Coro)
  | took (p : Coro)
  | resumed (p c : Coro)
  | advanced (p : Coro)
  | finished (p : Coro)
  | other

/-- The condition variable with its coroutines. Of the mutex there is the owner,
and who has linked its awaiter and has still to unlock. -/
structure NotifyAll (Coro : Type) where
  owner : Option Coro := none
  cv : ConditionVariable Coro := {}
  point : Coro → CvPoint := fun _ => .client
  unlocking : Coro → Bool := fun _ => false

namespace NotifyAll

def CvPoint.node : CvPoint → Option Nat
  | .waiting node _ | .suspended node | .relocking node => some node
  | _ => none

variable [DecidableEq Coro]

def setPoint (s : NotifyAll Coro) (c : Coro) (point : CvPoint) : NotifyAll Coro :=
  { s with point := Function.update s.point c point }

theorem setPoint_self (s : NotifyAll Coro) (c : Coro) (point : CvPoint) : (s.setPoint c point).point c = point :=
  Function.update_self _ _ _

theorem setPoint_other (s : NotifyAll Coro) {c d : Coro} (hdc : d ≠ c) (point : CvPoint) :
    (s.setPoint c point).point d = s.point d := Function.update_of_ne hdc _ _

theorem setPoint_same {α : Type} (f : CvPoint → α) {s : NotifyAll Coro} {c : Coro} {point : CvPoint}
    (hf : f point = f (s.point c)) (d : Coro) : f ((s.setPoint c point).point d) = f (s.point d) :=
  ConditionVariable.update_same f hf d

theorem setPoint_eq_iff {s : NotifyAll Coro} {c : Coro} {point target : CvPoint}
    (hpoint : point ≠ target) (hold : s.point c ≠ target) (d : Coro) :
    (s.setPoint c point).point d = target ↔ s.point d = target :=
  iff_of_eq (setPoint_same (· = target) (by simp [hpoint, hold]) d)

theorem setPoint_forall (P : Coro → CvPoint → Prop) {s : NotifyAll Coro} {c : Coro}
    {point : CvPoint} (hpoint : P c point) (hother : ∀ d, d ≠ c → P d (s.point d)) :
    ∀ d, P d ((s.setPoint c point).point d) :=
  (Function.forall_update_iff s.point P).mpr ⟨hpoint, hother⟩

theorem setPoint_forall_two (P : Coro → CvPoint → Prop) {s : NotifyAll Coro} {c d : Coro}
    {point point' : CvPoint} (hpoint : P c point) (hpoint' : P d point')
    (hother : ∀ b, b ≠ c → b ≠ d → P b (s.point b)) :
    ∀ b, P b (((s.setPoint c point).setPoint d point').point b) :=
  ConditionVariable.forall_update_two P hpoint hpoint' hother

/-- The steps of the coroutines. The predicates of `Wait` answer as they like.
After `resume()` the loop may go on at any time, which includes as soon as the
resumed coroutine is suspended; the frame of a call of `Wait` is gone when the call returns. -/
inductive Step : NotifyAll Coro → NotifyEvent Coro → NotifyAll Coro → Prop
  | acquire (s) (c) (hpoint : s.point c = .client) (hfree : s.owner = none) : Step s .other { s with owner := some c }
  | release (s) (c) (hpoint : s.point c = .client) (howns : s.owner = some c) : Step s .other { s with owner := none }
  | wait (s) (c) (node : Nat) (hpoint : s.point c = .client) (howns : s.owner = some c) (hne : node ≠ 0)
      (hfresh : ∀ d, CvPoint.node (s.point d) ≠ some node) : Step s .other (s.setPoint c (.waiting node .checking))
  | leave (s) (c) (node) (hpoint : s.point c = .waiting node .checking) :
      Step s (.leaves node) (s.setPoint c .client)
  | write (s) (c) (node) (point point') (value) (cv) (hpoint : s.point c = .waiting node point)
      (hlinks : ConditionVariable.Links c node s.cv point (some value) cv point') :
      Step s (.writes node value) { s.setPoint c (.waiting node point') with cv }
  | link (s) (c) (node) (point point') (cv) (hpoint : s.point c = .waiting node point)
      (hlinks : ConditionVariable.Links c node s.cv point none cv point') :
      Step s .other { s.setPoint c (.suspended node) with cv, unlocking := Function.update s.unlocking c true }
  | unlock (s) (c) (hunlocking : s.unlocking c = true) :
      Step s .other { s with owner := none, unlocking := Function.update s.unlocking c false }
  | relock (s) (c) (node) (hpoint : s.point c = .relocking node) (hfree : s.owner = none) :
      Step s .other { s.setPoint c (.waiting node .checking) with owner := some c }
  | notify (s) (p) (hpoint : s.point p = .client) : Step s (.notifies p) (s.setPoint p .notifying)
  | load (s) (p) (hpoint : s.point p = .notifying) : Step s .other (s.setPoint p (.loaded s.cv.head))
  | notifyNone (s) (p) (hpoint : s.point p = .loaded 0) : Step s (.finished p) (s.setPoint p .client)
  | take (s) (p) (cur) (hpoint : s.point p = .loaded cur) (hcur : cur ≠ 0) (hhead : s.cv.head = cur) :
      Step s (.took p) { s.setPoint p (.resuming cur) with cv.head := 0 }
  | takeFails (s) (p) (cur) (hpoint : s.point p = .loaded cur) (hcur : cur ≠ 0) :
      Step s .other (s.setPoint p .notifying)
  | resume (s) (p c) (node) (hpoint : s.point p = .resuming node) (hawaiter : s.cv.awaiter node = some c)
      (hsuspended : s.point c = .suspended node) :
      Step s (.resumed p c) ((s.setPoint p (.awaiting node)).setPoint c (.relocking node))
  | resumeAborts (s) (p) (node) (hpoint : s.point p = .resuming node)
      (hnone : ∀ c, s.cv.awaiter node = some c → s.point c ≠ .suspended node) : Step s .other (s.setPoint p .aborted)
  | advance (s) (p c) (node) (hpoint : s.point p = .awaiting node) (hframe : CvPoint.node (s.point c) = some node)
      (hnext : s.cv.next node ≠ 0) : Step s (.advanced p) (s.setPoint p (.resuming (s.cv.next node)))
  | finish (s) (p c) (node) (hpoint : s.point p = .awaiting node) (hframe : CvPoint.node (s.point c) = some node)
      (hnext : s.cv.next node = 0) : Step s (.finished p) (s.setPoint p .client)
  | advanceAborts (s) (p) (node) (hpoint : s.point p = .awaiting node)
      (hgone : ∀ c, CvPoint.node (s.point c) ≠ some node) : Step s .other (s.setPoint p .aborted)

/-- As long as a loop stands at an awaiter, its coroutine neither leaves `Wait`
nor puts another link into the awaiter. -/
def LinksSurvive (s : NotifyAll Coro) : NotifyEvent Coro → Prop
  | .writes node value => (∃ p, s.point p = .awaiting node) → value = s.cv.next node
  | .leaves node => ∀ p, s.point p ≠ .awaiting node
  | _ => True

def resumedBy (p : Coro) (trace : List (NotifyEvent Coro)) : List Coro :=
  trace.filterMap fun
    | .resumed q c => if q = p then some c else none
    | _ => none

/-- The steps of the loop of `NotifyAll`. -/
def loopSteps (p : Coro) (trace : List (NotifyEvent Coro)) : Nat :=
  trace.countP fun
    | .resumed q _ | .advanced q => q = p
    | _ => false

def CvPoint.InLoop : CvPoint → Prop
  | .resuming _ | .awaiting _ => True
  | _ => False

end NotifyAll

end Libcold
