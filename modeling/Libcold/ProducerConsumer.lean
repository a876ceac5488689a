import Libcold.ConditionVariable
import Libcold.MutexStages

namespace Libcold

open PointerChain Runs AsyncMutex

variable {Coro Item : Type}

/-- What a coroutine locks the mutex for; within `Wait` that is to check again. -/
inductive Job (Item : Type)
  | push (item : Item)
  | wait
  | recheck (node : Nat)

inductive Point (Coro Item : Type)
  | idle
  | lock (job : Job Item)
  | locking (job : Job Item)
  | pushing (item : Item)
  | notifying
  | loaded (cur : Nat)
  | exchanging (cur target : Nat)
  | resuming (node : Nat)
  | awaiting (consumer : Coro)
  | entering
  | waiting (node : Nat) (point : WaitPoint)
  | suspended (node : Nat)
  | popping
  | unlock
  | aborted

inductive QueueEvent (Coro Item : Type)
  | pushed (item : Item)
  | popped (item : Item)
  | waitReturned (c : Coro)
  | other

/-- Producers and consumers with their queue, the mutex and the condition variable. -/
structure ProducerConsumer (Coro Item : Type) where
  mutex : AsyncMutex Coro := {}
  cv : ConditionVariable Coro := {}
  queue : List Item := []
  point : Coro → Point Coro Item := fun _ => .idle

namespace ProducerConsumer

/-- Where a coroutine goes on as soon as it owns the mutex. -/
def Job.entry : Job Item → Point Coro Item
  | .push item => .pushing item
  | .wait => .entering
  | .recheck node => .waiting node .checking

/-- The awaiter that lies in the frame of the call of `Wait`. -/
def Point.node : Point Coro Item → Option Nat
  | .lock (.recheck node) | .locking (.recheck node) | .waiting node _ | .suspended node => some node
  | _ => none

variable [DecidableEq Coro]

def setPoint (s : ProducerConsumer Coro Item) (c : Coro) (point : Point Coro Item) : ProducerConsumer Coro Item :=
  { s with point := Function.update s.point c point }

/-- `resume()` on the handle of a coroutine that is suspended in `Wait`. -/
def resumeAwaiter (s : ProducerConsumer Coro Item) (node : Nat) (d : Coro) : ProducerConsumer Coro Item :=
  match s.point d with
  | .suspended node' => if node' = node then s.setPoint d (.lock (.recheck node)) else s.setPoint d .aborted
  | _ => s.setPoint d .aborted

/-- The steps of the coroutines. `resume()` in `NotifyOne` runs the consumer in
place, and so it returns when the consumer is suspended, which is in `Lock`. -/
inductive Step : ProducerConsumer Coro Item → QueueEvent Coro Item → ProducerConsumer Coro Item → Prop
  | produce (s) (c) (item : Item) (hpoint : s.point c = .idle) (hrun : s.mutex.pc c = .running) :
      Step s .other (s.setPoint c (.lock (.push item)))
  | consume (s) (c) (hpoint : s.point c = .idle) (hrun : s.mutex.pc c = .running) :
      Step s .other (s.setPoint c (.lock .wait))
  | lock (s) (c) (job) (op) (mutex) (hpoint : s.point c = .lock job) (hrun : s.mutex.pc c = .running)
      (hstep : AsyncMutex.Step s.mutex .other mutex) (hbegun : MutexPc.operation (mutex.pc c) = some op) :
      Step s .other { s.setPoint c (.locking job) with mutex }
  | mutex (s) (e) (mutex) (hstep : AsyncMutex.Step s.mutex e mutex) (hcont : Continues s.mutex mutex) :
      Step s .other { s with mutex }
  | locked (s) (c) (job) (hpoint : s.point c = .locking job) (hrun : s.mutex.pc c = .running) :
      Step s .other (s.setPoint c (Job.entry job))
  | push (s) (c) (item) (hpoint : s.point c = .pushing item) :
      Step s (.pushed item) { s.setPoint c .notifying with queue := s.queue ++ [item] }
  | load (s) (c) (hpoint : s.point c = .notifying) : Step s .other (s.setPoint c (.loaded s.cv.head))
  | notifyNone (s) (c) (hpoint : s.point c = .loaded 0) : Step s .other (s.setPoint c .unlock)
  | readNext (s) (c) (cur) (hpoint : s.point c = .loaded cur) (hcur : cur ≠ 0) :
      Step s .other (s.setPoint c (.exchanging cur (s.cv.next cur)))
  | exchange (s) (c) (cur target) (hpoint : s.point c = .exchanging cur target) (hhead : s.cv.head = cur) :
      Step s .other { s.setPoint c (.resuming cur) with cv.head := target }
  | exchangeFails (s) (c) (cur target) (hpoint : s.point c = .exchanging cur target) :
      Step s .other (s.setPoint c .notifying)
  | resume (s) (c d) (node) (hpoint : s.point c = .resuming node) (hawaiter : s.cv.awaiter node = some d) :
      Step s .other ((s.setPoint c (.awaiting d)).resumeAwaiter node d)
  | resumeAborts (s) (c) (node) (hpoint : s.point c = .resuming node) (hawaiter : s.cv.awaiter node = none) :
      Step s .other (s.setPoint c .aborted)
  | resumed (s) (c d) (op) (hpoint : s.point c = .awaiting d) (hqueued : s.mutex.pc d = .waiting op) :
      Step s .other (s.setPoint c .unlock)
  | enter (s) (c) (node) (hpoint : s.point c = .entering) (hne : node ≠ 0)
      (hfresh : ∀ d, Point.node (s.point d) ≠ some node) : Step s .other (s.setPoint c (.waiting node .checking))
  | waitReturns (s) (c) (node) (hpoint : s.point c = .waiting node .checking) (hqueue : s.queue ≠ []) :
      Step s (.waitReturned c) (s.setPoint c .popping)
  | links (s) (c) (node) (point point') (written) (cv) (hpoint : s.point c = .waiting node point)
      (hempty : point = .checking → s.queue = [])
      (hlinks : ConditionVariable.Links c node s.cv point written cv point') :
      Step s .other { s.setPoint c (.waiting node point') with cv }
  | suspend (s) (c) (node) (mutex) (hpoint : s.point c = .waiting node .linked) (hrun : s.mutex.pc c = .running)
      (hstep : AsyncMutex.Step s.mutex .other mutex) (hbegun : mutex.pc c ≠ .running)
      (hop : MutexPc.operation (mutex.pc c) = none) : Step s .other { s.setPoint c (.suspended node) with mutex }
  | pop (s) (c) (item) (rest) (hpoint : s.point c = .popping) (hqueue : s.queue = item :: rest) :
      Step s (.popped item) { s.setPoint c .unlock with queue := rest }
  | unlock (s) (c) (mutex) (hpoint : s.point c = .unlock) (hrun : s.mutex.pc c = .running)
      (hstep : AsyncMutex.Step s.mutex .other mutex) (hbegun : mutex.pc c ≠ .running)
      (hop : MutexPc.operation (mutex.pc c) = none) : Step s .other { s.setPoint c .idle with mutex }

def pushed (trace : List (QueueEvent Coro Item)) : List Item :=
  trace.filterMap fun
    | .pushed item => some item
    | _ => none

def popped (trace : List (QueueEvent Coro Item)) : List Item :=
  trace.filterMap fun
    | .popped item => some item
    | _ => none

end ProducerConsumer

end Libcold
