import Mathlib.Algebra.Group.Nat.Defs
import Mathlib.Logic.Function.Basic

namespace Libcold

variable {Task : Type}

/-- The fields of a timer that the queue reads. The expiry counts nanoseconds
since the epoch, and a task is absent once it has been moved away. -/
structure Timer (Task : Type) where
  timerId : Nat
  expiry : Int
  task : Option Task

structure TimerNode (Task : Type) where
  timerId : Nat
  expiry : Int
  task : Option Task
  valid : Bool := true

def TimerNode.after (lhs rhs : TimerNode Task) : Bool :=
  if lhs.expiry = rhs.expiry then rhs.timerId < lhs.timerId else rhs.expiry < lhs.expiry

def TimerNode.invalid (node : TimerNode Task) : TimerNode Task := { node with valid := false }

def TimerNode.withExpiry (node : TimerNode Task) (expiry : Int) : TimerNode Task :=
  { node with expiry := expiry }

abbrev IndexMap := Nat → Option Nat

/-- Subscripting creates a zero entry for an absent id. -/
def IndexMap.subscript (m : IndexMap) (id : Nat) : Nat := (m id).getD 0

def IndexMap.swap (m : IndexMap) (a b : Nat) : IndexMap :=
  Function.update (Function.update m a (some (m.subscript b))) b (some (m.subscript a))

structure TimerQueue (Task : Type) where
  timeHeap : Array (TimerNode Task)
  timerIdToIndexMap : IndexMap

namespace TimerQueue

def empty : TimerQueue Task := ⟨#[], fun _ => none⟩

def after (q : TimerQueue Task) (i j : Nat) : Bool :=
  match q.timeHeap[i]?, q.timeHeap[j]? with
  | some lhs, some rhs => lhs.after rhs
  | _, _ => false

def swapNodes (q : TimerQueue Task) (parent son : Nat) : TimerQueue Task :=
  match q.timeHeap[parent]?, q.timeHeap[son]? with
  | some p, some s =>
      ⟨q.timeHeap.swapIfInBounds parent son, q.timerIdToIndexMap.swap p.timerId s.timerId⟩
  | _, _ => q

@[simp] theorem swapNodes_size (q : TimerQueue Task) (parent son : Nat) :
    (q.swapNodes parent son).timeHeap.size = q.timeHeap.size := by
  rw [swapNodes]
  split <;> simp

def fixup (q : TimerQueue Task) (son : Nat) : TimerQueue Task :=
  if 0 < son then
    let parent := (son - 1) / 2
    if q.after parent son then (q.swapNodes parent son).fixup parent else q
  else q
termination_by son

def lesserSon (q : TimerQueue Task) (son : Nat) : Nat :=
  if son + 1 < q.timeHeap.size && q.after son (son + 1) then son + 1 else son

theorem le_lesserSon (q : TimerQueue Task) (son : Nat) : son ≤ q.lesserSon son := by
  rw [lesserSon]
  split <;> omega

def fixDown (q : TimerQueue Task) (parent : Nat) : TimerQueue Task :=
  if parent * 2 + 1 < q.timeHeap.size then
    let son := q.lesserSon (parent * 2 + 1)
    if q.after son parent then q else (q.swapNodes parent son).fixDown son
  else q
termination_by q.timeHeap.size - parent
decreasing_by
  have := q.le_lesserSon (parent * 2 + 1)
  simp only [swapNodes_size]
  omega

/-- The node takes the task over even when the id is refused. -/
def addTimer (q : TimerQueue Task) (timer : Timer Task) : TimerQueue Task × Timer Task :=
  let node : TimerNode Task := { timerId := timer.timerId, expiry := timer.expiry, task := timer.task }
  let moved := { timer with task := none }
  match q.timerIdToIndexMap timer.timerId with
  | none =>
      let last := q.timeHeap.size
      let pushed : TimerQueue Task :=
        ⟨q.timeHeap.push node, Function.update q.timerIdToIndexMap node.timerId (some last)⟩
      (pushed.fixup last, moved)
  | some _ => (q, moved)

def cancelTimer (q : TimerQueue Task) (timer : Timer Task) : TimerQueue Task :=
  match q.timerIdToIndexMap timer.timerId with
  | none => q
  | some index => { q with timeHeap := q.timeHeap.modify index TimerNode.invalid }

def updateTimer (q : TimerQueue Task) (timer : Timer Task) : TimerQueue Task :=
  match q.timerIdToIndexMap timer.timerId with
  | none => q
  | some index =>
      let changed := { q with timeHeap := q.timeHeap.modify index (·.withExpiry timer.expiry) }
      (changed.fixDown index).fixup index

/-- The removal of the root: its id leaves the map, the last node takes its
place and sinks. -/
def popRoot (q : TimerQueue Task) (root : TimerNode Task) : TimerQueue Task :=
  let erased := Function.update q.timerIdToIndexMap root.timerId none
  let swapped := q.timeHeap.swapIfInBounds 0 (q.timeHeap.size - 1)
  let patched := match swapped[0]? with
    | some front => if 1 < swapped.size then Function.update erased front.timerId (some 0) else erased
    | none => erased
  let popped : TimerQueue Task := ⟨swapped.pop, patched⟩
  popped.fixDown 0

theorem fixDown_size (q : TimerQueue Task) (parent : Nat) :
    (q.fixDown parent).timeHeap.size = q.timeHeap.size := by
  fun_induction q.fixDown parent with
  | case1 q parent hs son hb => rfl
  | case2 q parent hs son hb ih => simpa using ih
  | case3 q parent hs => rfl

theorem popRoot_size (q : TimerQueue Task) (root : TimerNode Task) :
    (q.popRoot root).timeHeap.size = q.timeHeap.size - 1 := by
  simp [popRoot, fixDown_size]

/-- A cancelled node leaves the queue without a task to resume. -/
def collect (timeoutCoroutines : List (Option Task)) (node : TimerNode Task) : List (Option Task) :=
  if node.valid then timeoutCoroutines ++ [node.task] else timeoutCoroutines

def popTimeouts (q : TimerQueue Task) (now : Int) (timeoutCoroutines : List (Option Task)) :
    TimerQueue Task × List (Option Task) :=
  match _h : q.timeHeap[0]? with
  | some node =>
      if node.expiry ≤ now then
        (q.popRoot node).popTimeouts now (collect timeoutCoroutines node)
      else (q, timeoutCoroutines)
  | none => (q, timeoutCoroutines)
termination_by q.timeHeap.size
decreasing_by
  have hlt : 0 < q.timeHeap.size := (Array.getElem?_eq_some_iff.mp ‹q.timeHeap[0]? = some node›).1
  rw [popRoot_size]
  omega

def kDefaultTickMilliSeconds : Int := 500

/-- Converting a duration to milliseconds truncates toward zero. -/
def timeSinceEpochMilliSeconds (time : Int) : Int := time.tdiv 1000000

def toInt32 (x : Int) : Int := x.bmod (2 ^ 32)

def waitTime (q : TimerQueue Task) (now : Int) : Int :=
  match q.timeHeap[0]? with
  | some node =>
      let waitTime := timeSinceEpochMilliSeconds node.expiry - timeSinceEpochMilliSeconds now
      if kDefaultTickMilliSeconds < waitTime then kDefaultTickMilliSeconds else toInt32 waitTime
  | none => kDefaultTickMilliSeconds

def handleTimeout (q : TimerQueue Task) (now : Int) (timeoutCoroutines : List (Option Task)) :
    TimerQueue Task × List (Option Task) × Int :=
  let (q, timeoutCoroutines) := q.popTimeouts now timeoutCoroutines
  (q, timeoutCoroutines, q.waitTime now)

end TimerQueue

end Libcold
