import Libcold.Platform
import Libcold.TimerRefinement

namespace Libcold.TimerQueue

open HeapOrder

variable {Task : Type}

/-- The queue as its members are meant to fit together. -/
structure Represented (q : TimerQueue Task) : Prop where
  heap : ∀ i parent son, 0 < i → q.timeHeap[(i - 1) / 2]? = some parent → q.timeHeap[i]? = some son →
    parent.after son = false
  distinct : (q.timeHeap.toList.map (·.timerId)).Nodup
  indexed : ∀ id i, q.timerIdToIndexMap id = some i ↔ (q.timeHeap[i]?).map (·.timerId) = some id

/-- What `CancelTimer` and `UpdateTimer` assert of the index that they have found. -/
def located (q : TimerQueue Task) (timer : Timer Task) (index : Nat) : Bool :=
  (q.timeHeap[index]?).any fun node => node.timerId = timer.timerId

/-! The calls with their assertions. -/

namespace Asserting

def cancelTimer (q : TimerQueue Task) (timer : Timer Task) : Except Failure (TimerQueue Task) :=
  match q.timerIdToIndexMap timer.timerId with
  | none => .ok q
  | some index =>
      if q.located timer index then .ok { q with timeHeap := q.timeHeap.modify index TimerNode.invalid }
      else .error .assertion

def updateTimer (q : TimerQueue Task) (timer : Timer Task) : Except Failure (TimerQueue Task) :=
  match q.timerIdToIndexMap timer.timerId with
  | none => .ok q
  | some index =>
      if q.located timer index then
        let changed := { q with timeHeap := q.timeHeap.modify index (·.withExpiry timer.expiry) }
        .ok ((changed.fixDown index).fixup index)
      else .error .assertion

def popTimeouts (q : TimerQueue Task) (now : Int) (timeoutCoroutines : List (Option Task)) :
    Except Failure (TimerQueue Task × List (Option Task)) :=
  match _h : q.timeHeap[0]? with
  | some node =>
      if node.expiry ≤ now then
        if (q.timerIdToIndexMap node.timerId).isSome then
          popTimeouts (q.popRoot node) now (collect timeoutCoroutines node)
        else .error .assertion
      else .ok (q, timeoutCoroutines)
  | none => .ok (q, timeoutCoroutines)
termination_by q.timeHeap.size
decreasing_by
  have hlt : 0 < q.timeHeap.size := (Array.getElem?_eq_some_iff.mp ‹q.timeHeap[0]? = some node›).1
  rw [popRoot_size]
  omega

def handleTimeout (q : TimerQueue Task) (now : Int) (timeoutCoroutines : List (Option Task)) :
    Except Failure (TimerQueue Task × List (Option Task) × Int) := do
  let (q, timeoutCoroutines) ← popTimeouts q now timeoutCoroutines
  if (q.timeHeap[0]?).all fun node => now < node.expiry then
    return (q, timeoutCoroutines, q.waitTime now)
  else throw .assertion

def call (q : TimerQueue Task) : TimerCall Task → Except Failure (TimerQueue Task × List (Option Task))
  | .addTimer timer => .ok ((q.addTimer timer).1, [])
  | .updateTimer timer => do
      let q ← updateTimer q timer
      return (q, [])
  | .cancelTimer timer => do
      let q ← cancelTimer q timer
      return (q, [])
  | .handleTimeout now timeoutCoroutines => do
      let (q, timeoutCoroutines, _) ← handleTimeout q now timeoutCoroutines
      return (q, timeoutCoroutines)

def run (q : TimerQueue Task) :
    List (TimerCall Task) → Except Failure (TimerQueue Task × List (List (Option Task)))
  | [] => .ok (q, [])
  | c :: calls => do
      let (q, collected) ← call q c
      let (q, later) ← run q calls
      return (q, collected :: later)

end Asserting

section

variable {q : TimerQueue Task}

theorem after_eq_false_iff (lhs rhs : TimerNode Task) : lhs.after rhs = false ↔ key lhs ≤ key rhs := by
  rw [TimerNode.after, key, key, Prod.Lex.toLex_le_toLex]
  split
  next heq => simp [heq]
  next hne =>
    rw [decide_eq_false_iff_not, not_lt]
    exact ⟨fun hle => .inl (lt_of_le_of_ne hle hne), fun h => h.elim le_of_lt fun h => absurd h.1 hne⟩

theorem WellFormed.represented (h : q.WellFormed) : q.Represented where
  heap i parent son hi hparent hson := by
    rw [after_eq_false_iff]
    have hle := h.ordered i hi
    rw [HeapOrder.parent, keyAt, keyAt, hparent, hson] at hle
    exact WithTop.coe_le_coe.mp hle
  distinct := by
    rw [List.Nodup, List.pairwise_map, List.pairwise_iff_getElem]
    intro i j hi hj hij heq
    rw [Array.length_toList] at hi hj
    exact hij.ne (h.indexed.eq_of_timerId (Array.getElem?_eq_getElem hi) (Array.getElem?_eq_getElem hj) heq)
  indexed := h.indexed

theorem Indexed.located (h : q.Indexed) {timer : Timer Task} {index : Nat}
    (hm : q.timerIdToIndexMap timer.timerId = some index) : q.located timer index = true := by
  obtain ⟨node, hn, hid⟩ := h.node hm
  simp [TimerQueue.located, hn, hid]

theorem cancelTimer_asserts (h : q.Indexed) (timer : Timer Task) :
    Asserting.cancelTimer q timer = .ok (q.cancelTimer timer) := by
  cases hm : q.timerIdToIndexMap timer.timerId with
  | none => simp only [Asserting.cancelTimer, cancelTimer, hm]
  | some index => simp only [Asserting.cancelTimer, cancelTimer, hm, h.located hm, if_true]

theorem updateTimer_asserts (h : q.Indexed) (timer : Timer Task) :
    Asserting.updateTimer q timer = .ok (q.updateTimer timer) := by
  cases hm : q.timerIdToIndexMap timer.timerId with
  | none => simp only [Asserting.updateTimer, updateTimer, hm]
  | some index => simp only [Asserting.updateTimer, updateTimer, hm, h.located hm, if_true]

/-- The root is in the index map, in every round of the loop. -/
theorem popTimeouts_asserts (h : q.WellFormed) (now : Int) (out : List (Option Task)) :
    Asserting.popTimeouts q now out = .ok (q.popTimeouts now out) := by
  fun_induction q.popTimeouts now out with
  | case1 q out root hroot hle ih =>
      have hsome : (q.timerIdToIndexMap root.timerId).isSome = true := by rw [h.indexed.get hroot]; rfl
      rw [Asserting.popTimeouts]
      split
      next node hnode =>
        obtain rfl : root = node := Option.some.inj (hroot.symm.trans hnode)
        rw [if_pos hle, if_pos hsome]
        exact ih (popRoot_spec h hroot).1
      next hnone => rw [hroot] at hnone; cases hnone
  | case2 q out root hroot hle =>
      rw [Asserting.popTimeouts]
      split
      next node hnode =>
        obtain rfl : root = node := Option.some.inj (hroot.symm.trans hnode)
        rw [if_neg hle]
      next hnone => rfl
  | case3 q out hroot =>
      rw [Asserting.popTimeouts]
      split
      next node hnode => rw [hroot] at hnode; cases hnode
      next => rfl

/-- The loop ends with a root that is not yet due. -/
theorem popTimeouts_root (q : TimerQueue Task) (now : Int) (out : List (Option Task)) :
    ((q.popTimeouts now out).1.timeHeap[0]?).all (fun node => decide (now < node.expiry)) = true := by
  fun_induction q.popTimeouts now out with
  | case1 q out root hroot hle ih => exact ih
  | case2 q out root hroot hle => simpa [hroot] using hle
  | case3 q out hroot => simp [hroot]

theorem handleTimeout_asserts (h : q.WellFormed) (now : Int) (out : List (Option Task)) :
    Asserting.handleTimeout q now out = .ok (q.handleTimeout now out) := by
  have hroot := popTimeouts_root q now out
  rw [Asserting.handleTimeout, popTimeouts_asserts h]
  simp only [bind, Except.bind, hroot, if_true]
  rfl

theorem call_asserts (h : q.WellFormed) (c : TimerCall Task) : Asserting.call q c = .ok (q.call c) := by
  cases c with
  | addTimer timer => rfl
  | updateTimer timer =>
      rw [Asserting.call, updateTimer_asserts h.indexed]
      rfl
  | cancelTimer timer =>
      rw [Asserting.call, cancelTimer_asserts h.indexed]
      rfl
  | handleTimeout now out =>
      rw [Asserting.call, handleTimeout_asserts h]
      rfl

theorem run_asserts (h : q.WellFormed) (calls : List (TimerCall Task)) :
    Asserting.run q calls = .ok (q.run calls) := by
  induction calls generalizing q with
  | nil => rfl
  | cons c calls ih =>
      rw [Asserting.run, call_asserts h]
      simp only [bind, Except.bind, ih (call_refines h c).1]
      rfl

end

/-- After any calls the heap is in order and the map names its places, and no
assertion has failed. -/
theorem representation_kept (calls : List (TimerCall Task)) :
    ((empty : TimerQueue Task).run calls).1.Represented ∧
      Asserting.run (empty : TimerQueue Task) calls = .ok ((empty : TimerQueue Task).run calls) :=
  ⟨(run_refines empty_wellFormed calls).1.represented, run_asserts empty_wellFormed calls⟩

end Libcold.TimerQueue
