import Libcold.TimerHeap

namespace Libcold.TimerQueue

open HeapOrder TimerMap

variable {Task : Type}

theorem WellFormed.of_rearranged {q q' : TimerQueue Task} (hi : q.Indexed) (h : Rearranged q q')
    (ho : Ordered q'.keyAt) : q'.WellFormed ∧ q'.contents = q.contents :=
  ⟨⟨h.indexed hi, ho⟩, h.contents hi⟩

theorem empty_wellFormed : (empty : TimerQueue Task).WellFormed := by
  constructor
  · intro id i
    simp [empty]
  · intro i _
    simp [keyAt, empty]

def modifyNode (q : TimerQueue Task) (index : Nat) (f : TimerNode Task → TimerNode Task) :
    TimerQueue Task := { q with timeHeap := q.timeHeap.modify index f }

theorem modifyNode_get (q : TimerQueue Task) (index : Nat) (f : TimerNode Task → TimerNode Task)
    (i : Nat) : (q.modifyNode index f).timeHeap[i]? =
      if index = i then (q.timeHeap[i]?).map f else q.timeHeap[i]? := by
  simp [modifyNode, Array.getElem?_modify]

theorem modifyNode_indexed {q : TimerQueue Task} (h : q.Indexed) (index : Nat)
    {f : TimerNode Task → TimerNode Task} (hf : ∀ node, (f node).timerId = node.timerId) :
    (q.modifyNode index f).Indexed := by
  intro id i
  rw [modifyNode_get]
  change q.timerIdToIndexMap id = some i ↔ _
  rw [h id i]
  split <;> simp [hf]

theorem modifyNode_contents {q : TimerQueue Task} (h : q.Indexed) {id index : Nat}
    (hm : q.timerIdToIndexMap id = some index) {f : TimerNode Task → TimerNode Task}
    (g : TimerEntry Task → TimerEntry Task) (hf : ∀ node, entry (f node) = g (entry node)) :
    (q.modifyNode index f).contents = Function.update q.contents id ((q.contents id).map g) := by
  funext j
  by_cases hj : j = id
  · subst hj
    obtain ⟨node, hn, _⟩ := h.node hm
    have hm' : (q.modifyNode index f).timerIdToIndexMap j = some index := hm
    simp [contents, hm, hm', modifyNode_get, hn, hf]
  · rw [Function.update_of_ne hj]
    rw [contents]
    change (q.timerIdToIndexMap j).bind _ = _
    apply Option.bind_congr
    intro i hi
    have hne : index ≠ i := by
      rintro rfl
      obtain ⟨node, hn, rfl⟩ := h.node hm
      obtain ⟨node', hn', rfl⟩ := h.node hi
      exact hj (congrArg TimerNode.timerId (Option.some.inj (hn'.symm.trans hn)))
    rw [modifyNode_get, if_neg hne]

theorem cancelTimer_spec {q : TimerQueue Task} (h : q.WellFormed) (timer : Timer Task) :
    (q.cancelTimer timer).WellFormed ∧
      (q.cancelTimer timer).contents = q.contents.cancel timer := by
  rw [cancelTimer]
  split
  next hm =>
    refine ⟨h, ?_⟩
    have hc := (contents_eq_none h.indexed timer.timerId).mpr hm
    rw [TimerMap.cancel, hc, Option.map_none, ← hc, Function.update_eq_self]
  next index hm =>
    change (q.modifyNode index TimerNode.invalid).WellFormed ∧
      (q.modifyNode index TimerNode.invalid).contents = _
    refine ⟨⟨modifyNode_indexed h.indexed index fun _ => rfl, ?_⟩,
      modifyNode_contents h.indexed hm _ fun _ => rfl⟩
    have hk : (q.modifyNode index TimerNode.invalid).keyAt = q.keyAt := by
      funext i
      simp only [keyAt, modifyNode_get]
      split
      · cases q.timeHeap[i]? <;> rfl
      · rfl
    rw [hk]
    exact h.ordered

theorem updateTimer_spec {q : TimerQueue Task} (h : q.WellFormed) (timer : Timer Task) :
    (q.updateTimer timer).WellFormed ∧
      (q.updateTimer timer).contents = q.contents.reschedule timer := by
  rw [updateTimer]
  split
  next hm =>
    refine ⟨h, ?_⟩
    have hc := (contents_eq_none h.indexed timer.timerId).mpr hm
    rw [TimerMap.reschedule, hc, Option.map_none, ← hc, Function.update_eq_self]
  next index hm =>
    obtain ⟨node, hn, _⟩ := h.indexed.node hm
    have hlt : index < q.timeHeap.size := (Array.getElem?_eq_some_iff.mp hn).1
    have hi := modifyNode_indexed h.indexed index (f := (·.withExpiry timer.expiry)) fun _ => rfl
    have hd : Disturbed (q.modifyNode index (·.withExpiry timer.expiry)).keyAt index := by
      apply h.ordered.update index
      intro i hne
      simp only [keyAt, modifyNode_get, if_neg (Ne.symm hne)]
    have hdown := fixDown_rearranged (q.modifyNode index (·.withExpiry timer.expiry)) index
    have hsize : index < ((q.modifyNode index (·.withExpiry timer.expiry)).fixDown index).timeHeap.size := by
      rw [hdown.size]
      simpa [modifyNode] using hlt
    obtain ⟨hw, hc⟩ := WellFormed.of_rearranged hi (hdown.trans (fixup_rearranged _ index))
      (fixup_ordered _ index hsize (fixDown_rising _ index hd))
    refine ⟨hw, hc.trans ?_⟩
    exact modifyNode_contents h.indexed hm _ fun _ => rfl

/-- A new node at the end of the heap, before it rises. -/
def withNode (q : TimerQueue Task) (node : TimerNode Task) : TimerQueue Task where
  timeHeap := q.timeHeap.push node
  timerIdToIndexMap := Function.update q.timerIdToIndexMap node.timerId (some q.timeHeap.size)

section WithNode

variable {q : TimerQueue Task} {node : TimerNode Task}

theorem withNode_get (q : TimerQueue Task) (node : TimerNode Task) (i : Nat) :
    (q.withNode node).timeHeap[i]? = if i = q.timeHeap.size then some node else q.timeHeap[i]? :=
  Array.getElem?_push

theorem withNode_indexed (h : q.Indexed) (node : TimerNode Task) (hm : q.timerIdToIndexMap node.timerId = none) :
    (q.withNode node).Indexed := by
  have hfresh (i : Nat) (n : TimerNode Task) (hn : q.timeHeap[i]? = some n) : n.timerId ≠ node.timerId := by
    intro he
    have := h.get hn
    rw [he, hm] at this
    cases this
  intro id i
  rw [withNode_get]
  by_cases hid : id = node.timerId
  · subst hid
    simp only [withNode, Function.update_self]
    by_cases hi : i = q.timeHeap.size
    · simp [hi]
    · simpa [hi, eq_comm] using hfresh i
  · simp only [withNode, Function.update_of_ne hid, h id i]
    by_cases hi : i = q.timeHeap.size
    · simp [hi, Ne.symm hid]
    · simp [hi]

theorem withNode_rising (h : Ordered q.keyAt) (node : TimerNode Task) :
    Rising (q.withNode node).keyAt q.timeHeap.size := by
  apply h.append
  · intro i hne
    simp only [keyAt, withNode_get, if_neg hne]
  · intro i hlt x
    rw [keyAt_top (by simp [withNode]; omega)]
    exact le_top

theorem withNode_contents (h : q.Indexed) :
    (q.withNode node).contents = Function.update q.contents node.timerId (some (entry node)) := by
  funext id
  by_cases hid : id = node.timerId
  · subst hid
    simp [contents, withNode]
  · rw [Function.update_of_ne hid]
    simp only [contents, withNode, Function.update_of_ne hid]
    apply Option.bind_congr
    intro i hi
    obtain ⟨n, hn, _⟩ := h.node hi
    have hlt := (Array.getElem?_eq_some_iff.mp hn).1
    rw [Array.getElem?_push, if_neg hlt.ne]

end WithNode

theorem addTimer_spec {q : TimerQueue Task} (h : q.WellFormed) (timer : Timer Task) :
    (q.addTimer timer).1.WellFormed ∧ (q.addTimer timer).1.contents = q.contents.add timer := by
  rw [addTimer]
  dsimp only
  split
  next hm =>
    have hindexed := withNode_indexed h.indexed ⟨timer.timerId, timer.expiry, timer.task, true⟩ hm
    obtain ⟨hw, hc⟩ := WellFormed.of_rearranged hindexed (fixup_rearranged _ q.timeHeap.size)
      (fixup_ordered _ _ (by simp [withNode]) (withNode_rising h.ordered _))
    refine ⟨hw, hc.trans ?_⟩
    have hnone := (contents_eq_none h.indexed timer.timerId).mpr hm
    simp only [TimerMap.add, hnone, withNode_contents h.indexed]
    rfl
  next index hm =>
    refine ⟨h, ?_⟩
    obtain ⟨n, hn, _⟩ := h.indexed.node hm
    simp [TimerMap.add, contents, hm, hn]

/-- The last node in the place of the root, before it sinks. -/
def withoutRoot (q : TimerQueue Task) (root tail : TimerNode Task) : TimerQueue Task where
  timeHeap := (q.timeHeap.swapIfInBounds 0 (q.timeHeap.size - 1)).pop
  timerIdToIndexMap :=
    if 1 < q.timeHeap.size then
      Function.update (Function.update q.timerIdToIndexMap root.timerId none) tail.timerId (some 0)
    else Function.update q.timerIdToIndexMap root.timerId none

section WithoutRoot

variable {q : TimerQueue Task} {root tail : TimerNode Task}

theorem popRoot_eq (hpos : 0 < q.timeHeap.size) (hlast : q.timeHeap[q.timeHeap.size - 1]? = some tail) :
    q.popRoot root = (q.withoutRoot root tail).fixDown 0 := by
  have hfront : (q.timeHeap.swapIfInBounds 0 (q.timeHeap.size - 1))[0]? = some tail := by
    rw [getElem?_swapIfInBounds _ hpos (by omega), if_pos rfl, hlast]
  simp only [popRoot, withoutRoot, Array.size_swapIfInBounds] at hfront ⊢
  rw [hfront]

theorem withoutRoot_get (root : TimerNode Task) (hpos : 0 < q.timeHeap.size)
    (hlast : q.timeHeap[q.timeHeap.size - 1]? = some tail) (i : Nat) :
    (q.withoutRoot root tail).timeHeap[i]? =
      if i < q.timeHeap.size - 1 then if i = 0 then some tail else q.timeHeap[i]? else none := by
  simp only [withoutRoot, Array.getElem?_pop, Array.size_swapIfInBounds]
  by_cases hi : i < q.timeHeap.size - 1
  · rw [if_pos hi, if_pos hi, getElem?_swapIfInBounds _ hpos (by omega), hlast,
      if_neg (by omega : i ≠ q.timeHeap.size - 1)]
  · rw [if_neg hi, if_neg hi]

theorem Indexed.tail_ne (h : q.Indexed) (hroot : q.timeHeap[0]? = some root)
    (hlast : q.timeHeap[q.timeHeap.size - 1]? = some tail) (hone : 1 < q.timeHeap.size) :
    tail.timerId ≠ root.timerId := by
  intro he
  have := h.eq_of_timerId hlast hroot he
  omega

/-- Two partial maps inverse to each other stay so when the last entry takes the place of the first. -/
theorem moved_iff {m f : Nat → Option Nat} (h : ∀ id k, m id = some k ↔ f k = some id) {a b n : Nat}
    (hroot : f 0 = some a) (hlast : f n = some b) (hn : 0 < n) (hend : ∀ k, n < k → f k = none) (id k : Nat) :
    (if id = b then some 0 else if id = a then none else m id) = some k ↔
      (if k < n then if k = 0 then some b else f k else none) = some id := by
  have hma := (h a 0).mpr hroot
  have hmb := (h b n).mpr hlast
  by_cases hk : k < n
  · rw [if_pos hk]
    grind
  · rw [if_neg hk]
    have hpast : k = n ∨ f k = none := by
      rcases Nat.eq_or_lt_of_le (Nat.not_lt.mp hk) with heq | hlt
      · exact .inl heq.symm
      · exact .inr (hend k hlt)
    grind

theorem withoutRoot_indexed (h : q.Indexed) (hroot : q.timeHeap[0]? = some root)
    (hlast : q.timeHeap[q.timeHeap.size - 1]? = some tail) : (q.withoutRoot root tail).Indexed := by
  have hpos : 0 < q.timeHeap.size := (Array.getElem?_eq_some_iff.mp hroot).1
  intro id i
  rw [withoutRoot_get root hpos hlast]
  by_cases hone : 1 < q.timeHeap.size
  · simp only [withoutRoot, if_pos hone, Function.update_apply]
    rw [apply_ite (Option.map _), apply_ite (Option.map _)]
    refine moved_iff h (by rw [hroot]; rfl) (by rw [hlast]; rfl) (by omega) (fun k hk => ?_) id i
    rw [Array.getElem?_eq_none (by omega)]
    rfl
  · have hzero : q.timeHeap.size - 1 = 0 := by omega
    simp only [withoutRoot, if_neg hone, Function.update_apply, hzero, Nat.not_lt_zero, if_false, Option.map_none,
      reduceCtorEq, iff_false]
    intro hm
    split_ifs at hm with hid
    obtain ⟨node, hn, rfl⟩ := h.node hm
    -- The root is the only node of the heap.
    obtain rfl : i = 0 := by
      have := (Array.getElem?_eq_some_iff.mp hn).1
      omega
    exact hid (congrArg TimerNode.timerId (Option.some.inj (hn.symm.trans hroot)))

theorem withoutRoot_contents (h : q.Indexed) (hroot : q.timeHeap[0]? = some root)
    (hlast : q.timeHeap[q.timeHeap.size - 1]? = some tail) :
    (q.withoutRoot root tail).contents = Function.update q.contents root.timerId none := by
  have hpos : 0 < q.timeHeap.size := (Array.getElem?_eq_some_iff.mp hroot).1
  have hget := withoutRoot_get root hpos hlast
  have hi := withoutRoot_indexed h hroot hlast
  funext id
  apply Option.ext
  intro e
  by_cases hid : id = root.timerId
  · subst hid
    have hnone : (q.withoutRoot root tail).timerIdToIndexMap root.timerId = none := by
      simp only [withoutRoot]
      split
      next hone => rw [Function.update_of_ne (h.tail_ne hroot hlast hone).symm, Function.update_self]
      next => rw [Function.update_self]
    rw [(contents_eq_none hi _).mpr hnone, Function.update_self]
  · rw [Function.update_of_ne hid, contents_eq_some hi, contents_eq_some h]
    constructor
    · rintro ⟨i, node, hn, hrest⟩
      rw [hget] at hn
      split_ifs at hn with hlt hz
      · exact ⟨_, node, hlast.trans hn, hrest⟩
      · exact ⟨i, node, hn, hrest⟩
    · rintro ⟨i, node, hn, rfl, he⟩
      have hlt := (Array.getElem?_eq_some_iff.mp hn).1
      have hz : i ≠ 0 := by
        rintro rfl
        exact hid (congrArg TimerNode.timerId (Option.some.inj (hn.symm.trans hroot)))
      by_cases hl : i = q.timeHeap.size - 1
      · subst hl
        exact ⟨0, node, by rw [hget, if_pos (by omega), if_pos rfl, ← hlast, hn], rfl, he⟩
      · exact ⟨i, node, by rw [hget, if_pos (by omega), if_neg hz, hn], rfl, he⟩

theorem withoutRoot_sinking (h : Ordered q.keyAt) (hpos : 0 < q.timeHeap.size)
    (hlast : q.timeHeap[q.timeHeap.size - 1]? = some tail) : Sinking (q.withoutRoot root tail).keyAt 0 := by
  have hget := withoutRoot_get root hpos hlast
  apply h.replace_root (q.timeHeap.size - 1)
  · intro i hi hlt
    simp only [keyAt, hget, if_pos hlt, if_neg hi.ne']
  · intro i _ hle x
    rw [keyAt, hget, if_neg (by omega)]
    exact le_top

end WithoutRoot

theorem popRoot_spec {q : TimerQueue Task} (h : q.WellFormed) {root : TimerNode Task}
    (hroot : q.timeHeap[0]? = some root) :
    (q.popRoot root).WellFormed ∧
      (q.popRoot root).contents = Function.update q.contents root.timerId none := by
  have hpos : 0 < q.timeHeap.size := (Array.getElem?_eq_some_iff.mp hroot).1
  obtain ⟨tail, hlast⟩ : ∃ tail, q.timeHeap[q.timeHeap.size - 1]? = some tail :=
    ⟨_, Array.getElem?_eq_getElem (by omega)⟩
  rw [popRoot_eq hpos hlast]
  obtain ⟨hw, hc⟩ := WellFormed.of_rearranged (withoutRoot_indexed h.indexed hroot hlast)
    (fixDown_rearranged _ 0) (fixDown_ordered _ 0 (withoutRoot_sinking h.ordered hpos hlast))
  exact ⟨hw, hc.trans (withoutRoot_contents h.indexed hroot hlast)⟩

theorem root_key_le {q : TimerQueue Task} (h : q.WellFormed) {root node : TimerNode Task} {i : Nat}
    (hroot : q.timeHeap[0]? = some root) (hn : q.timeHeap[i]? = some node) : key root ≤ key node := by
  simpa [keyAt, hroot, hn] using h.ordered.root_le i

theorem root_expiry_le {q : TimerQueue Task} (h : q.WellFormed) {root node : TimerNode Task} {i : Nat}
    (hroot : q.timeHeap[0]? = some root) (hn : q.timeHeap[i]? = some node) :
    root.expiry ≤ node.expiry := by
  have hle := root_key_le h hroot hn
  simp only [key, Prod.Lex.toLex_le_toLex] at hle
  omega

theorem popTimeouts_spec {q : TimerQueue Task} (h : q.WellFormed) (now : Int)
    (out : List (Option Task)) :
    ∃ due, Due q.contents now due ∧ (q.popTimeouts now out).2 = out ++ validTasks due ∧
      (q.popTimeouts now out).1.WellFormed ∧
      (q.popTimeouts now out).1.contents = q.contents.expire now := by
  fun_induction q.popTimeouts now out with
  | case1 q out root hroot hle ih =>
      obtain ⟨hw, hc⟩ := popRoot_spec h hroot
      obtain ⟨due, hd, ho, hw', hc'⟩ := ih hw
      have hmem : q.contents root.timerId = some (entry root) :=
        (contents_eq_some h.indexed _ _).mpr ⟨0, root, hroot, rfl, rfl⟩
      rw [hc] at hd
      refine ⟨(root.timerId, entry root) :: due, hd.cons hmem hle ?_, ?_, hw', ?_⟩
      · intro id e he hid
        obtain ⟨i, node, hn, rfl, rfl⟩ := (contents_eq_some h.indexed id e).mp he
        have hkey : key root ≠ key node := fun heq => hid (congrArg (fun k => (ofLex k).2) heq).symm
        exact lt_of_le_of_ne (root_key_le h hroot hn) hkey
      · rw [ho, validTasks_cons, collect]
        change _ = _ ++ ((if root.valid then [root.task] else []) ++ _)
        cases root.valid <;> simp
      · rw [hc', hc, expire_update_none hmem hle]
  | case2 q out root hroot hle =>
      have hlater (id : Nat) (e : TimerEntry Task) (he : q.contents id = some e) : now < e.expiry := by
        obtain ⟨i, node, hn, _, rfl⟩ := (contents_eq_some h.indexed id e).mp he
        exact (not_le.mp hle).trans_le (root_expiry_le h hroot hn)
      exact ⟨[], Due.nil hlater, by simp [validTasks], h, (expire_later hlater).symm⟩
  | case3 q out hroot =>
      have hlater (id : Nat) (e : TimerEntry Task) (he : q.contents id = some e) : now < e.expiry := by
        obtain ⟨i, node, hn, _⟩ := (contents_eq_some h.indexed id e).mp he
        have hsize := (Array.getElem?_eq_some_iff.mp hn).1
        have hzero := Array.getElem?_eq_none_iff.mp hroot
        omega
      exact ⟨[], Due.nil hlater, by simp [validTasks], h, (expire_later hlater).symm⟩

def call (q : TimerQueue Task) : TimerCall Task → TimerQueue Task × List (Option Task)
  | .addTimer timer => ((q.addTimer timer).1, [])
  | .updateTimer timer => (q.updateTimer timer, [])
  | .cancelTimer timer => (q.cancelTimer timer, [])
  | .handleTimeout now timeoutCoroutines =>
      ((q.handleTimeout now timeoutCoroutines).1, (q.handleTimeout now timeoutCoroutines).2.1)

def run (q : TimerQueue Task) : List (TimerCall Task) → TimerQueue Task × List (List (Option Task))
  | [] => (q, [])
  | c :: calls => (((q.call c).1.run calls).1, (q.call c).2 :: ((q.call c).1.run calls).2)

theorem call_refines {q : TimerQueue Task} (h : q.WellFormed) (c : TimerCall Task) :
    (q.call c).1.WellFormed ∧ Step q.contents c (q.call c).2 (q.call c).1.contents := by
  cases c with
  | addTimer timer =>
      obtain ⟨hw, hc⟩ := addTimer_spec h timer
      exact ⟨hw, by simpa only [call, hc] using Step.addTimer q.contents timer⟩
  | updateTimer timer =>
      obtain ⟨hw, hc⟩ := updateTimer_spec h timer
      exact ⟨hw, by simpa only [call, hc] using Step.updateTimer q.contents timer⟩
  | cancelTimer timer =>
      obtain ⟨hw, hc⟩ := cancelTimer_spec h timer
      exact ⟨hw, by simpa only [call, hc] using Step.cancelTimer q.contents timer⟩
  | handleTimeout now out =>
      obtain ⟨due, hd, ho, hw, hc⟩ := popTimeouts_spec h now out
      refine ⟨hw, ?_⟩
      change Step q.contents _ (q.popTimeouts now out).2 (q.popTimeouts now out).1.contents
      rw [ho, hc]
      exact .handleTimeout q.contents now out due hd

theorem run_refines {q : TimerQueue Task} (h : q.WellFormed) (calls : List (TimerCall Task)) :
    (q.run calls).1.WellFormed ∧ Run q.contents calls (q.run calls).2 (q.run calls).1.contents := by
  induction calls generalizing q with
  | nil => exact ⟨h, .nil _⟩
  | cons c calls ih =>
      obtain ⟨hw, hs⟩ := call_refines h c
      obtain ⟨hw', hr⟩ := ih hw
      exact ⟨hw', .cons hs hr⟩

/-- Every sequence of calls on the empty queue is a sequence of calls on the
empty map: the answers are the same and so is what is left armed. -/
theorem timerQueue_behaves_as_map (calls : List (TimerCall Task)) :
    Run (fun _ => none) calls ((empty : TimerQueue Task).run calls).2
      ((empty : TimerQueue Task).run calls).1.contents :=
  (run_refines empty_wellFormed calls).2

end Libcold.TimerQueue
