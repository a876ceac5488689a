import Libcold.HeapOrder
import Libcold.TimerMap
import Mathlib.Order.WithBot

namespace Libcold.TimerQueue

open HeapOrder TimerMap

variable {Task : Type}

def key (node : TimerNode Task) : DueKey := toLex (node.expiry, node.timerId)

/-- The key stored at a position, with a greatest key past the end. -/
def keyAt (q : TimerQueue Task) (i : Nat) : WithTop DueKey :=
  (q.timeHeap[i]?).elim ⊤ fun node => (key node : WithTop DueKey)

def entry (node : TimerNode Task) : TimerEntry Task := ⟨node.expiry, node.task, node.valid⟩

/-- The index map and the heap array name each other's contents. -/
def Indexed (q : TimerQueue Task) : Prop :=
  ∀ id i, q.timerIdToIndexMap id = some i ↔ (q.timeHeap[i]?).map (·.timerId) = some id

/-- The abstract map held by a queue: a lookup through the index map. -/
def contents (q : TimerQueue Task) : TimerMap Task :=
  fun id => (q.timerIdToIndexMap id).bind fun i => (q.timeHeap[i]?).map entry

structure WellFormed (q : TimerQueue Task) : Prop where
  indexed : q.Indexed
  ordered : Ordered q.keyAt

/-- Sifting rearranges a queue without changing what it holds. -/
structure Rearranged (q q' : TimerQueue Task) : Prop where
  size : q'.timeHeap.size = q.timeHeap.size
  indexed : q.Indexed → q'.Indexed
  contents : q.Indexed → q'.contents = q.contents

theorem Rearranged.refl (q : TimerQueue Task) : Rearranged q q := ⟨rfl, id, fun _ => rfl⟩

theorem Rearranged.trans {q q' q'' : TimerQueue Task} (h : Rearranged q q')
    (h' : Rearranged q' q'') : Rearranged q q'' :=
  ⟨h'.size.trans h.size, fun hi => h'.indexed (h.indexed hi),
    fun hi => (h'.contents (h.indexed hi)).trans (h.contents hi)⟩

theorem Indexed.get {q : TimerQueue Task} (h : q.Indexed) {i : Nat} {node : TimerNode Task}
    (hn : q.timeHeap[i]? = some node) : q.timerIdToIndexMap node.timerId = some i :=
  (h node.timerId i).mpr (by simp [hn])

theorem Indexed.node {q : TimerQueue Task} (h : q.Indexed) {id i : Nat}
    (hm : q.timerIdToIndexMap id = some i) :
    ∃ node, q.timeHeap[i]? = some node ∧ node.timerId = id := by
  simpa using (h id i).mp hm

theorem Indexed.eq_of_timerId {q : TimerQueue Task} (h : q.Indexed) {i j : Nat}
    {a b : TimerNode Task} (ha : q.timeHeap[i]? = some a) (hb : q.timeHeap[j]? = some b)
    (he : a.timerId = b.timerId) : i = j := by
  have hi := h.get ha
  rw [he, h.get hb] at hi
  exact (Option.some.inj hi).symm

theorem contents_eq_some {q : TimerQueue Task} (h : q.Indexed) (id : Nat) (e : TimerEntry Task) :
    q.contents id = some e ↔
      ∃ (i : Nat) (node : TimerNode Task),
        q.timeHeap[i]? = some node ∧ node.timerId = id ∧ entry node = e := by
  constructor
  · intro hc
    obtain ⟨i, hm, he⟩ := Option.bind_eq_some_iff.mp hc
    obtain ⟨node, hn, hid⟩ := h.node hm
    rw [hn] at he
    exact ⟨i, node, hn, hid, by simpa using he⟩
  · rintro ⟨i, node, hn, rfl, rfl⟩
    simp [contents, h.get hn, hn]

theorem contents_eq_none {q : TimerQueue Task} (h : q.Indexed) (id : Nat) :
    q.contents id = none ↔ q.timerIdToIndexMap id = none := by
  constructor
  · intro hc
    cases hm : q.timerIdToIndexMap id with
    | none => rfl
    | some i =>
        obtain ⟨node, hn, _⟩ := h.node hm
        simp [contents, hm, hn] at hc
  · intro hm
    simp [contents, hm]

theorem after_iff {q : TimerQueue Task} {i j : Nat} (hi : i < q.timeHeap.size) :
    q.after i j = true ↔ q.keyAt j < q.keyAt i := by
  have ha : q.timeHeap[i]? = some q.timeHeap[i] := by simp [hi]
  cases hb : q.timeHeap[j]? with
  | none => simp [after, keyAt, ha, hb]
  | some b =>
      simp only [after, keyAt, ha, hb, Option.elim_some, WithTop.coe_lt_coe, TimerNode.after, key,
        Prod.Lex.toLex_lt_toLex]
      by_cases he : q.timeHeap[i].expiry = b.expiry
      · simp [he]
      · simp [he, Ne.symm he]

theorem getElem?_swapIfInBounds {α : Type} (xs : Array α) {i j : Nat} (hi : i < xs.size)
    (hj : j < xs.size) (k : Nat) :
    (xs.swapIfInBounds i j)[k]? = if k = i then xs[j]? else if k = j then xs[i]? else xs[k]? := by
  rw [Array.swapIfInBounds_def, dif_pos hi, dif_pos hj, Array.getElem?_swap]
  rw [Array.getElem?_eq_getElem hi, Array.getElem?_eq_getElem hj]
  by_cases hki : k = i
  · subst hki
    by_cases hkj : j = k
    · subst hkj
      simp
    · simp [hkj]
  · by_cases hkj : k = j
    · subst hkj
      simp [hki]
    · simp [hki, hkj, Ne.symm hki, Ne.symm hkj]

theorem swapNodes_eq {q : TimerQueue Task} {i j : Nat} {a b : TimerNode Task}
    (ha : q.timeHeap[i]? = some a) (hb : q.timeHeap[j]? = some b) :
    q.swapNodes i j =
      ⟨q.timeHeap.swapIfInBounds i j, q.timerIdToIndexMap.swap a.timerId b.timerId⟩ := by
  simp [swapNodes, ha, hb]

theorem keyAt_swapNodes {q : TimerQueue Task} {i j : Nat} (hi : i < q.timeHeap.size)
    (hj : j < q.timeHeap.size) : (q.swapNodes i j).keyAt = exchange q.keyAt i j := by
  have ha : q.timeHeap[i]? = some q.timeHeap[i] := by simp [hi]
  have hb : q.timeHeap[j]? = some q.timeHeap[j] := by simp [hj]
  rw [swapNodes_eq ha hb]
  funext k
  simp only [keyAt, getElem?_swapIfInBounds _ hi hj]
  by_cases hk : k = i
  · subst hk; simp [keyAt]
  · by_cases hk' : k = j
    · subst hk'; simp [keyAt, hk]
    · simp [exchange_other _ hk hk', keyAt, hk, hk']

/-- Two partial maps inverse to each other stay so when two entries are exchanged in both. -/
theorem exchanged_iff {m f : Nat → Option Nat} (h : ∀ id k, m id = some k ↔ f k = some id) {i j a b : Nat}
    (ha : f i = some a) (hb : f j = some b) (id k : Nat) :
    (if id = b then some i else if id = a then some j else m id) = some k ↔
      (if k = i then f j else if k = j then f i else f k) = some id := by
  have hmi := (h a i).mpr ha
  have hmj := (h b j).mpr hb
  by_cases hk : k = i
  · subst hk
    rw [if_pos rfl, hb]
    grind
  · rw [if_neg hk]
    grind

theorem swapNodes_rearranged {q : TimerQueue Task} {i j : Nat} (hi : i < q.timeHeap.size)
    (hj : j < q.timeHeap.size) : Rearranged q (q.swapNodes i j) := by
  have ha : q.timeHeap[i]? = some q.timeHeap[i] := by simp [hi]
  have hb : q.timeHeap[j]? = some q.timeHeap[j] := by simp [hj]
  have hindexed : q.Indexed → (q.swapNodes i j).Indexed := by
    intro h id k
    rw [swapNodes_eq ha hb]
    simp only [getElem?_swapIfInBounds _ hi hj, IndexMap.swap, IndexMap.subscript, h.get ha, h.get hb,
      Option.getD_some, Function.update_apply]
    rw [apply_ite (Option.map _), apply_ite (Option.map _)]
    exact exchanged_iff h (by rw [ha]; rfl) (by rw [hb]; rfl) id k
  refine ⟨swapNodes_size q i j, hindexed, ?_⟩
  intro h
  funext id
  apply Option.ext
  intro e
  rw [contents_eq_some h, contents_eq_some (hindexed h), swapNodes_eq ha hb]
  simp only [getElem?_swapIfInBounds _ hi hj]
  constructor
  · rintro ⟨k, node, hn, hrest⟩
    split_ifs at hn
    · exact ⟨j, node, hn, hrest⟩
    · exact ⟨i, node, hn, hrest⟩
    · exact ⟨k, node, hn, hrest⟩
  · rintro ⟨k, node, hn, hrest⟩
    by_cases hki : k = i
    · subst hki
      refine ⟨j, node, ?_, hrest⟩
      by_cases hjk : j = k
      · subst hjk; simpa using hn
      · simpa [hjk] using hn
    · by_cases hkj : k = j
      · subst hkj
        exact ⟨i, node, by simpa using hn, hrest⟩
      · exact ⟨k, node, by simpa [hki, hkj] using hn, hrest⟩

theorem size_of_after {q : TimerQueue Task} {i j : Nat} (h : q.after i j = true) :
    i < q.timeHeap.size ∧ j < q.timeHeap.size := by
  rw [after] at h
  split at h
  next lhs rhs hl hr =>
    exact ⟨(Array.getElem?_eq_some_iff.mp hl).1, (Array.getElem?_eq_some_iff.mp hr).1⟩
  next => cases h

theorem fixup_rearranged (q : TimerQueue Task) (son : Nat) : Rearranged q (q.fixup son) := by
  fun_induction q.fixup son with
  | case1 q son hs parent ha ih =>
      obtain ⟨hp, hson⟩ := size_of_after ha
      exact (swapNodes_rearranged hp hson).trans ih
  | case2 q son hs parent ha => exact .refl q
  | case3 q son hs => exact .refl q

theorem fixup_ordered (q : TimerQueue Task) (son : Nat) (hson : son < q.timeHeap.size)
    (h : Rising q.keyAt son) : Ordered (q.fixup son).keyAt := by
  fun_induction q.fixup son with
  | case1 q son hs parent ha ih =>
      have hp := (size_of_after ha).1
      have hle : q.keyAt son ≤ q.keyAt parent := ((after_iff hp).mp ha).le
      apply ih (by simpa using hp)
      rw [keyAt_swapNodes hp hson]
      exact h.exchange hs hle
  | case2 q son hs parent ha =>
      have hp : parent < q.timeHeap.size := by omega
      exact h.finish fun _ => not_lt.mp fun hlt => ha ((after_iff hp).mpr hlt)
  | case3 q son hs => exact h.finish fun hs' => absurd hs' hs

theorem keyAt_top {q : TimerQueue Task} {i : Nat} (h : q.timeHeap.size ≤ i) : q.keyAt i = ⊤ := by
  simp [keyAt, Array.getElem?_eq_none h]

theorem lesserSon_spec {q : TimerQueue Task} {p : Nat} (h : p * 2 + 1 < q.timeHeap.size) :
    q.lesserSon (p * 2 + 1) < q.timeHeap.size ∧ parent (q.lesserSon (p * 2 + 1)) = p ∧
      ∀ i, 0 < i → parent i = p → q.keyAt (q.lesserSon (p * 2 + 1)) ≤ q.keyAt i := by
  rw [lesserSon]
  split
  next hc =>
    simp only [Bool.and_eq_true, decide_eq_true_eq] at hc
    have hlt := (after_iff h).mp hc.2
    refine ⟨hc.1, by unfold parent; omega, ?_⟩
    intro i hi hp
    rcases (parent_eq_iff hi).mp hp with rfl | rfl
    · rw [Nat.mul_comm 2 p]; exact hlt.le
    · rw [Nat.mul_comm 2 p]
  next hc =>
    refine ⟨h, by unfold parent; omega, ?_⟩
    intro i hi hp
    rcases (parent_eq_iff hi).mp hp with rfl | rfl
    · rw [Nat.mul_comm 2 p]
    · rw [Nat.mul_comm 2 p]
      by_cases hs : p * 2 + 1 + 1 < q.timeHeap.size
      · have hn : ¬ q.after (p * 2 + 1) (p * 2 + 1 + 1) = true := by simpa [hs] using hc
        exact not_lt.mp fun hlt => hn ((after_iff h).mpr hlt)
      · rw [keyAt_top (i := p * 2 + 2) (by omega)]
        exact le_top

theorem fixDown_rearranged (q : TimerQueue Task) (p : Nat) : Rearranged q (q.fixDown p) := by
  fun_induction q.fixDown p with
  | case1 q p hs son ha => exact .refl q
  | case2 q p hs son ha ih =>
      exact (swapNodes_rearranged (by omega) (lesserSon_spec hs).1).trans ih
  | case3 q p hs => exact .refl q

theorem keyAt_children_top {q : TimerQueue Task} {p : Nat} (h : ¬ p * 2 + 1 < q.timeHeap.size)
    (i : Nat) (hi : 0 < i) (hp : parent i = p) : q.keyAt p ≤ q.keyAt i := by
  rw [keyAt_top (i := i) (by rcases (parent_eq_iff hi).mp hp with rfl | rfl <;> omega)]
  exact le_top

theorem fixDown_ordered (q : TimerQueue Task) (p : Nat) (h : Sinking q.keyAt p) :
    Ordered (q.fixDown p).keyAt := by
  fun_induction q.fixDown p with
  | case1 q p hs son ha =>
      obtain ⟨hson, hparent, hmin⟩ := lesserSon_spec hs
      have hlt := (after_iff hson).mp ha
      exact h.finish fun i hi hp => hlt.le.trans (hmin i hi hp)
  | case2 q p hs son ha ih =>
      obtain ⟨hson, hparent, hmin⟩ := lesserSon_spec hs
      have hle : q.keyAt son ≤ q.keyAt p := not_lt.mp fun hlt => ha ((after_iff hson).mpr hlt)
      apply ih
      rw [keyAt_swapNodes (by omega) hson]
      have := q.le_lesserSon (p * 2 + 1)
      exact h.disturbed.exchange (by omega) hparent hmin hle
  | case3 q p hs => exact h.finish (keyAt_children_top hs)

/-- After an arbitrary change of one key, sinking leaves at most the edge that
enters its position out of order. -/
theorem fixDown_rising (q : TimerQueue Task) (p : Nat) (h : Disturbed q.keyAt p) :
    Rising (q.fixDown p).keyAt p := by
  rw [fixDown]
  split
  next hs =>
    obtain ⟨hson, hparent, hmin⟩ := lesserSon_spec hs
    have hle := q.le_lesserSon (p * 2 + 1)
    dsimp only
    split
    next ha =>
      have hlt := (after_iff hson).mp ha
      exact h.finish fun i hi hp => hlt.le.trans (hmin i hi hp)
    next ha =>
      have hle' : q.keyAt (q.lesserSon (p * 2 + 1)) ≤ q.keyAt p :=
        not_lt.mp fun hlt => ha ((after_iff hson).mpr hlt)
      apply Ordered.rising
      apply fixDown_ordered
      rw [keyAt_swapNodes (by omega) hson]
      exact h.exchange (by omega) hparent hmin hle'
  next hs => exact h.finish (keyAt_children_top hs)

end Libcold.TimerQueue
