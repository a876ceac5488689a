import Libcold.ProducerConsumer
import Mathlib.Data.Finset.Card

namespace Libcold.ProducerConsumer

open PointerChain AsyncMutex

variable {Coro Item : Type} [DecidableEq Coro]

/-- The awaiter whose handle is set. -/
def Point.handled : Point Coro Item → Option Nat
  | .waiting node point => if point = .checking then none else some node
  | .suspended node => some node
  | _ => none

/-- The awaiter that is in the list, or that a notification has taken from it. -/
def Point.listed : Point Coro Item → Option Nat
  | .waiting node .linked | .suspended node => some node
  | _ => none

/-- A notification under way, or a consumer that will look at the queue. -/
def Point.weight : Point Coro Item → Nat
  | .lock (.recheck _) | .locking (.recheck _) | .notifying | .loaded _ | .exchanging _ _ | .resuming _
  | .waiting _ .checking | .popping => 1
  | _ => 0

def Permits : Point Coro Item → MutexStage → Prop
  | .idle, st | .suspended _, st => st = .free ∨ st = .leaving
  | .lock _, st => st = .free
  | .locking _, st => st = .entering ∨ st = .queued ∨ st = .holding
  | .aborted, _ => False
  | _, st => st = .holding

/-- What a notification may rely on. -/
def Cursor (cv : ConditionVariable Coro) : Point Coro Item → Prop
  | .loaded cur => cur = cv.head
  | .exchanging cur target => cur = cv.head ∧ cur ≠ 0 ∧ target = cv.next cur
  | _ => True

/-- What a consumer knows of the queue. -/
def Sees (queue : List Item) : Point Coro Item → Prop
  | .popping => queue ≠ []
  | .waiting _ point => point ≠ .checking → queue = []
  | _ => True

/-- There are that many notifications and awake consumers. -/
def Covered (point : Coro → Point Coro Item) (n : Nat) : Prop :=
  ∃ awake : Finset Coro, (∀ c ∈ awake, Point.weight (point c) = 1) ∧ n ≤ awake.card

/-- The invariant; `nodes` is what `head_` leads to. -/
structure Inv (s : ProducerConsumer Coro Item) (nodes : List Nat) : Prop where
  mutex : ∃ trace waiters arrived, AsyncMutex.Inv trace s.mutex waiters arrived
  stages : ∀ c, ∃ st, stage s.mutex c = some st ∧ Permits (s.point c) st
  chain : Chain 0 s.cv.next s.cv.head nodes
  nodup : nodes.Nodup
  frames : ∀ c node, Point.node (s.point c) = some node →
    node ≠ 0 ∧ ∀ d, Point.node (s.point d) = some node → d = c
  handles : ∀ c node, Point.handled (s.point c) = some node → s.cv.awaiter node = some c
  parked : ∀ node, (∃ c, Point.listed (s.point c) = some node) ↔ node ∈ nodes ∨ ∃ p, s.point p = .resuming node
  apart : ∀ p node, s.point p = .resuming node → node ∉ nodes
  cursor : ∀ c, Cursor s.cv (s.point c)
  rechecks : ∀ c node, s.point c = .lock (.recheck node) ∨
    s.point c = .locking (.recheck node) ∧ stage s.mutex c = some .entering → ∃ p, s.point p = .awaiting c
  sees : ∀ c, Sees s.queue (s.point c)
  covered : nodes ≠ [] → Covered s.point s.queue.length

section Points

omit [DecidableEq Coro]

variable {point : Point Coro Item} {st : MutexStage}

theorem Permits.next (h : Permits point st) {st' : MutexStage} (hnext : st.Next st') : Permits point st' := by
  cases hnext with
  | stay => exact h
  | suspended | acquired | served | released => cases point <;> simp_all [Permits]

theorem Permits.cursor (h : Permits point st) (hst : st ≠ .holding) (cv : ConditionVariable Coro) :
    Cursor cv point := by
  cases point <;> trivial

theorem Permits.sees (h : Permits point st) (hst : st ≠ .holding) (queue : List Item) : Sees queue point := by
  cases point <;> trivial

theorem node_of_handled {node : Nat} (h : Point.handled point = some node) : Point.node point = some node := by
  cases point <;> simp_all [Point.handled, Point.node]

theorem handled_of_listed {node : Nat} (h : Point.listed point = some node) : Point.handled point = some node := by
  cases point with
  | waiting node' wait => cases wait <;> simp_all [Point.handled, Point.listed]
  | _ => simp_all [Point.handled, Point.listed]

theorem listed_waiting {node : Nat} {wait : WaitPoint} :
    Point.listed (.waiting node wait : Point Coro Item) = if wait = .linked then some node else none := by
  cases wait <;> rfl

theorem weight_le_one : Point.weight point ≤ 1 := by
  unfold Point.weight
  split <;> simp

end Points

theorem Covered.move {point : Coro → Point Coro Item} {n n' : Nat} (h : Covered point n) (c : Coro)
    (moved : Point Coro Item) (hweight : n' + Point.weight (point c) ≤ n + Point.weight moved) :
    Covered (Function.update point c moved) n' := by
  obtain ⟨awake, hawake, hcard⟩ := h
  have hother (d : Coro) (hd : d ∈ awake) (hdc : d ≠ c) : Point.weight (Function.update point c moved d) = 1 := by
    rw [Function.update_of_ne hdc]
    exact hawake d hd
  have hmem (hc : c ∈ awake) := hawake c hc
  by_cases hmoved : Point.weight moved = 1
  · refine ⟨insert c awake, fun d hd => ?_, ?_⟩
    · by_cases hdc : d = c
      · rw [hdc, Function.update_self]
        exact hmoved
      · exact hother d (Finset.mem_of_mem_insert_of_ne hd hdc) hdc
    · by_cases hc : c ∈ awake
      · rw [Finset.insert_eq_of_mem hc]
        have := hmem hc
        omega
      · rw [Finset.card_insert_of_notMem hc]
        omega
  · have hle : Point.weight moved ≤ 1 := weight_le_one
    refine ⟨awake.erase c, fun d hd => ?_, ?_⟩
    · obtain ⟨hdc, hd⟩ := Finset.mem_erase.mp hd
      exact hother d hd hdc
    · by_cases hc : c ∈ awake
      · rw [Finset.card_erase_of_mem hc]
        have := hmem hc
        omega
      · rw [Finset.erase_eq_of_notMem hc]
        omega

theorem setPoint_self (s : ProducerConsumer Coro Item) (c : Coro) (point : Point Coro Item) :
    (s.setPoint c point).point c = point := Function.update_self _ _ _

theorem setPoint_other (s : ProducerConsumer Coro Item) {c d : Coro} (hdc : d ≠ c) (point : Point Coro Item) :
    (s.setPoint c point).point d = s.point d := Function.update_of_ne hdc _ _

theorem setPoint_same {α : Type} (f : Point Coro Item → α) {s : ProducerConsumer Coro Item} {c : Coro}
    {point : Point Coro Item} (hf : f point = f (s.point c)) (d : Coro) :
    f ((s.setPoint c point).point d) = f (s.point d) :=
  ConditionVariable.update_same f hf d

theorem setPoint_eq_iff {s : ProducerConsumer Coro Item} {c : Coro} {point target : Point Coro Item}
    (hpoint : point ≠ target) (hold : s.point c ≠ target) (d : Coro) :
    (s.setPoint c point).point d = target ↔ s.point d = target :=
  iff_of_eq (setPoint_same (· = target) (by simp [hpoint, hold]) d)

theorem setPoint_forall (P : Coro → Point Coro Item → Prop) {s : ProducerConsumer Coro Item} {c : Coro}
    {point : Point Coro Item} (hpoint : P c point) (hother : ∀ d, d ≠ c → P d (s.point d)) :
    ∀ d, P d ((s.setPoint c point).point d) :=
  (Function.forall_update_iff s.point P).mpr ⟨hpoint, hother⟩

theorem setPoint_forall_two (P : Coro → Point Coro Item → Prop) {s : ProducerConsumer Coro Item} {c d : Coro}
    {point point' : Point Coro Item} (hpoint : P c point) (hpoint' : P d point')
    (hother : ∀ b, b ≠ c → b ≠ d → P b (s.point b)) :
    ∀ b, P b (((s.setPoint c point).setPoint d point').point b) :=
  ConditionVariable.forall_update_two P hpoint hpoint' hother

section Inv

variable {s : ProducerConsumer Coro Item} {nodes : List Nat}

omit [DecidableEq Coro] in
theorem start_inv : Inv ({} : ProducerConsumer Coro Item) [] where
  mutex := ⟨[], [], [], AsyncMutex.start_inv⟩
  stages c := ⟨.free, rfl, .inl rfl⟩
  chain := rfl
  nodup := List.nodup_nil
  frames c node h := by cases h
  handles c node h := by cases h
  parked node := by simp [Point.listed]
  apart p node h := by cases h
  cursor c := trivial
  rechecks c node h := by simp at h
  sees c := trivial
  covered h := absurd rfl h

omit [DecidableEq Coro] in
theorem Inv.stage_of (h : Inv s nodes) {c : Coro} {point : Point Coro Item} (hpoint : s.point c = point) :
    ∃ st, stage s.mutex c = some st ∧ Permits point st := hpoint ▸ h.stages c

omit [DecidableEq Coro] in
theorem Inv.only_holder (h : Inv s nodes) {c d : Coro} (hc : stage s.mutex c = some .holding) (hdc : d ≠ c)
    {st : MutexStage} (hd : stage s.mutex d = some st) : st ≠ .holding ∧ st ≠ .leaving := by
  obtain ⟨_, _, _, hmutex⟩ := h.mutex
  exact ⟨fun hst => hdc (hmutex.holder_unique hc hd (.inl hst)), fun hst => hdc (hmutex.holder_unique hc hd (.inr hst))⟩

omit [DecidableEq Coro] in
theorem Inv.holding_of (h : Inv s nodes) {c : Coro} {point : Point Coro Item} (hpoint : s.point c = point)
    (hpermits : ∀ st, Permits point st → st = .holding) : stage s.mutex c = some .holding := by
  obtain ⟨st, hst, hc⟩ := h.stage_of hpoint
  rw [hst, hpermits st hc]

omit [DecidableEq Coro] in
theorem Inv.free_of (h : Inv s nodes) {c : Coro} {point : Point Coro Item} (hpoint : s.point c = point)
    (hpermits : ∀ st, Permits point st → st ≠ .holding) (hrun : s.mutex.pc c = .running) :
    stage s.mutex c = some .free := by
  obtain ⟨st, hst, hc⟩ := h.stage_of hpoint
  have hrunning : stageOf .running (s.mutex.owns c) = some st := by
    rw [← hst, stage, hrun]
  rw [hst, (stageOf_running hrunning).resolve_right (hpermits st hc)]

omit [DecidableEq Coro] in
theorem Inv.locked_holding (h : Inv s nodes) {c : Coro} {job : Job Item} (hpoint : s.point c = .locking job)
    (hrun : s.mutex.pc c = .running) : stage s.mutex c = some .holding := by
  obtain ⟨st, hst, hpermits⟩ := h.stage_of hpoint
  have hrunning : stageOf .running (s.mutex.owns c) = some st := by
    rw [← hst, stage, hrun]
  rw [hst, (stageOf_running hrunning).resolve_left]
  rintro rfl
  simp [Permits] at hpermits

omit [DecidableEq Coro] in
/-- Whoever stands where only the owner of the mutex can is that owner. -/
theorem Inv.holder_eq (h : Inv s nodes) {c p : Coro} {point : Point Coro Item} (hc : stage s.mutex c = some .holding)
    (hp : s.point p = point) (hpermits : ∀ st, Permits point st → st = .holding) : p = c := by
  by_contra hpc
  exact (h.only_holder hc hpc (h.holding_of hp hpermits)).1 rfl

/-- A step of one coroutine that leaves the list of awaiters alone. -/
theorem Inv.quiet (h : Inv s nodes) {mutex : AsyncMutex Coro} {queue : List Item} {c : Coro}
    {old moved : Point Coro Item} (hpoint : s.point c = old)
    (hmutex : ∃ trace waiters arrived, AsyncMutex.Inv trace mutex waiters arrived)
    (hother : ∀ d, d ≠ c → stage mutex d = stage s.mutex d)
    (hstage : ∃ st, stage mutex c = some st ∧ Permits moved st)
    (hnode : ∀ node, Point.node moved = some node →
      Point.node old = some node ∨ node ≠ 0 ∧ ∀ d, Point.node (s.point d) ≠ some node)
    (hhandled : ∀ node, Point.handled moved = some node → Point.handled old = some node)
    (hlisted : Point.listed moved = Point.listed old)
    (hresuming : ∀ node, old ≠ .resuming node ∧ moved ≠ .resuming node)
    (hcursor : Cursor s.cv moved)
    (hawaiting : ∀ d, old = .awaiting d → stage s.mutex d = some .queued)
    (hrechecks : ∀ node, moved = .lock (.recheck node) ∨ moved = .locking (.recheck node) →
      ∃ p, p ≠ c ∧ s.point p = .awaiting c)
    (hqueue : queue = s.queue ∨ stage s.mutex c = some .holding) (hsees : Sees queue moved)
    (hweight : nodes ≠ [] → queue.length + Point.weight old ≤ s.queue.length + Point.weight moved) :
    Inv { s.setPoint c moved with mutex, queue } nodes := by
  have hself := setPoint_self s c moved
  have hsame (d : Coro) (hdc : d ≠ c) := setPoint_other s hdc moved
  have hframes := ConditionVariable.frames_update Point.node h.frames fun node hn => hpoint ▸ hnode node hn
  have hresume (p : Coro) (node : Nat) :
      (s.setPoint c moved).point p = .resuming node ↔ s.point p = .resuming node :=
    setPoint_eq_iff (hresuming node).2 (hpoint ▸ (hresuming node).1) p
  have hstages := setPoint_forall (fun d point => ∃ st, stage mutex d = some st ∧ Permits point st) hstage
    fun d hdc => by rw [hother d hdc]; exact h.stages d
  have hhandles := setPoint_forall (fun d point => ∀ node, Point.handled point = some node → s.cv.awaiter node = some d)
    (fun node hn => h.handles c node (hpoint ▸ hhandled node hn)) fun d _ => h.handles d
  have hparked (d : Coro) : Point.listed ((s.setPoint c moved).point d) = Point.listed (s.point d) :=
    setPoint_same Point.listed (hpoint ▸ hlisted) d
  have hcursors : ∀ d, Cursor s.cv ((s.setPoint c moved).point d) :=
    setPoint_forall (fun _ => Cursor s.cv) hcursor fun d _ => h.cursor d
  refine ⟨hmutex, hstages, h.chain, h.nodup, hframes, hhandles, fun node => ?_,
    fun p node hp => h.apart p node ((hresume p node).mp hp), hcursors, fun d node hd => ?_,
    setPoint_forall (fun _ => Sees queue) hsees fun d hdc => ?_,
    fun hne => (h.covered hne).move c moved (hpoint ▸ hweight hne)⟩
  · simp only [hresume, hparked]
    exact h.parked node
  · by_cases hdc : d = c
    · rw [hdc, hself] at hd
      obtain ⟨p, hpc, hp⟩ := hrechecks node (hd.imp_right And.left)
      exact ⟨p, by rw [hsame p hpc, hdc, hp]⟩
    · rw [hsame d hdc, hother d hdc] at hd
      obtain ⟨p, hp⟩ := h.rechecks d node hd
      by_cases hpc : p = c
      · subst p
        rw [hpoint] at hp
        have hqueued := hawaiting d hp
        obtain ⟨st, hst, hpermits⟩ := h.stages d
        rw [hqueued] at hst
        cases hst
        rcases hd with hd | ⟨_, hd⟩
        · rw [hd] at hpermits
          cases hpermits
        · rw [hqueued] at hd
          cases hd
      · exact ⟨p, by rw [hsame p hpc, hp]⟩
  · rcases hqueue with rfl | hholding
    · exact h.sees d
    · obtain ⟨st, hst, hpermits⟩ := h.stages d
      exact hpermits.sees (h.only_holder hholding hdc hst).1 queue

/-- A step of the owner of the mutex that leaves the list of awaiters alone. -/
theorem Inv.hold (h : Inv s nodes) {queue : List Item} {c : Coro} {old moved : Point Coro Item}
    (hpoint : s.point c = old) (hpermits : ∀ st, Permits old st → st = .holding)
    (hmoved : ∀ st, Permits moved st ↔ st = .holding)
    (hnode : ∀ node, Point.node moved = some node → node ≠ 0 ∧ ∀ d, Point.node (s.point d) ≠ some node)
    (hlisted : Point.handled moved = none ∧ Point.listed moved = Point.listed old)
    (hresuming : ∀ node, old ≠ .resuming node ∧ moved ≠ .resuming node)
    (hawaiting : ∀ d, old = .awaiting d → stage s.mutex d = some .queued)
    (hcursor : Cursor s.cv moved) (hsees : Sees queue moved)
    (hweight : nodes ≠ [] → queue.length + Point.weight old ≤ s.queue.length + Point.weight moved) :
    Inv { s.setPoint c moved with queue } nodes := by
  have hholding := h.holding_of hpoint hpermits
  refine h.quiet hpoint h.mutex (fun _ _ => rfl) ⟨_, hholding, (hmoved _).mpr rfl⟩ (fun node hn => .inr (hnode node hn))
    (fun node hn => ?_) hlisted.2 hresuming hcursor hawaiting (fun node hn => ?_) (.inr hholding) hsees hweight
  · rw [hlisted.1] at hn
    cases hn
  · rcases hn with rfl | rfl
    · cases (hmoved .free).mp rfl
    · cases (hmoved .queued).mp (.inr (.inl rfl))

theorem Inv.continue_mutex (h : Inv s nodes) {mutex : AsyncMutex Coro} {e : MutexEvent Coro}
    (hstep : AsyncMutex.Step s.mutex e mutex) (hcont : Continues s.mutex mutex) : Inv { s with mutex } nodes := by
  obtain ⟨_, _, _, hmutex⟩ := h.mutex
  obtain ⟨_, _, hnext⟩ := step_inv hmutex hstep
  refine ⟨⟨_, _, _, hnext⟩, fun c => ?_, h.chain, h.nodup, h.frames, h.handles, h.parked, h.apart, h.cursor,
    fun c node hc => ?_, h.sees, h.covered⟩
  · obtain ⟨st, hst, hpermits⟩ := h.stages c
    obtain ⟨st', hst', hmoved⟩ := hmutex.stage_next hstep hcont hst
    exact ⟨st', hst', hpermits.next hmoved⟩
  · refine h.rechecks c node (hc.imp_right fun ⟨hpoint, hentering⟩ => ⟨hpoint, ?_⟩)
    obtain ⟨st, hst, _⟩ := h.stages c
    obtain ⟨st', hst', hmoved⟩ := hmutex.stage_next hstep hcont hst
    rw [show stage mutex c = some .entering from hentering] at hst'
    cases hst'
    cases hmoved with
    | stay => exact hst

/-- What a step of the owner of the mutex to the list or to the queue keeps. -/
theorem Inv.owner_moves (h : Inv s nodes) {c : Coro} {old : Point Coro Item} (hpoint : s.point c = old)
    (hholding : stage s.mutex c = some .holding) (hawaiting : ∀ d, old ≠ .awaiting d) (moved : Point Coro Item)
    (hmoved : Permits moved .holding) (cv : ConditionVariable Coro) (hcursor : Cursor cv moved) :
    (∀ d, ∃ st, stage s.mutex d = some st ∧ Permits ((s.setPoint c moved).point d) st) ∧
      (∀ d, Cursor cv ((s.setPoint c moved).point d)) ∧
      ∀ d a, (s.setPoint c moved).point d = .lock (.recheck a) ∨
        (s.setPoint c moved).point d = .locking (.recheck a) ∧ stage s.mutex d = some .entering →
          ∃ p, (s.setPoint c moved).point p = .awaiting d := by
  refine ⟨setPoint_forall (fun d point => ∃ st, stage s.mutex d = some st ∧ Permits point st)
    ⟨_, hholding, hmoved⟩ fun d _ => h.stages d, setPoint_forall (fun _ => Cursor cv) hcursor fun d hdc => ?_,
    fun d a hd => ?_⟩
  · obtain ⟨st, hst, hpermits⟩ := h.stages d
    exact hpermits.cursor (h.only_holder hholding hdc hst).1 cv
  · have hdc : d ≠ c := by
      rintro rfl
      rw [setPoint_self] at hd
      rcases hd with rfl | ⟨_, hentering⟩
      · cases hmoved
      · rw [hholding] at hentering
        cases hentering
    rw [setPoint_other s hdc] at hd
    obtain ⟨p, hp⟩ := h.rechecks d a hd
    have hpc : p ≠ c := by
      rintro rfl
      exact hawaiting d (hpoint.symm.trans hp)
    exact ⟨p, by rw [setPoint_other s hpc, hp]⟩

theorem Inv.links (h : Inv s nodes) {c : Coro} {node : Nat} {old moved : WaitPoint} {written : Option Nat}
    {cv : ConditionVariable Coro} (hpoint : s.point c = .waiting node old) (hempty : old = .checking → s.queue = [])
    (hlinks : ConditionVariable.Links c node s.cv old written cv moved) :
    Inv { s.setPoint c (.waiting node moved) with cv } (if moved = .linked then node :: nodes else nodes) := by
  have hholding := h.holding_of hpoint fun _ hst => hst
  have hself := setPoint_self s c (.waiting node moved)
  have hsame (d : Coro) (hdc : d ≠ c) := setPoint_other s hdc (.waiting node moved)
  obtain ⟨hstages, hcursors, hrechecks⟩ := h.owner_moves hpoint hholding (by simp) (.waiting node moved) rfl cv trivial
  have hframe (d : Coro) : Point.node ((s.setPoint c (.waiting node moved)).point d) = Point.node (s.point d) :=
    setPoint_same Point.node (by rw [hpoint]; rfl) d
  have hnode := h.frames c node (by rw [hpoint]; rfl)
  have hunlisted : ¬ ∃ d, Point.listed (s.point d) = some node := by
    rintro ⟨d, hd⟩
    obtain rfl := hnode.2 d (node_of_handled (handled_of_listed hd))
    rw [hpoint, listed_waiting, if_neg hlinks.point_ne.1] at hd
    cases hd
  obtain ⟨hnew, hfree⟩ := not_or.mp (mt (h.parked node).mpr hunlisted)
  have hqueue : s.queue = [] := by
    by_cases hold : old = .checking
    · exact hempty hold
    · have hsees := h.sees c
      rw [hpoint] at hsees
      exact hsees hold
  have hresume (p : Coro) (a : Nat) : (s.setPoint c (.waiting node moved)).point p = .resuming a ↔
      s.point p = .resuming a := setPoint_eq_iff (by simp) (by simp [hpoint]) p
  have hmovedNode {a : Nat} (ha : Point.handled (.waiting node moved : Point Coro Item) = some a) : a = node := by
    have hframe := node_of_handled ha
    cases hframe
    rfl
  have hhandles := hlinks.handles_update Point.handled h.handles (fun a ha => hmovedNode ha)
    (fun hold => by rw [hpoint, Point.handled, if_neg hold]) fun d hd => hnode.2 d (node_of_handled hd)
  refine ⟨h.mutex, hstages, hlinks.list h.chain hnode.1 hnew, ?_, fun d a hd => ?_, hhandles,
    fun a => ?_, fun p a hp => ?_, hcursors, hrechecks,
    setPoint_forall (fun _ => Sees s.queue) (fun _ => hqueue) fun d _ => h.sees d,
    fun _ => ⟨∅, by simp, by simp [hqueue, setPoint]⟩⟩
  · split
    · exact List.nodup_cons.mpr ⟨hnew, h.nodup⟩
    · exact h.nodup
  · simp only [hframe] at hd ⊢
    exact h.frames d a hd
  · simp only [hresume]
    have hlisted : (∃ d, Point.listed ((s.setPoint c (.waiting node moved)).point d) = some a) ↔
        (moved = .linked ∧ a = node) ∨ ∃ d, Point.listed (s.point d) = some a := by
      constructor
      · rintro ⟨d, hd⟩
        by_cases hdc : d = c
        · rw [hdc, hself, listed_waiting] at hd
          split at hd
          · cases hd
            exact .inl ⟨‹_›, rfl⟩
          · cases hd
        · rw [hsame d hdc] at hd
          exact .inr ⟨d, hd⟩
      · rintro (⟨rfl, rfl⟩ | ⟨d, hd⟩)
        · exact ⟨c, by rw [hself]; rfl⟩
        · have hdc : d ≠ c := by
            rintro rfl
            rw [hpoint, listed_waiting, if_neg hlinks.point_ne.1] at hd
            cases hd
          exact ⟨d, by rw [hsame d hdc, hd]⟩
    rw [hlisted, h.parked a, ← or_assoc]
    refine or_congr_left ?_
    split <;> simp [*]
  · obtain rfl := h.holder_eq hholding ((hresume p a).mp hp) fun _ hst => hst
    rw [hself] at hp
    cases hp

theorem Inv.exchange (h : Inv s nodes) {c : Coro} {cur target : Nat} (hpoint : s.point c = .exchanging cur target) :
    ∃ nodes', Inv { s.setPoint c (.resuming cur) with cv.head := target } nodes' := by
  have hholding := h.holding_of hpoint fun _ hst => hst
  have hcursor := h.cursor c
  rw [hpoint] at hcursor
  obtain ⟨rfl, hne, rfl⟩ := hcursor
  obtain ⟨rest, rfl, hrest⟩ := h.chain.cons_of_ne hne
  obtain ⟨hhead, hnodup⟩ := List.nodup_cons.mp h.nodup
  have hself := setPoint_self s c (.resuming s.cv.head)
  have hsame {d : Coro} (hdc : d ≠ c) := setPoint_other s hdc (.resuming s.cv.head)
  obtain ⟨hstages, hcursors, hrechecks⟩ := h.owner_moves hpoint hholding (by simp) (.resuming s.cv.head) rfl
    { s.cv with head := s.cv.next s.cv.head } trivial
  have hkeep {α : Type} (f : Point Coro Item → α) (hf : f (.resuming s.cv.head) = f (.exchanging s.cv.head _)) :=
    setPoint_same f (hpoint ▸ hf)
  have hresuming (p : Coro) (a : Nat) :
      (s.setPoint c (.resuming s.cv.head)).point p = .resuming a ↔ p = c ∧ a = s.cv.head := by
    by_cases hpc : p = c
    · rw [hpc, hself]
      simp [eq_comm]
    · rw [hsame hpc]
      exact iff_of_false (fun hp => hpc (h.holder_eq hholding hp fun _ hst => hst)) (fun hp => hpc hp.1)
  refine ⟨rest, h.mutex, hstages, hrest, hnodup, fun d a hd => ?_, fun d a hd => ?_, fun a => ?_,
    fun p a hp => ?_, hcursors, hrechecks, setPoint_forall (fun _ => Sees s.queue) trivial fun d _ => h.sees d,
    fun hrest => ?_⟩
  · rw [hkeep Point.node rfl] at hd
    refine ⟨(h.frames d a hd).1, fun e he => ?_⟩
    rw [hkeep Point.node rfl] at he
    exact (h.frames d a hd).2 e he
  · rw [hkeep Point.handled rfl] at hd
    exact h.handles d a hd
  · simp only [hkeep Point.listed rfl, hresuming]
    rw [h.parked a]
    have hnone : ¬ ∃ p, s.point p = .resuming a := by
      rintro ⟨p, hp⟩
      rw [h.holder_eq hholding hp fun _ hst => hst, hpoint] at hp
      cases hp
    simp [hnone, or_comm]
  · obtain ⟨_, rfl⟩ := (hresuming p a).mp hp
    exact hhead
  · exact (h.covered (List.cons_ne_nil _ _)).move c (.resuming s.cv.head) (by rw [hpoint]; exact Nat.le_refl _)

omit [DecidableEq Coro] in
/-- The handle that a notification has taken is one of a consumer asleep in `Wait`. -/
theorem Inv.sleeper (h : Inv s nodes) {c d : Coro} {node : Nat} (hpoint : s.point c = .resuming node)
    (hawaiter : s.cv.awaiter node = some d) : d ≠ c ∧ s.point d = .suspended node ∧ stage s.mutex d = some .free := by
  have hholding := h.holding_of hpoint fun _ hst => hst
  obtain ⟨d', hd'⟩ := (h.parked node).mpr (.inr ⟨c, hpoint⟩)
  have hhandle := h.handles d' node (handled_of_listed hd')
  rw [hawaiter] at hhandle
  cases hhandle
  have hdc : d ≠ c := by
    rintro rfl
    rw [hpoint] at hd'
    cases hd'
  obtain ⟨st, hst, hpermits⟩ := h.stages d
  have hnot := h.only_holder hholding hdc hst
  have hpointd : s.point d = .suspended node := by
    generalize s.point d = point at hd' hpermits
    cases point with
    | suspended node' => cases hd'; rfl
    | waiting node' wait => exact absurd hpermits hnot.1
    | _ => cases hd'
  rw [hpointd] at hpermits
  obtain rfl := hpermits.resolve_right hnot.2
  exact ⟨hdc, hpointd, hst⟩

theorem resumeAwaiter_of_suspended {c d : Coro} {node : Nat} {point : Point Coro Item} (hdc : d ≠ c)
    (hpointd : s.point d = .suspended node) :
    (s.setPoint c point).resumeAwaiter node d = (s.setPoint c point).setPoint d (.lock (.recheck node)) := by
  rw [resumeAwaiter, setPoint_other s hdc, hpointd]
  exact if_pos rfl

theorem Inv.resume (h : Inv s nodes) {c d : Coro} {node : Nat} (hpoint : s.point c = .resuming node)
    (hawaiter : s.cv.awaiter node = some d) : Inv ((s.setPoint c (.awaiting d)).resumeAwaiter node d) nodes := by
  have hholding := h.holding_of hpoint fun _ hst => hst
  obtain ⟨hdc, hpointd, hst⟩ := h.sleeper hpoint hawaiter
  rw [resumeAwaiter_of_suspended hdc hpointd]
  have hselfc : ((s.setPoint c (.awaiting d)).setPoint d (.lock (.recheck node))).point c = .awaiting d := by
    rw [setPoint_other _ hdc.symm, setPoint_self]
  have hselfd := setPoint_self (s.setPoint c (.awaiting d)) d (.lock (.recheck node))
  have hsame {b : Coro} (hbc : b ≠ c) (hbd : b ≠ d) :
      ((s.setPoint c (.awaiting d)).setPoint d (.lock (.recheck node))).point b = s.point b := by
    rw [setPoint_other _ hbd, setPoint_other s hbc]
  have hkeep (b : Coro) : Point.node (((s.setPoint c (.awaiting d)).setPoint d (.lock (.recheck node))).point b) =
      Point.node (s.point b) := by
    rw [setPoint_same Point.node, setPoint_same Point.node (by rw [hpoint]; rfl)]
    rw [setPoint_other s hdc, hpointd]
    rfl
  have hnone : ∀ p a, ((s.setPoint c (.awaiting d)).setPoint d (.lock (.recheck node))).point p ≠ .resuming a :=
    setPoint_forall_two (fun _ point => ∀ a, point ≠ .resuming a) (by simp) (by simp) fun p hpc _ a hp =>
      hpc (h.holder_eq hholding hp fun _ hst => hst)
  have hlisted (b : Coro) (a : Nat) :
      Point.listed (((s.setPoint c (.awaiting d)).setPoint d (.lock (.recheck node))).point b) = some a ↔
        b ≠ d ∧ Point.listed (s.point b) = some a := by
    by_cases hbd : b = d
    · rw [hbd, hselfd]
      simp [Point.listed]
    · rw [setPoint_other _ hbd, setPoint_same Point.listed (by rw [hpoint]; rfl)]
      exact (and_iff_right hbd).symm
  refine ⟨h.mutex, setPoint_forall_two (fun b point => ∃ st, stage s.mutex b = some st ∧ Permits point st)
    ⟨_, hholding, rfl⟩ ⟨_, hst, rfl⟩ fun b _ _ => h.stages b, h.chain, h.nodup, fun b a hb => ?_,
    setPoint_forall_two (fun b point => ∀ a, Point.handled point = some a → s.cv.awaiter a = some b)
      (fun a ha => by cases ha) (fun a ha => by cases ha) fun b _ _ => h.handles b, fun a => ?_,
    fun p a hp => absurd hp (hnone p a),
    setPoint_forall_two (fun _ => Cursor s.cv) trivial trivial fun b _ _ => h.cursor b, fun b a hb => ?_,
    setPoint_forall_two (fun _ => Sees s.queue) trivial trivial fun b _ _ => h.sees b, fun hne => ?_⟩
  · simp only [hkeep] at hb ⊢
    exact h.frames b a hb
  · have hnotd : Point.listed (s.point d) = some node := by rw [hpointd]; rfl
    constructor
    · rintro ⟨b, hb⟩
      obtain ⟨hbd, hb⟩ := (hlisted b a).mp hb
      refine .inl (((h.parked a).mp ⟨b, hb⟩).resolve_right ?_)
      rintro ⟨p, hp⟩
      rw [h.holder_eq hholding hp fun _ hst => hst, hpoint] at hp
      cases hp
      exact hbd ((h.frames d node (node_of_handled (handled_of_listed hnotd))).2 b
        (node_of_handled (handled_of_listed hb)))
    · rintro (ha | ⟨p, hp⟩)
      · obtain ⟨b, hb⟩ := (h.parked a).mpr (.inl ha)
        refine ⟨b, (hlisted b a).mpr ⟨?_, hb⟩⟩
        rintro rfl
        rw [hnotd] at hb
        cases hb
        exact h.apart c node hpoint ha
      · exact absurd hp (hnone p a)
  · by_cases hbd : b = d
    · exact ⟨c, by rw [hselfc, hbd]⟩
    · have hbc : b ≠ c := by
        rintro rfl
        rw [hselfc] at hb
        simp at hb
      rw [hsame hbc hbd] at hb
      obtain ⟨p, hp⟩ := h.rechecks b a hb
      rw [h.holder_eq hholding hp fun _ hst => hst, hpoint] at hp
      cases hp
  · have hawake : Covered (s.setPoint d (.lock (.recheck node))).point (s.queue.length + 1) :=
      (h.covered hne).move d (.lock (.recheck node)) (by rw [hpointd]; exact Nat.le_refl _)
    have hmoved := hawake.move c (.awaiting d)
      (by rw [setPoint_other s hdc.symm, hpoint]; exact Nat.le_refl _)
    rwa [setPoint, Function.update_comm hdc] at hmoved

theorem Inv.begin_unlock (h : Inv s nodes) {c : Coro} {old moved : Point Coro Item} {mutex : AsyncMutex Coro}
    (hpoint : s.point c = old) (hstep : AsyncMutex.Step s.mutex .other mutex)
    (hholding : stage s.mutex c = some .holding) (hbegun : mutex.pc c ≠ .running)
    (hop : MutexPc.operation (mutex.pc c) = none) (hmoved : Permits moved .leaving)
    (hnode : ∀ node, Point.node moved = some node → Point.node old = some node)
    (hhandled : ∀ node, Point.handled moved = some node → Point.handled old = some node)
    (hlisted : Point.listed moved = Point.listed old) (hweight : Point.weight old = 0)
    (hresuming : ∀ node, old ≠ .resuming node) (hawaiting : ∀ d, old ≠ .awaiting d) :
    Inv { s.setPoint c moved with mutex } nodes := by
  obtain ⟨_, _, _, hmutex⟩ := h.mutex
  obtain ⟨_, _, hnext⟩ := step_inv hmutex hstep
  have hrun := (stageOf_holding_iff.mp hholding).1
  refine h.quiet hpoint ⟨_, _, _, hnext⟩ (fun d hdc => hmutex.begin_others hstep hrun hbegun hdc)
    ⟨.leaving, hmutex.begin_unlock hstep hholding hbegun hop, hmoved⟩ (fun node hn => .inl (hnode node hn)) hhandled
    hlisted (fun node => ⟨hresuming node, ?_⟩) ?_ (fun d hd => absurd hd (hawaiting d)) ?_ (.inl rfl) ?_ ?_
  · rintro rfl
    cases hmoved
  · exact hmoved.cursor (by simp) _
  · rintro node (rfl | rfl) <;> simp [Permits] at hmoved
  · exact hmoved.sees (by simp) _
  · rw [hweight]
    exact fun _ => Nat.le_add_right _ _

theorem step_inv (h : Inv s nodes) {e : QueueEvent Coro Item} {s' : ProducerConsumer Coro Item} (hstep : Step s e s') :
    ∃ nodes', Inv s' nodes' := by
  have hmutex := h.mutex
  have hcursor := h.cursor
  cases hstep with
  | produce c _ hpoint hrun | consume c hpoint hrun =>
      have hfree := h.free_of hpoint (by simp [Permits]) hrun
      exact ⟨_, h.quiet hpoint hmutex (fun _ _ => rfl) ⟨_, hfree, rfl⟩ (by simp [Point.node]) (by simp [Point.handled])
        rfl (by simp) trivial (by simp) (by simp) (.inl rfl) trivial (by simp [Point.weight])⟩
  | lock c job op mutex hpoint hrun hstep hbegun =>
      have hfree := h.free_of hpoint (by simp [Permits]) hrun
      obtain ⟨_, _, _, hinv⟩ := hmutex
      obtain ⟨_, _, hnext⟩ := AsyncMutex.step_inv hinv hstep
      have hmoved : mutex.pc c ≠ .running := by
        intro hsame
        rw [hsame] at hbegun
        cases hbegun
      refine ⟨_, h.quiet hpoint ⟨_, _, _, hnext⟩ (fun d hdc => hinv.begin_others hstep hrun hmoved hdc)
        ⟨_, begin_lock hstep hfree hbegun, .inl rfl⟩ (fun node hn => ?_) (by simp [Point.handled]) rfl (by simp)
        trivial (by simp) (fun node hn => ?_) (.inl rfl) trivial (fun _ => ?_)⟩
      · cases job <;> exact .inl hn
      · obtain rfl : job = .recheck node := by simpa using hn
        obtain ⟨p, hp⟩ := h.rechecks c node (.inl hpoint)
        refine ⟨p, ?_, hp⟩
        rintro rfl
        rw [hpoint] at hp
        cases hp
      · cases job <;> exact Nat.le_refl _
  | mutex e mutex hstep hcont => exact ⟨_, h.continue_mutex hstep hcont⟩
  | locked c job hpoint hrun =>
      have hst := h.locked_holding hpoint hrun
      have hentry : Permits (Job.entry job : Point Coro Item) .holding := by cases job <;> rfl
      refine ⟨_, h.quiet hpoint hmutex (fun _ _ => rfl) ⟨_, hst, hentry⟩ (fun node hn => .inl ?_) ?_ ?_ ?_ ?_ (by simp)
        ?_ (.inl rfl) ?_ ?_⟩
      all_goals cases job <;> simp_all [Job.entry, Point.node, Point.handled, Point.listed, Cursor, Sees, Point.weight]
  | push c _ hpoint | exchangeFails c _ _ hpoint =>
      exact ⟨_, h.hold hpoint (fun _ hst => hst) (fun _ => Iff.rfl) (by simp [Point.node]) ⟨rfl, rfl⟩ (by simp)
        (by simp) trivial trivial (by simp [Point.weight])⟩
  | load c hpoint =>
      exact ⟨_, h.hold hpoint (fun _ hst => hst) (fun _ => Iff.rfl) (by simp [Point.node]) ⟨rfl, rfl⟩ (by simp)
        (by simp) rfl trivial (by simp [Point.weight])⟩
  | notifyNone c hpoint =>
      have hnull := hcursor c
      rw [hpoint] at hnull
      have hnil := (chain_null_iff h.chain).mp hnull.symm
      exact ⟨_, h.hold hpoint (fun _ hst => hst) (fun _ => Iff.rfl) (by simp [Point.node]) ⟨rfl, rfl⟩ (by simp)
        (by simp) trivial trivial (fun hne => absurd hnil hne)⟩
  | readNext c cur hpoint hcur =>
      have hhead := hcursor c
      rw [hpoint] at hhead
      exact ⟨_, h.hold hpoint (fun _ hst => hst) (fun _ => Iff.rfl) (by simp [Point.node]) ⟨rfl, rfl⟩ (by simp)
        (by simp) ⟨hhead, hcur, rfl⟩ trivial (by simp [Point.weight])⟩
  | exchange c cur target hpoint hhead => exact h.exchange hpoint
  | resume c d node hpoint hawaiter => exact ⟨_, h.resume hpoint hawaiter⟩
  | resumeAborts c node hpoint hawaiter =>
      obtain ⟨d, hd⟩ := (h.parked node).mpr (.inr ⟨c, hpoint⟩)
      rw [h.handles d node (handled_of_listed hd)] at hawaiter
      cases hawaiter
  | resumed c d op hpoint hqueued =>
      obtain ⟨st, hst, _⟩ := h.stages d
      have hwaiting : stageOf (.waiting op) (s.mutex.owns d) = some st := by
        rw [← hst, stage, hqueued]
      obtain rfl := stageOf_waiting hwaiting
      exact ⟨_, h.hold hpoint (fun _ hst => hst) (fun _ => Iff.rfl) (by simp [Point.node]) ⟨rfl, rfl⟩ (by simp)
        (fun _ he => by cases he; exact hst) trivial trivial (by simp [Point.weight])⟩
  | enter c node hpoint hne hfresh =>
      exact ⟨_, h.hold hpoint (fun _ hst => hst) (fun _ => Iff.rfl) (by simpa [Point.node] using ⟨hne, hfresh⟩)
        ⟨rfl, rfl⟩ (by simp) (by simp) trivial (fun hwait => absurd rfl hwait) (by simp [Point.weight])⟩
  | waitReturns c node hpoint hqueue =>
      exact ⟨_, h.hold hpoint (fun _ hst => hst) (fun _ => Iff.rfl) (by simp [Point.node]) ⟨rfl, rfl⟩ (by simp)
        (by simp) trivial hqueue (by simp [Point.weight])⟩
  | links c node point point' written cv hpoint hempty hlinks => exact ⟨_, h.links hpoint hempty hlinks⟩
  | suspend c node mutex hpoint hrun hstep hbegun hop =>
      have hholding := h.holding_of hpoint fun _ hst => hst
      exact ⟨_, h.begin_unlock hpoint hstep hholding hbegun hop (.inr rfl) (fun _ hn => hn) (fun _ hn => hn) rfl rfl
        (by simp) (by simp)⟩
  | pop c item rest hpoint hqueue =>
      exact ⟨_, h.hold hpoint (fun _ hst => hst) (fun _ => Iff.rfl) (by simp [Point.node]) ⟨rfl, rfl⟩ (by simp)
        (by simp) trivial trivial (by simp [Point.weight, hqueue])⟩
  | unlock c mutex hpoint hrun hstep hbegun hop =>
      have hholding := h.holding_of hpoint fun _ hst => hst
      exact ⟨_, h.begin_unlock hpoint hstep hholding hbegun hop (.inr rfl) (by simp [Point.node])
        (by simp [Point.handled]) rfl rfl (by simp) (by simp)⟩

end Inv

end Libcold.ProducerConsumer
