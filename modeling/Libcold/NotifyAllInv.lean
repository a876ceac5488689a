import Libcold.NotifyAll

namespace Libcold.NotifyAll

open PointerChain

variable {Coro : Type} [DecidableEq Coro]

/-- The awaiter whose handle is set. -/
def CvPoint.handled : CvPoint → Option Nat
  | .waiting node point => if point = .checking then none else some node
  | .suspended node => some node
  | _ => none

/-- The awaiters that a loop has still to resume. -/
def Cursor (cv : ConditionVariable Coro) : CvPoint → List Nat → Prop
  | .resuming node, nodes => node ≠ 0 ∧ Chain 0 cv.next node nodes
  | .awaiting node, nodes => Chain 0 cv.next (cv.next node) nodes
  | .aborted, _ => False
  | _, nodes => nodes = []

/-- The invariant; `nodes` is what `head_` leads to, and `pending` what the
loops lead to. -/
structure Inv (s : NotifyAll Coro) (nodes : List Nat) (pending : Coro → List Nat) : Prop where
  chain : Chain 0 s.cv.next s.cv.head nodes
  nodup : nodes.Nodup
  frames : ∀ c node, CvPoint.node (s.point c) = some node →
    node ≠ 0 ∧ ∀ d, CvPoint.node (s.point d) = some node → d = c
  handles : ∀ c node, CvPoint.handled (s.point c) = some node → s.cv.awaiter node = some c
  parked : ∀ node, (∃ c, s.point c = .suspended node) ↔ node ∈ nodes ∨ ∃ p, node ∈ pending p
  apart : ∀ p node, node ∈ pending p → node ∉ nodes
  once : ∀ p, (pending p).Nodup
  separate : ∀ p q node, node ∈ pending p → node ∈ pending q → p = q
  cursor : ∀ p, Cursor s.cv (s.point p) (pending p)
  alive : ∀ p node, s.point p = .awaiting node → ∃ c, CvPoint.node (s.point c) = some node

/-- The steps that a loop has still to take for the awaiters before it. -/
def toGo : CvPoint → List Nat → Nat
  | .awaiting _, nodes => 2 * nodes.length + 1
  | _, nodes => 2 * nodes.length

/-- What a step means for the call of one coroutine. -/
structure Acts (p : Coro) (e : NotifyEvent Coro) (s s' : NotifyAll Coro) (nodes nodes' : List Nat) : Prop where
  resumes : e ≠ .took p → (resumedBy p [e]).map some ++ nodes'.map s'.cv.awaiter = nodes.map s.cv.awaiter
  loops : CvPoint.InLoop (s.point p) → e = .finished p ∨
    CvPoint.InLoop (s'.point p) ∧ loopSteps p [e] + toGo (s'.point p) nodes' = toGo (s.point p) nodes

section Points

omit [DecidableEq Coro]

theorem node_of_handled {point : CvPoint} {node : Nat} (h : CvPoint.handled point = some node) :
    CvPoint.node point = some node := by
  cases point <;> simp_all [CvPoint.handled, CvPoint.node]

theorem Cursor.congr {cv cv' : ConditionVariable Coro} {point : CvPoint} {nodes : List Nat}
    (h : Cursor cv point nodes) (hsame : ∀ a ∈ nodes, cv'.next a = cv.next a)
    (hnode : ∀ node, point = .awaiting node → cv'.next node = cv.next node) : Cursor cv' point nodes := by
  cases point with
  | resuming node => exact ⟨h.1, h.2.congr hsame⟩
  | awaiting node =>
      have hchain : Chain 0 cv.next (cv.next node) nodes := h
      rw [← hnode node rfl] at hchain
      exact hchain.congr hsame
  | _ => exact h

end Points

section Inv

variable {s : NotifyAll Coro} {nodes : List Nat} {pending : Coro → List Nat}

omit [DecidableEq Coro] in
theorem start_inv : Inv ({} : NotifyAll Coro) [] (fun _ => []) where
  chain := rfl
  nodup := List.nodup_nil
  frames c node h := by cases h
  handles c node h := by cases h
  parked node := by simp
  apart p node h := by cases h
  once p := List.nodup_nil
  separate p q node h := by cases h
  cursor p := rfl
  alive p node h := by cases h

omit [DecidableEq Coro] in
theorem Inv.setOwner (h : Inv s nodes pending) (owner : Option Coro) (unlocking : Coro → Bool) :
    Inv { s with owner, unlocking } nodes pending :=
  ⟨h.chain, h.nodup, h.frames, h.handles, h.parked, h.apart, h.once, h.separate, h.cursor, h.alive⟩

omit [DecidableEq Coro] in
theorem Inv.cursor_of (h : Inv s nodes pending) {c : Coro} {point : CvPoint} (hpoint : s.point c = point) :
    Cursor s.cv point (pending c) := hpoint ▸ h.cursor c

omit [DecidableEq Coro] in
/-- The awaiter of a coroutine that runs in `Wait` is in no list. -/
theorem Inv.unlisted (h : Inv s nodes pending) {c : Coro} {node : Nat} (hnode : CvPoint.node (s.point c) = some node)
    (hawake : s.point c ≠ .suspended node) : node ∉ nodes ∧ ∀ p, node ∉ pending p := by
  have hnone : ¬ ∃ d, s.point d = .suspended node := by
    rintro ⟨d, hd⟩
    obtain rfl := (h.frames c node hnode).2 d (by rw [hd]; rfl)
    exact hawake hd
  obtain ⟨hnodes, hpending⟩ := not_or.mp (mt (h.parked node).mpr hnone)
  exact ⟨hnodes, fun p hp => hpending ⟨p, hp⟩⟩

/-- A step of one coroutine that touches no awaiter. -/
theorem Inv.quiet (h : Inv s nodes pending) {c : Coro} {old moved : CvPoint} (hpoint : s.point c = old)
    (hnode : ∀ node, CvPoint.node moved = some node →
      CvPoint.node old = some node ∨ node ≠ 0 ∧ ∀ d, CvPoint.node (s.point d) ≠ some node)
    (hkeep : ∀ node, CvPoint.node old = some node →
      CvPoint.node moved = some node ∨ ∀ p, s.point p ≠ .awaiting node)
    (hhandled : ∀ node, CvPoint.handled moved = some node → CvPoint.handled old = some node)
    (hsuspended : ∀ node, moved ≠ .suspended node ∧ old ≠ .suspended node)
    (hcursor : Cursor s.cv moved (pending c)) (hawaiting : ∀ node, moved ≠ .awaiting node) :
    Inv (s.setPoint c moved) nodes pending := by
  have hself := setPoint_self s c moved
  have hsame {d : Coro} (hdc : d ≠ c) := setPoint_other s hdc moved
  have hframes := ConditionVariable.frames_update CvPoint.node h.frames fun node hn => hpoint ▸ hnode node hn
  have hhandles := setPoint_forall
    (fun d point => ∀ node, CvPoint.handled point = some node → s.cv.awaiter node = some d)
    (fun node hn => h.handles c node (hpoint ▸ hhandled node hn)) fun d _ => h.handles d
  have hasleep (node : Nat) := setPoint_eq_iff (hsuspended node).1 (hpoint ▸ (hsuspended node).2)
  refine ⟨h.chain, h.nodup, hframes, hhandles, fun node => ?_, h.apart, h.once, h.separate,
    setPoint_forall (fun p point => Cursor s.cv point (pending p)) hcursor fun p _ => h.cursor p, fun p node hp => ?_⟩
  · simp only [hasleep]
    exact h.parked node
  · have hpc : p ≠ c := by
      rintro rfl
      rw [hself] at hp
      exact hawaiting node hp
    rw [hsame hpc] at hp
    obtain ⟨d, hd⟩ := h.alive p node hp
    by_cases hdc : d = c
    · subst d
      exact ⟨c, by rw [hself]; exact (hkeep node (hpoint ▸ hd)).resolve_right fun hno => hno p hp⟩
    · exact ⟨d, by rw [hsame hdc, hd]⟩

/-- What holds of the frames and of the loops when a coroutine writes to its awaiter. -/
theorem Inv.links (h : Inv s nodes pending) {c : Coro} {node : Nat} {old moved : WaitPoint} {written : Option Nat}
    {cv : ConditionVariable Coro} (hpoint : s.point c = .waiting node old)
    (hlinks : ConditionVariable.Links c node s.cv old written cv moved)
    (hsurvive : (∃ p, s.point p = .awaiting node) → cv.next node = s.cv.next node) {point : CvPoint}
    (hmoved : point = .waiting node moved ∨ point = .suspended node) :
    (∀ d, CvPoint.node ((s.setPoint c point).point d) = CvPoint.node (s.point d)) ∧
      (∀ d a, CvPoint.handled ((s.setPoint c point).point d) = some a → cv.awaiter a = some d) ∧
      (∀ p, Cursor cv ((s.setPoint c point).point p) (pending p)) ∧
      ∀ p a, (s.setPoint c point).point p = .awaiting a → s.point p = .awaiting a := by
  have hnode : CvPoint.node point = some node := by rcases hmoved with rfl | rfl <;> rfl
  have hframe : CvPoint.node (s.point c) = some node := by rw [hpoint]; rfl
  obtain ⟨_, hpending⟩ := h.unlisted hframe (by simp [hpoint])
  have hhandles := hlinks.handles_update CvPoint.handled h.handles
    (fun a ha => Option.some.inj ((node_of_handled ha).symm.trans hnode))
    (fun hold => by rw [hpoint, CvPoint.handled, if_neg hold])
    fun d hd => (h.frames c node hframe).2 d (node_of_handled hd)
  refine ⟨setPoint_same CvPoint.node (hnode.trans hframe.symm), hhandles,
    setPoint_forall (fun p point => Cursor cv point (pending p)) ?_ fun p _ => ?_,
    setPoint_forall (fun p point => ∀ a, point = .awaiting a → s.point p = .awaiting a) ?_ fun _ _ _ hp => hp⟩
  · have hnil : pending c = [] := h.cursor_of hpoint
    rw [hnil]
    rcases hmoved with rfl | rfl <;> rfl
  · refine (h.cursor p).congr (fun a ha => hlinks.next_other ?_) fun a ha => ?_
    · rintro rfl
      exact hpending p ha
    · by_cases hanode : a = node
      · rw [hanode]
        exact hsurvive ⟨p, hanode ▸ ha⟩
      · exact hlinks.next_other hanode
  · rcases hmoved with rfl | rfl <;> simp

theorem Inv.write (h : Inv s nodes pending) {c : Coro} {node value : Nat} {old moved : WaitPoint}
    {cv : ConditionVariable Coro} (hpoint : s.point c = .waiting node old)
    (hlinks : ConditionVariable.Links c node s.cv old (some value) cv moved)
    (hsurvive : (∃ p, s.point p = .awaiting node) → value = s.cv.next node) :
    Inv { s.setPoint c (.waiting node moved) with cv } nodes pending := by
  obtain ⟨hframe, hhandles, hcursor, halive⟩ :=
    h.links hpoint hlinks (fun hp => hlinks.next_self.trans (hsurvive hp)) (.inl rfl)
  obtain ⟨hnodes, _⟩ := h.unlisted (by rw [hpoint]; rfl) (by simp [hpoint])
  have hchain := hlinks.chain h.chain hnodes
  have hhead : cv.head = s.cv.head := by cases hlinks <;> rfl
  refine ⟨hhead ▸ hchain, h.nodup, fun d a hd => ?_, hhandles, fun a => ?_, h.apart, h.once, h.separate, hcursor,
    fun p a hp => ?_⟩
  · simp only [hframe] at hd ⊢
    exact h.frames d a hd
  · have hasleep : ∀ d, (s.setPoint c (.waiting node moved)).point d = .suspended a ↔ s.point d = .suspended a :=
      setPoint_eq_iff (by simp) (by simp [hpoint])
    simp only [hasleep]
    exact h.parked a
  · obtain ⟨d, hd⟩ := h.alive p a (halive p a hp)
    exact ⟨d, by rw [hframe, hd]⟩

theorem Inv.link (h : Inv s nodes pending) {c : Coro} {node : Nat} {old moved : WaitPoint}
    {cv : ConditionVariable Coro} (hpoint : s.point c = .waiting node old)
    (hlinks : ConditionVariable.Links c node s.cv old none cv moved) (unlocking : Coro → Bool) :
    Inv { s.setPoint c (.suspended node) with cv, unlocking } (node :: nodes) pending := by
  obtain ⟨hframe, hhandles, hcursor, halive⟩ := h.links hpoint hlinks (fun _ => hlinks.next_self) (.inr rfl)
  have hnode : CvPoint.node (s.point c) = some node := by rw [hpoint]; rfl
  obtain ⟨hnodes, hpending⟩ := h.unlisted hnode (by simp [hpoint])
  have hlist := hlinks.list h.chain (h.frames c node hnode).1 hnodes
  obtain rfl : moved = .linked := by cases hlinks; rfl
  refine ⟨hlist, List.nodup_cons.mpr ⟨hnodes, h.nodup⟩, fun d a hd => ?_, hhandles, fun a => ?_, fun p a hp => ?_,
    h.once, h.separate, hcursor, fun p a hp => ?_⟩
  · simp only [hframe] at hd ⊢
    exact h.frames d a hd
  · rw [List.mem_cons, or_assoc, ← h.parked a]
    constructor
    · rintro ⟨d, hd⟩
      by_cases hdc : d = c
      · rw [hdc, setPoint_self] at hd
        cases hd
        exact .inl rfl
      · rw [setPoint_other s hdc] at hd
        exact .inr ⟨d, hd⟩
    · rintro (rfl | ⟨d, hd⟩)
      · exact ⟨c, setPoint_self s c _⟩
      · have hdc : d ≠ c := by
          rintro rfl
          rw [hpoint] at hd
          cases hd
        exact ⟨d, by rw [setPoint_other s hdc, hd]⟩
  · rw [List.mem_cons, not_or]
    refine ⟨?_, h.apart p a hp⟩
    rintro rfl
    exact hpending p hp
  · obtain ⟨d, hd⟩ := h.alive p a (halive p a hp)
    exact ⟨d, by rw [hframe, hd]⟩

theorem Inv.take (h : Inv s nodes pending) {p : Coro} (hpoint : s.point p = .loaded s.cv.head)
    (hhead : s.cv.head ≠ 0) : Inv { s.setPoint p (.resuming s.cv.head) with cv.head := 0 } []
      (Function.update pending p nodes) := by
  have hself := setPoint_self s p (.resuming s.cv.head)
  have hsame {q : Coro} (hqp : q ≠ p) := setPoint_other s hqp (.resuming s.cv.head)
  have hkeep {α : Type} (f : CvPoint → α) (hf : f (.resuming s.cv.head) = f (.loaded s.cv.head)) :=
    setPoint_same f (hpoint ▸ hf)
  have hnil : pending p = [] := h.cursor_of hpoint
  have htaken : Function.update pending p nodes p = nodes := Function.update_self _ _ _
  have hothers {q : Coro} (hqp : q ≠ p) : Function.update pending p nodes q = pending q :=
    Function.update_of_ne hqp _ _
  have hmem (q : Coro) (a : Nat) : a ∈ Function.update pending p nodes q ↔ q = p ∧ a ∈ nodes ∨ a ∈ pending q := by
    by_cases hqp : q = p
    · rw [hqp, htaken, hnil]
      simp
    · rw [hothers hqp]
      simp [hqp]
  have honces : ∀ q, (Function.update pending p nodes q).Nodup :=
    (Function.forall_update_iff pending fun _ => List.Nodup).mpr ⟨h.nodup, fun q _ => h.once q⟩
  refine ⟨rfl, List.nodup_nil, fun d a hd => ?_, fun d a hd => ?_, fun a => ?_, fun _ _ _ => List.not_mem_nil,
    honces, fun q r a hq hr => ?_, fun q => ?_, fun q a hq => ?_⟩
  · rw [hkeep CvPoint.node rfl] at hd
    refine ⟨(h.frames d a hd).1, fun e he => ?_⟩
    rw [hkeep CvPoint.node rfl] at he
    exact (h.frames d a hd).2 e he
  · rw [hkeep CvPoint.handled rfl] at hd
    exact h.handles d a hd
  · have hsuspended : ∀ d, (s.setPoint p (.resuming s.cv.head)).point d = .suspended a ↔ s.point d = .suspended a :=
      setPoint_eq_iff (by simp) (by simp [hpoint])
    simp only [hsuspended, hmem, h.parked a, exists_or, exists_and_right, exists_eq, true_and]
    simp
  · rw [hmem] at hq hr
    rcases hq with ⟨rfl, hq⟩ | hq
    · rcases hr with ⟨rfl, _⟩ | hr
      · rfl
      · exact absurd hq (h.apart r a hr)
    · rcases hr with ⟨rfl, hr⟩ | hr
      · exact absurd hr (h.apart q a hq)
      · exact h.separate q r a hq hr
  · by_cases hqp : q = p
    · rw [hqp, hself, htaken]
      exact ⟨hhead, h.chain⟩
    · rw [hsame hqp, hothers hqp]
      exact (h.cursor q).congr (fun _ _ => rfl) fun _ _ => rfl
  · have hqp : q ≠ p := by
      rintro rfl
      rw [hself] at hq
      cases hq
    rw [hsame hqp] at hq
    obtain ⟨d, hd⟩ := h.alive q a hq
    exact ⟨d, by rw [hkeep CvPoint.node rfl, hd]⟩

omit [DecidableEq Coro] in
theorem Inv.pending_nil (h : Inv s nodes pending) {p : Coro} (hnot : ¬ CvPoint.InLoop (s.point p)) :
    pending p = [] := by
  have hcursor := h.cursor p
  cases hpoint : s.point p with
  | resuming | awaiting =>
      rw [hpoint] at hnot
      exact absurd trivial hnot
  | aborted =>
      rw [hpoint] at hcursor
      exact hcursor.elim
  | _ =>
      rw [hpoint] at hcursor
      exact hcursor

omit [DecidableEq Coro] in
/-- A loop that is about to resume a coroutine finds it suspended. -/
theorem Inv.sleeper (h : Inv s nodes pending) {p : Coro} {node : Nat} (hpoint : s.point p = .resuming node) :
    ∃ rest c, pending p = node :: rest ∧ Chain 0 s.cv.next (s.cv.next node) rest ∧ s.cv.awaiter node = some c ∧
      s.point c = .suspended node := by
  obtain ⟨hne, hchain⟩ : node ≠ 0 ∧ Chain 0 s.cv.next node (pending p) := h.cursor_of hpoint
  obtain ⟨rest, hpending, hrest⟩ := hchain.cons_of_ne hne
  obtain ⟨c, hc⟩ := (h.parked node).mpr (.inr ⟨p, by rw [hpending]; exact List.mem_cons_self⟩)
  exact ⟨rest, c, hpending, hrest, h.handles c node (by rw [hc]; rfl), hc⟩

theorem Inv.resume (h : Inv s nodes pending) {p c : Coro} {node : Nat} {rest : List Nat}
    (hpoint : s.point p = .resuming node) (hpending : pending p = node :: rest)
    (hrest : Chain 0 s.cv.next (s.cv.next node) rest) (hsuspended : s.point c = .suspended node) :
    Inv ((s.setPoint p (.awaiting node)).setPoint c (.relocking node)) nodes (Function.update pending p rest) := by
  have hcp : c ≠ p := by
    rintro rfl
    rw [hpoint] at hsuspended
    cases hsuspended
  have hselfc := setPoint_self (s.setPoint p (.awaiting node)) c (.relocking node)
  have hkeep (d : Coro) : CvPoint.node (((s.setPoint p (.awaiting node)).setPoint c (.relocking node)).point d) =
      CvPoint.node (s.point d) := by
    rw [setPoint_same CvPoint.node, setPoint_same CvPoint.node (by rw [hpoint]; rfl)]
    rw [setPoint_other s hcp, hsuspended]
    rfl
  have hnode : node ∈ pending p := by rw [hpending]; exact List.mem_cons_self
  have honce := h.once p
  rw [hpending, List.nodup_cons] at honce
  have hself : Function.update pending p rest p = rest := Function.update_self _ _ _
  have hothers {q : Coro} (hqp : q ≠ p) : Function.update pending p rest q = pending q :=
    Function.update_of_ne hqp _ _
  have hmem (q : Coro) (a : Nat) : a ∈ Function.update pending p rest q ↔ a ≠ node ∧ a ∈ pending q := by
    by_cases hqp : q = p
    · rw [hqp, hself, hpending, List.mem_cons]
      refine ⟨fun ha => ⟨?_, .inr ha⟩, fun ha => ha.2.resolve_left ha.1⟩
      rintro rfl
      exact honce.1 ha
    · rw [hothers hqp]
      refine ⟨fun ha => ⟨?_, ha⟩, And.right⟩
      rintro rfl
      exact hqp (h.separate q p a ha hnode)
  have hasleep (d : Coro) (a : Nat) :
      ((s.setPoint p (.awaiting node)).setPoint c (.relocking node)).point d = .suspended a ↔
        a ≠ node ∧ s.point d = .suspended a := by
    by_cases hdc : d = c
    · rw [hdc, hselfc, hsuspended]
      simp [eq_comm]
    · rw [setPoint_other _ hdc]
      have hpoints : (s.setPoint p (.awaiting node)).point d = .suspended a ↔ s.point d = .suspended a :=
        setPoint_eq_iff (by simp) (by simp [hpoint]) d
      rw [hpoints]
      refine ⟨fun hd => ⟨?_, hd⟩, And.right⟩
      rintro rfl
      exact hdc ((h.frames c a (by rw [hsuspended]; rfl)).2 d (by rw [hd]; rfl))
  have hnil : pending c = [] := h.cursor_of hsuspended
  have honces : ∀ q, (Function.update pending p rest q).Nodup :=
    (Function.forall_update_iff pending fun _ => List.Nodup).mpr ⟨honce.2, fun q _ => h.once q⟩
  have halive : ∀ q a, ((s.setPoint p (.awaiting node)).setPoint c (.relocking node)).point q = .awaiting a →
      ∃ d, CvPoint.node (s.point d) = some a :=
    setPoint_forall_two (fun _ point => ∀ a, point = .awaiting a → ∃ d, CvPoint.node (s.point d) = some a)
      (fun a ha => ⟨c, by rw [hsuspended]; cases ha; rfl⟩) (by simp) fun q _ _ => h.alive q
  refine ⟨h.chain, h.nodup, fun d a hd => ?_,
    setPoint_forall_two (fun d point => ∀ a, CvPoint.handled point = some a → s.cv.awaiter a = some d)
      (fun a ha => by cases ha) (fun a ha => by cases ha) fun d _ _ => h.handles d, fun a => ?_,
    fun q a hq => h.apart q a ((hmem q a).mp hq).2, honces,
    fun q r a hq hr => h.separate q r a ((hmem q a).mp hq).2 ((hmem r a).mp hr).2,
    setPoint_forall_two (fun q point => Cursor s.cv point (Function.update pending p rest q)) ?_ ?_ fun q hqp _ => ?_,
    fun q a hq => ?_⟩
  · simp only [hkeep] at hd ⊢
    exact h.frames d a hd
  · simp only [hasleep, hmem, exists_and_left]
    rw [h.parked a, and_or_left]
    refine or_congr_left (and_iff_right_of_imp fun ha => ?_)
    rintro rfl
    exact h.apart p a hnode ha
  · rw [hself]
    exact hrest
  · rw [hothers hcp, hnil]
    rfl
  · rw [hothers hqp]
    exact h.cursor q
  · obtain ⟨d, hd⟩ := halive q a hq
    exact ⟨d, by rw [hkeep, hd]⟩

theorem acts_idle {p : Coro} {e : NotifyEvent Coro} {s' : NotifyAll Coro} {l : List Nat}
    (hresumed : resumedBy p [e] = []) (hsteps : loopSteps p [e] = 0)
    (hpoint : CvPoint.InLoop (s.point p) → s'.point p = s.point p)
    (hawaiter : ∀ a ∈ l, s'.cv.awaiter a = s.cv.awaiter a) : Acts p e s s' l l where
  resumes _ := by rw [hresumed, List.map_nil, List.nil_append, List.map_congr_left hawaiter]
  loops hloop := by
    rw [hpoint hloop, hsteps, Nat.zero_add]
    exact .inr ⟨hloop, rfl⟩

/-- A step outside the loops. -/
theorem acts_setPoint {e : NotifyEvent Coro} {s' : NotifyAll Coro} {c : Coro} {old moved : CvPoint} {l : List Nat}
    (hpoint : s.point c = old) (hold : ¬ CvPoint.InLoop old) (p : Coro) (hresumed : resumedBy p [e] = [])
    (hsteps : loopSteps p [e] = 0) (hmoved : s'.point = (s.setPoint c moved).point)
    (hawaiter : ∀ a ∈ l, s'.cv.awaiter a = s.cv.awaiter a) : Acts p e s s' l l := by
  refine acts_idle hresumed hsteps (fun hloop => ?_) hawaiter
  rw [hmoved]
  refine setPoint_other s ?_ moved
  rintro rfl
  exact hold (hpoint ▸ hloop)

theorem acts_other {p q : Coro} (hpq : p ≠ q) (c : Coro) :
    resumedBy p [.resumed q c] = [] ∧ loopSteps p [.resumed q c] = 0 ∧ loopSteps p [.advanced q] = 0 := by
  simp [resumedBy, loopSteps, hpq.symm]

theorem step_inv (h : Inv s nodes pending) {e : NotifyEvent Coro} {s' : NotifyAll Coro} (hguard : LinksSurvive s e)
    (hstep : Step s e s') : ∃ nodes' pending', Inv s' nodes' pending' ∧
      (∀ p, Acts p e s s' (pending p) (pending' p)) ∧
      ∀ p, e = .took p → pending' p = nodes ∧ s'.cv.awaiter = s.cv.awaiter := by
  cases hstep with
  | acquire | release | unlock =>
      exact ⟨_, _, h.setOwner _ _, fun p => acts_idle rfl rfl (fun _ => rfl) fun _ _ => rfl, fun p he => by cases he⟩
  | wait c node hpoint howns hne hfresh =>
      have hnil : pending c = [] := h.cursor_of hpoint
      exact ⟨_, _, h.quiet hpoint (by simpa [CvPoint.node] using ⟨hne, hfresh⟩) (by simp [CvPoint.node])
        (by simp [CvPoint.handled]) (by simp) hnil (by simp),
        fun p => acts_setPoint hpoint id p rfl rfl rfl fun _ _ => rfl, fun p he => by cases he⟩
  | leave c node hpoint =>
      have hnil : pending c = [] := h.cursor_of hpoint
      refine ⟨_, _, h.quiet hpoint (by simp [CvPoint.node]) (fun a ha => .inr ?_) (by simp [CvPoint.handled]) (by simp)
        hnil (by simp), fun p => acts_setPoint hpoint id p rfl rfl rfl fun _ _ => rfl, fun p he => by cases he⟩
      cases ha
      exact hguard
  | write c node point point' value cv hpoint hlinks =>
      obtain ⟨_, hpending⟩ := h.unlisted (by rw [hpoint]; rfl) (by simp [hpoint])
      refine ⟨_, _, h.write hpoint hlinks hguard, fun p => acts_setPoint hpoint id p rfl rfl rfl fun a ha => ?_,
        fun p he => by cases he⟩
      refine hlinks.awaiter_other ?_
      rintro rfl
      exact hpending p ha
  | link c node point point' cv hpoint hlinks =>
      obtain ⟨_, hpending⟩ := h.unlisted (by rw [hpoint]; rfl) (by simp [hpoint])
      refine ⟨_, _, h.link hpoint hlinks _, fun p => acts_setPoint hpoint id p rfl rfl rfl fun a ha => ?_,
        fun p he => by cases he⟩
      refine hlinks.awaiter_other ?_
      rintro rfl
      exact hpending p ha
  | relock c node hpoint hfree =>
      have hnil : pending c = [] := h.cursor_of hpoint
      have hmoved : Inv (s.setPoint c (.waiting node .checking)) nodes pending :=
        h.quiet hpoint (by simp [CvPoint.node]) (by simp [CvPoint.node]) (by simp [CvPoint.handled]) (by simp) hnil
          (by simp)
      exact ⟨_, _, hmoved.setOwner _ _, fun p => acts_setPoint hpoint id p rfl rfl rfl fun _ _ => rfl,
        fun p he => by cases he⟩
  | notify q hpoint | load q hpoint | takeFails q _ hpoint | notifyNone q hpoint =>
      have hnil : pending q = [] := h.cursor_of hpoint
      exact ⟨_, _, h.quiet hpoint (by simp [CvPoint.node]) (by simp [CvPoint.node]) (by simp [CvPoint.handled])
        (by simp) hnil (by simp), fun p => acts_setPoint hpoint id p rfl rfl rfl fun _ _ => rfl,
        fun p he => by cases he⟩
  | take q cur hpoint hcur hhead =>
      subst cur
      refine ⟨_, _, h.take hpoint hcur, fun p => ?_, fun p he => ?_⟩
      · by_cases hpq : p = q
        · subst p
          refine ⟨fun hne => absurd rfl hne, fun hloop => ?_⟩
          rw [hpoint] at hloop
          exact hloop.elim
        · rw [Function.update_of_ne hpq]
          exact acts_setPoint hpoint id p rfl rfl rfl fun _ _ => rfl
      · cases he
        exact ⟨Function.update_self _ _ _, rfl⟩
  | resume q c node hpoint hawaiter hsuspended =>
      obtain ⟨rest, _, hpending, hrest, _, _⟩ := h.sleeper hpoint
      refine ⟨_, _, h.resume hpoint hpending hrest hsuspended, fun p => ?_, fun p he => by cases he⟩
      have hcq : c ≠ q := by
        rintro rfl
        rw [hpoint] at hsuspended
        cases hsuspended
      by_cases hpq : p = q
      · subst p
        have hawaiting : ((s.setPoint q (.awaiting node)).setPoint c (.relocking node)).point q = .awaiting node := by
          rw [setPoint_other _ hcq.symm, setPoint_self]
        rw [Function.update_self, hpending]
        refine ⟨fun _ => ?_, fun _ => .inr ?_⟩
        · simp [resumedBy, hawaiter, setPoint]
        · rw [hawaiting, hpoint]
          refine ⟨trivial, ?_⟩
          simp [loopSteps, toGo]
          omega
      · obtain ⟨hresumed, hsteps, _⟩ := acts_other hpq c
        rw [Function.update_of_ne hpq]
        refine acts_idle hresumed hsteps (fun hloop => ?_) fun _ _ => rfl
        have hpc : p ≠ c := by
          rintro rfl
          rw [hsuspended] at hloop
          exact hloop
        rw [setPoint_other _ hpc, setPoint_other s hpq]
  | resumeAborts q node hpoint hnone =>
      obtain ⟨_, c, _, _, hawaiter, hc⟩ := h.sleeper hpoint
      exact absurd hc (hnone c hawaiter)
  | advance q c node hpoint hframe hnext =>
      refine ⟨_, _, h.quiet hpoint (by simp [CvPoint.node]) (by simp [CvPoint.node]) (by simp [CvPoint.handled])
        (by simp) ⟨hnext, h.cursor_of hpoint⟩ (by simp), fun p => ?_, fun p he => by cases he⟩
      by_cases hpq : p = q
      · subst p
        refine ⟨fun _ => rfl, fun _ => .inr ?_⟩
        rw [setPoint_self, hpoint]
        refine ⟨trivial, ?_⟩
        simp [loopSteps, toGo]
        omega
      · exact acts_idle rfl (acts_other hpq c).2.2 (fun _ => setPoint_other s hpq _) fun _ _ => rfl
  | finish q c node hpoint hframe hnext =>
      have hchain : Chain 0 s.cv.next (s.cv.next node) (pending q) := h.cursor_of hpoint
      have hnil := (chain_null_iff hchain).mp hnext
      refine ⟨_, _, h.quiet hpoint (by simp [CvPoint.node]) (by simp [CvPoint.node]) (by simp [CvPoint.handled])
        (by simp) hnil (by simp), fun p => ?_, fun p he => by cases he⟩
      by_cases hpq : p = q
      · subst p
        exact ⟨fun _ => rfl, fun _ => .inl rfl⟩
      · exact acts_idle rfl rfl (fun _ => setPoint_other s hpq _) fun _ _ => rfl
  | advanceAborts q node hpoint hgone =>
      obtain ⟨c, hc⟩ := h.alive q node hpoint
      exact absurd hc (hgone c)

end Inv

end Libcold.NotifyAll
