import Libcold.NotifyAllInv
import Libcold.Runs
import Mathlib.Data.List.Nodup
import Mathlib.Data.Set.List

namespace Libcold.NotifyAll

open PointerChain Runs

variable {Coro : Type} [DecidableEq Coro]

section Inv

variable {s : NotifyAll Coro} {nodes : List Nat} {pending : Coro → List Nat}

theorem run_inv {trace : List (NotifyEvent Coro)} (h : Run (Guarded LinksSurvive Step) {} trace s) :
    ∃ nodes pending, Inv s nodes pending := by
  induction h with
  | stop => exact ⟨_, _, start_inv⟩
  | next _ taken ih =>
      obtain ⟨_, _, hs⟩ := ih
      obtain ⟨nodes', pending', hinv, _⟩ := step_inv hs taken.1 taken.2
      exact ⟨nodes', pending', hinv⟩

omit [DecidableEq Coro] in
theorem Inv.listed (h : Inv s nodes pending) {node : Nat} (hmem : node ∈ nodes) :
    ∃ c, s.point c = .suspended node ∧ s.cv.awaiter node = some c := by
  obtain ⟨c, hc⟩ := (h.parked node).mpr (.inl hmem)
  exact ⟨c, hc, h.handles c node (by rw [hc]; rfl)⟩

omit [DecidableEq Coro] in
/-- The coroutines whose awaiters are in the list. -/
theorem Inv.waiters (h : Inv s nodes pending) : ∃ taken : List Coro, nodes.map s.cv.awaiter = taken.map some ∧
    taken.Nodup ∧ ∀ c, c ∈ taken ↔ ∃ node ∈ nodes, s.point c = .suspended node := by
  obtain ⟨taken, htaken⟩ : nodes.map s.cv.awaiter ∈ Set.range (List.map (some : Coro → Option Coro)) := by
    rw [Set.range_list_map]
    intro a ha
    obtain ⟨node, hmem, rfl⟩ := List.mem_map.mp ha
    obtain ⟨c, _, hawaiter⟩ := h.listed hmem
    exact ⟨c, hawaiter.symm⟩
  have hasleep {c : Coro} {node : Nat} (hnode : node ∈ nodes) :
      s.cv.awaiter node = some c ↔ s.point c = .suspended node := by
    obtain ⟨d, hd, hawaiter⟩ := h.listed hnode
    refine ⟨fun hc => ?_, fun hc => h.handles c node (by rw [hc]; rfl)⟩
    rw [hawaiter] at hc
    cases hc
    exact hd
  refine ⟨taken, htaken.symm, ?_, fun c => ?_⟩
  · rw [← List.nodup_map_iff (Option.some_injective Coro), htaken]
    refine List.Nodup.map_on (fun a ha b hb hab => ?_) h.nodup
    obtain ⟨c, hc, hawaiter⟩ := h.listed ha
    rw [hab] at hawaiter
    have hcb := (hasleep hb).mp hawaiter
    rw [hc] at hcb
    cases hcb
    rfl
  · rw [← List.mem_map_of_injective (Option.some_injective Coro), htaken, List.mem_map]
    exact exists_congr fun node => and_congr_right fun hnode => hasleep hnode

theorem took_loaded {p : Coro} {t : NotifyAll Coro} (h : Step s (.took p) t) :
    s.point p = .loaded s.cv.head ∧ s.cv.head ≠ 0 ∧ t.cv.awaiter = s.cv.awaiter ∧
      t.point p = .resuming s.cv.head := by
  cases h with
  | take _ cur hpoint hcur hhead =>
      subst hhead
      exact ⟨hpoint, hcur, rfl, setPoint_self s p _⟩

/-- As long as a call of `NotifyAll` lasts, what it has resumed and what its
loop leads to are together what it took. -/
theorem call_inv {p : Coro} {t u : NotifyAll Coro} {taken : List Coro} {after : List (NotifyEvent Coro)}
    (hinv : Inv t nodes pending) (hpending : (pending p).map t.cv.awaiter = taken.map some)
    (hloop : CvPoint.InLoop (t.point p)) (htoGo : toGo (t.point p) (pending p) = 2 * taken.length)
    (h : Run (Guarded LinksSurvive Step) t after u) (hcall : .finished p ∉ after) :
    ∃ nodes' pending', Inv u nodes' pending' ∧ CvPoint.InLoop (u.point p) ∧
      (resumedBy p after).map some ++ (pending' p).map u.cv.awaiter = taken.map some ∧
      loopSteps p after + toGo (u.point p) (pending' p) = 2 * taken.length := by
  induction h with
  | stop => exact ⟨nodes, pending, hinv, hloop, hpending, by rw [← htoGo]; exact Nat.zero_add _⟩
  | @next trace s v e _ taken' ih =>
      rw [List.mem_append, not_or] at hcall
      obtain ⟨nodes₁, pending₁, hs, hloop₁, hresumed, hsteps⟩ := ih hcall.1
      obtain ⟨nodes₂, pending₂, hv, hacts, _⟩ := step_inv hs taken'.1 taken'.2
      have hnot : e ≠ .took p := by
        rintro rfl
        rw [(took_loaded taken'.2).1] at hloop₁
        exact hloop₁
      have hresumes := (hacts p).resumes hnot
      obtain ⟨hloop₂, hgo⟩ := ((hacts p).loops hloop₁).resolve_left fun he => hcall.2 (by rw [he]; simp)
      have hresumedBy : resumedBy p (trace ++ [e]) = resumedBy p trace ++ resumedBy p [e] := List.filterMap_append
      have hloopSteps : loopSteps p (trace ++ [e]) = loopSteps p trace + loopSteps p [e] := List.countP_append
      refine ⟨nodes₂, pending₂, hv, hloop₂, ?_, ?_⟩
      · rw [hresumedBy, List.map_append, List.append_assoc, hresumes, hresumed]
      · rw [hloopSteps, Nat.add_assoc, hgo, hsteps]

end Inv

/-- The next steps of the loop of a call, and its end. -/
def OfCall (p : Coro) : NotifyEvent Coro → Prop
  | .resumed q _ | .advanced q | .finished q => q = p
  | _ => False

/-- A call of `NotifyAll` that lasts: it has resumed a part of those it took, each
once and in the order of the list, it is not stuck, and when it ends it has
resumed them all. -/
structure Woken (p : Coro) (taken : List Coro) (after : List (NotifyEvent Coro)) (u : NotifyAll Coro) : Prop where
  once : resumedBy p after <+: taken
  steps : loopSteps p after ≤ 2 * taken.length
  goesOn : ∃ e v, OfCall p e ∧ Step u e v
  ends : ∀ v, Step u (.finished p) v → resumedBy p after = taken

theorem Inv.woken {nodes : List Nat} {pending : Coro → List Nat} {p : Coro} {taken : List Coro}
    {after : List (NotifyEvent Coro)} {u : NotifyAll Coro} (h : Inv u nodes pending)
    (hloop : CvPoint.InLoop (u.point p))
    (hresumed : (resumedBy p after).map some ++ (pending p).map u.cv.awaiter = taken.map some)
    (hsteps : loopSteps p after + toGo (u.point p) (pending p) = 2 * taken.length) : Woken p taken after u where
  once := by
    obtain ⟨first, second, heq, hfirst, _⟩ := List.map_eq_append_iff.mp hresumed.symm
    rw [heq, ← (List.map_inj_right fun _ _ he => Option.some.inj he).mp hfirst]
    exact List.prefix_append _ _
  steps := by omega
  goesOn := by
    cases hpoint : u.point p with
    | resuming node =>
        obtain ⟨_, c, _, _, hawaiter, hc⟩ := h.sleeper hpoint
        exact ⟨.resumed p c, _, rfl, .resume u p c node hpoint hawaiter hc⟩
    | awaiting node =>
        obtain ⟨c, hc⟩ := h.alive p node hpoint
        by_cases hnext : u.cv.next node = 0
        · exact ⟨.finished p, _, rfl, .finish u p c node hpoint hc hnext⟩
        · exact ⟨.advanced p, _, rfl, .advance u p c node hpoint hc hnext⟩
    | _ =>
        rw [hpoint] at hloop
        exact hloop.elim
  ends v hv := by
    cases hv with
    | notifyNone _ hpoint =>
        rw [hpoint] at hloop
        exact hloop.elim
    | finish _ c node hpoint hframe hnext =>
        have hchain : Chain 0 u.cv.next (u.cv.next node) (pending p) := h.cursor_of hpoint
        rw [(chain_null_iff hchain).mp hnext, List.map_nil, List.append_nil] at hresumed
        exact (List.map_inj_right fun _ _ he => Option.some.inj he).mp hresumed

/-- Where links survive, `NotifyAll` resumes each coroutine that is suspended in
`Wait` when it takes the list, once, and ends. -/
theorem notifyAll_wakes_each_once {before : List (NotifyEvent Coro)} {s t : NotifyAll Coro} {p : Coro}
    (hbefore : Run (Guarded LinksSurvive Step) {} before s) (htake : Step s (.took p) t) :
    ∃ taken : List Coro, taken.Nodup ∧ (∀ c ∈ taken, ∃ node, s.point c = .suspended node) ∧
      ((∀ q, ¬ CvPoint.InLoop (s.point q)) → ∀ c node, s.point c = .suspended node → c ∈ taken) ∧
      ∀ after u, Run (Guarded LinksSurvive Step) t after u → .finished p ∉ after → Woken p taken after u := by
  obtain ⟨nodes, pending, hs⟩ := run_inv hbefore
  obtain ⟨nodes', pending', ht, _, htook⟩ := step_inv hs (show LinksSurvive s (.took p) from trivial) htake
  obtain ⟨hpending, hawaiter⟩ := htook p rfl
  obtain ⟨taken, htaken, hnodup, hmem⟩ := hs.waiters
  obtain ⟨hpoint, _, _, hresuming⟩ := took_loaded htake
  refine ⟨taken, hnodup, fun c hc => ?_, fun hnone c node hc => ?_, fun after u hafter hcall => ?_⟩
  · obtain ⟨node, _, hnode⟩ := (hmem c).mp hc
    exact ⟨node, hnode⟩
  · rcases (hs.parked node).mp ⟨c, hc⟩ with hnode | ⟨q, hq⟩
    · exact (hmem c).mpr ⟨node, hnode, hc⟩
    · rw [hs.pending_nil (hnone q)] at hq
      cases hq
  · have hmap : (pending' p).map t.cv.awaiter = taken.map some := by rw [hpending, hawaiter, htaken]
    have hloop : CvPoint.InLoop (t.point p) := by rw [hresuming]; trivial
    have hgo : toGo (t.point p) (pending' p) = 2 * taken.length := by
      have hlength := congrArg List.length hmap
      rw [List.length_map, List.length_map] at hlength
      rw [hresuming, toGo, hlength]
      simp
    obtain ⟨_, _, hu, hlasts, hresumed, hsteps⟩ := call_inv ht hmap hloop hgo hafter hcall
    exact hu.woken hlasts hresumed hsteps

/-- Two coroutines are suspended when `NotifyAll` is called without the mutex. The
first that it resumes waits again, with no other link left to it. -/
theorem relinked_while_visited : ∃ (before after : List (NotifyEvent (Option Bool))) (s t u : NotifyAll (Option Bool)),
    Run (Guarded LinksSurvive Step) {} before s ∧ Step s (.took none) t ∧ (∀ q, ¬ CvPoint.InLoop (s.point q)) ∧
      s.point (some false) = .suspended 8 ∧ Run Step t (after ++ [.finished none]) u ∧ .finished none ∉ after ∧
      resumedBy none after = [some true] := by
  have hstart : Run (Guarded LinksSurvive Step) ({} : NotifyAll (Option Bool)) [] {} := .stop
  have hfirst := (hstart.next ⟨by trivial, Step.acquire _ (some false) rfl rfl⟩).next
    ⟨by trivial, Step.wait _ (some false) 8 rfl rfl (by decide) fun d hd => by cases hd⟩
  have hwrite := (hfirst.next ⟨(by rintro ⟨_ | _ | _, hp⟩ <;> cases hp),
    Step.write _ (some false) 8 _ _ _ _ rfl (.construct _)⟩).next
    ⟨(by rintro ⟨_ | _ | _, hp⟩ <;> cases hp), Step.write _ (some false) 8 _ _ _ _ rfl (.load _)⟩
  have hlinked := (hwrite.next ⟨by trivial, Step.link _ (some false) 8 _ _ _ rfl (.link _ rfl)⟩).next
    ⟨by trivial, Step.unlock _ (some false) rfl⟩
  have hsecond := (hlinked.next ⟨by trivial, Step.acquire _ (some true) rfl rfl⟩).next
    ⟨by trivial, Step.wait _ (some true) 16 rfl rfl (by decide) fun d hd => by rcases d with _ | _ | _ <;> cases hd⟩
  have hwrite' := (hsecond.next ⟨(by rintro ⟨_ | _ | _, hp⟩ <;> cases hp),
    Step.write _ (some true) 16 _ _ _ _ rfl (.construct _)⟩).next
    ⟨(by rintro ⟨_ | _ | _, hp⟩ <;> cases hp), Step.write _ (some true) 16 _ _ _ _ rfl (.load _)⟩
  have hlinked' := (hwrite'.next ⟨by trivial, Step.link _ (some true) 16 _ _ _ rfl (.link _ rfl)⟩).next
    ⟨by trivial, Step.unlock _ (some true) rfl⟩
  have hnotify := (hlinked'.next ⟨by trivial, Step.notify _ none rfl⟩).next ⟨by trivial, Step.load _ none rfl⟩
  refine ⟨_, [.resumed none (some true), .other, .writes 16 0, .writes 16 0, .other, .other], _, _, _, hnotify,
    Step.take _ none 16 rfl (by decide) rfl, fun q hq => ?_, rfl,
    run_cons_iff.mpr ⟨_, Step.resume _ none (some true) 16 rfl rfl rfl,
      run_cons_iff.mpr ⟨_, Step.relock _ (some true) 16 rfl rfl,
      run_cons_iff.mpr ⟨_, Step.write _ (some true) 16 _ _ _ _ rfl (.construct _),
      run_cons_iff.mpr ⟨_, Step.write _ (some true) 16 _ _ _ _ rfl (.load _),
      run_cons_iff.mpr ⟨_, Step.link _ (some true) 16 _ _ _ rfl (.link _ rfl),
      run_cons_iff.mpr ⟨_, Step.unlock _ (some true) rfl,
      run_cons_iff.mpr ⟨_, Step.finish _ none (some true) 16 rfl rfl rfl, .stop⟩⟩⟩⟩⟩⟩⟩, by simp, rfl⟩
  rcases q with _ | _ | _ <;> exact hq

/-- In the run in which the first coroutine waits again, the second is never resumed. -/
theorem notifyAll_forgets : ¬ ∀ (before after : List (NotifyEvent (Option Bool))) (s t u : NotifyAll (Option Bool)) p,
    Run Step {} before s → Step s (.took p) t → (∀ q, ¬ CvPoint.InLoop (s.point q)) →
      Run Step t (after ++ [.finished p]) u → .finished p ∉ after →
      ∀ c node, s.point c = .suspended node → (resumedBy p after).count c = 1 := by
  intro h
  obtain ⟨before, after, s, t, u, hbefore, htake, hnone, hasleep, hafter, hcall, hresumed⟩ := relinked_while_visited
  have hrun := hbefore.mono fun _ _ _ hstep => hstep.2
  have hcount := h before after s t u none hrun htake hnone hafter hcall _ _ hasleep
  rw [hresumed] at hcount
  cases hcount

/-- The same call wakes both where links survive. -/
theorem notifyAll_wakes_two : ∃ (before : List (NotifyEvent (Option Bool))) (s t : NotifyAll (Option Bool)),
    Run (Guarded LinksSurvive Step) {} before s ∧ Step s (.took none) t ∧ ∃ taken : List (Option Bool),
      taken.Nodup ∧ some false ∈ taken ∧
      ∀ after u, Run (Guarded LinksSurvive Step) t after u → .finished none ∉ after → Woken none taken after u := by
  obtain ⟨before, _, s, t, _, hbefore, htake, hnone, hasleep, _⟩ := relinked_while_visited
  obtain ⟨taken, hnodup, _, hall, hwoken⟩ := notifyAll_wakes_each_once hbefore htake
  exact ⟨before, s, t, hbefore, htake, taken, hnodup, hall hnone _ _ hasleep, hwoken⟩

section Owners

/-- Whoever calls `NotifyAll` owns the mutex. -/
def CallsOwned (s : NotifyAll Coro) : NotifyEvent Coro → Prop
  | .notifies p => s.owner = some p
  | _ => True

def CvPoint.Owning : CvPoint → Prop
  | .waiting _ _ | .notifying | .loaded _ | .resuming _ | .awaiting _ => True
  | _ => False

structure Owned (s : NotifyAll Coro) : Prop where
  owning : ∀ c, CvPoint.Owning (s.point c) → s.owner = some c
  unlocking : ∀ c, s.unlocking c = true →
    s.owner = some c ∧ ∃ node, s.point c = .suspended node ∨ s.point c = .relocking node

variable {s : NotifyAll Coro}

theorem Owned.linksSurvive (h : Owned s) {e : NotifyEvent Coro} {s' : NotifyAll Coro} (hstep : Step s e s') :
    LinksSurvive s e := by
  have hno {c p : Coro} {node node' : Nat} {point : WaitPoint} (hc : s.point c = .waiting node point)
      (hp : s.point p = .awaiting node') : False := by
    have howner := h.owning c (by rw [hc]; trivial)
    rw [h.owning p (by rw [hp]; trivial)] at howner
    cases howner
    rw [hc] at hp
    cases hp
  cases hstep with
  | leave c node hpoint => exact fun p hp => hno hpoint hp
  | write c node point point' value cv hpoint hlinks =>
      rintro ⟨p, hp⟩
      exact (hno hpoint hp).elim
  | _ => trivial

theorem Owned.setPoint (h : Owned s) {c : Coro} {old moved : CvPoint} (hpoint : s.point c = old)
    (howning : CvPoint.Owning moved → s.owner = some c)
    (hunlocking : ∀ node, old = .suspended node ∨ old = .relocking node → moved = .relocking node) :
    Owned (s.setPoint c moved) where
  owning d hd := by
    by_cases hdc : d = c
    · rw [hdc, setPoint_self] at hd
      rw [hdc]
      exact howning hd
    · rw [setPoint_other s hdc] at hd
      exact h.owning d hd
  unlocking d hd := by
    obtain ⟨howner, node, hnode⟩ := h.unlocking d hd
    refine ⟨howner, node, ?_⟩
    by_cases hdc : d = c
    · subst d
      rw [setPoint_self]
      exact .inr (hunlocking node (hpoint ▸ hnode))
    · rw [setPoint_other s hdc]
      exact hnode

omit [DecidableEq Coro] in
theorem Owned.free (h : Owned s) (hfree : s.owner = none) (c : Coro) :
    ¬ CvPoint.Owning (s.point c) ∧ s.unlocking c = false := by
  refine ⟨fun hc => ?_, ?_⟩
  · rw [h.owning c hc] at hfree
    cases hfree
  · rw [Bool.eq_false_iff]
    intro hc
    rw [(h.unlocking c hc).1] at hfree
    cases hfree

theorem Owned.step (h : Owned s) {e : NotifyEvent Coro} {s' : NotifyAll Coro} (hcalls : CallsOwned s e)
    (hstep : Step s e s') : Owned s' := by
  have howns {c : Coro} {point : CvPoint} (hpoint : s.point c = point) (howning : CvPoint.Owning point) :
      s.owner = some c := h.owning c (hpoint ▸ howning)
  cases hstep with
  | acquire c hpoint hfree =>
      refine ⟨fun d hd => absurd hd (h.free hfree d).1, fun d hd => ?_⟩
      rw [(h.free hfree d).2] at hd
      cases hd
  | release c hpoint howner =>
      have hclient {d : Coro} (hd : s.owner = some d) : s.point d = .client := by
        rw [howner] at hd
        cases hd
        exact hpoint
      refine ⟨fun d hd => ?_, fun d hd => ?_⟩
      · rw [hclient (h.owning d hd)] at hd
        exact hd.elim
      · obtain ⟨howner', node, hnode⟩ := h.unlocking d hd
        rw [hclient howner'] at hnode
        simp at hnode
  | wait c node hpoint howner hne hfresh => exact h.setPoint hpoint (fun _ => howner) (by simp)
  | leave c node hpoint => exact h.setPoint hpoint False.elim (by simp)
  | write c node point point' value cv hpoint hlinks =>
      have hmoved : Owned (s.setPoint c (.waiting node point')) :=
        h.setPoint hpoint (fun _ => howns hpoint trivial) (by simp)
      exact ⟨hmoved.owning, hmoved.unlocking⟩
  | link c node point point' cv hpoint hlinks =>
      have hmoved : Owned (s.setPoint c (.suspended node)) := h.setPoint hpoint False.elim (by simp)
      refine ⟨hmoved.owning, fun d hd => ?_⟩
      by_cases hdc : d = c
      · subst d
        exact ⟨howns hpoint trivial, node, .inl (setPoint_self s c _)⟩
      · exact hmoved.unlocking d ((Function.update_of_ne hdc _ _).symm.trans hd)
  | unlock c hunlocking =>
      obtain ⟨howner, node, hnode⟩ := h.unlocking c hunlocking
      have honly {d : Coro} (hd : s.owner = some d) : d = c := by
        rw [howner] at hd
        cases hd
        rfl
      refine ⟨fun d hd => ?_, fun d hd => ?_⟩
      · obtain rfl := honly (h.owning d hd)
        rcases hnode with hnode | hnode <;> rw [hnode] at hd <;> exact hd.elim
      · change Function.update s.unlocking c false d = true at hd
        by_cases hdc : d = c
        · rw [hdc, Function.update_self] at hd
          cases hd
        · rw [Function.update_of_ne hdc] at hd
          exact absurd (honly (h.unlocking d hd).1) hdc
  | relock c node hpoint hfree =>
      refine ⟨fun d hd => ?_, fun d hd => ?_⟩
      · by_cases hdc : d = c
        · rw [hdc]
        · exact absurd (setPoint_other s hdc _ ▸ hd) (h.free hfree d).1
      · have hbusy : s.unlocking d = true := hd
        rw [(h.free hfree d).2] at hbusy
        cases hbusy
  | notify p hpoint => exact h.setPoint hpoint (fun _ => hcalls) (by simp)
  | load p hpoint | takeFails p _ hpoint | advance p _ _ hpoint =>
      exact h.setPoint hpoint (fun _ => howns hpoint trivial) (by simp)
  | take p cur hpoint hcur hhead =>
      have hmoved : Owned (s.setPoint p (.resuming cur)) :=
        h.setPoint hpoint (fun _ => howns hpoint trivial) (by simp)
      exact ⟨hmoved.owning, hmoved.unlocking⟩
  | notifyNone p hpoint | finish p _ _ hpoint | resumeAborts p _ hpoint | advanceAborts p _ hpoint =>
      exact h.setPoint hpoint False.elim (by simp)
  | resume p c node hpoint hawaiter hsuspended =>
      have hcp : c ≠ p := by
        rintro rfl
        rw [hpoint] at hsuspended
        cases hsuspended
      have hawaiting : Owned (s.setPoint p (.awaiting node)) :=
        h.setPoint hpoint (fun _ => howns hpoint trivial) (by simp)
      exact hawaiting.setPoint ((setPoint_other s hcp _).trans hsuspended) False.elim (by simp)

/-- Where callers own the mutex, links survive. -/
theorem run_of_callsOwned {trace : List (NotifyEvent Coro)} (h : Run (Guarded CallsOwned Step) {} trace s) :
    Owned s ∧ Run (Guarded LinksSurvive Step) {} trace s := by
  induction h with
  | stop => exact ⟨⟨fun c h => h.elim, fun c h => by cases h⟩, .stop⟩
  | next _ taken ih =>
      obtain ⟨howned, hrun⟩ := ih
      exact ⟨howned.step taken.1 taken.2, hrun.next ⟨howned.linksSurvive taken.2, taken.2⟩⟩

end Owners

end Libcold.NotifyAll
