import Libcold.ProducerConsumerInv

namespace Libcold.ProducerConsumer

open Runs AsyncMutex

variable {Coro Item : Type} [DecidableEq Coro]

section Inv

variable {s : ProducerConsumer Coro Item} {nodes : List Nat}

/-- Whoever a notification has resumed has come no further than to `Lock`. -/
def Resumed (point : Coro → Point Coro Item) : Prop :=
  ∀ p d, point p = .awaiting d → ∃ node, point d = .lock (.recheck node) ∨ point d = .locking (.recheck node)

theorem Resumed.move {point : Coro → Point Coro Item} (h : Resumed point) {c : Coro} {moved : Point Coro Item}
    (hawaiting : ∀ d, moved ≠ .awaiting d)
    (hmoved : ∀ p node, point p = .awaiting c → point c = .lock (.recheck node) ∨ point c = .locking (.recheck node) →
      moved = .locking (.recheck node)) : Resumed (Function.update point c moved) := by
  intro p d hp
  have hpc : p ≠ c := by
    rintro rfl
    rw [Function.update_self] at hp
    exact hawaiting d hp
  rw [Function.update_of_ne hpc] at hp
  obtain ⟨node, hd⟩ := h p d hp
  by_cases hdc : d = c
  · subst d
    exact ⟨node, .inr (by rw [Function.update_self]; exact hmoved p node hp hd)⟩
  · exact ⟨node, by rw [Function.update_of_ne hdc]; exact hd⟩

theorem Inv.step_resumed (h : Inv s nodes) (hresumed : Resumed s.point) {e : QueueEvent Coro Item}
    {s' : ProducerConsumer Coro Item} (hstep : Step s e s') : Resumed s'.point := by
  cases hstep with
  | mutex => exact hresumed
  | lock c job op mutex hpoint hrun hstep hbegun =>
      refine hresumed.move (by simp) fun p node _ hc => ?_
      rw [hpoint] at hc
      simpa using hc
  | locked c job hpoint hrun =>
      have hst := h.locked_holding hpoint hrun
      refine hresumed.move (by cases job <;> simp [Job.entry]) fun p node hp _ => ?_
      rw [h.holder_eq hst hp fun _ hst => hst, hpoint] at hp
      cases hp
  | resume c d node hpoint hawaiter =>
      obtain ⟨hdc, hpointd, _⟩ := h.sleeper hpoint hawaiter
      rw [resumeAwaiter_of_suspended hdc hpointd]
      intro p b hp
      by_cases hpc : p = c
      · subst p
        rw [setPoint_other _ hdc.symm, setPoint_self] at hp
        cases hp
        exact ⟨node, .inl (setPoint_self _ _ _)⟩
      · by_cases hpd : p = d
        · rw [hpd, setPoint_self] at hp
          cases hp
        · rw [setPoint_other _ hpd, setPoint_other s hpc] at hp
          have hholding := h.holding_of hpoint fun _ hst => hst
          exact absurd (h.holder_eq hholding hp fun _ hst => hst) hpc
  | produce c _ hpoint | consume c hpoint | push c _ hpoint | load c hpoint | notifyNone c hpoint
  | readNext c _ hpoint | exchange c _ _ hpoint | exchangeFails c _ _ hpoint | resumeAborts c _ hpoint
  | resumed c _ _ hpoint | enter c _ hpoint | waitReturns c _ hpoint | links c _ _ _ _ _ hpoint
  | suspend c _ _ hpoint | pop c _ _ hpoint | unlock c _ hpoint =>
      exact hresumed.move (by simp) (by simp [hpoint])

theorem step_conserves {e : QueueEvent Coro Item} {s' : ProducerConsumer Coro Item} (hstep : Step s e s') :
    s.queue ++ pushed [e] = popped [e] ++ s'.queue := by
  cases hstep with
  | push => rfl
  | pop c item rest hpoint hqueue => simp [pushed, popped, hqueue]
  | resume c d node hpoint hawaiter =>
      have hqueue : ((s.setPoint c (.awaiting d)).resumeAwaiter node d).queue = s.queue := by
        unfold resumeAwaiter
        split
        · split <;> rfl
        · rfl
      rw [hqueue]
      exact List.append_nil _
  | _ => exact List.append_nil _

theorem run_inv {trace : List (QueueEvent Coro Item)} (h : Run Step {} trace s) :
    (∃ nodes, Inv s nodes) ∧ Resumed s.point ∧ pushed trace = popped trace ++ s.queue := by
  induction h with
  | stop =>
      refine ⟨⟨[], start_inv⟩, fun p d hp => ?_, rfl⟩
      cases hp
  | @next trace s t e _ taken ih =>
      obtain ⟨⟨nodes, hinv⟩, hresumed, hconserved⟩ := ih
      refine ⟨step_inv hinv taken, hinv.step_resumed hresumed taken, ?_⟩
      have hstep := step_conserves taken
      calc pushed (trace ++ [e]) = pushed trace ++ pushed [e] := List.filterMap_append
        _ = popped trace ++ (s.queue ++ pushed [e]) := by rw [hconserved, List.append_assoc]
        _ = (popped trace ++ popped [e]) ++ t.queue := by rw [hstep, List.append_assoc]
        _ = popped (trace ++ [e]) ++ t.queue := by rw [popped, popped, popped, List.filterMap_append]

omit [DecidableEq Coro] in
theorem Inv.owns_of (h : Inv s nodes) {c : Coro} {point : Point Coro Item} (hpoint : s.point c = point)
    (hpermits : ∀ st, Permits point st → st = .holding) : s.mutex.owns c = true :=
  (stageOf_holding_iff.mp (h.holding_of hpoint hpermits)).2

omit [DecidableEq Coro] in
/-- Where nobody owns the mutex or waits for it, nobody is about to look at the queue. -/
theorem Inv.none_awake (h : Inv s nodes) (hfree : ∀ c, s.mutex.owns c = false)
    (hqueued : ∀ c op, s.mutex.pc c ≠ .waiting op) (c : Coro) : Point.weight (s.point c) = 0 := by
  have hno {d : Coro} {point : Point Coro Item} (hpoint : s.point d = point)
      (hpermits : ∀ st, Permits point st → st = .holding) : False := by
    have howns := h.owns_of hpoint hpermits
    rw [hfree d] at howns
    cases howns
  cases hpoint : s.point c with
  | lock job =>
      cases job with
      | recheck node =>
          obtain ⟨p, hp⟩ := h.rechecks c node (.inl hpoint)
          exact absurd hp fun hp => hno hp fun _ hst => hst
      | push | wait => rfl
  | locking job =>
      cases job with
      | recheck node =>
          obtain ⟨st, hst, rfl | rfl | rfl⟩ := h.stage_of hpoint
          · obtain ⟨p, hp⟩ := h.rechecks c node (.inr ⟨hpoint, hst⟩)
            exact absurd hp fun hp => hno hp fun _ hst => hst
          · obtain ⟨op, hop⟩ := waiting_of_queued hst
            exact absurd hop (hqueued c op)
          · have howns := (stageOf_holding_iff.mp hst).2
            rw [hfree c] at howns
            cases howns
      | push | wait => rfl
  | notifying | loaded | exchanging | resuming | popping => exact absurd hpoint fun hp => hno hp fun _ hst => hst
  | waiting node point => exact absurd hpoint fun hp => hno hp fun _ hst => hst
  | idle | pushing | awaiting | entering | suspended | unlock | aborted => rfl

omit [DecidableEq Coro] in
theorem Inv.none_forgotten (h : Inv s nodes) (hqueue : s.queue ≠ []) (hfree : ∀ c, s.mutex.owns c = false)
    (hqueued : ∀ c op, s.mutex.pc c ≠ .waiting op) (c : Coro) : Point.node (s.point c) = none := by
  have hnone := h.none_awake hfree hqueued
  have hnil : nodes = [] := by
    by_contra hne
    obtain ⟨awake, hawake, hcard⟩ := h.covered hne
    obtain ⟨d, hd⟩ := Finset.card_pos.mp (Nat.lt_of_lt_of_le (List.length_pos_iff.mpr hqueue) hcard)
    have hweight := hawake d hd
    rw [hnone d] at hweight
    cases hweight
  have hweight := hnone c
  cases hpoint : s.point c with
  | lock job | locking job =>
      rw [hpoint] at hweight
      cases job with
      | recheck => cases hweight
      | push | wait => rfl
  | waiting node point =>
      have howns := h.owns_of hpoint fun _ hst => hst
      rw [hfree c] at howns
      cases howns
  | suspended node =>
      rcases (h.parked node).mp ⟨c, by rw [hpoint]; rfl⟩ with hmem | ⟨p, hp⟩
      · rw [hnil] at hmem
        cases hmem
      · have hresuming := hnone p
        rw [hp] at hresuming
        cases hresuming
  | _ => rfl

end Inv

/-- What producers and consumers may rely on. A coroutine is within `Wait` as
long as the frame of that call has its awaiter. -/
structure Safe (trace : List (QueueEvent Coro Item)) (s : ProducerConsumer Coro Item) : Prop where
  exclusive : ∀ c d, s.mutex.owns c = true → s.mutex.owns d = true → c = d
  waitReturns : ∀ earlier c, trace = earlier ++ [.waitReturned c] → s.mutex.owns c = true ∧ s.queue ≠ []
  pops : ∀ c, s.point c = .popping → s.mutex.owns c = true ∧ s.queue ≠ []
  conserved : pushed trace = popped trace ++ s.queue
  resumedInPlace : Resumed s.point
  noneForgotten : s.queue ≠ [] → (∀ c, s.mutex.owns c = false) → (∀ c op, s.mutex.pc c ≠ .waiting op) →
    ∀ c, Point.node (s.point c) = none
  assertions : ∀ c, s.point c ≠ .aborted ∧ s.mutex.pc c ≠ .aborted

/-- Whatever the interleaving of the producers and consumers, `Wait` returns to an
owner who finds an item, every item goes to one consumer, and none is left lying
while a consumer sleeps. -/
theorem producer_consumer_safe {trace : List (QueueEvent Coro Item)} {s : ProducerConsumer Coro Item}
    (h : Run Step {} trace s) : Safe trace s := by
  obtain ⟨⟨nodes, hinv⟩, hresumed, hconserved⟩ := run_inv h
  obtain ⟨_, _, _, hmutex⟩ := hinv.mutex
  have hpops (c : Coro) (hpoint : s.point c = .popping) : s.mutex.owns c = true ∧ s.queue ≠ [] := by
    have hsees := hinv.sees c
    rw [hpoint] at hsees
    exact ⟨hinv.owns_of hpoint fun _ hst => hst, hsees⟩
  refine ⟨hmutex.owner, fun earlier c heq => ?_, hpops, hconserved, hresumed, hinv.none_forgotten,
    fun c => ⟨fun hc => ?_, fun hc => hmutex.duty_of hc⟩⟩
  · subst trace
    obtain ⟨t, _, hstep⟩ := run_snoc_iff.mp h
    refine hpops c ?_
    generalize hevent : QueueEvent.waitReturned c = event at hstep
    cases hstep with
    | waitReturns c' node hpoint hqueue =>
        cases hevent
        exact setPoint_self t c _
    | _ => cases hevent
  · obtain ⟨_, _, hpermits⟩ := hinv.stage_of hc
    exact hpermits

/-- A consumer sleeps in `Wait`, a producer wakes it, and it finds the item. -/
theorem woken_consumer_safe : ∃ (s : ProducerConsumer Bool Nat) (trace : List (QueueEvent Bool Nat)),
    Run Step {} (trace ++ [.waitReturned true]) s ∧ Safe (trace ++ [.waitReturned true]) s ∧ s.queue = [5] := by
  have hlock := (Run.stop.next (Step.consume ({} : ProducerConsumer Bool Nat) true rfl rfl)).next
    (Step.lock _ true .wait 8 _ rfl rfl (AsyncMutex.Step.lock _ true 8 rfl (by decide) fun d hd => by cases hd) rfl)
  have hload := hlock.next (Step.mutex _ _ _ (AsyncMutex.Step.load _ true 8 rfl) fun d hd => by
    cases d <;> cases hd; exact ⟨rfl, rfl⟩)
  have hacquire := hload.next (Step.mutex _ _ _ (AsyncMutex.Step.acquire _ true 8 rfl rfl) fun d hd => by
    cases d <;> cases hd; exact ⟨rfl, rfl⟩)
  have henter := (hacquire.next (Step.locked _ true .wait rfl rfl)).next
    (Step.enter _ true 16 rfl (by decide) fun d hd => by cases d <;> cases hd)
  have hlinked := ((henter.next (Step.links _ true 16 _ _ _ _ rfl (fun _ => rfl) (.construct _))).next
    (Step.links _ true 16 _ _ _ _ rfl (fun _ => rfl) (.load _))).next
    (Step.links _ true 16 _ _ _ _ rfl (fun _ => rfl) (.link _ rfl))
  have hsuspend := hlinked.next
    (Step.suspend _ true 16 _ rfl rfl (AsyncMutex.Step.unlock _ true rfl rfl) (fun h => by cases h) rfl)
  have hasleep := hsuspend.next (Step.mutex _ _ _ (AsyncMutex.Step.release _ true rfl rfl rfl) fun d hd => by
    cases d <;> cases hd; exact ⟨rfl, rfl⟩)
  have hlock' := (hasleep.next (Step.produce _ false 5 rfl rfl)).next (Step.lock _ false (.push 5) 24 _ rfl rfl
    (AsyncMutex.Step.lock _ false 24 rfl (by decide) fun d hd => by cases d <;> cases hd) rfl)
  have hload' := hlock'.next (Step.mutex _ _ _ (AsyncMutex.Step.load _ false 24 rfl) fun d hd => by
    cases d <;> cases hd; exact ⟨rfl, rfl⟩)
  have hacquire' := hload'.next (Step.mutex _ _ _ (AsyncMutex.Step.acquire _ false 24 rfl rfl) fun d hd => by
    cases d <;> cases hd; exact ⟨rfl, rfl⟩)
  have hpush := (hacquire'.next (Step.locked _ false (.push 5) rfl rfl)).next (Step.push _ false 5 rfl)
  have hnotify := (((hpush.next (Step.load _ false rfl)).next (Step.readNext _ false 16 rfl (by decide))).next
    (Step.exchange _ false 16 0 rfl rfl)).next (Step.resume _ false true 16 rfl rfl)
  have hrelock := hnotify.next (Step.lock _ true (.recheck 16) 32 _ rfl rfl
    (AsyncMutex.Step.lock _ true 32 rfl (by decide) fun d hd => by cases d <;> cases hd) rfl)
  have hreload := hrelock.next (Step.mutex _ _ _ (AsyncMutex.Step.load _ true 32 rfl) fun d hd => by
    cases d <;> cases hd; exact ⟨rfl, rfl⟩)
  have hqueued := hreload.next (Step.mutex _ _ _ (AsyncMutex.Step.enqueue _ true 32 0 rfl (by decide) rfl)
    fun d hd => by cases d <;> cases hd; exact ⟨rfl, rfl⟩)
  have hunlock := (hqueued.next (Step.resumed _ false true 32 rfl rfl)).next
    (Step.unlock _ false _ rfl rfl (AsyncMutex.Step.unlock _ false rfl rfl) (fun h => by cases h) rfl)
  have hturn := hunlock.next (Step.mutex _ _ _ (AsyncMutex.Step.noRelease _ false 32 rfl rfl (by decide)) fun d hd => by
    cases d <;> cases hd)
  have hreverse := hturn.next (Step.mutex _ _ _ (AsyncMutex.Step.exchange _ false 1 _ _ rfl (by decide) rfl)
    fun d hd => by cases d <;> cases hd)
  have hserved := hreverse.next (Step.mutex _ _ _ (AsyncMutex.Step.resume _ false true rfl (by decide) rfl)
    fun d hd => by cases d <;> cases hd)
  have hreturn := (hserved.next (Step.locked _ true (.recheck 16) rfl rfl)).next
    (Step.waitReturns _ true 16 rfl (fun h => by cases h))
  exact ⟨_, _, hreturn, producer_consumer_safe hreturn, rfl⟩

end Libcold.ProducerConsumer
