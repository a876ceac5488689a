import Libcold.IoWatcherSlots

namespace Libcold.IoWatcher

open Runs

variable {Coro : Type}

/-- A watcher with the record of the calls made on it, and the part of the
record that the latest `WatchIo` added. -/
structure Watched (Coro : Type) where
  watcher : IoWatcher Coro
  history : List (Slot × SlotEvent Coro)
  latest : List (Slot × SlotEvent Coro)

def Watched.start (wakeUpFd : Int) : Watched Coro := ⟨create wakeUpFd, [], []⟩

def Watched.after (s : Watched Coro) (c : IoCall Coro) (w : IoWatcher Coro) : Watched Coro where
  watcher := w
  history := s.history ++ s.watcher.record c
  latest := match c with
    | .watch _ => s.watcher.record c
    | _ => s.latest

def Step (P : Platform) (s : Watched Coro) (c : IoCall Coro) (t : Watched Coro) : Prop :=
  Allowed s.watcher c ∧ ∃ w, s.watcher.call P c = .ok w ∧ t = s.after c w

/-- No waiting coroutine is lost: it is registered for what it waits for, and
the record of its slot accounts for it. -/
structure Kept (s : Watched Coro) : Prop where
  readInterest : ∀ fd event, s.watcher.ioEvents fd = some event → event.readHandle ≠ none →
    ∃ mask, s.watcher.interest fd = some mask ∧ mask.epollin
  writeInterest : ∀ fd event, s.watcher.ioEvents fd = some event → event.writeHandle ≠ none →
    ∃ mask, s.watcher.interest fd = some mask ∧ mask.epollout
  accounted : ∀ slot, Run SlotStep none (slotHistory slot s.history) (s.watcher.stored slot)
  active : s.watcher.activeCoroutines.reduceOption = s.latest.map (·.2.handle)

/-- A handle is registered for reading only where there is no entry yet or one
that epoll reports as readable, and nothing deregisters another descriptor that
somebody waits on. -/
def Guard (w : IoWatcher Coro) : IoCall Coro → Prop
  | .listenRead fd (some _) => w.ioEvents fd = none ∨ ∃ mask, w.interest fd = some mask ∧ mask.epollin
  | .stopWrite fd => (w.subscript fd).fd = fd ∨ ∀ d, w.stored (d, (w.subscript fd).fd) = none
  | .stopAll fd => ∀ event, w.ioEvents fd = some event → event.fd = fd ∨ ∀ d, w.stored (d, event.fd) = none
  | _ => True

theorem call_spec {P : Platform} {w w' : IoWatcher Coro} {c : IoCall Coro} (hm : Matched w) (ha : Allowed w c)
    (hg : Guard w c) (h : w.call P c = .ok w') :
    Matched w' ∧ (∀ slot, Run SlotStep (w.stored slot) (slotHistory slot (w.record c)) (w'.stored slot)) ∧
      match c with
      | .watch _ => w'.activeCoroutines.reduceOption = (w.record c).map (·.2.handle)
      | _ => w'.activeCoroutines = w.activeCoroutines := by
  cases c with
  | listenRead fd handle =>
      obtain ⟨hm', hst, hac⟩ := listenReadEvent_spec hm ha (by cases handle <;> simp_all [Guard]) h
      refine ⟨hm', fun slot => ?_, hac⟩
      rw [hst]
      exact run_update (ha.symm ▸ run_register handle) slot
  | listenWrite fd handle =>
      obtain ⟨hm', hst, hac⟩ := listenWriteEvent_spec hm h
      refine ⟨hm', fun slot => ?_, hac⟩
      rw [hst]
      exact run_update (ha.symm ▸ run_register handle) slot
  | stopRead fd =>
      obtain ⟨hm', hst, hac⟩ := stopListeningReadEvent_spec hm h
      refine ⟨hm', fun slot => ?_, hac⟩
      rw [hst]
      exact run_update (run_clear .stop _) slot
  | stopWrite fd =>
      obtain ⟨hm', hst, hac⟩ := stopListeningWriteEvent_spec hm hg h
      refine ⟨hm', fun slot => ?_, hac⟩
      rw [hst]
      exact run_update (run_clear .stop _) slot
  | stopAll fd =>
      obtain ⟨hm', hst, hac⟩ := stopListeningAll_spec hm hg h
      refine ⟨hm', fun slot => ?_, hac⟩
      have hread := run_update (run_clear .stop (w.stored (.read, fd))) slot
      have hwrite := run_update (run_clear .stop (Function.update w.stored (.read, fd) none (.write, fd))) slot
      rw [hst]
      simpa only [record, slotHistory_append, Function.update_of_ne (show ((.write, fd) : Slot) ≠ (.read, fd) by simp)]
        using hread.append hwrite
  | watch epollResult =>
      cases epollResult with
      | none =>
          cases h
          exact ⟨hm, fun slot => .stop, rfl⟩
      | some events =>
          obtain ⟨w₁, h₁, hw⟩ : ∃ w₁, events.foldlM (watchEvent P fun _ _ => true) { w with activeCoroutines := [] } =
              .ok w₁ ∧ w' = { w₁ with epollEventsSize :=
                if w₁.epollEventsSize = events.length then events.length <<< 1 else w₁.epollEventsSize } := by
            simp only [call, watchIo] at h
            cases h₁ : events.foldlM (watchEvent P fun _ _ => true) { w with activeCoroutines := [] } with
            | error f => rw [h₁] at h; cases h
            | ok w₁ => rw [h₁] at h; cases h; exact ⟨w₁, rfl, rfl⟩
          subst w'
          obtain ⟨-, hnodup, hadm⟩ := ha
          have hevents := watchEvents_spec events { w with activeCoroutines := [] } hm hnodup hadm h₁
          exact hevents

structure Accounted (s : Watched Coro) : Prop where
  matched : Matched s.watcher
  slots : ∀ slot, Run SlotStep none (slotHistory slot s.history) (s.watcher.stored slot)
  active : s.watcher.activeCoroutines.reduceOption = s.latest.map (·.2.handle)

theorem Accounted.kept {s : Watched Coro} (h : Accounted s) : Kept s where
  readInterest fd event he hread := by
    have hd := h.matched fd
    rw [he] at hd
    generalize s.watcher.interest fd = mask at hd ⊢
    cases hd with
    | registered _ _ hin => exact ⟨_, rfl, hin hread⟩
    | unregistered _ _ hnone => exact absurd hnone hread
  writeInterest fd event he hwrite := by
    have hd := h.matched fd
    rw [he] at hd
    generalize s.watcher.interest fd = mask at hd ⊢
    cases hd with
    | registered _ _ _ hout => exact ⟨_, rfl, hout hwrite⟩
    | unregistered _ _ _ hnone => exact absurd hnone hwrite
  accounted := h.slots
  active := h.active

theorem start_accounted (wakeUpFd : Int) : Accounted (Watched.start wakeUpFd : Watched Coro) where
  matched := by
    intro fd
    by_cases hfd : fd = wakeUpFd
    · subst fd
      simpa [Watched.start, create] using
        Descriptor.registered ({ fd := wakeUpFd, events := { epollin := true } } : IoEvent Coro) rfl (fun _ => rfl)
          (absurd rfl)
    · simpa [Watched.start, create, hfd] using Descriptor.absent
  slots slot := by
    have hnone : (create wakeUpFd : IoWatcher Coro).stored slot = none := by
      obtain ⟨d, fd⟩ := slot
      by_cases hfd : fd = wakeUpFd <;> cases d <;> simp [stored, create, hfd, waiting]
    rw [Watched.start, hnone]
    exact .stop
  active := rfl

theorem step_accounted {P : Platform} {s t : Watched Coro} {c : IoCall Coro} (hs : Accounted s)
    (hg : s.watcher.Guard c) (h : Step P s c t) : Accounted t := by
  obtain ⟨ha, w', hcall, rfl⟩ := h
  obtain ⟨hm, hslots, hactive⟩ := call_spec hs.matched ha hg hcall
  refine ⟨hm, fun slot => ?_, ?_⟩
  · simp only [Watched.after, slotHistory_append]
    exact (hs.slots slot).append (hslots slot)
  · cases c with
    | watch epollResult => exact hactive
    | _ => exact (congrArg List.reduceOption hactive).trans hs.active

theorem Kept.nobody_waits {s : Watched Coro} (h : Kept s) {w : IoWatcher Coro} {fd : Int}
    (hevents : s.watcher.ioEvents fd = w.ioEvents fd) (hinterest : s.watcher.interest fd = none) (d : Direction) :
    w.stored (d, fd) = none := by
  rw [stored, ← hevents]
  by_contra hne
  obtain ⟨event, he, hwait⟩ : ∃ event, s.watcher.ioEvents fd = some event ∧ waiting event d ≠ none := by
    cases he : s.watcher.ioEvents fd with
    | none => simp [he] at hne
    | some event => exact ⟨event, rfl, by simpa [he] using hne⟩
  cases d with
  | read =>
      obtain ⟨mask, hmask, -⟩ := h.readInterest fd event he hwait
      simp [hinterest] at hmask
  | write =>
      obtain ⟨mask, hmask, -⟩ := h.writeInterest fd event he hwait
      simp [hinterest] at hmask

/-- Only the guarded calls keep every waiting coroutine. -/
theorem step_guarded {P : Platform} {s t : Watched Coro} {c : IoCall Coro} (hs : Accounted s) (h : Step P s c t)
    (ht : Kept t) : s.watcher.Guard c := by
  obtain ⟨ha, w', hcall, rfl⟩ := h
  cases c with
  | listenRead fd handle =>
      cases handle with
      | none => trivial
      | some coro =>
          cases he : s.watcher.ioEvents fd with
          | none => exact .inl he
          | some event =>
              have hread : event.readHandle = none := by simpa [Allowed, stored, he, waiting] using ha
              simp only [call, listenReadEvent, he, hread, Option.isSome_none, Bool.and_false, Bool.false_eq_true,
                if_false, Except.ok.injEq] at hcall
              subst w'
              exact .inr (ht.readInterest fd { event with readHandle := some coro } (by simp [Watched.after]) (by simp))
  | stopWrite fd =>
      by_cases hfd : (s.watcher.subscript fd).fd = fd
      · exact .inl hfd
      · have hempty := (hs.matched.own_fd hfd).1
        rw [hempty] at hfd
        simp only [call, stopListeningWriteEvent, hempty] at hcall
        split at hcall
        · cases hcall
        · simp only [Bool.false_eq_true, if_false, Except.ok.injEq] at hcall
          subst w'
          rw [Guard, hempty]
          exact .inr (ht.nobody_waits (Function.update_of_ne hfd _ _) (by simp [Watched.after]))
  | stopAll fd =>
      intro event he
      by_cases hfd : event.fd = fd
      · exact .inl hfd
      · simp only [call, stopListeningAll, he, Except.ok.injEq] at hcall
        subst w'
        exact .inr (ht.nobody_waits (Function.update_of_ne hfd _ _) (by simp [Watched.after]))
  | listenWrite | stopRead | watch => trivial

/-- The runs that lose no waiting coroutine are those of the guarded calls. -/
theorem watcher_keeps_handles (P : Platform) (wakeUpFd : Int) :
    Kept (Watched.start wakeUpFd : Watched Coro) ∧ ∀ calls (s : Watched Coro),
      Run (Guarded (fun s c => s.watcher.Guard c) (Step P)) (.start wakeUpFd) calls s ↔
        Run (Within Kept (Step P)) (.start wakeUpFd) calls s :=
  ⟨(start_accounted wakeUpFd).kept, run_guarded_iff_within (start_accounted wakeUpFd) (fun _ => Accounted.kept)
    (fun _ _ _ => step_accounted) fun _ _ _ => step_guarded⟩

/-- A coroutine that starts to read while only another one waits to write. -/
theorem reader_lost : ∃ s : Watched Nat,
    Run (Step ⟨.little, false⟩) (.start 4)
      [.listenWrite 5 (some 1), .listenRead 5 (some 2), .watch (some [⟨5, { epollout := true }⟩])] s ∧
    slotHistory (.read, 5) s.history = [.registered 2] ∧ s.watcher.stored (.read, 5) = none ∧ ¬ Kept s := by
  refine ⟨_, ((Run.stop.next ⟨rfl, _, rfl, rfl⟩).next ⟨rfl, _, rfl, rfl⟩).next
    ⟨⟨by decide, by decide, ?_⟩, _, rfl, rfl⟩, rfl, rfl, ?_⟩
  · intro e he
    rw [List.mem_singleton.mp he]
    exact ⟨_, rfl, by decide, by decide⟩
  · intro h
    obtain ⟨_, hrun, hstep⟩ := run_snoc_iff.mp (show Run SlotStep none ([] ++ [.registered 2]) none from
      h.accounted (.read, 5))
    cases hstep

end Libcold.IoWatcher
