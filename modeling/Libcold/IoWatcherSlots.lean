import Libcold.IoWatcher
import Mathlib.Data.List.ReduceOption

namespace Libcold.IoWatcher

open Runs

variable {Coro : Type}

inductive Direction
  | read
  | write
  deriving DecidableEq

/-- The place in which a descriptor keeps the coroutine that waits for one of
the two directions. -/
abbrev Slot := Direction × Int

inductive SlotEvent (Coro : Type)
  | registered (handle : Coro)
  | activated (handle : Coro)
  | stopped (handle : Coro)
  deriving DecidableEq

/-- A slot takes a handle only when it is free, and gives each handle away once. -/
inductive SlotStep : Option Coro → SlotEvent Coro → Option Coro → Prop
  | register (handle : Coro) : SlotStep none (.registered handle) (some handle)
  | activate (handle : Coro) : SlotStep (some handle) (.activated handle) none
  | stop (handle : Coro) : SlotStep (some handle) (.stopped handle) none

inductive IoCall (Coro : Type)
  | listenRead (fd : Int) (handle : Option Coro)
  | listenWrite (fd : Int) (handle : Option Coro)
  | stopRead (fd : Int)
  | stopWrite (fd : Int)
  | stopAll (fd : Int)
  | watch (epollResult : Option (List EpollEvent))

def call (P : Platform) (w : IoWatcher Coro) : IoCall Coro → Except Failure (IoWatcher Coro)
  | .listenRead fd handle => w.listenReadEvent P (fun _ _ => true) fd handle
  | .listenWrite fd handle => w.listenWriteEvent P (fun _ _ => true) fd handle
  | .stopRead fd => w.stopListeningReadEvent P fd
  | .stopWrite fd => w.stopListeningWriteEvent P (fun _ _ => true) fd
  | .stopAll fd => w.stopListeningAll (fun _ _ => true) fd
  | .watch epollResult => w.watchIo P (fun _ _ => true) epollResult

def waiting (event : IoEvent Coro) : Direction → Option Coro
  | .read => event.readHandle
  | .write => event.writeHandle

def stored (w : IoWatcher Coro) (slot : Slot) : Option Coro := (w.ioEvents slot.2).bind (waiting · slot.1)

def Admitted (w : IoWatcher Coro) (e : EpollEvent) : Prop :=
  ∃ mask, w.interest e.fd = some mask ∧ (e.events.epollin → mask.epollin) ∧ (e.events.epollout → mask.epollout)

/-- The calls in question: none registers a handle where one is waiting, and
`epoll_wait` answers with admitted events of different descriptors. -/
def Allowed (w : IoWatcher Coro) : IoCall Coro → Prop
  | .listenRead fd _ => w.stored (.read, fd) = none
  | .listenWrite fd _ => w.stored (.write, fd) = none
  | .watch (some events) => events.length ≤ w.epollEventsSize ∧ (events.map (·.fd)).Nodup ∧ ∀ e ∈ events, w.Admitted e
  | _ => True

def slotEvent (event : Coro → SlotEvent Coro) (slot : Slot) (handle : Option Coro) : List (Slot × SlotEvent Coro) :=
  handle.toList.map fun h => (slot, event h)

/-- What an event of `epoll_wait` makes of the slots of its descriptor. -/
def activated (w : IoWatcher Coro) (e : EpollEvent) : List (Slot × SlotEvent Coro) :=
  if e.fd = w.wakeUpFd then []
  else
    (if e.events.epollin || (e.events.epollhup || e.events.epollerr) then
      slotEvent .activated (.read, e.fd) (w.stored (.read, e.fd)) else []) ++
    if e.events.epollout then slotEvent .activated (.write, e.fd) (w.stored (.write, e.fd)) else []

def record (w : IoWatcher Coro) : IoCall Coro → List (Slot × SlotEvent Coro)
  | .listenRead fd handle => slotEvent .registered (.read, fd) handle
  | .listenWrite fd handle => slotEvent .registered (.write, fd) handle
  | .stopRead fd => slotEvent .stopped (.read, fd) (w.stored (.read, fd))
  | .stopWrite fd => slotEvent .stopped (.write, fd) (w.stored (.write, fd))
  | .stopAll fd => slotEvent .stopped (.read, fd) (w.stored (.read, fd)) ++
      slotEvent .stopped (.write, fd) (w.stored (.write, fd))
  | .watch none => []
  | .watch (some events) => events.flatMap w.activated

def SlotEvent.handle : SlotEvent Coro → Coro
  | .registered h | .activated h | .stopped h => h

def slotHistory (slot : Slot) (history : List (Slot × SlotEvent Coro)) : List (SlotEvent Coro) :=
  history.filterMap fun e => if e.1 = slot then some e.2 else none

/-- How the entry of a descriptor and its registration belong together. -/
inductive Descriptor (fd : Int) : Option (IoEvent Coro) → Option EpollMask → Prop
  | absent : Descriptor fd none none
  | registered (event : IoEvent Coro) (hfd : event.fd = fd) (hread : event.readHandle ≠ none → event.events.epollin)
      (hwrite : event.writeHandle ≠ none → event.events.epollout) : Descriptor fd (some event) (some event.events)
  | unregistered (event : IoEvent Coro) (hfd : event.fd = fd ∨ event = {}) (hread : event.readHandle = none)
      (hwrite : event.writeHandle = none) : Descriptor fd (some event) none

def Matched (w : IoWatcher Coro) : Prop := ∀ fd, Descriptor fd (w.ioEvents fd) (w.interest fd)

theorem Matched.update {w w' : IoWatcher Coro} (h : Matched w) {fd : Int} {event : Option (IoEvent Coro)}
    {mask : Option EpollMask} (hd : Descriptor fd event mask)
    (hevents : w'.ioEvents = Function.update w.ioEvents fd event)
    (hinterest : w'.interest = Function.update w.interest fd mask) : Matched w' := by
  intro g
  rw [hevents, hinterest]
  by_cases hg : g = fd
  · subst g
    simpa using hd
  · simpa [hg] using h g

theorem Matched.assign {w : IoWatcher Coro} (h : Matched w) {fd : Int} {event : Option (IoEvent Coro)}
    (hd : Descriptor fd event (w.interest fd)) : Matched (w.assign fd event) :=
  h.update hd rfl (Function.update_eq_self fd w.interest).symm

theorem stored_of_ioEvents {w w' : IoWatcher Coro} {fd : Int} {event : Option (IoEvent Coro)}
    (h : w'.ioEvents = Function.update w.ioEvents fd event) :
    w'.stored = fun slot => if slot.2 = fd then event.bind (waiting · slot.1) else w.stored slot := by
  funext slot
  by_cases hs : slot.2 = fd <;> simp [stored, h, hs]

theorem stored_update {w w' : IoWatcher Coro} {d : Direction} {fd : Int} {handle : Option Coro}
    {event : Option (IoEvent Coro)} (h : w'.ioEvents = Function.update w.ioEvents fd event)
    (hself : event.bind (waiting · d) = handle)
    (hother : ∀ d', d' ≠ d → event.bind (waiting · d') = w.stored (d', fd)) :
    w'.stored = Function.update w.stored (d, fd) handle := by
  rw [stored_of_ioEvents h]
  funext ⟨d', g⟩
  by_cases hg : g = fd
  · subst g
    by_cases hd : d' = d
    · subst d'
      simpa using hself
    · simpa [hd] using hother d' hd
  · simp [hg]

theorem run_register (handle : Option Coro) :
    Run SlotStep none (handle.toList.map SlotEvent.registered) handle := by
  cases handle with
  | none => exact .stop
  | some h => exact .single (.register h)

theorem run_clear {event : Coro → SlotEvent Coro} (hevent : ∀ h, SlotStep (some h) (event h) none)
    (handle : Option Coro) : Run SlotStep handle (handle.toList.map event) none := by
  cases handle with
  | none => exact .stop
  | some h => exact .single (hevent h)

@[simp] theorem slotHistory_nil (slot : Slot) : slotHistory slot ([] : List (Slot × SlotEvent Coro)) = [] := rfl

@[simp] theorem slotHistory_append (slot : Slot) (first second : List (Slot × SlotEvent Coro)) :
    slotHistory slot (first ++ second) = slotHistory slot first ++ slotHistory slot second :=
  List.filterMap_append

theorem slotHistory_slotEvent (event : Coro → SlotEvent Coro) (slot slot' : Slot) (handle : Option Coro) :
    slotHistory slot (slotEvent event slot' handle) = if slot' = slot then handle.toList.map event else [] := by
  cases handle with
  | none => simp [slotEvent]
  | some h => by_cases hs : slot' = slot <;> simp [slotHistory, slotEvent, hs]

/-- A slot that is filled or emptied is the only one whose record grows. -/
theorem run_update {event : Coro → SlotEvent Coro} {stored : Slot → Option Coro} {slot : Slot}
    {handle next : Option Coro} (h : Run SlotStep (stored slot) (handle.toList.map event) next) (slot' : Slot) :
    Run SlotStep (stored slot') (slotHistory slot' (slotEvent event slot handle))
      (Function.update stored slot next slot') := by
  rw [slotHistory_slotEvent]
  by_cases hs : slot' = slot
  · subst slot'
    simpa using h
  · rw [if_neg (Ne.symm hs), Function.update_of_ne hs]
    exact .stop

theorem listenReadEvent_spec {P : Platform} {w w' : IoWatcher Coro} {fd : Int} {handle : Option Coro}
    (hm : Matched w) (ha : w.stored (.read, fd) = none)
    (hg : handle ≠ none → w.ioEvents fd = none ∨ ∃ mask, w.interest fd = some mask ∧ mask.epollin)
    (h : w.listenReadEvent P (fun _ _ => true) fd handle = .ok w') :
    Matched w' ∧ w'.stored = Function.update w.stored (.read, fd) handle ∧
      w'.activeCoroutines = w.activeCoroutines := by
  rw [listenReadEvent] at h
  cases he : w.ioEvents fd with
  | none =>
      simp only [he, if_true, Except.ok.injEq] at h
      subst w'
      refine ⟨?_, ?_, rfl⟩
      · exact hm.update (.registered ⟨fd, { epollin := true, epollet := true }, handle, none⟩ rfl (fun _ => rfl)
          (absurd rfl)) rfl rfl
      · refine stored_update rfl rfl fun d hd => ?_
        cases d with
        | read => exact absurd rfl hd
        | write => simp [stored, he, waiting]
  | some event =>
      have hread : event.readHandle = none := by simpa [stored, he, waiting] using ha
      simp only [he, hread, Option.isSome_none, Bool.and_false, Bool.false_eq_true, if_false, Except.ok.injEq] at h
      subst w'
      refine ⟨hm.assign ?_, ?_, rfl⟩
      · have hd := hm fd
        rw [he] at hd hg
        generalize w.interest fd = mask at hd hg ⊢
        cases hd with
        | registered _ hfd _ hwrite =>
            exact .registered { event with readHandle := handle } hfd (fun hh => by simpa using hg hh) hwrite
        | unregistered _ hfd _ hwrite =>
            have hnone : handle = none := by simpa using hg
            rw [hnone, ← hread]
            exact .unregistered event hfd hread hwrite
      · refine stored_update rfl rfl fun d hd => ?_
        cases d with
        | read => exact absurd rfl hd
        | write => simp [stored, he, waiting]

theorem waiting_subscript (w : IoWatcher Coro) (fd : Int) (d : Direction) :
    waiting (w.subscript fd) d = w.stored (d, fd) := by
  cases he : w.ioEvents fd with
  | none => cases d <;> simp [subscript, stored, he, waiting]
  | some event => simp [subscript, stored, he]

theorem Matched.read_epollin {w : IoWatcher Coro} (h : Matched w) {fd : Int}
    (hread : (w.subscript fd).readHandle ≠ none) : (w.subscript fd).events.epollin := by
  have hd := h fd
  rw [subscript] at hread ⊢
  generalize w.ioEvents fd = event at hd hread ⊢
  generalize w.interest fd = mask at hd
  cases hd with
  | absent => exact absurd rfl hread
  | registered event _ hin => exact hin hread
  | unregistered event _ hnone => exact absurd hnone hread

theorem listenWriteEvent_spec {P : Platform} {w w' : IoWatcher Coro} {fd : Int} {handle : Option Coro}
    (hm : Matched w) (h : w.listenWriteEvent P (fun _ _ => true) fd handle = .ok w') :
    Matched w' ∧ w'.stored = Function.update w.stored (.write, fd) handle ∧
      w'.activeCoroutines = w.activeCoroutines := by
  rw [listenWriteEvent] at h
  simp only [if_true] at h
  split at h
  · cases h
  · simp only [Except.ok.injEq] at h
    subst w'
    refine ⟨?_, ?_, rfl⟩
    · refine hm.update (.registered { w.subscript fd with
          fd, writeHandle := handle, events := { (w.subscript fd).events with epollout := true, epollet := true } }
        rfl (fun hr => hm.read_epollin hr) (fun _ => rfl)) rfl ?_
      cases w.ioEvents fd <;> rfl
    · refine stored_update rfl rfl fun d hd => ?_
      cases d with
      | read => exact waiting_subscript w fd .read
      | write => exact absurd rfl hd

theorem stopListeningReadEvent_spec {P : Platform} {w w' : IoWatcher Coro} {fd : Int} (hm : Matched w)
    (h : w.stopListeningReadEvent P fd = .ok w') :
    Matched w' ∧ w'.stored = Function.update w.stored (.read, fd) none ∧
      w'.activeCoroutines = w.activeCoroutines := by
  rw [stopListeningReadEvent] at h
  split at h
  · cases h
  · simp only [Except.ok.injEq] at h
    subst w'
    refine ⟨hm.assign ?_, ?_, rfl⟩
    · have hd := hm fd
      rw [subscript]
      generalize w.ioEvents fd = event at hd ⊢
      generalize w.interest fd = mask at hd ⊢
      cases hd with
      | absent => exact .unregistered _ (.inr rfl) rfl rfl
      | registered event hfd _ hwrite => exact .registered { event with readHandle := none } hfd (absurd rfl) hwrite
      | unregistered event hfd hread hwrite =>
          rw [← hread]
          exact .unregistered event hfd hread hwrite
    · refine stored_update rfl rfl fun d hd => ?_
      cases d with
      | read => exact absurd rfl hd
      | write => exact waiting_subscript w fd .write

theorem Matched.deregister {w : IoWatcher Coro} (h : Matched w) {fd : Int} (hnone : ∀ d, w.stored (d, fd) = none) :
    Descriptor fd (w.ioEvents fd) none := by
  have hd := h fd
  have hread := hnone .read
  have hwrite := hnone .write
  rw [stored] at hread hwrite
  generalize w.ioEvents fd = event at hd hread hwrite ⊢
  generalize w.interest fd = mask at hd
  cases hd with
  | absent => exact .absent
  | registered event hfd => exact .unregistered event (.inl hfd) hread hwrite
  | unregistered event hfd => exact .unregistered event hfd hread hwrite

theorem Matched.erase {w : IoWatcher Coro} (h : Matched w) {fd fd' : Int} (events : EpollMask)
    (hfd : fd' = fd ∨ w.interest fd = none ∧ ∀ d, w.stored (d, fd') = none) :
    Matched ((w.control (fun _ _ => true) .del fd' events).assign fd none) := by
  rcases hfd with rfl | ⟨hfd, hnone⟩
  · exact h.update .absent rfl rfl
  · have hcontrol : Matched (w.control (fun _ _ => true) .del fd' events) :=
      h.update (h.deregister hnone) (Function.update_eq_self fd' w.ioEvents).symm rfl
    refine hcontrol.assign ?_
    by_cases he : fd = fd'
    · subst fd'
      simpa using .absent
    · simpa [he, hfd] using .absent

theorem Matched.own_fd {w : IoWatcher Coro} (h : Matched w) {fd : Int} (hne : (w.subscript fd).fd ≠ fd) :
    w.subscript fd = {} ∧ w.interest fd = none := by
  have hd := h fd
  rw [subscript] at hne ⊢
  generalize w.ioEvents fd = event at hd hne ⊢
  generalize w.interest fd = mask at hd ⊢
  cases hd with
  | absent => exact ⟨rfl, rfl⟩
  | registered event hfd => exact absurd hfd hne
  | unregistered event hfd => exact ⟨hfd.resolve_left hne, rfl⟩

theorem stopListeningWriteEvent_spec {P : Platform} {w w' : IoWatcher Coro} {fd : Int} (hm : Matched w)
    (hg : (w.subscript fd).fd = fd ∨ ∀ d, w.stored (d, (w.subscript fd).fd) = none)
    (h : w.stopListeningWriteEvent P (fun _ _ => true) fd = .ok w') :
    Matched w' ∧ w'.stored = Function.update w.stored (.write, fd) none ∧
      w'.activeCoroutines = w.activeCoroutines := by
  rw [stopListeningWriteEvent] at h
  split at h
  · cases h
  · simp only at h
    split at h
    · next hin =>
        simp only [Except.ok.injEq] at h
        subst w'
        have hfd : (w.subscript fd).fd = fd := by
          by_contra hne
          rw [(hm.own_fd hne).1] at hin
          simp at hin
        refine ⟨?_, ?_, rfl⟩
        · refine hm.update (.registered { w.subscript fd with
              writeHandle := none, events := { (w.subscript fd).events with epollout := false } }
            hfd (fun _ => hin) (absurd rfl)) rfl ?_
          simp [hfd]
        · refine stored_update rfl rfl fun d hd => ?_
          cases d with
          | read => exact waiting_subscript w fd .read
          | write => exact absurd rfl hd
    · next hin =>
        simp only [Except.ok.injEq] at h
        subst w'
        refine ⟨hm.erase _ ?_, ?_, rfl⟩
        · by_cases hfd : (w.subscript fd).fd = fd
          · exact .inl hfd
          · exact .inr ⟨(hm.own_fd hfd).2, hg.resolve_left hfd⟩
        · refine stored_update rfl rfl fun d hd => ?_
          cases d with
          | read =>
              rw [← waiting_subscript]
              exact (Classical.not_not.mp (mt (fun hr => hm.read_epollin hr) hin)).symm
          | write => exact absurd rfl hd

theorem stopListeningAll_spec {w w' : IoWatcher Coro} {fd : Int} (hm : Matched w)
    (hg : ∀ event, w.ioEvents fd = some event → event.fd = fd ∨ ∀ d, w.stored (d, event.fd) = none)
    (h : w.stopListeningAll (fun _ _ => true) fd = .ok w') :
    Matched w' ∧ w'.stored = Function.update (Function.update w.stored (.read, fd) none) (.write, fd) none ∧
      w'.activeCoroutines = w.activeCoroutines := by
  have hclear (d' : Direction) (g : Int) : Function.update (Function.update w.stored (.read, fd) none) (.write, fd)
      none (d', g) = if g = fd then none else w.stored (d', g) := by
    by_cases hgf : g = fd <;> cases d' <;> simp [hgf]
  rw [stopListeningAll] at h
  cases he : w.ioEvents fd with
  | none =>
      simp only [he, Except.ok.injEq] at h
      subst w'
      refine ⟨hm, funext fun ⟨d, g⟩ => ?_, rfl⟩
      rw [hclear]
      by_cases hgf : g = fd <;> simp [stored, hgf, he]
  | some event =>
      simp only [he, Except.ok.injEq] at h
      subst w'
      have hsub : w.subscript fd = event := by simp [subscript, he]
      refine ⟨hm.erase _ ?_, ?_, rfl⟩
      · by_cases hfd : event.fd = fd
        · exact .inl hfd
        · exact .inr ⟨(hm.own_fd (hsub ▸ hfd)).2, (hg event he).resolve_left hfd⟩
      · have hstored := stored_of_ioEvents (show
          ((w.control (fun _ _ => true) .del event.fd {}).assign fd none).ioEvents =
            Function.update w.ioEvents fd none from rfl)
        rw [hstored]
        funext ⟨d, g⟩
        rw [hclear]
        rfl

/-- What does not concern a descriptor is as before. -/
structure SameElsewhere (fd : Int) (w w' : IoWatcher Coro) : Prop where
  wakeUpFd : w'.wakeUpFd = w.wakeUpFd
  ioEvents : ∀ g, g ≠ fd → w'.ioEvents g = w.ioEvents g
  interest : ∀ g, g ≠ fd → w'.interest g = w.interest g

theorem SameElsewhere.refl (fd : Int) (w : IoWatcher Coro) : SameElsewhere fd w w :=
  ⟨rfl, fun _ _ => rfl, fun _ _ => rfl⟩

theorem SameElsewhere.trans {fd : Int} {u v w : IoWatcher Coro} (h : SameElsewhere fd u v)
    (h' : SameElsewhere fd v w) : SameElsewhere fd u w :=
  ⟨h'.wakeUpFd.trans h.wakeUpFd, fun g hg => (h'.ioEvents g hg).trans (h.ioEvents g hg),
    fun g hg => (h'.interest g hg).trans (h.interest g hg)⟩

theorem SameElsewhere.activated {fd : Int} {w w' : IoWatcher Coro} (h : SameElsewhere fd w w') {e : EpollEvent}
    (he : e.fd ≠ fd) : w'.activated e = w.activated e := by
  simp only [IoWatcher.activated, stored, h.wakeUpFd, h.ioEvents e.fd he]

theorem SameElsewhere.admitted {fd : Int} {w w' : IoWatcher Coro} (h : SameElsewhere fd w w') {e : EpollEvent}
    (he : e.fd ≠ fd) (ha : w.Admitted e) : w'.Admitted e := by
  rw [Admitted]
  rw [h.interest e.fd he]
  exact ha

theorem stopListeningWriteEvent_elsewhere {P : Platform} {w w' : IoWatcher Coro} {fd : Int}
    (hfd : (w.subscript fd).fd = fd) (h : w.stopListeningWriteEvent P (fun _ _ => true) fd = .ok w') :
    SameElsewhere fd w w' := by
  rw [stopListeningWriteEvent] at h
  split at h
  · cases h
  · simp only at h
    split at h
    all_goals
      simp only [Except.ok.injEq] at h
      subst w'
      exact ⟨rfl, fun g hg => by simp [hg], fun g hg => by simp [hfd, hg]⟩

/-- `WatchIo` drops the write interest twice. -/
theorem stopListeningWriteEvent_cleared (P : Platform) (succeeds : EpollOp → Int → Bool) (w : IoWatcher Coro)
    {fd : Int} {event : IoEvent Coro} (he : w.ioEvents fd = some event) :
    (w.assign fd (some { event with events := { event.events with epollout := false } })).stopListeningWriteEvent P
      succeeds fd = w.stopListeningWriteEvent P succeeds fd := by
  simp [stopListeningWriteEvent, subscript, he, assign, control]

theorem watchRead_spec {w : IoWatcher Coro} {event : IoEvent Coro} {e : EpollEvent} (hm : Matched w)
    (he : w.ioEvents e.fd = some event) :
    Matched (w.watchRead event e) ∧ SameElsewhere e.fd w (w.watchRead event e) ∧
      (w.watchRead event e).ioEvents e.fd = some { event with
        readHandle := (w.watchRead event e).stored (.read, e.fd) } ∧
      (w.watchRead event e).stored = (if e.events.epollin || (e.events.epollhup || e.events.epollerr) then
        Function.update w.stored (.read, e.fd) none else w.stored) ∧
      (w.watchRead event e).activeCoroutines.reduceOption = w.activeCoroutines.reduceOption ++
        (if e.events.epollin || (e.events.epollhup || e.events.epollerr) then
          (w.stored (.read, e.fd)).toList else []) := by
  have hstored : w.stored (.read, e.fd) = event.readHandle := by simp [stored, he, waiting]
  rw [hstored]
  have hsame : (w.ioEvents e.fd) = some { event with readHandle := w.stored (.read, e.fd) } := by
    rw [hstored, he]
  by_cases hin : (e.events.epollin || (e.events.epollhup || e.events.epollerr)) = true
  · cases hread : event.readHandle with
    | none =>
        have hw : w.watchRead event e = w := by simp [watchRead, hread]
        rw [hw]
        refine ⟨hm, .refl _ _, hsame, ?_, by simp⟩
        rw [if_pos hin, ← hread, ← hstored, Function.update_eq_self]
    | some h =>
        have hw : w.watchRead event e =
            (w.push (some h)).assign e.fd (some { event with readHandle := none }) := by
          simp only [watchRead, hin, hread, Option.isSome_some, Bool.and_self, if_true]
        have hm' : Matched (w.push (some h)) := hm
        rw [hw, if_pos hin, if_pos hin]
        refine ⟨hm'.assign ?_, ⟨rfl, fun g hg => ?_, fun g _ => rfl⟩, ?_, ?_, ?_⟩
        · have hd := hm e.fd
          rw [he] at hd
          change Descriptor e.fd _ (w.interest e.fd)
          generalize w.interest e.fd = mask at hd
          cases hd with
          | registered _ hfd _ hwrite =>
              exact .registered { event with readHandle := none } hfd (absurd rfl) hwrite
          | unregistered _ _ hnone => simp [hread] at hnone
        · exact Function.update_of_ne hg _ _
        · simp [stored, waiting]
        · refine stored_update rfl rfl fun d hd => ?_
          cases d with
          | read => exact absurd rfl hd
          | write => simp [stored, he, waiting]
        · simp [push, assign, List.reduceOption_append]
  · have hw : w.watchRead event e = w := by simp only [watchRead, hin, Bool.false_and, Bool.false_eq_true, if_false]
    rw [hw, if_neg hin, if_neg hin]
    exact ⟨hm, .refl _ _, hsame, rfl, by simp⟩

theorem watchWrite_spec {P : Platform} {w w' : IoWatcher Coro} {event : IoEvent Coro} {e : EpollEvent}
    (hm : Matched w) (he : w.ioEvents e.fd = some event) (hfd : event.fd = e.fd)
    (h : w.watchWrite P (fun _ _ => true) e = .ok w') :
    Matched w' ∧ SameElsewhere e.fd w w' ∧
      w'.stored = (if e.events.epollout then Function.update w.stored (.write, e.fd) none else w.stored) ∧
      w'.activeCoroutines.reduceOption = w.activeCoroutines.reduceOption ++
        (if e.events.epollout then (w.stored (.write, e.fd)).toList else []) := by
  have hstored : w.stored (.write, e.fd) = event.writeHandle := by simp [stored, he, waiting]
  have hsub : w.subscript e.fd = event := by simp [subscript, he]
  rw [watchWrite] at h
  by_cases hout : e.events.epollout = true
  · rw [if_pos hout, hsub] at h
    have hown : ((w.push event.writeHandle).subscript e.fd).fd = e.fd := (congrArg IoEvent.fd hsub).trans hfd
    have hcleared := stopListeningWriteEvent_cleared P (fun _ _ => true) (w.push event.writeHandle) he
    simp only [hfd] at h hcleared
    have h' := hcleared.symm.trans h
    obtain ⟨hm', hst', hac'⟩ := stopListeningWriteEvent_spec (w := w.push event.writeHandle) hm (.inl hown) h'
    have hpush : SameElsewhere e.fd w (w.push event.writeHandle) := ⟨rfl, fun _ _ => rfl, fun _ _ => rfl⟩
    refine ⟨hm', hpush.trans (stopListeningWriteEvent_elsewhere hown h'), ?_, ?_⟩
    · rw [if_pos hout]
      exact hst'
    · rw [if_pos hout, hac', hstored]
      cases event.writeHandle <;> simp [push, List.reduceOption_append]
  · rw [if_neg hout, Except.ok.injEq] at h
    subst w'
    rw [if_neg hout, if_neg hout]
    exact ⟨hm, .refl _ _, rfl, by simp⟩

theorem run_activated {w w' : IoWatcher Coro} {slot : Slot} {flag : Bool}
    (h : w'.stored = if flag then Function.update w.stored slot none else w.stored) (slot' : Slot) :
    Run SlotStep (w.stored slot') (slotHistory slot'
      (if flag then slotEvent .activated slot (w.stored slot) else [])) (w'.stored slot') := by
  rw [h]
  cases flag with
  | false => exact .stop
  | true => exact run_update (run_clear .activate _) slot'

theorem handles_slotEvent (event : Coro → SlotEvent Coro) (hevent : ∀ h, (event h).handle = h) (slot : Slot)
    (handle : Option Coro) : (slotEvent event slot handle).map (·.2.handle) = handle.toList := by
  cases handle <;> simp [slotEvent, hevent]

theorem watchEvent_spec {P : Platform} {w w' : IoWatcher Coro} {e : EpollEvent} (hm : Matched w)
    (ha : w.Admitted e) (h : w.watchEvent P (fun _ _ => true) e = .ok w') :
    Matched w' ∧ SameElsewhere e.fd w w' ∧
      (∀ slot, Run SlotStep (w.stored slot) (slotHistory slot (w.activated e)) (w'.stored slot)) ∧
      w'.activeCoroutines.reduceOption = w.activeCoroutines.reduceOption ++ (w.activated e).map (·.2.handle) := by
  obtain ⟨mask, hmask, -, -⟩ := ha
  obtain ⟨event, he, hfd⟩ : ∃ event, w.ioEvents e.fd = some event ∧ event.fd = e.fd := by
    have hd := hm e.fd
    rw [hmask] at hd
    generalize w.ioEvents e.fd = found at hd
    cases hd with
    | registered event hfd => exact ⟨event, rfl, hfd⟩
  rw [watchEvent] at h
  simp only [he, hfd] at h
  by_cases hwake : e.fd = w.wakeUpFd
  · rw [if_pos hwake, Except.ok.injEq] at h
    subst w'
    have hnone : w.activated e = [] := by simp only [activated, hwake, if_true]
    rw [hnone]
    exact ⟨hm, .refl _ _, fun slot => .stop, by simp⟩
  · rw [if_neg hwake] at h
    obtain ⟨hm₁, hs₁, he₁, hst₁, hac₁⟩ := watchRead_spec hm he
    generalize w.watchRead event e = w₁ at h hm₁ hs₁ he₁ hst₁ hac₁
    obtain ⟨hm', hs', hst', hac'⟩ := watchWrite_spec hm₁ he₁ hfd h
    have hwaiting : w₁.stored (.write, e.fd) = w.stored (.write, e.fd) := by
      rw [hst₁]
      split <;> simp
    refine ⟨hm', hs₁.trans hs', fun slot => ?_, ?_⟩
    · have hwrite := run_activated hst' slot
      rw [hwaiting] at hwrite
      simpa only [activated, hwake, if_false, slotHistory_append] using (run_activated hst₁ slot).append hwrite
    · rw [hac', hac₁, hwaiting]
      simp only [activated, hwake, if_false, List.map_append, List.append_assoc]
      congr 2
      · split
        · exact (handles_slotEvent _ (fun _ => rfl) _ _).symm
        · rfl
      · split
        · exact (handles_slotEvent _ (fun _ => rfl) _ _).symm
        · rfl

theorem watchEvents_spec {P : Platform} {w' : IoWatcher Coro} (events : List EpollEvent) (w : IoWatcher Coro)
    (hm : Matched w) (hnodup : (events.map (·.fd)).Nodup) (ha : ∀ e ∈ events, w.Admitted e)
    (h : events.foldlM (watchEvent P fun _ _ => true) w = .ok w') :
    Matched w' ∧
      (∀ slot, Run SlotStep (w.stored slot) (slotHistory slot (events.flatMap w.activated)) (w'.stored slot)) ∧
      w'.activeCoroutines.reduceOption =
        w.activeCoroutines.reduceOption ++ (events.flatMap w.activated).map (·.2.handle) := by
  induction events generalizing w with
  | nil =>
      simp only [List.foldlM_nil] at h
      cases h
      exact ⟨hm, fun slot => .stop, by simp⟩
  | cons e es ih =>
      simp only [List.map_cons, List.nodup_cons, List.mem_map, not_exists, not_and] at hnodup
      obtain ⟨w₁, h₁, h⟩ : ∃ w₁, w.watchEvent P (fun _ _ => true) e = .ok w₁ ∧
          es.foldlM (watchEvent P fun _ _ => true) w₁ = .ok w' := by
        rw [List.foldlM_cons] at h
        cases h₁ : w.watchEvent P (fun _ _ => true) e with
        | error f => rw [h₁] at h; cases h
        | ok w₁ => rw [h₁] at h; exact ⟨w₁, rfl, h⟩
      obtain ⟨hm₁, hs₁, hrun₁, hac₁⟩ := watchEvent_spec hm (ha e (by simp)) h₁
      obtain ⟨hm', hrun', hac'⟩ := ih w₁ hm₁ hnodup.2
        (fun e' he' => hs₁.admitted (hnodup.1 e' he') (ha e' (by simp [he']))) h
      have hrest : es.flatMap w₁.activated = es.flatMap w.activated :=
        List.flatMap_congr fun e' he' => hs₁.activated (hnodup.1 e' he')
      rw [hrest] at hrun' hac'
      refine ⟨hm', fun slot => ?_, ?_⟩
      · rw [List.flatMap_cons, slotHistory_append]
        exact (hrun₁ slot).append (hrun' slot)
      · rw [hac', hac₁, List.flatMap_cons, List.map_append, List.append_assoc]

end Libcold.IoWatcher
