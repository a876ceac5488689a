import Libcold.IoAwaitable
import Libcold.Platform
import Mathlib.Logic.Function.Basic

namespace Libcold

open Runs

/-- The awaitables whose coroutine becomes the `readHandle` of a descriptor. -/
inductive Reader
  | readAwaitable
  | acceptAwaitable
  | asyncRead
  deriving DecidableEq

def Reader.op : Reader → IoOperation
  | readAwaitable => .readAwaitable
  | acceptAwaitable => .acceptAwaitable
  | asyncRead => .asyncRead

/-- Whether `await_ready` gives false, when its system call, if it makes one, comes to `r`. -/
def Reader.suspends (reader : Reader) (connected : Bool) (r : SysResult) : Bool :=
  !(reader.op.checksConnected && !connected) &&
    !(reader.op.callsInReady && reader.op.ready r && !reader.op.alwaysSuspends)

/-- A descriptor: what can be read or accepted, whether `ioEvents_` has an entry for it
and the kernel was told EPOLLIN, whether a notification is pending, and whose handle
the entry keeps. -/
structure Watchable where
  unread : Nat := 0
  entry : Bool := false
  epollin : Bool := false
  notified : Bool := false
  readHandle : Option Reader := none

namespace Watchable

def arrive (d : Watchable) (n : Nat) : Watchable :=
  { d with unread := d.unread + n, notified := d.notified || d.epollin }

def take (d : Watchable) (n : Nat) : Watchable := { d with unread := d.unread - n }

/-- `ListenReadEvent`. Only a new entry is registered. -/
def listenRead (d : Watchable) (handle : Option Reader) : Watchable :=
  if d.entry then { d with readHandle := handle }
  else { d with entry := true, epollin := true, notified := decide (0 < d.unread), readHandle := handle }

def stopListeningRead (d : Watchable) : Watchable := { d with readHandle := none }

/-- `ListenWriteEvent`, which makes an entry without EPOLLIN. -/
def listenWrite (d : Watchable) : Watchable := { d with entry := true }

/-- `StopListeningWriteEvent`, which removes such an entry. -/
def stopListeningWrite (d : Watchable) : Watchable :=
  if d.epollin then d else { d with entry := false, readHandle := none }

/-- `WatchIo`, on a descriptor that is reported as readable or disconnected. -/
def watch (d : Watchable) : Watchable := { d with notified := false, readHandle := none }

/-- What a system call that takes so much can come to; an aborted connection is taken
by an `accept4` that fails. -/
def Comes (d : Watchable) (n : Nat) : SysResult → Prop
  | .done takes => n ≤ d.unread ∧ (takes = true ↔ 0 < n)
  | .again takes => takes = false ∧ n = 0 ∧ d.unread = 0
  | .timedOut | .failed => n ≤ d.unread

end Watchable

/-- A coroutine between `await_ready` and `await_suspend`. -/
structure Suspending (Fd : Type) where
  fd : Fd
  reader : Reader
  result : SysResult

/-- Its call has found that there is nothing to take. -/
def Suspending.foundNothing {Fd : Type} (w : Suspending Fd) : Bool :=
  match w.reader, w.result with
  | .asyncRead, _ | .acceptAwaitable, .timedOut | .acceptAwaitable, .failed => false
  | _, _ => true

structure EdgeLoop (Fd : Type) where
  descriptors : Fd → Watchable := fun _ => {}
  suspending : Option (Suspending Fd) := none

inductive EdgeEvent (Fd : Type)
  | arrival (fd : Fd)
  | suspend
  | other

namespace EdgeLoop

variable {Fd : Type} [DecidableEq Fd]

def modify (s : EdgeLoop Fd) (fd : Fd) (f : Watchable → Watchable) : EdgeLoop Fd :=
  { s with descriptors := Function.update s.descriptors fd (f (s.descriptors fd)) }

/-- `await_ready`, where its call takes so much. -/
def awaitReady (s : EdgeLoop Fd) (fd : Fd) (reader : Reader) (connected : Bool) (r : SysResult) (n : Nat) :
    EdgeLoop Fd :=
  if reader.suspends connected r then { s.modify fd (·.take n) with suspending := some ⟨fd, reader, r⟩ }
  else s.modify fd (·.take n)

/-- The steps of the loop and of the kernel. Nothing of the loop comes between an
`await_ready` and its `await_suspend`, but input may. -/
inductive Step (P : Platform) : EdgeLoop Fd → EdgeEvent Fd → EdgeLoop Fd → Prop
  | arrival (s) (fd) (n) (hn : 0 < n) : Step P s (.arrival fd) (s.modify fd (·.arrive n))
  | registerSocket (s) (fd) (hidle : s.suspending = none)
      (hassert : P.ndebug = true ∨ (s.descriptors fd).readHandle = none) :
      Step P s .other (s.modify fd (·.listenRead none))
  | awaitReady (s) (fd) (reader) (connected r n) (hidle : s.suspending = none)
      (hcall : reader.op.callsInReady = true → (s.descriptors fd).Comes n r)
      (hnone : reader.op.callsInReady = false → n = 0) : Step P s .other (s.awaitReady fd reader connected r n)
  | awaitSuspend (s) (w) (hsuspending : s.suspending = some w)
      (hassert : P.ndebug = true ∨ (s.descriptors w.fd).readHandle = none) :
      Step P s .suspend { s.modify w.fd (·.listenRead (some w.reader)) with suspending := none }
  | awaitResume (s) (fd) (r n) (hidle : s.suspending = none) (hcall : (s.descriptors fd).Comes n r) :
      Step P s .other (s.modify fd (·.take n))
  | stopListeningRead (s) (fd) (hidle : s.suspending = none) : Step P s .other (s.modify fd (·.stopListeningRead))
  | listenWrite (s) (fd) (hidle : s.suspending = none) : Step P s .other (s.modify fd (·.listenWrite))
  | stopListeningWrite (s) (fd) (hidle : s.suspending = none) : Step P s .other (s.modify fd (·.stopListeningWrite))
  | close (s) (fd) (hidle : s.suspending = none) : Step P s .other (s.modify fd fun _ => {})
  | watchIo (s) (reported : Fd → Bool) (hidle : s.suspending = none)
      (hreported : ∀ fd, reported fd = true → (s.descriptors fd).entry = true) :
      Step P s .other { s with
        descriptors := fun fd => if reported fd then (s.descriptors fd).watch else s.descriptors fd }

/-- Where a coroutine is stored and there is input, a notification is pending. -/
def Notified (s : EdgeLoop Fd) : Prop :=
  ∀ fd, (s.descriptors fd).readHandle ≠ none → 0 < (s.descriptors fd).unread → (s.descriptors fd).notified = true

/-- A coroutine that is stored without having found that there is nothing, by `AsyncRead`
or after another error of `accept4`, gets a new entry or a notification where there is
input. No coroutine is stored in an entry without EPOLLIN when there is input. -/
def NothingLeft (s : EdgeLoop Fd) : EdgeEvent Fd → Prop
  | .suspend => ∀ w, s.suspending = some w → (s.descriptors w.fd).entry = true → 0 < (s.descriptors w.fd).unread →
      if w.foundNothing then (s.descriptors w.fd).epollin = true else (s.descriptors w.fd).notified = true
  | .arrival fd => (s.descriptors fd).readHandle ≠ none → (s.descriptors fd).epollin = true
  | .other => True

end EdgeLoop

namespace Watchable

structure Good (d : Watchable) : Prop where
  stored : d.readHandle ≠ none → 0 < d.unread → d.notified = true
  registered : d.notified = true → d.epollin = true
  entered : d.epollin = true → d.entry = true

/-- Input that has come to a registered descriptor was notified. -/
def Caught (d : Watchable) : Prop := d.epollin = true → 0 < d.unread → d.notified = true

section

variable {d : Watchable} {n : Nat}

theorem Good.arrive (h : d.Good) (hguard : d.readHandle ≠ none → d.epollin = true) : (d.arrive n).Good where
  stored hhandle _ := Bool.or_eq_true_iff.mpr (.inr (hguard hhandle))
  registered hnotified := (Bool.or_eq_true_iff.mp hnotified).elim h.registered id
  entered := h.entered

theorem caught_arrive (d : Watchable) (n : Nat) : (d.arrive n).Caught :=
  fun hepollin _ => Bool.or_eq_true_iff.mpr (.inr hepollin)

theorem Good.take (h : d.Good) : (d.take n).Good where
  stored hhandle hunread := h.stored hhandle (Nat.lt_of_lt_of_le hunread (Nat.sub_le _ _))
  registered := h.registered
  entered := h.entered

theorem Good.listenRead (h : d.Good) {handle : Option Reader}
    (hguard : handle ≠ none → d.entry = true → 0 < d.unread → d.notified = true) : (d.listenRead handle).Good := by
  rw [Watchable.listenRead]
  split_ifs with hentry
  · exact ⟨fun hhandle => hguard hhandle hentry, h.registered, h.entered⟩
  · exact ⟨fun _ hunread => decide_eq_true hunread, fun _ => rfl, fun _ => rfl⟩

theorem Good.stopListeningRead (h : d.Good) : d.stopListeningRead.Good where
  stored hhandle := absurd rfl hhandle
  registered := h.registered
  entered := h.entered

theorem Good.listenWrite (h : d.Good) : d.listenWrite.Good where
  stored := h.stored
  registered := h.registered
  entered _ := rfl

theorem Good.stopListeningWrite (h : d.Good) : d.stopListeningWrite.Good := by
  rw [Watchable.stopListeningWrite]
  split_ifs with hepollin
  · exact h
  · exact ⟨fun hhandle => absurd rfl hhandle, h.registered, fun hin => absurd hin hepollin⟩

theorem Good.watch (h : d.Good) : d.watch.Good where
  stored hhandle := absurd rfl hhandle
  registered hnotified := by cases hnotified
  entered := h.entered

theorem good_fresh : ({} : Watchable).Good where
  stored hhandle := absurd rfl hhandle
  registered hnotified := by cases hnotified
  entered hepollin := by cases hepollin

end

end Watchable

namespace EdgeLoop

variable {Fd : Type} [DecidableEq Fd] {P : Platform} {s t : EdgeLoop Fd} {e : EdgeEvent Fd}

omit [DecidableEq Fd] in
structure Inv (s : EdgeLoop Fd) : Prop where
  good : ∀ fd, (s.descriptors fd).Good
  caught : ∀ w, s.suspending = some w → w.foundNothing = true → (s.descriptors w.fd).Caught

theorem modify_good {f : Watchable → Watchable} (h : ∀ fd, (s.descriptors fd).Good) (fd : Fd)
    (hf : (f (s.descriptors fd)).Good) (g : Fd) : ((s.modify fd f).descriptors g).Good := by
  by_cases hg : g = fd
  · subst hg
    simpa [modify] using hf
  · simpa [modify, hg] using h g

theorem Inv.modify {f : Watchable → Watchable} (h : Inv s) (hidle : s.suspending = none) (fd : Fd)
    (hf : (f (s.descriptors fd)).Good) : Inv (s.modify fd f) where
  good := modify_good h.good fd hf
  caught w hw := by
    cases hidle.symm.trans hw

omit [DecidableEq Fd] in
/-- A call that ends in a suspension has found nothing, or another error. -/
theorem foundNothing_unread {d : Watchable} {reader : Reader} {connected : Bool} {r : SysResult} {n : Nat} {fd : Fd}
    (hcall : reader.op.callsInReady = true → d.Comes n r) (hsuspends : reader.suspends connected r = true)
    (hfound : (Suspending.mk fd reader r).foundNothing = true) : d.unread = 0 := by
  cases reader with
  | asyncRead => cases hfound
  | readAwaitable =>
      have hcomes := hcall rfl
      cases r with
      | again takes => exact hcomes.2.2
      | done takes => cases connected <;> cases hsuspends
      | timedOut | failed => cases connected <;> cases hsuspends
  | acceptAwaitable =>
      have hcomes := hcall rfl
      cases r with
      | again takes => exact hcomes.2.2
      | done takes => cases connected <;> cases hsuspends
      | timedOut | failed => cases hfound

omit [DecidableEq Fd] in
theorem start_inv : Inv ({} : EdgeLoop Fd) :=
  ⟨fun _ => Watchable.good_fresh, fun w hw => by cases hw⟩

/-- A step keeps what holds of every run when nothing is left to read without a notification. -/
theorem step_inv (h : Inv s) (hguard : NothingLeft s e) (hstep : Step P s e t) : Inv t := by
  cases hstep with
  | arrival fd n hn =>
      refine ⟨modify_good h.good fd ((h.good fd).arrive hguard), fun w hw hfound => ?_⟩
      by_cases hfd : w.fd = fd
      · simpa [EdgeLoop.modify, hfd] using Watchable.caught_arrive (s.descriptors fd) n
      · simpa [EdgeLoop.modify, hfd] using h.caught w hw hfound
  | registerSocket fd hidle hassert =>
      exact h.modify hidle fd ((h.good fd).listenRead fun hhandle => absurd rfl hhandle)
  | awaitReady fd reader connected r n hidle hcall hnone =>
      rw [awaitReady]
      split_ifs with hsuspends
      · have hgood := modify_good (f := (·.take n)) h.good fd (h.good fd).take
        refine ⟨hgood, ?_⟩
        rintro w ⟨rfl⟩ hfound _ hunread
        have hzero := foundNothing_unread hcall hsuspends hfound
        simp [EdgeLoop.modify, Watchable.take, hzero] at hunread
      · exact h.modify hidle fd (h.good fd).take
  | awaitSuspend w hsuspending hassert =>
      suffices hstored : ((s.descriptors w.fd).listenRead (some w.reader)).Good by
        have hgood := modify_good (f := (·.listenRead (some w.reader))) h.good w.fd hstored
        exact ⟨hgood, by simp⟩
      refine (h.good w.fd).listenRead fun _ hentry hunread => ?_
      have hw := hguard w hsuspending hentry hunread
      split_ifs at hw with hfound
      · exact h.caught w hsuspending hfound hw hunread
      · exact hw
  | awaitResume fd r n hidle hcall => exact h.modify hidle fd (h.good fd).take
  | stopListeningRead fd hidle => exact h.modify hidle fd (h.good fd).stopListeningRead
  | listenWrite fd hidle => exact h.modify hidle fd (h.good fd).listenWrite
  | stopListeningWrite fd hidle => exact h.modify hidle fd (h.good fd).stopListeningWrite
  | close fd hidle => exact h.modify hidle fd Watchable.good_fresh
  | watchIo reported hidle hreported =>
      refine ⟨fun fd => ?_, fun w hw => by cases hidle.symm.trans hw⟩
      dsimp only
      split_ifs
      · exact (h.good fd).watch
      · exact h.good fd

theorem step_guarded (h : Inv s) (hstep : Step P s e t) (ht : Notified t) : NothingLeft s e := by
  cases hstep with
  | arrival fd n hn =>
      intro hhandle
      have hnotified := ht fd (by simpa [EdgeLoop.modify, Watchable.arrive] using hhandle)
        (by simp only [EdgeLoop.modify, Function.update_self]; exact Nat.add_pos_right _ hn)
      simp only [EdgeLoop.modify, Function.update_self, Watchable.arrive, Bool.or_eq_true] at hnotified
      exact hnotified.elim (h.good fd).registered id
  | awaitSuspend w hsuspending hassert =>
      intro w' hw' hentry hunread
      obtain rfl : w = w' := Option.some.inj (hsuspending.symm.trans hw')
      have hnotified := ht w.fd
      simp only [EdgeLoop.modify, Function.update_self, Watchable.listenRead, if_pos hentry] at hnotified
      have hpending := hnotified (by simp) hunread
      split_ifs
      · exact (h.good w.fd).registered hpending
      · exact hpending
  | registerSocket | awaitReady | awaitResume | stopListeningRead => trivial
  | listenWrite | stopListeningWrite | close | watchIo => trivial

/-- Where a coroutine is stored on a descriptor that has input, a notification is pending,
exactly where every coroutine that is stored has found nothing, or finds a notification. -/
theorem reader_notified_iff (P : Platform) (trace : List (EdgeEvent Fd)) (s : EdgeLoop Fd) :
    Run (Guarded NothingLeft (Step P)) {} trace s ↔ Run (Within Notified (Step P)) {} trace s := by
  refine run_guarded_iff_within start_inv (fun _ h fd => (h.good fd).stored) ?_ ?_ trace s
  · intro s e t h hguard hstep
    exact step_inv h hguard hstep
  · intro s e t h hstep ht
    exact step_guarded h hstep ht

/-- `AsyncRead` with a buffer for one byte, twice, on a descriptor with two. -/
theorem asyncRead_stalls : ¬ ∀ (P : Platform) (trace : List (EdgeEvent Unit)) (s : EdgeLoop Unit),
    Run (Step P) {} trace s → Notified s := by
  intro h
  have hrun : Run (Step ⟨.little, false⟩) ({} : EdgeLoop Unit)
      [.arrival (), .other, .suspend, .other, .other, .other, .suspend] _ :=
    run_cons_iff.mpr ⟨_, .arrival _ () 2 (by decide),
      run_cons_iff.mpr ⟨_, .awaitReady _ () .asyncRead true (.done true) 0 rfl nofun (fun _ => rfl),
      run_cons_iff.mpr ⟨_, .awaitSuspend _ _ rfl (.inr rfl),
      run_cons_iff.mpr ⟨_, .watchIo _ (fun _ => true) rfl (fun _ _ => rfl),
      run_cons_iff.mpr ⟨_, .awaitResume _ () (.done true) 1 rfl ⟨by decide, by decide⟩,
      run_cons_iff.mpr ⟨_, .awaitReady _ () .asyncRead true (.done true) 0 rfl nofun (fun _ => rfl),
      .single (.awaitSuspend _ _ rfl (.inr rfl))⟩⟩⟩⟩⟩⟩
  have hnotified := h _ _ _ hrun () (by decide) (by decide)
  cases hnotified

end EdgeLoop

end Libcold
