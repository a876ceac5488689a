import Libcold.Runs
import Mathlib.Logic.Function.Basic

namespace Libcold

open Runs

variable {Conn : Type}

/-- The control points of `DoAccept`, `Accept` and the two functions of `AcceptAwaitable`. -/
inductive AcceptPc (Conn : Type)
  | awaitReady
  | suspended
  | awaitResume
  | accepted (c : Conn)
  | closeIdle
  | acceptIdle
  | closeAccepted (c : Option Conn)
  | openIdle

/-- What a descriptor of the process is open for. -/
inductive FdUse (Conn : Type)
  | listener
  | idle
  | connection (c : Conn)
  | refused (c : Conn)
  | other

/-- The descriptors of the process, the member `idleFd_` (none for -1), the connections
that the kernel has queued, and the accepting coroutine. -/
structure AcceptLoop (Conn : Type) where
  fds : Nat → Option (FdUse Conn)
  idleFd : Option Nat
  queue : List Conn := []
  pc : AcceptPc Conn := .awaitReady

inductive AcceptEvent (Conn : Type)
  | arrives (c : Conn)
  | spawned (c : Conn)
  | refused (c : Conn)
  | aborted (c : Conn)
  | otherOpens
  | other

/-- Between the `close` of the spare descriptor and the `open` of the next one. -/
def AcceptPc.inGap : AcceptPc Conn → Prop
  | .acceptIdle | .closeAccepted _ | .openIdle => True
  | _ => False

/-- The connection that the coroutine has accepted and not done with. -/
def AcceptPc.inHand : AcceptPc Conn → List Conn
  | .accepted c | .closeAccepted (some c) => [c]
  | _ => []

namespace AcceptLoop

def setFd (s : AcceptLoop Conn) (fd : Nat) (use : Option (FdUse Conn)) : AcceptLoop Conn :=
  { s with fds := Function.update s.fds fd use }

/-- `close(idleFd_)`, which leaves the member as it is. -/
def closeIdleFd (s : AcceptLoop Conn) : AcceptLoop Conn :=
  match s.idleFd with
  | some fd => s.setFd fd none
  | none => s

def Free (limit : Nat) (s : AcceptLoop Conn) (fd : Nat) : Prop := fd < limit ∧ s.fds fd = none

def Full (limit : Nat) (s : AcceptLoop Conn) : Prop := ∀ fd < limit, s.fds fd ≠ none

/-- Steps of the kernel, of other threads, of the connections that end, and of the
accepting coroutine. `accept` may also fail with nothing taken, or take a connection that
was aborted; EMFILE is for a full table. -/
inductive Step (limit : Nat) : AcceptLoop Conn → AcceptEvent Conn → AcceptLoop Conn → Prop
  | arrives (s) (c) : Step limit s (.arrives c) { s with queue := s.queue ++ [c] }
  | otherOpens (s) (fd) (hfree : s.Free limit fd) : Step limit s .otherOpens (s.setFd fd (some .other))
  | otherCloses (s) (fd) (hother : s.fds fd = some .other) : Step limit s .other (s.setFd fd none)
  | disconnects (s) (fd) (c) (hconn : s.fds fd = some (.connection c)) : Step limit s .other (s.setFd fd none)
  | accepts (s) (c) (rest) (fd) (hpc : s.pc = .awaitReady ∨ s.pc = .awaitResume) (hqueue : s.queue = c :: rest)
      (hfree : s.Free limit fd) :
      Step limit s .other { s.setFd fd (some (.connection c)) with queue := rest, pc := .accepted c }
  | abortReady (s) (c) (rest) (hpc : s.pc = .awaitReady) (hqueue : s.queue = c :: rest) :
      Step limit s (.aborted c) { s with queue := rest, pc := .suspended }
  | failReady (s) (hpc : s.pc = .awaitReady) : Step limit s .other { s with pc := .suspended }
  | resume (s) (hpc : s.pc = .suspended) : Step limit s .other { s with pc := .awaitResume }
  | abortResume (s) (c) (rest) (hpc : s.pc = .awaitResume) (hqueue : s.queue = c :: rest) :
      Step limit s (.aborted c) { s with queue := rest, pc := .awaitReady }
  | failResume (s) (hpc : s.pc = .awaitResume) : Step limit s .other { s with pc := .awaitReady }
  | exhausted (s) (hpc : s.pc = .awaitResume) (hfull : s.Full limit) : Step limit s .other { s with pc := .closeIdle }
  | spawn (s) (c) (hpc : s.pc = .accepted c) : Step limit s (.spawned c) { s with pc := .awaitReady }
  | closeIdle (s) (hpc : s.pc = .closeIdle) : Step limit s .other { s.closeIdleFd with pc := .acceptIdle }
  | acceptIdle (s) (c) (rest) (fd) (hpc : s.pc = .acceptIdle) (hqueue : s.queue = c :: rest)
      (hfree : s.Free limit fd) :
      Step limit s .other
        { s.setFd fd (some (.refused c)) with queue := rest, idleFd := some fd, pc := .closeAccepted (some c) }
  | abortIdle (s) (c) (rest) (hpc : s.pc = .acceptIdle) (hqueue : s.queue = c :: rest) :
      Step limit s (.aborted c) { s with queue := rest, idleFd := none, pc := .closeAccepted none }
  | failIdle (s) (hpc : s.pc = .acceptIdle) : Step limit s .other { s with idleFd := none, pc := .closeAccepted none }
  | closeAccepted (s) (c) (hpc : s.pc = .closeAccepted (some c)) :
      Step limit s (.refused c) { s.closeIdleFd with pc := .openIdle }
  | closeNone (s) (hpc : s.pc = .closeAccepted none) : Step limit s .other { s.closeIdleFd with pc := .openIdle }
  | openIdle (s) (fd) (hpc : s.pc = .openIdle) (hfree : s.Free limit fd) :
      Step limit s .other { s.setFd fd (some .idle) with idleFd := some fd, pc := .awaitReady }
  | openFails (s) (hpc : s.pc = .openIdle) (hfull : s.Full limit) :
      Step limit s .other { s with idleFd := none, pc := .awaitReady }

/-- After the constructor and `Listen`, among the descriptors of other parts. -/
def start (others : Nat → Bool) (listenFd idleFd : Nat) : AcceptLoop Conn where
  fds fd := if fd = idleFd then some .idle else if fd = listenFd then some .listener
    else if others fd then some .other else none
  idleFd := some idleFd

def arrived (trace : List (AcceptEvent Conn)) : List Conn :=
  trace.filterMap fun
    | .arrives c => some c
    | _ => none

/-- The connections that are done with: their coroutine was spawned, or they were refused
for lack of a descriptor, or the kernel has reported them as aborted. -/
def settled (trace : List (AcceptEvent Conn)) : List Conn :=
  trace.filterMap fun
    | .spawned c | .refused c | .aborted c => some c
    | _ => none

/-- The spare descriptor is the accepting coroutine's own, and it has no other but the
one of a connection that it refuses. -/
structure Inv (limit : Nat) (s : AcceptLoop Conn) : Prop where
  spare : ∀ fd, s.idleFd = some fd → ¬ s.pc.inGap → fd < limit ∧ s.fds fd = some .idle
  refusing : ∀ c, s.pc = .closeAccepted c →
    (c = none ∧ s.idleFd = none) ∨ ∃ d fd, c = some d ∧ s.idleFd = some fd ∧ fd < limit ∧ s.fds fd = some (.refused d)
  idle : ∀ fd, s.fds fd = some .idle → s.idleFd = some fd ∧ ¬ s.pc.inGap
  refused : ∀ fd c, s.fds fd = some (.refused c) → s.idleFd = some fd ∧ s.pc = .closeAccepted (some c)

/-- A descriptor that is not the loop's own changes hands between the others. -/
theorem Inv.setOther {limit : Nat} {s : AcceptLoop Conn} (h : Inv limit s) {fd : Nat} {use : Option (FdUse Conn)}
    (hold : s.fds fd ≠ some .idle ∧ ∀ c, s.fds fd ≠ some (.refused c))
    (hnew : use ≠ some .idle ∧ ∀ c, use ≠ some (.refused c)) : Inv limit (s.setFd fd use) := by
  have hfds (fd' : Nat) {own : FdUse Conn} (hown : own = .idle ∨ ∃ c, own = .refused c) :
      (s.setFd fd use).fds fd' = some own ↔ s.fds fd' = some own := by
    by_cases hfd : fd' = fd
    · subst hfd
      simp only [setFd, Function.update_self]
      rcases hown with rfl | ⟨c, rfl⟩
      · exact iff_of_false hnew.1 hold.1
      · exact iff_of_false (hnew.2 c) (hold.2 c)
    · simp [setFd, hfd]
  constructor
  · intro fd' hidle hgap
    rw [hfds fd' (.inl rfl)]
    exact h.spare fd' hidle hgap
  · intro c hpc
    rcases h.refusing c hpc with hnone | ⟨d, fd', hc, hidle, hlt, hrefused⟩
    · exact .inl hnone
    · exact .inr ⟨d, fd', hc, hidle, hlt, (hfds fd' (.inr ⟨d, rfl⟩)).mpr hrefused⟩
  · intro fd' hidle
    exact h.idle fd' ((hfds fd' (.inl rfl)).mp hidle)
  · intro fd' c hrefused
    exact h.refused fd' c ((hfds fd' (.inr ⟨c, rfl⟩)).mp hrefused)

/-- The coroutine goes on where it keeps the spare descriptor. -/
theorem Inv.goto {limit : Nat} {s : AcceptLoop Conn} (h : Inv limit s) (hgap : ¬ s.pc.inGap) (queue : List Conn)
    {pc : AcceptPc Conn} (hpc : ¬ pc.inGap) : Inv limit { s with queue, pc } := by
  have hnone (fd : Nat) (c : Conn) (hrefused : s.fds fd = some (.refused c)) : False := by
    rw [(h.refused fd c hrefused).2] at hgap
    exact hgap trivial
  constructor
  · exact fun fd hidle _ => h.spare fd hidle hgap
  · rintro c rfl
    exact absurd trivial hpc
  · exact fun fd hidle => ⟨(h.idle fd hidle).1, hpc⟩
  · exact fun fd c hrefused => (hnone fd c hrefused).elim

/-- Where the spare descriptor is closed, the loop has none. -/
structure Bare (s : AcceptLoop Conn) : Prop where
  idle : ∀ fd, s.fds fd ≠ some .idle
  refused : ∀ fd c, s.fds fd ≠ some (.refused c)

theorem Inv.bare {limit : Nat} {s : AcceptLoop Conn} (h : Inv limit s) (hpc : s.pc = .acceptIdle ∨ s.pc = .openIdle) :
    s.Bare := by
  constructor
  · intro fd hidle
    have hgap := (h.idle fd hidle).2
    rcases hpc with hpc | hpc <;> simp [hpc, AcceptPc.inGap] at hgap
  · intro fd c hrefused
    have hrefusing := (h.refused fd c hrefused).2
    rcases hpc with hpc | hpc <;> simp [hpc] at hrefusing

theorem Bare.inv {limit : Nat} {s : AcceptLoop Conn} (h : s.Bare)
    (hspare : s.idleFd = none ∨ s.pc = .acceptIdle ∨ s.pc = .openIdle) (hpc : ∀ c, s.pc = .closeAccepted c → c = none) :
    Inv limit s := by
  constructor
  · intro fd hidle hgap
    rcases hspare with hnone | hpc | hpc
    · simp [hnone] at hidle
    · simp [hpc, AcceptPc.inGap] at hgap
    · simp [hpc, AcceptPc.inGap] at hgap
  · intro c hrefusing
    rcases hspare with hnone | hpc' | hpc'
    · exact .inl ⟨hpc c hrefusing, hnone⟩
    · simp [hpc'] at hrefusing
    · simp [hpc'] at hrefusing
  · exact fun fd hidle => absurd hidle (h.idle fd)
  · exact fun fd c hrefused => absurd hrefused (h.refused fd c)

/-- After the `close` of the one descriptor that it has, the loop has none. -/
theorem bare_closeIdleFd {s : AcceptLoop Conn}
    (h : ∀ fd, s.fds fd = some .idle ∨ (∃ c, s.fds fd = some (.refused c)) → s.idleFd = some fd) :
    s.closeIdleFd.Bare := by
  have hclosed (fd : Nat) (use : FdUse Conn) (howned : use = .idle ∨ ∃ c, use = .refused c) :
      s.closeIdleFd.fds fd ≠ some use := by
    intro hfd
    have hopen : s.idleFd ≠ some fd ∧ s.fds fd = some use := by
      unfold closeIdleFd at hfd
      split at hfd
      · rename_i fd' hidle
        by_cases heq : fd = fd'
        · simp [setFd, heq] at hfd
        · exact ⟨by simp [hidle, Ne.symm heq], by simpa [setFd, heq] using hfd⟩
      · rename_i hidle
        exact ⟨by simp [hidle], hfd⟩
    refine hopen.1 (h fd ?_)
    rcases howned with rfl | ⟨c, rfl⟩
    · exact .inl hopen.2
    · exact .inr ⟨c, hopen.2⟩
  exact ⟨fun fd => hclosed fd _ (.inl rfl), fun fd c => hclosed fd _ (.inr ⟨c, rfl⟩)⟩

theorem step_inv {limit : Nat} {s t : AcceptLoop Conn} {event : AcceptEvent Conn} (h : Inv limit s)
    (hstep : Step limit s event t) : Inv limit t := by
  have howned (fd : Nat) (hfd : s.fds fd = some .idle ∨ ∃ c, s.fds fd = some (.refused c)) : s.idleFd = some fd := by
    rcases hfd with hidle | ⟨c, hrefused⟩
    · exact (h.idle fd hidle).1
    · exact (h.refused fd c hrefused).1
  cases hstep with
  | arrives c => exact ⟨h.spare, h.refusing, h.idle, h.refused⟩
  | otherOpens fd hfree => exact h.setOther (by simp [hfree.2]) (by simp)
  | otherCloses fd hother => exact h.setOther (by simp [hother]) (by simp)
  | disconnects fd c hconn => exact h.setOther (by simp [hconn]) (by simp)
  | accepts c rest fd hpc hqueue hfree =>
      refine (h.setOther (by simp [hfree.2]) (by simp)).goto ?_ rest id
      rcases hpc with hpc | hpc <;> simp [setFd, hpc, AcceptPc.inGap]
  | abortReady c rest hpc | abortResume c rest hpc => exact h.goto (by simp [hpc, AcceptPc.inGap]) rest id
  | failReady hpc | resume hpc | failResume hpc | exhausted hpc | spawn c hpc =>
      exact h.goto (by simp [hpc, AcceptPc.inGap]) s.queue id
  | closeIdle hpc =>
      have hbare := bare_closeIdleFd howned
      exact Bare.inv ⟨hbare.idle, hbare.refused⟩ (.inr (.inl rfl)) nofun
  | acceptIdle c rest fd hpc hqueue hfree =>
      have hbare := h.bare (.inl hpc)
      constructor
      · exact fun fd' hidle hgap => absurd trivial hgap
      · rintro d hd
        cases hd
        exact .inr ⟨c, fd, rfl, rfl, hfree.1, by simp [setFd]⟩
      · intro fd' hidle
        by_cases heq : fd' = fd
        · simp [setFd, heq] at hidle
        · exact absurd (by simpa [setFd, heq] using hidle) (hbare.idle fd')
      · intro fd' d hrefused
        by_cases heq : fd' = fd
        · simp only [setFd, heq, Function.update_self, Option.some.injEq, FdUse.refused.injEq] at hrefused
          simp [heq, hrefused]
        · exact absurd (by simpa [setFd, heq] using hrefused) (hbare.refused fd' d)
  | abortIdle c rest hpc | failIdle hpc =>
      have hbare := h.bare (.inl hpc)
      exact Bare.inv ⟨hbare.idle, hbare.refused⟩ (.inl rfl) fun c hc => by cases hc; rfl
  | closeAccepted c hpc | closeNone hpc =>
      have hbare := bare_closeIdleFd howned
      exact Bare.inv ⟨hbare.idle, hbare.refused⟩ (.inr (.inr rfl)) nofun
  | openIdle fd hpc hfree =>
      have hbare := h.bare (.inr hpc)
      constructor
      · rintro fd' hidle -
        cases hidle
        exact ⟨hfree.1, by simp [setFd]⟩
      · exact nofun
      · intro fd' hidle
        by_cases heq : fd' = fd
        · exact ⟨by simp [heq], id⟩
        · exact absurd (by simpa [setFd, heq] using hidle) (hbare.idle fd')
      · intro fd' d hrefused
        by_cases heq : fd' = fd
        · simp [setFd, heq] at hrefused
        · exact absurd (by simpa [setFd, heq] using hrefused) (hbare.refused fd' d)
  | openFails hpc =>
      have hbare := h.bare (.inr hpc)
      exact Bare.inv ⟨hbare.idle, hbare.refused⟩ (.inl rfl) nofun

theorem start_inv {limit : Nat} (others : Nat → Bool) {listenFd idleFd : Nat} (hidle : idleFd < limit) :
    Inv limit (start others listenFd idleFd : AcceptLoop Conn) := by
  constructor
  · rintro fd hfd -
    cases hfd
    exact ⟨hidle, by simp [start]⟩
  · exact nofun
  · intro fd hfd
    by_cases heq : fd = idleFd
    · exact ⟨by simp [start, heq], id⟩
    · simp only [start, heq, if_false] at hfd
      split at hfd
      · simp at hfd
      · split at hfd <;> simp at hfd
  · intro fd c hfd
    simp only [start] at hfd
    split at hfd
    · simp at hfd
    · split at hfd
      · simp at hfd
      · split at hfd <;> simp at hfd

theorem run_inv {limit : Nat} {others : Nat → Bool} {listenFd idleFd : Nat} (hidle : idleFd < limit)
    {trace : List (AcceptEvent Conn)} {s : AcceptLoop Conn}
    (h : Run (Step limit) (start others listenFd idleFd) trace s) :
    Inv limit s := by
  induction h with
  | stop => exact start_inv others hidle
  | next _ taken ih => exact step_inv ih taken

theorem arrived_append (first second : List (AcceptEvent Conn)) :
    arrived (first ++ second) = arrived first ++ arrived second := by
  simp [arrived]

theorem settled_append (first second : List (AcceptEvent Conn)) :
    settled (first ++ second) = settled first ++ settled second := by
  simp [settled]

theorem closeIdleFd_queue (s : AcceptLoop Conn) : s.closeIdleFd.queue = s.queue := by
  unfold closeIdleFd
  split <;> rfl

/-- What one step takes from the connections at hand and in the queue, it settles. -/
theorem step_account {limit : Nat} {s t : AcceptLoop Conn} {event : AcceptEvent Conn} (hstep : Step limit s event t) :
    s.pc.inHand ++ s.queue ++ arrived [event] = settled [event] ++ t.pc.inHand ++ t.queue := by
  cases hstep with
  | arrives c => simp [arrived, settled]
  | otherOpens fd hfree | otherCloses fd hother | disconnects fd c hconn => simp [arrived, settled, setFd]
  | accepts c rest fd hpc hqueue hfree =>
      have hhand : s.pc.inHand = [] := by
        rcases hpc with hpc | hpc <;> simp [hpc, AcceptPc.inHand]
      rw [hhand]
      simp [hqueue, arrived, settled, AcceptPc.inHand]
  | abortReady c rest hpc hqueue | abortResume c rest hpc hqueue | acceptIdle c rest fd hpc hqueue hfree
  | abortIdle c rest hpc hqueue => simp [hpc, hqueue, arrived, settled, AcceptPc.inHand]
  | failReady hpc | resume hpc | failResume hpc | exhausted hpc | spawn c hpc | failIdle hpc | openIdle fd hpc
  | openFails hpc => simp [hpc, arrived, settled, setFd, AcceptPc.inHand]
  | closeIdle hpc | closeAccepted c hpc | closeNone hpc =>
      simp [hpc, arrived, settled, closeIdleFd_queue, AcceptPc.inHand]

theorem run_account {limit : Nat} {others : Nat → Bool} {listenFd idleFd : Nat} {trace : List (AcceptEvent Conn)}
    {s : AcceptLoop Conn} (h : Run (Step limit) (start others listenFd idleFd) trace s) :
    arrived trace = settled trace ++ s.pc.inHand ++ s.queue := by
  induction h with
  | stop => rfl
  | next _ taken ih =>
      rw [arrived_append, settled_append, ih]
      simpa [List.append_assoc] using step_account taken

/-- No other part of the process opens a descriptor while the spare one is closed. -/
def quiet (s : AcceptLoop Conn) : AcceptEvent Conn → Prop
  | .otherOpens => ¬ s.pc.inGap
  | _ => True

theorem next_quiet {limit : Nat} {first s t : AcceptLoop Conn} {trace : List (AcceptEvent Conn)}
    {event : AcceptEvent Conn} (h : Run (Guarded quiet (Step limit)) first trace s) (hstep : Step limit s event t)
    (hevent : event ≠ .otherOpens) : Run (Guarded quiet (Step limit)) first (trace ++ [event]) t := by
  refine h.next ⟨?_, hstep⟩
  cases event with
  | otherOpens => exact absurd rfl hevent
  | arrives c | spawned c | refused c | aborted c | other => trivial

/-- The connection 7 comes to a table that is full with one descriptor of another part. -/
theorem refusal : ∃ trace, ∃ s : AcceptLoop Nat,
    Run (Guarded quiet (Step 3)) (start (fun fd => fd == 2) 0 1) trace s ∧ arrived trace = [7] ∧ s.queue = [] ∧
      s.pc = .awaitReady := by
  have hfull : (start (fun fd => fd == 2) 0 1 : AcceptLoop Nat).Full 3 := by
    intro fd hfd
    simp only [start]
    split
    · simp
    · split
      · simp
      · have htwo : fd = 2 := by omega
        simp [htwo]
  have harrives : Step 3 (start (fun fd => fd == 2) 0 1) _ _ := .arrives _ 7
  have hsuspended := next_quiet (next_quiet .stop harrives (by simp)) (.failReady _ rfl) (by simp)
  have hclose := next_quiet (next_quiet hsuspended (.resume _ rfl) (by simp)) (.exhausted _ rfl hfull) (by simp)
  have hrefused := next_quiet (next_quiet hclose (.closeIdle _ rfl) (by simp))
    (.acceptIdle _ 7 [] 1 rfl rfl ⟨by decide, rfl⟩) (by simp)
  have hclosed := next_quiet hrefused (.closeAccepted _ 7 rfl) (by simp)
  exact ⟨_, _, next_quiet hclosed (.openIdle _ 1 rfl ⟨by decide, rfl⟩) (by simp), rfl, rfl, rfl⟩

/-- Every connection that has come is spawned, refused, aborted, at hand or in the queue,
once and in order. The loop leaks no descriptor, and each one that it closes is its own:
the spare one, or the one of the connection that it refuses. -/
theorem accept_loop_accounts {limit : Nat} {others : Nat → Bool} {listenFd idleFd : Nat} (hidle : idleFd < limit)
    {trace : List (AcceptEvent Conn)} {s : AcceptLoop Conn}
    (h : Run (Step limit) (start others listenFd idleFd) trace s) :
    arrived trace = settled trace ++ s.pc.inHand ++ s.queue ∧
      (∀ fd, s.fds fd = some .idle → s.idleFd = some fd) ∧
      (∀ fd c, s.fds fd = some (.refused c) → s.idleFd = some fd ∧ s.pc = .closeAccepted (some c)) ∧
      (s.pc = .closeIdle → ∀ fd, s.idleFd = some fd → s.fds fd = some .idle) ∧
      ∀ c, s.pc = .closeAccepted c → ∀ fd, s.idleFd = some fd → ∃ d, c = some d ∧ s.fds fd = some (.refused d) := by
  have hinv := run_inv hidle h
  refine ⟨run_account h, fun fd hfd => (hinv.idle fd hfd).1, hinv.refused, ?_, ?_⟩
  · intro hpc fd hfd
    exact (hinv.spare fd hfd (by simp [hpc, AcceptPc.inGap])).2
  · intro c hpc fd hfd
    rcases hinv.refusing c hpc with ⟨-, hnone⟩ | ⟨d, fd', hc, hfd', -, hrefused⟩
    · simp [hnone] at hfd
    · rw [hfd] at hfd'
      cases hfd'
      exact ⟨d, hc, hrefused⟩

theorem accept_loop_accounts_refusal : ∃ trace : List (AcceptEvent Nat), settled trace = [7] := by
  obtain ⟨trace, s, hrun, harrived, hqueue, hpc⟩ := refusal
  have haccount := (accept_loop_accounts (by decide) (hrun.mono fun _ _ _ hstep => hstep.2)).1
  refine ⟨trace, ?_⟩
  rw [harrived, hqueue, hpc] at haccount
  simpa [AcceptPc.inHand] using haccount.symm

/-- While the spare descriptor is closed, there is room for it. -/
structure Kept (limit : Nat) (s : AcceptLoop Conn) : Prop where
  spare : ¬ s.pc.inGap → s.idleFd ≠ none
  room : s.pc.inGap → (∀ c, s.pc ≠ .closeAccepted (some c)) → ∃ fd, s.Free limit fd

theorem Kept.goto {limit : Nat} {s : AcceptLoop Conn} (h : Kept limit s) (hgap : ¬ s.pc.inGap)
    (fds : Nat → Option (FdUse Conn)) (queue : List Conn) {pc : AcceptPc Conn} (hpc : ¬ pc.inGap) :
    Kept limit { s with fds, queue, pc } :=
  ⟨fun _ => h.spare hgap, fun hin => absurd hin hpc⟩

theorem closeIdleFd_free {limit fd : Nat} {s : AcceptLoop Conn} (hidle : s.idleFd = some fd) (hlt : fd < limit) :
    s.closeIdleFd.Free limit fd := by
  simp [closeIdleFd, hidle, Free, setFd, hlt]

theorem step_kept {limit : Nat} {s t : AcceptLoop Conn} {event : AcceptEvent Conn} (hinv : Inv limit s)
    (h : Kept limit s) (hquiet : quiet s event) (hstep : Step limit s event t) : Kept limit t := by
  cases hstep with
  | arrives c => exact ⟨h.spare, h.room⟩
  | otherOpens fd hfree => exact ⟨h.spare, fun hin => absurd hin hquiet⟩
  | otherCloses fd hused | disconnects fd c hused =>
      refine ⟨h.spare, fun hin hpc => ?_⟩
      obtain ⟨fd', hlt, hnone⟩ := h.room hin hpc
      refine ⟨fd', hlt, ?_⟩
      by_cases heq : fd' = fd
      · simp [setFd, heq]
      · simpa [setFd, heq] using hnone
  | accepts c rest fd hpc =>
      refine h.goto ?_ _ rest id
      rcases hpc with hpc | hpc <;> simp [hpc, AcceptPc.inGap]
  | abortReady c rest hpc | abortResume c rest hpc => exact h.goto (by simp [hpc, AcceptPc.inGap]) s.fds rest id
  | failReady hpc | resume hpc | failResume hpc | exhausted hpc | spawn c hpc =>
      exact h.goto (by simp [hpc, AcceptPc.inGap]) s.fds s.queue id
  | closeIdle hpc =>
      have hgap : ¬ s.pc.inGap := by simp [hpc, AcceptPc.inGap]
      obtain ⟨fd, hfd⟩ := Option.ne_none_iff_exists'.mp (h.spare hgap)
      exact ⟨fun hin => absurd trivial hin, fun _ _ => ⟨fd, closeIdleFd_free hfd (hinv.spare fd hfd hgap).1⟩⟩
  | acceptIdle c rest fd hpc => exact ⟨fun hin => absurd trivial hin, fun _ hnot => absurd rfl (hnot c)⟩
  | abortIdle c rest hpc | failIdle hpc =>
      refine ⟨fun hin => absurd trivial hin, fun _ _ => ?_⟩
      exact h.room (by simp [hpc, AcceptPc.inGap]) (by simp [hpc])
  | closeAccepted c hpc =>
      refine ⟨fun hin => absurd trivial hin, fun _ _ => ?_⟩
      rcases hinv.refusing (some c) hpc with ⟨hnone, -⟩ | ⟨d, fd, -, hfd, hlt, -⟩
      · cases hnone
      · exact ⟨fd, closeIdleFd_free hfd hlt⟩
  | closeNone hpc =>
      refine ⟨fun hin => absurd trivial hin, fun _ _ => ?_⟩
      rcases hinv.refusing none hpc with ⟨-, hnone⟩ | ⟨d, fd, hd, -⟩
      · obtain ⟨fd, hfree⟩ := h.room (by simp [hpc, AcceptPc.inGap]) (by simp [hpc])
        exact ⟨fd, by simpa [closeIdleFd, hnone, Free] using hfree⟩
      · cases hd
  | openIdle fd hpc => exact ⟨by simp, fun hin => absurd hin id⟩
  | openFails hpc hfull =>
      obtain ⟨fd, hlt, hnone⟩ := h.room (by simp [hpc, AcceptPc.inGap]) (by simp [hpc])
      exact absurd hnone (hfull fd hlt)

/-- The spare descriptor comes back from every refusal, unless another part of the
process takes a descriptor while it is closed. -/
theorem spare_kept {limit : Nat} {others : Nat → Bool} {listenFd idleFd : Nat} (hidle : idleFd < limit)
    {trace : List (AcceptEvent Conn)} {s : AcceptLoop Conn}
    (h : Run (Guarded quiet (Step limit)) (start others listenFd idleFd) trace s) (hgap : ¬ s.pc.inGap) :
    ∃ fd, s.idleFd = some fd ∧ fd < limit ∧ s.fds fd = some .idle := by
  have hboth : Inv limit s ∧ Kept limit s := by
    clear hgap
    induction h with
    | stop => exact ⟨start_inv others hidle, by simp [start], fun hin => hin.elim⟩
    | next _ taken ih => exact ⟨step_inv ih.1 taken.2, step_kept ih.1 ih.2 taken.1 taken.2⟩
  obtain ⟨fd, hfd⟩ := Option.ne_none_iff_exists'.mp (hboth.2.spare hgap)
  exact ⟨fd, hfd, hboth.1.spare fd hfd hgap⟩

theorem spare_kept_refusal : ∃ trace, ∃ s : AcceptLoop Nat, arrived trace = [7] ∧
    ∃ fd, s.idleFd = some fd ∧ fd < 3 ∧ s.fds fd = some .idle := by
  obtain ⟨trace, s, hrun, harrived, -, hpc⟩ := refusal
  exact ⟨trace, s, harrived, spare_kept (by decide) hrun (by simp [hpc, AcceptPc.inGap])⟩

end AcceptLoop

end Libcold
