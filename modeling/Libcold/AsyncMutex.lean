import Libcold.PointerChain
import Libcold.Runs
import Mathlib.Data.List.Nodup

namespace Libcold

open PointerChain Runs

variable {Coro : Type}

def kNotLocked : Nat := 1

/-- Also the null pointer at the end of both lists of waiters. -/
def kLockedNoWaiters : Nat := 0

/-- The control points of a coroutine in `await_suspend` and in `Unlock`;
`aborted` is where a failed assertion leaves it. -/
inductive MutexPc
  | running
  | awaitSuspend (op : Nat)
  | locking (op oldState : Nat)
  | waiting (op : Nat)
  | unlocking (oldState : Nat)
  | exchanging
  | resuming
  | aborted

/-- The mutex, the fields of the lock operations by their addresses, and the
coroutines. A coroutine owns the mutex from the end of its lock operation, or of
a successful `TryLock`, to the release or the resumption of the next owner. -/
structure AsyncMutex (Coro : Type) where
  state : Nat := kNotLocked
  waitersHead : Nat := 0
  next : Nat → Nat := fun _ => 0
  awaiter : Nat → Option Coro := fun _ => none
  pc : Coro → MutexPc := fun _ => .running
  owns : Coro → Bool := fun _ => false

inductive MutexEvent (Coro : Type)
  | enqueued (c : Coro)
  | resumed (c : Coro)
  | other

namespace AsyncMutex

def MutexPc.operation : MutexPc → Option Nat
  | .awaitSuspend op | .locking op _ | .waiting op => some op
  | _ => none

variable [DecidableEq Coro]

def setPc (s : AsyncMutex Coro) (c : Coro) (pc : MutexPc) : AsyncMutex Coro :=
  { s with pc := Function.update s.pc c pc }

def setOwns (s : AsyncMutex Coro) (c : Coro) (owns : Bool) : AsyncMutex Coro :=
  { s with owns := Function.update s.owns c owns }

def setNext (s : AsyncMutex Coro) (op target : Nat) : AsyncMutex Coro :=
  { s with next := Function.update s.next op target }

/-- The owner takes the first of the waiters and gives the mutex up. -/
def pop (s : AsyncMutex Coro) (c : Coro) : AsyncMutex Coro :=
  { (s.setPc c .running).setOwns c false with waitersHead := s.next s.waitersHead }

/-- `resume()` on the handle of a coroutine that waits with the operation. -/
def resumeAwaiter (s : AsyncMutex Coro) (op : Nat) (d : Coro) : AsyncMutex Coro :=
  match s.pc d with
  | .waiting op' => if op' = op then (s.setPc d .running).setOwns d true else s.setPc d .aborted
  | _ => s.setPc d .aborted

/-- The atomic steps of the coroutines. The exchange includes the reversal of the
list that it takes, which nobody else can reach. -/
inductive Step : AsyncMutex Coro → MutexEvent Coro → AsyncMutex Coro → Prop
  | lock (s) (c) (op : Nat) (hpc : s.pc c = .running) (hop : op ≠ kNotLocked ∧ op ≠ kLockedNoWaiters)
      (hfresh : ∀ d, MutexPc.operation (s.pc d) ≠ some op) :
      Step s .other { (s.setPc c (.awaitSuspend op)).setNext op 0 with awaiter := Function.update s.awaiter op (some c) }
  | load (s) (c) (op) (hpc : s.pc c = .awaitSuspend op) : Step s .other (s.setPc c (.locking op s.state))
  | acquire (s) (c) (op) (hpc : s.pc c = .locking op kNotLocked) (hstate : s.state = kNotLocked) :
      Step s .other { (s.setPc c .running).setOwns c true with state := kLockedNoWaiters }
  | acquireFails (s) (c) (op) (hpc : s.pc c = .locking op kNotLocked) :
      Step s .other (s.setPc c (.locking op s.state))
  | enqueue (s) (c) (op) (oldState) (hpc : s.pc c = .locking op oldState) (hold : oldState ≠ kNotLocked)
      (hstate : s.state = oldState) :
      Step s (.enqueued c) { (s.setPc c (.waiting op)).setNext op oldState with state := op }
  | enqueueFails (s) (c) (op) (oldState) (hpc : s.pc c = .locking op oldState) (hold : oldState ≠ kNotLocked) :
      Step s .other ((s.setPc c (.locking op s.state)).setNext op oldState)
  | tryLock (s) (c) (hpc : s.pc c = .running) (hstate : s.state = kNotLocked) :
      Step s .other { s.setOwns c true with state := kLockedNoWaiters }
  | tryLockFails (s) (c) (hpc : s.pc c = .running) (hstate : s.state ≠ kNotLocked) : Step s .other s
  | unlock (s) (c) (hpc : s.pc c = .running) (howns : s.owns c = true) :
      Step s .other (s.setPc c (if s.state = kNotLocked then .aborted else .unlocking s.state))
  | hasWaiters (s) (c) (oldState) (hpc : s.pc c = .unlocking oldState) (hhead : s.waitersHead ≠ 0) :
      Step s .other (s.setPc c .resuming)
  | release (s) (c) (hpc : s.pc c = .unlocking kLockedNoWaiters) (hhead : s.waitersHead = 0)
      (hstate : s.state = kLockedNoWaiters) :
      Step s .other { (s.setPc c .running).setOwns c false with state := kNotLocked }
  | releaseFails (s) (c) (hpc : s.pc c = .unlocking kLockedNoWaiters) (hhead : s.waitersHead = 0)
      (hstate : s.state ≠ kLockedNoWaiters) : Step s .other (s.setPc c .exchanging)
  | noRelease (s) (c) (oldState) (hpc : s.pc c = .unlocking oldState) (hhead : s.waitersHead = 0)
      (hold : oldState ≠ kLockedNoWaiters) : Step s .other (s.setPc c .exchanging)
  | exchange (s) (c) (fuel) (next) (newHead) (hpc : s.pc c = .exchanging)
      (hstate : s.state ≠ kNotLocked ∧ s.state ≠ kLockedNoWaiters)
      (hreverse : reverseLoop 0 fuel s.next s.state 0 = some (next, newHead)) :
      Step s .other { s.setPc c .resuming with state := kLockedNoWaiters, next, waitersHead := newHead }
  | exchangeAborts (s) (c) (hpc : s.pc c = .exchanging)
      (hstate : s.state = kNotLocked ∨ s.state = kLockedNoWaiters) :
      Step s .other { s.setPc c .aborted with state := kLockedNoWaiters }
  | resume (s) (c d) (hpc : s.pc c = .resuming) (hhead : s.waitersHead ≠ 0)
      (hawaiter : s.awaiter s.waitersHead = some d) :
      Step s (.resumed d) ((s.pop c).resumeAwaiter s.waitersHead d)
  | resumeAborts (s) (c) (hpc : s.pc c = .resuming)
      (hhead : s.waitersHead = 0 ∨ s.awaiter s.waitersHead = none) : Step s .other (s.setPc c .aborted)

def enqueued (trace : List (MutexEvent Coro)) : List Coro :=
  trace.filterMap fun
    | .enqueued c => some c
    | _ => none

def resumed (trace : List (MutexEvent Coro)) : List Coro :=
  trace.filterMap fun
    | .resumed c => some c
    | _ => none

/-- What a coroutine in `Unlock` may rely on. -/
def Duty (owns : Bool) (waiters arrived : List Nat) : MutexPc → Prop
  | .unlocking oldState => owns ∧ (oldState ≠ kLockedNoWaiters → arrived ≠ [])
  | .exchanging => owns ∧ waiters = [] ∧ arrived ≠ []
  | .resuming => owns ∧ waiters ≠ []
  | .aborted => False
  | _ => True

/-- The operations in the two lists are those that suspended coroutines wait with. -/
structure Parking (s : AsyncMutex Coro) (ops : List Nat) : Prop where
  parked : ∀ op ∈ ops, ∃ c, s.pc c = .waiting op
  listed : ∀ c op, s.pc c = .waiting op → op ∈ ops
  operation : ∀ c op, MutexPc.operation (s.pc c) = some op →
    op ≠ kNotLocked ∧ op ≠ kLockedNoWaiters ∧ s.awaiter op = some c

/-- `waiters` is what `waitersHead_` leads to, in the order in which it is to be
served, and `arrived` what `state_` leads to, the latest first. -/
structure Inv (trace : List (MutexEvent Coro)) (s : AsyncMutex Coro) (waiters arrived : List Nat) : Prop where
  order : (enqueued trace).map some = (resumed trace).map some ++ (waiters ++ arrived.reverse).map s.awaiter
  waitersChain : Chain 0 s.next s.waitersHead waiters
  stateChain : s.state ≠ kNotLocked → Chain 0 s.next s.state arrived
  free : s.state = kNotLocked → waiters = [] ∧ arrived = [] ∧ ∀ c, s.owns c = false
  nodup : (waiters ++ arrived).Nodup
  parking : Parking s (waiters ++ arrived)
  owner : ∀ c d, s.owns c = true → s.owns d = true → c = d
  duty : ∀ c, Duty (s.owns c) waiters arrived (s.pc c)

section Parking

variable {s : AsyncMutex Coro} {ops : List Nat}

omit [DecidableEq Coro] in
theorem Parking.congr {s' : AsyncMutex Coro} {ops' : List Nat} (h : Parking s ops) (hpc : s'.pc = s.pc)
    (hawaiter : s'.awaiter = s.awaiter) (hops : ∀ op, op ∈ ops' ↔ op ∈ ops) : Parking s' ops' where
  parked op hmem := by
    rw [hpc]
    exact h.parked op ((hops op).mp hmem)
  listed c op hc := (hops op).mpr (h.listed c op (hpc ▸ hc))
  operation c op hc := by
    rw [hawaiter]
    exact h.operation c op (hpc ▸ hc)

theorem setPc_self (s : AsyncMutex Coro) (c : Coro) (pc : MutexPc) : (s.setPc c pc).pc c = pc :=
  Function.update_self _ _ _

theorem setPc_other (s : AsyncMutex Coro) {c d : Coro} (hdc : d ≠ c) (pc : MutexPc) : (s.setPc c pc).pc d = s.pc d :=
  Function.update_of_ne hdc _ _

theorem Parking.setPc (h : Parking s ops) (c : Coro) (pc : MutexPc)
    (hop : ∀ op, MutexPc.operation pc = some op → MutexPc.operation (s.pc c) = some op)
    (hwas : ∀ op, s.pc c ≠ .waiting op) (hnow : ∀ op, pc ≠ .waiting op) : Parking (s.setPc c pc) ops where
  parked op hmem := by
    obtain ⟨d, hd⟩ := h.parked op hmem
    have hdc : d ≠ c := by
      rintro rfl
      exact hwas op hd
    exact ⟨d, (setPc_other s hdc pc).trans hd⟩
  listed d op hd := by
    by_cases hdc : d = c
    · rw [hdc, setPc_self] at hd
      exact absurd hd (hnow op)
    · exact h.listed d op ((setPc_other s hdc pc).symm.trans hd)
  operation d op hd := by
    by_cases hdc : d = c
    · rw [hdc, setPc_self] at hd
      rw [hdc]
      exact h.operation c op (hop op hd)
    · rw [setPc_other s hdc] at hd
      exact h.operation d op hd

theorem Parking.begin (h : Parking s ops) {c : Coro} {op : Nat} (hpc : s.pc c = .running)
    (hop : op ≠ kNotLocked ∧ op ≠ kLockedNoWaiters) (hfresh : ∀ d, MutexPc.operation (s.pc d) ≠ some op) :
    Parking { s.setPc c (.awaitSuspend op) with awaiter := Function.update s.awaiter op (some c) } ops where
  parked op' hmem := by
    obtain ⟨d, hd⟩ := h.parked op' hmem
    have hdc : d ≠ c := by
      rintro rfl
      rw [hpc] at hd
      cases hd
    exact ⟨d, (setPc_other s hdc _).trans hd⟩
  listed d op' hd := by
    change (s.setPc c (.awaitSuspend op)).pc d = .waiting op' at hd
    by_cases hdc : d = c
    · rw [hdc, setPc_self] at hd
      cases hd
    · rw [setPc_other s hdc] at hd
      exact h.listed d op' hd
  operation d op' hd := by
    change MutexPc.operation ((s.setPc c (.awaitSuspend op)).pc d) = some op' at hd
    change _ ∧ _ ∧ Function.update s.awaiter op (some c) op' = some d
    by_cases hdc : d = c
    · rw [hdc, setPc_self] at hd
      cases hd
      rw [hdc, Function.update_self]
      exact ⟨hop.1, hop.2, rfl⟩
    · rw [setPc_other s hdc] at hd
      have hne : op' ≠ op := by
        rintro rfl
        exact hfresh d hd
      rw [Function.update_of_ne hne]
      exact h.operation d op' hd

theorem Parking.park (h : Parking s ops) {c : Coro} {op oldState : Nat} (hpc : s.pc c = .locking op oldState) :
    Parking (s.setPc c (.waiting op)) (op :: ops) where
  parked op' hmem := by
    rcases List.mem_cons.mp hmem with rfl | hmem
    · exact ⟨c, setPc_self s c _⟩
    · obtain ⟨d, hd⟩ := h.parked op' hmem
      have hdc : d ≠ c := by
        rintro rfl
        rw [hpc] at hd
        cases hd
      exact ⟨d, (setPc_other s hdc _).trans hd⟩
  listed d op' hd := by
    by_cases hdc : d = c
    · rw [hdc, setPc_self] at hd
      cases hd
      exact List.mem_cons_self
    · rw [setPc_other s hdc] at hd
      exact List.mem_cons_of_mem _ (h.listed d op' hd)
  operation d op' hd := by
    by_cases hdc : d = c
    · rw [hdc, setPc_self] at hd
      rw [hdc]
      refine h.operation c op' ?_
      rw [hpc]
      exact hd
    · rw [setPc_other s hdc] at hd
      exact h.operation d op' hd

theorem Parking.unpark {op : Nat} (h : Parking s (op :: ops)) (hop : op ∉ ops) {d : Coro}
    (hpc : s.pc d = .waiting op) : Parking (s.setPc d .running) ops where
  parked op' hmem := by
    obtain ⟨c, hc⟩ := h.parked op' (List.mem_cons_of_mem _ hmem)
    have hcd : c ≠ d := by
      rintro rfl
      rw [hpc] at hc
      cases hc
      exact hop hmem
    exact ⟨c, (setPc_other s hcd _).trans hc⟩
  listed c op' hc := by
    by_cases hcd : c = d
    · rw [hcd, setPc_self] at hc
      cases hc
    · rw [setPc_other s hcd] at hc
      rcases List.mem_cons.mp (h.listed c op' hc) with rfl | hmem
      · have hown := (h.operation d op' (by rw [hpc]; rfl)).2.2
        rw [(h.operation c op' (by rw [hc]; rfl)).2.2] at hown
        cases hown
        exact absurd rfl hcd
      · exact hmem
  operation c op' hc := by
    by_cases hcd : c = d
    · rw [hcd, setPc_self] at hc
      cases hc
    · rw [setPc_other s hcd] at hc
      exact h.operation c op' hc

omit [DecidableEq Coro] in
/-- The operation of a coroutine that is not suspended waits in no list. -/
theorem Parking.not_listed (h : Parking s ops) (c : Coro) (op : Nat) (hop : MutexPc.operation (s.pc c) = some op)
    (hwas : ∀ op', s.pc c ≠ .waiting op') : op ∉ ops := by
  intro hmem
  obtain ⟨d, hd⟩ := h.parked op hmem
  have hdop := (h.operation d op (by rw [hd]; rfl)).2.2
  rw [(h.operation c op hop).2.2] at hdop
  cases hdop
  exact hwas op hd

end Parking

omit [DecidableEq Coro] in
theorem Duty.of_not_owner {waiters arrived waiters' arrived' : List Nat} {pc : MutexPc} {owns : Bool}
    (h : Duty false waiters arrived pc) : Duty owns waiters' arrived' pc := by
  cases pc with
  | running | awaitSuspend | locking | waiting => trivial
  | unlocking | exchanging | resuming => exact absurd h.1 (by simp)
  | aborted => exact h

omit [DecidableEq Coro] in
theorem Duty.arrive {waiters arrived : List Nat} {pc : MutexPc} {owns : Bool} (h : Duty owns waiters arrived pc)
    (op : Nat) : Duty owns waiters (op :: arrived) pc := by
  cases pc with
  | running | awaitSuspend | locking | waiting => trivial
  | unlocking oldState => exact ⟨h.1, fun _ => List.cons_ne_nil _ _⟩
  | exchanging => exact ⟨h.1, h.2.1, List.cons_ne_nil _ _⟩
  | resuming | aborted => exact h

section Inv

variable {trace : List (MutexEvent Coro)} {s : AsyncMutex Coro} {waiters arrived : List Nat}

omit [DecidableEq Coro] in
theorem Inv.duty_of (h : Inv trace s waiters arrived) {c : Coro} {pc : MutexPc} (hpc : s.pc c = pc) :
    Duty (s.owns c) waiters arrived pc := hpc ▸ h.duty c

omit [DecidableEq Coro] in
theorem Inv.not_owner (h : Inv trace s waiters arrived) {c d : Coro} (hc : s.owns c = true) (hdc : d ≠ c) :
    s.owns d = false := by
  rw [Bool.eq_false_iff]
  intro hd
  exact hdc (h.owner d c hd hc)

omit [DecidableEq Coro] in
theorem Inv.state_ne (h : Inv trace s waiters arrived) {c : Coro} (hc : s.owns c = true) :
    s.state ≠ kNotLocked := by
  intro hstate
  rw [(h.free hstate).2.2 c] at hc
  cases hc

omit [DecidableEq Coro] in
theorem Inv.other (h : Inv trace s waiters arrived) : Inv (trace ++ [.other]) s waiters arrived :=
  { h with order := by simpa [enqueued, resumed] using h.order }

theorem Inv.setPc (h : Inv trace s waiters arrived) (c : Coro) (pc : MutexPc)
    (hop : ∀ op, MutexPc.operation pc = some op → MutexPc.operation (s.pc c) = some op)
    (hwas : ∀ op, s.pc c ≠ .waiting op) (hnow : ∀ op, pc ≠ .waiting op) (hduty : Duty (s.owns c) waiters arrived pc) :
    Inv trace (s.setPc c pc) waiters arrived :=
  { h with
    parking := h.parking.setPc c pc hop hwas hnow
    duty := fun d => by
      by_cases hdc : d = c
      · rw [hdc, setPc_self]
        exact hduty
      · rw [setPc_other s hdc]
        exact h.duty d }

omit [DecidableEq Coro] in
/-- The fields of an operation that waits in no list may be written. -/
theorem Inv.setNext (h : Inv trace s waiters arrived) {op : Nat} (hop : op ∉ waiters ++ arrived) (target : Nat) :
    Inv trace (s.setNext op target) waiters arrived :=
  { h with
    waitersChain := h.waitersChain.update (fun hmem => hop (List.mem_append_left _ hmem)) target
    stateChain := fun hstate => (h.stateChain hstate).update (fun hmem => hop (List.mem_append_right _ hmem)) target
    parking := h.parking.congr rfl rfl fun _ => Iff.rfl }

theorem Inv.take (h : Inv trace s waiters arrived) {c : Coro} (hpc : s.pc c = .running)
    (hstate : s.state = kNotLocked) :
    Inv trace { s.setOwns c true with state := kLockedNoWaiters } waiters arrived := by
  obtain ⟨hwaiters, harrived, hfree⟩ := h.free hstate
  have howns (d : Coro) (hd : Function.update s.owns c true d = true) : d = c := by
    by_contra hdc
    simp [Function.update_of_ne hdc, hfree d] at hd
  have hduty (d : Coro) : Duty (Function.update s.owns c true d) waiters arrived (s.pc d) := by
    by_cases hdc : d = c
    · rw [hdc, hpc]
      trivial
    · rw [Function.update_of_ne hdc]
      exact h.duty d
  subst arrived
  exact { h with
    stateChain := fun _ => rfl
    free := fun hlocked => absurd (show kLockedNoWaiters = kNotLocked from hlocked) (by decide)
    parking := h.parking.congr rfl rfl fun _ => Iff.rfl
    owner := fun d e hd he => (howns d hd).trans (howns e he).symm
    duty := hduty }

omit [DecidableEq Coro] in
theorem start_parking : Parking ({} : AsyncMutex Coro) [] where
  parked op hmem := absurd hmem List.not_mem_nil
  listed c op hc := by cases hc
  operation c op hc := by cases hc

omit [DecidableEq Coro] in
theorem start_inv : Inv [] ({} : AsyncMutex Coro) [] [] where
  order := rfl
  waitersChain := rfl
  stateChain hstate := absurd rfl hstate
  free _ := ⟨rfl, rfl, fun _ => rfl⟩
  nodup := List.nodup_nil
  parking := start_parking
  owner c d hc := by cases hc
  duty c := trivial

theorem lock_inv (h : Inv trace s waiters arrived) {c : Coro} {op : Nat} (hpc : s.pc c = .running)
    (hop : op ≠ kNotLocked ∧ op ≠ kLockedNoWaiters) (hfresh : ∀ d, MutexPc.operation (s.pc d) ≠ some op) :
    Inv trace { (s.setPc c (.awaitSuspend op)).setNext op 0 with
      awaiter := Function.update s.awaiter op (some c) } waiters arrived := by
  have hnot : op ∉ waiters ++ arrived := by
    intro hmem
    obtain ⟨d, hd⟩ := h.parking.parked op hmem
    exact hfresh d (by rw [hd]; rfl)
  have hawaiter : (waiters ++ arrived.reverse).map (Function.update s.awaiter op (some c)) =
      (waiters ++ arrived.reverse).map s.awaiter := by
    refine List.map_congr_left fun a ha => Function.update_of_ne ?_ _ _
    rintro rfl
    exact hnot (by simpa using ha)
  have hnext := h.setNext hnot 0
  refine ⟨hawaiter ▸ h.order, hnext.waitersChain, hnext.stateChain, h.free, h.nodup,
    (h.parking.begin hpc hop hfresh).congr rfl rfl fun _ => Iff.rfl, h.owner, fun d => ?_⟩
  change Duty (s.owns d) waiters arrived ((s.setPc c (.awaitSuspend op)).pc d)
  by_cases hdc : d = c
  · rw [hdc, setPc_self]
    trivial
  · rw [setPc_other s hdc]
    exact h.duty d

theorem enqueue_inv (h : Inv trace s waiters arrived) {c : Coro} {op : Nat} (hpc : s.pc c = .locking op s.state)
    (hstate : s.state ≠ kNotLocked) :
    Inv (trace ++ [.enqueued c]) { (s.setPc c (.waiting op)).setNext op s.state with state := op }
      waiters (op :: arrived) := by
  obtain ⟨h1, h0, hawaiter⟩ := h.parking.operation c op (by rw [hpc]; rfl)
  have hnot := h.parking.not_listed c op (by rw [hpc]; rfl) (by simp [hpc])
  have hnext := h.setNext hnot s.state
  have harrived : op ∉ arrived := fun hmem => hnot (List.mem_append_right _ hmem)
  have hmiddle (op' : Nat) : op' ∈ waiters ++ op :: arrived ↔ op' ∈ op :: (waiters ++ arrived) :=
    List.perm_middle.mem_iff
  refine ⟨?_, hnext.waitersChain, fun _ => (h.stateChain hstate).push h0 harrived, fun hfree => absurd hfree h1,
    List.perm_middle.nodup_iff.mpr (List.nodup_cons.mpr ⟨hnot, h.nodup⟩),
    (h.parking.park hpc).congr rfl rfl hmiddle, h.owner, fun d => ?_⟩
  · have horder := congrArg (· ++ [some c]) h.order
    simpa [enqueued, resumed, hawaiter, AsyncMutex.setPc, AsyncMutex.setNext] using horder
  · change Duty (s.owns d) waiters (op :: arrived) ((s.setPc c (.waiting op)).pc d)
    by_cases hdc : d = c
    · rw [hdc, setPc_self]
      trivial
    · rw [setPc_other s hdc]
      exact (h.duty d).arrive op

theorem release_inv (h : Inv trace s waiters arrived) {c : Coro} (hpc : s.pc c = .unlocking kLockedNoWaiters)
    (hhead : s.waitersHead = 0) (hstate : s.state = kLockedNoWaiters) :
    Inv trace { (s.setPc c .running).setOwns c false with state := kNotLocked } waiters arrived := by
  have howns := (h.duty_of hpc).1
  have hwaiters := (chain_null_iff h.waitersChain).mp hhead
  have harrived := (chain_null_iff (h.stateChain (h.state_ne howns))).mp hstate
  have hnone (d : Coro) : Function.update s.owns c false d = false := by
    by_cases hdc : d = c
    · rw [hdc, Function.update_self]
    · rw [Function.update_of_ne hdc, h.not_owner howns hdc]
  have hparking := h.parking.setPc c .running (fun _ hop => by cases hop) (by simp [hpc]) (by simp)
  refine ⟨h.order, h.waitersChain, fun hne => absurd rfl hne, fun _ => ⟨hwaiters, harrived, hnone⟩, h.nodup,
    hparking.congr rfl rfl fun _ => Iff.rfl, fun d e hd => ?_, fun d => ?_⟩
  · have hd' : Function.update s.owns c false d = true := hd
    rw [hnone] at hd'
    cases hd'
  · change Duty (Function.update s.owns c false d) waiters arrived ((s.setPc c .running).pc d)
    by_cases hdc : d = c
    · rw [hdc, setPc_self]
      trivial
    · rw [setPc_other s hdc, Function.update_of_ne hdc]
      exact h.duty d

/-- Taking the list of `state_` and reversing it serves the waiters in their order. -/
theorem exchange_inv (h : Inv trace s waiters arrived) {c : Coro} (hpc : s.pc c = .exchanging) {fuel : Nat}
    {next : Nat → Nat} {newHead : Nat} (hreverse : reverseLoop 0 fuel s.next s.state 0 = some (next, newHead)) :
    Inv trace { s.setPc c .resuming with state := kLockedNoWaiters, next, waitersHead := newHead }
      arrived.reverse [] := by
  obtain ⟨howns, hwaiters, harrived⟩ := h.duty_of hpc
  subst waiters
  have hnodup := h.nodup
  obtain ⟨next', head, heq, hchain, -⟩ := reverseLoop_chain
    (h.stateChain (h.state_ne howns)) (show Chain 0 s.next 0 [] from rfl) hnodup (by simp)
    (Nat.le_max_right fuel arrived.length)
  rw [reverseLoop_fuel (Nat.le_max_left _ _) hreverse] at heq
  cases heq
  have hparking := h.parking.setPc c .resuming (fun _ hop => by cases hop) (by simp [hpc]) (by simp)
  refine ⟨by simpa [AsyncMutex.setPc] using h.order, by simpa using hchain, fun _ => rfl,
    fun hfree => absurd (show kLockedNoWaiters = kNotLocked from hfree) (by decide),
    by simpa using hnodup, hparking.congr rfl rfl (by simp), h.owner, fun d => ?_⟩
  change Duty (s.owns d) arrived.reverse [] ((s.setPc c .resuming).pc d)
  by_cases hdc : d = c
  · rw [hdc, setPc_self]
    exact ⟨howns, by simpa using harrived⟩
  · rw [setPc_other s hdc]
    have hduty := h.duty d
    rw [h.not_owner howns hdc] at hduty
    exact hduty.of_not_owner

theorem resumeAwaiter_of_waiting {op : Nat} {d : Coro} (h : s.pc d = .waiting op) :
    s.resumeAwaiter op d = (s.setPc d .running).setOwns d true := by
  simp [resumeAwaiter, h]

theorem resume_inv {head : Nat} {rest : List Nat} (h : Inv trace s (head :: rest) arrived) {c d : Coro}
    (hpc : s.pc c = .resuming) (hawaiter : s.awaiter head = some d) :
    (s.pop c).pc d = .waiting head ∧
      Inv (trace ++ [.resumed d]) ((s.pop c).resumeAwaiter s.waitersHead d) rest arrived := by
  obtain ⟨d', hd'⟩ := h.parking.parked head (by simp)
  have hdd := (h.parking.operation d' head (by rw [hd']; rfl)).2.2
  rw [hawaiter] at hdd
  cases hdd
  have hcd : d ≠ c := by
    rintro rfl
    rw [hpc] at hd'
    cases hd'
  have howns := (h.duty_of hpc).1
  have hwait : (s.setPc c .running).pc d = .waiting head := (setPc_other s hcd _).trans hd'
  have hnodup := List.nodup_cons.mp h.nodup
  obtain ⟨hhead, _, hrest⟩ := h.waitersChain
  have hparking := h.parking.setPc c .running (fun _ hop => by cases hop) (by simp [hpc]) (by simp)
  have hone (e : Coro) (he : Function.update (Function.update s.owns c false) d true e = true) : e = d := by
    by_contra hed
    rw [Function.update_of_ne hed] at he
    by_cases hec : e = c
    · rw [hec, Function.update_self] at he
      cases he
    · rw [Function.update_of_ne hec, h.not_owner howns hec] at he
      cases he
  refine ⟨hwait, ?_⟩
  rw [hhead, resumeAwaiter_of_waiting (s := s.pop c) hwait]
  have hnext : (s.pop c).waitersHead = s.next head := congrArg s.next hhead
  refine ⟨?_, hnext ▸ hrest, h.stateChain, fun hfree => absurd hfree (h.state_ne howns), hnodup.2,
    (hparking.unpark hnodup.1 hwait).congr rfl rfl fun _ => Iff.rfl,
    fun e f he hf => (hone e he).trans (hone f hf).symm, fun e => ?_⟩
  · have horder := h.order
    rw [List.cons_append, List.map_cons, hawaiter] at horder
    simpa [enqueued, resumed, pop, AsyncMutex.setPc, AsyncMutex.setOwns] using horder
  · change Duty (Function.update (Function.update s.owns c false) d true e) rest arrived
      (((s.setPc c .running).setPc d .running).pc e)
    by_cases hed : e = d
    · rw [hed, setPc_self]
      trivial
    · rw [setPc_other _ hed]
      by_cases hec : e = c
      · rw [hec, setPc_self]
        trivial
      · rw [setPc_other s hec]
        have hduty := h.duty e
        rw [h.not_owner howns hec] at hduty
        exact hduty.of_not_owner

theorem step_inv {s' : AsyncMutex Coro} {e : MutexEvent Coro} (h : Inv trace s waiters arrived) (hstep : Step s e s') :
    ∃ waiters' arrived', Inv (trace ++ [e]) s' waiters' arrived' := by
  cases hstep with
  | lock c op hpc hop hfresh => exact ⟨_, _, (lock_inv h hpc hop hfresh).other⟩
  | load c op hpc =>
      have hread := h.setPc c (.locking op s.state) (by simp [hpc, MutexPc.operation]) (by simp [hpc]) (by simp) trivial
      exact ⟨_, _, hread.other⟩
  | acquire c op hpc hstate =>
      have hrun := h.setPc c .running (fun _ hop => by cases hop) (by simp [hpc]) (by simp) trivial
      exact ⟨_, _, (hrun.take (setPc_self s c _) hstate).other⟩
  | acquireFails c op hpc =>
      have hread := h.setPc c (.locking op s.state) (by simp [hpc, MutexPc.operation]) (by simp [hpc]) (by simp) trivial
      exact ⟨_, _, hread.other⟩
  | enqueue c op oldState hpc hold hstate =>
      subst oldState
      exact ⟨_, _, enqueue_inv h hpc hold⟩
  | enqueueFails c op oldState hpc hold =>
      have hset := h.setPc c (.locking op s.state) (by simp [hpc, MutexPc.operation]) (by simp [hpc])
        (by simp) trivial
      have hnot := h.parking.not_listed c op (by rw [hpc]; rfl) (by simp [hpc])
      exact ⟨_, _, (hset.setNext hnot oldState).other⟩
  | tryLock c hpc hstate => exact ⟨_, _, (h.take hpc hstate).other⟩
  | tryLockFails c hpc hstate => exact ⟨_, _, h.other⟩
  | unlock c hpc howns =>
      have hstate := h.state_ne howns
      rw [if_neg hstate]
      have hduty (hold : s.state ≠ kLockedNoWaiters) : arrived ≠ [] :=
        mt (chain_null_iff (h.stateChain hstate)).mpr hold
      exact ⟨_, _, (h.setPc c (.unlocking s.state) (fun _ hop => by cases hop) (by simp [hpc]) (by simp)
        ⟨howns, hduty⟩).other⟩
  | hasWaiters c oldState hpc hhead =>
      have hduty := mt (chain_null_iff h.waitersChain).mpr hhead
      exact ⟨_, _, (h.setPc c .resuming (fun _ hop => by cases hop) (by simp [hpc]) (by simp)
        ⟨(h.duty_of hpc).1, hduty⟩).other⟩
  | release c hpc hhead hstate => exact ⟨_, _, (release_inv h hpc hhead hstate).other⟩
  | releaseFails c hpc hhead hstate =>
      have howns := (h.duty_of hpc).1
      have harrived := mt (chain_null_iff (h.stateChain (h.state_ne howns))).mpr hstate
      exact ⟨_, _, (h.setPc c .exchanging (fun _ hop => by cases hop) (by simp [hpc]) (by simp)
        ⟨howns, (chain_null_iff h.waitersChain).mp hhead, harrived⟩).other⟩
  | noRelease c oldState hpc hhead hold =>
      obtain ⟨howns, harrived⟩ := h.duty_of hpc
      exact ⟨_, _, (h.setPc c .exchanging (fun _ hop => by cases hop) (by simp [hpc]) (by simp)
        ⟨howns, (chain_null_iff h.waitersChain).mp hhead, harrived hold⟩).other⟩
  | exchange c fuel next newHead hpc hstate hreverse => exact ⟨_, _, (exchange_inv h hpc hreverse).other⟩
  | exchangeAborts c hpc hstate =>
      obtain ⟨howns, _, harrived⟩ := h.duty_of hpc
      have hne := h.state_ne howns
      exact absurd ((chain_null_iff (h.stateChain hne)).mp (hstate.resolve_left hne)) harrived
  | resume c d hpc hhead hawaiter =>
      obtain ⟨rest, rfl, _⟩ := h.waitersChain.cons_of_ne hhead
      exact ⟨_, _, (resume_inv h hpc hawaiter).2⟩
  | resumeAborts c hpc hhead =>
      have hne := mt (chain_null_iff h.waitersChain).mp (h.duty_of hpc).2
      obtain ⟨rest, rfl, _⟩ := h.waitersChain.cons_of_ne hne
      obtain ⟨d, hd⟩ := h.parking.parked s.waitersHead (by simp)
      have hawaiter := (h.parking.operation d s.waitersHead (by rw [hd]; rfl)).2.2
      rw [hhead.resolve_left hne] at hawaiter
      cases hawaiter

end Inv

theorem run_inv {trace : List (MutexEvent Coro)} {s : AsyncMutex Coro} (h : Run Step {} trace s) :
    ∃ waiters arrived, Inv trace s waiters arrived := by
  induction h with
  | stop => exact ⟨[], [], start_inv⟩
  | next _ taken ih =>
      obtain ⟨_, _, hs⟩ := ih
      exact step_inv hs taken

structure Served (trace : List (MutexEvent Coro)) (s : AsyncMutex Coro) : Prop where
  exclusive : ∀ c d, s.owns c = true → s.owns d = true → c = d
  inOrder : resumed trace <+: enqueued trace
  asOwner : ∀ earlier c, trace = earlier ++ [.resumed c] → s.owns c = true
  kept : ∃ waiters arrived, Chain 0 s.next s.waitersHead waiters ∧
    (s.state = kNotLocked ∧ arrived = [] ∨ s.state ≠ kNotLocked ∧ Chain 0 s.next s.state arrived) ∧
    (enqueued trace).map some = (resumed trace).map some ++ (waiters ++ arrived.reverse).map s.awaiter
  assertions : ∀ c, s.pc c ≠ .aborted
  reverses : ∀ c, s.pc c = .exchanging → ∃ fuel result, reverseLoop 0 fuel s.next s.state 0 = some result

theorem Inv.served {trace : List (MutexEvent Coro)} {s : AsyncMutex Coro} {waiters arrived : List Nat}
    (h : Inv trace s waiters arrived) (hrun : Run Step {} trace s) : Served trace s where
  exclusive := h.owner
  inOrder := by
    obtain ⟨first, second, heq, hfirst, _⟩ := List.map_eq_append_iff.mp h.order
    have hsame := List.map_injective_iff.mpr (fun _ _ he => Option.some.inj he) hfirst
    exact ⟨second, by rw [← hsame, heq]⟩
  asOwner earlier c heq := by
    subst trace
    obtain ⟨s₀, hearlier, hstep⟩ := run_snoc_iff.mp hrun
    obtain ⟨waiters₀, arrived₀, h₀⟩ := run_inv hearlier
    generalize hevent : MutexEvent.resumed c = event at hstep
    cases hstep with
    | resume c' d hpc hhead hawaiter =>
        cases hevent
        obtain ⟨rest, rfl, _⟩ := h₀.waitersChain.cons_of_ne hhead
        rw [resumeAwaiter_of_waiting (resume_inv h₀ hpc hawaiter).1]
        exact Function.update_self _ _ _
    | _ => cases hevent
  kept := by
    refine ⟨waiters, arrived, h.waitersChain, ?_, h.order⟩
    by_cases hstate : s.state = kNotLocked
    · exact .inl ⟨hstate, (h.free hstate).2.1⟩
    · exact .inr ⟨hstate, h.stateChain hstate⟩
  assertions c hpc := h.duty_of hpc
  reverses c hpc := by
    obtain ⟨howns, hwaiters, _⟩ := h.duty_of hpc
    subst waiters
    obtain ⟨next', head, heq, -⟩ := reverseLoop_chain (h.stateChain (h.state_ne howns))
      (show Chain 0 s.next 0 [] from rfl) h.nodup (by simp) (Nat.le_refl _)
    exact ⟨_, _, heq⟩

/-- Whatever the interleaving, the mutex has one owner, hands itself on in the
order of arrival, and loses nobody. -/
theorem mutex_serves_in_order {trace : List (MutexEvent Coro)} {s : AsyncMutex Coro} (h : Run Step {} trace s) :
    Served trace s := by
  obtain ⟨waiters, arrived, hs⟩ := run_inv h
  exact hs.served h

/-- One coroutine holds the mutex, another one arrives and is resumed. -/
theorem second_coroutine_served : ∃ s : AsyncMutex Nat,
    Run Step {} [.other, .other, .other, .enqueued 1, .other, .other, .other, .resumed 1] s ∧ s.owns 1 = true := by
  have htake := Run.stop.next (Step.tryLock ({} : AsyncMutex Nat) 0 rfl rfl)
  have hlock := htake.next (Step.lock _ 1 8 rfl (by decide) fun d hd => by cases hd)
  have hwait := (hlock.next (Step.load _ 1 8 rfl)).next (Step.enqueue _ 1 8 0 rfl (by decide) rfl)
  have hunlock := (hwait.next (Step.unlock _ 0 rfl rfl)).next (Step.noRelease _ 0 8 rfl rfl (by decide))
  have hexchange := hunlock.next (Step.exchange _ 0 1 _ _ rfl (by decide) rfl)
  have hrun := hexchange.next (Step.resume _ 0 1 rfl (by decide) rfl)
  exact ⟨_, hrun, (mutex_serves_in_order hrun).asOwner _ 1 rfl⟩

end AsyncMutex

end Libcold
