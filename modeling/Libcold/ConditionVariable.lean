import Libcold.PointerChain

namespace Libcold

open PointerChain

variable {Coro : Type}

/-- The condition variable, and the fields of its awaiters by their addresses. -/
structure ConditionVariable (Coro : Type) where
  head : Nat := 0
  next : Nat → Nat := fun _ => 0
  awaiter : Nat → Option Coro := fun _ => none

/-- The control points of a coroutine in `Wait` that owns the mutex. -/
inductive WaitPoint
  | checking
  | suspending
  | linking
  | linked
  deriving DecidableEq

namespace ConditionVariable

def setNext (cv : ConditionVariable Coro) (node target : Nat) : ConditionVariable Coro :=
  { cv with next := Function.update cv.next node target }

/-- A round of the loop of `Wait` up to the call of `Unlock`, with the value
that a step writes to `next_`. The exchange that puts the awaiter in front of
the list may fail at any time. -/
inductive Links (c : Coro) (node : Nat) :
    ConditionVariable Coro → WaitPoint → Option Nat → ConditionVariable Coro → WaitPoint → Prop
  | construct (cv) : Links c node cv .checking (some 0)
      { cv.setNext node 0 with awaiter := Function.update cv.awaiter node (some c) } .suspending
  | load (cv) : Links c node cv .suspending (some cv.head) (cv.setNext node cv.head) .linking
  | link (cv) (hhead : cv.head = cv.next node) : Links c node cv .linking none { cv with head := node } .linked
  | linkFails (cv) : Links c node cv .linking (some cv.head) (cv.setNext node cv.head) .linking

section Links

variable {c : Coro} {node : Nat} {cv cv' : ConditionVariable Coro} {point point' : WaitPoint} {written : Option Nat}

theorem Links.next_other (h : Links c node cv point written cv' point') {a : Nat} (ha : a ≠ node) :
    cv'.next a = cv.next a := by
  cases h with
  | link => rfl
  | construct | load | linkFails => exact Function.update_of_ne ha _ _

theorem Links.next_self (h : Links c node cv point written cv' point') :
    cv'.next node = written.getD (cv.next node) := by
  cases h with
  | link => rfl
  | construct | load | linkFails => exact Function.update_self _ _ _

theorem Links.awaiter_other (h : Links c node cv point written cv' point') {a : Nat} (ha : a ≠ node) :
    cv'.awaiter a = cv.awaiter a := by
  cases h with
  | construct => exact Function.update_of_ne ha _ _
  | load | link | linkFails => rfl

theorem Links.awaiter_self (h : Links c node cv point written cv' point')
    (hown : point ≠ .checking → cv.awaiter node = some c) : cv'.awaiter node = some c := by
  cases h with
  | construct => exact Function.update_self _ _ _
  | load | link | linkFails => exact hown (by simp)

theorem Links.point_ne (h : Links c node cv point written cv' point') : point ≠ .linked ∧ point' ≠ .checking := by
  cases h <;> simp

/-- A chain without the awaiter stays as it is. -/
theorem Links.chain (h : Links c node cv point written cv' point') {first : Nat} {nodes : List Nat}
    (hchain : Chain 0 cv.next first nodes) (hnode : node ∉ nodes) : Chain 0 cv'.next first nodes := by
  refine hchain.congr fun a ha => h.next_other ?_
  rintro rfl
  exact hnode ha

/-- The awaiter comes in front of the list with the last of the steps. -/
theorem Links.list (h : Links c node cv point written cv' point') {nodes : List Nat}
    (hchain : Chain 0 cv.next cv.head nodes) (hne : node ≠ 0) (hnode : node ∉ nodes) :
    Chain 0 cv'.next cv'.head (if point' = .linked then node :: nodes else nodes) := by
  have hsame := h.chain hchain hnode
  cases h with
  | construct | load | linkFails => exact hsame
  | link hhead => exact ⟨rfl, hne, hhead ▸ hchain⟩

end Links

section Update

variable {Point : Type} [DecidableEq Coro] {point : Coro → Point} {c : Coro} {moved : Point}

/-- What a step of one coroutine keeps of its point it keeps of all points. -/
theorem update_same {α : Type} (f : Point → α) (hf : f moved = f (point c)) (d : Coro) :
    f (Function.update point c moved d) = f (point d) := by
  by_cases hdc : d = c
  · rw [hdc, Function.update_self, hf]
  · rw [Function.update_of_ne hdc]

/-- What holds of all points but two, which two coroutines have moved. -/
theorem forall_update_two (P : Coro → Point → Prop) {d : Coro} {moved' : Point} (hmoved : P c moved)
    (hmoved' : P d moved') (hother : ∀ b, b ≠ c → b ≠ d → P b (point b)) (b : Coro) :
    P b (Function.update (Function.update point c moved) d moved' b) := by
  by_cases hbd : b = d
  · rw [hbd, Function.update_self]
    exact hmoved'
  · rw [Function.update_of_ne hbd]
    by_cases hbc : b = c
    · rw [hbc, Function.update_self]
      exact hmoved
    · rw [Function.update_of_ne hbc]
      exact hother b hbc hbd

/-- No two coroutines hold the same frame, where a step of one of them takes
none that another holds. -/
theorem frames_update (frame : Point → Option Nat)
    (h : ∀ d node, frame (point d) = some node → node ≠ 0 ∧ ∀ e, frame (point e) = some node → e = d)
    (hmoved : ∀ node, frame moved = some node →
      frame (point c) = some node ∨ node ≠ 0 ∧ ∀ d, frame (point d) ≠ some node) (d : Coro) (node : Nat)
    (hd : frame (Function.update point c moved d) = some node) :
    node ≠ 0 ∧ ∀ e, frame (Function.update point c moved e) = some node → e = d := by
  have hfresh {e : Coro} (hec : e ≠ c) (hnew : frame moved = some node) (he : frame (point e) = some node) : False := by
    rcases hmoved node hnew with hold | ⟨_, hnone⟩
    · exact hec ((h c node hold).2 e he)
    · exact hnone e he
  by_cases hdc : d = c
  · rw [hdc, Function.update_self] at hd
    refine ⟨?_, fun e he => ?_⟩
    · rcases hmoved node hd with hold | ⟨hne, _⟩
      · exact (h c node hold).1
      · exact hne
    · rw [hdc]
      by_contra hec
      rw [Function.update_of_ne hec] at he
      exact hfresh hec hd he
  · rw [Function.update_of_ne hdc] at hd
    refine ⟨(h d node hd).1, fun e he => ?_⟩
    by_cases hec : e = c
    · rw [hec, Function.update_self] at he
      exact (hfresh hdc he hd).elim
    · rw [Function.update_of_ne hec] at he
      exact (h d node hd).2 e he

/-- The handles after a step of one coroutine on its awaiter. -/
theorem Links.handles_update {node : Nat} {cv cv' : ConditionVariable Coro} {old new : WaitPoint} {written : Option Nat}
    (hlinks : Links c node cv old written cv' new) (handled : Point → Option Nat)
    (h : ∀ d a, handled (point d) = some a → cv.awaiter a = some d)
    (hmoved : ∀ a, handled moved = some a → a = node) (hold : old ≠ .checking → handled (point c) = some node)
    (honly : ∀ d, handled (point d) = some node → d = c) (d : Coro) (a : Nat)
    (hd : handled (Function.update point c moved d) = some a) : cv'.awaiter a = some d := by
  by_cases hdc : d = c
  · rw [hdc, Function.update_self] at hd
    rw [hdc, hmoved a hd]
    exact hlinks.awaiter_self fun hne => h c node (hold hne)
  · rw [Function.update_of_ne hdc] at hd
    rw [hlinks.awaiter_other, h d a hd]
    rintro rfl
    exact hdc (honly d hd)

end Update

end ConditionVariable

end Libcold
