import Mathlib.Data.List.Basic

namespace Libcold

/-- What `initial_suspend` returns. -/
inductive InitialSuspend
  | suspendAlways
  | suspendNever

/-- The frame of a coroutine: what was performed of its body, and what a resumption
performs yet, as long as the frame is not destroyed. -/
structure Task (Effect : Type) where
  performed : List Effect := []
  left : List Effect

/-- What becomes of a `Task` that was returned. `co_await` and the service resume it. -/
inductive TaskUse
  | move
  | resume
  | destroy

namespace Task

variable {Effect : Type} {body : List Effect} {uses : List TaskUse} {t : Task Effect}

/-- `PromiseBase::initial_suspend`. -/
def initialSuspend : InitialSuspend := .suspendAlways

def resume (t : Task Effect) : Task Effect := ⟨t.performed ++ t.left, []⟩

/-- A call of a coroutine. -/
def call (body : List Effect) : Task Effect :=
  match initialSuspend with
  | .suspendAlways => ⟨[], body⟩
  | .suspendNever => resume ⟨[], body⟩

def use (t : Task Effect) : TaskUse → Task Effect
  | .move => t
  | .resume => t.resume
  | .destroy => { t with left := [] }

def after (t : Task Effect) (uses : List TaskUse) : Task Effect := uses.foldl use t

/-- The caller keeps nothing of the `Task`. -/
def drop (body : List Effect) : List Effect := ((call body).after [.destroy]).performed

def coAwait (body : List Effect) : List Effect := ((call body).after [.resume, .destroy]).performed

theorem performed_of_not_resumed (h : .resume ∉ uses) : (t.after uses).performed = t.performed := by
  induction uses generalizing t with
  | nil => rfl
  | cons first later ih =>
      rw [List.mem_cons, not_or] at h
      have hlater : ((t.use first).after later).performed = (t.use first).performed := ih h.2
      cases first with
      | move => exact hlater
      | resume => exact absurd rfl h.1
      | destroy => exact hlater

/-- A `Task` that is neither awaited nor spawned performs nothing. -/
theorem lazy (h : .resume ∉ uses) : ((call body).after uses).performed = [] := performed_of_not_resumed h

theorem drop_eq (body : List Effect) : drop body = [] := lazy (by simp)

theorem coAwait_eq (body : List Effect) : coAwait body = body := rfl

end Task

end Libcold
