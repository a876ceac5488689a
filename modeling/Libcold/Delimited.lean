import Mathlib.Data.List.Perm.Subperm
import Mathlib.Algebra.Order.BigOperators.Group.List
import Mathlib.Algebra.Order.Group.Nat
import Mathlib.Algebra.GroupWithZero.Nat

namespace Libcold.Delimited

variable {α : Type} {equal separator : α} {text : List α} {ps qs : List (List α × List α)}

/-- The pairs that a text holds. A key reaches up to the first sign of equality, and
its value from there to the next separator. -/
inductive Reads (equal separator : α) : List α → List (List α × List α) → Prop
  | stop {text : List α} (hnone : equal ∉ text) : Reads equal separator text []
  | last {key value : List α} (hkey : equal ∉ key) (hvalue : separator ∉ value) :
      Reads equal separator (key ++ equal :: value) [(key, value)]
  | more {key value rest : List α} {ps : List (List α × List α)} (hkey : equal ∉ key) (hvalue : separator ∉ value)
      (later : Reads equal separator rest ps) :
      Reads equal separator (key ++ equal :: (value ++ separator :: rest)) ((key, value) :: ps)

def join (equal separator : α) : List (List α × List α) → List α
  | [] => []
  | [p] => p.1 ++ equal :: p.2
  | p :: q :: ps => p.1 ++ equal :: (p.2 ++ separator :: join equal separator (q :: ps))

/-- The pairs that can be told apart again. -/
def Clean (equal separator : α) (ps : List (List α × List α)) : Prop :=
  ∀ p ∈ ps, equal ∉ p.1 ∧ separator ∉ p.2

def weight (ps : List (List α × List α)) : Nat := (ps.map fun p => p.1.length + p.2.length + 2).sum

theorem exists_reads [DecidableEq α] (equal separator : α) (text : List α) : ∃ ps, Reads equal separator text ps := by
  induction hn : text.length using Nat.strong_induction_on generalizing text with
  | h n ih =>
      by_cases hequal : equal ∈ text
      · obtain ⟨key, behind, rfl, hkey⟩ := List.eq_append_cons_of_mem hequal
        by_cases hseparator : separator ∈ behind
        · obtain ⟨value, rest, rfl, hvalue⟩ := List.eq_append_cons_of_mem hseparator
          obtain ⟨ps, hps⟩ := ih rest.length (by simp at hn; omega) rest rfl
          exact ⟨_, .more hkey hvalue hps⟩
        · exact ⟨_, .last hkey hseparator⟩
      · exact ⟨[], .stop hequal⟩

theorem exists_reads_cons [DecidableEq α] (separator : α) {key : List α} (hkey : equal ∉ key) (behind : List α) :
    ∃ value ps, Reads equal separator (key ++ equal :: behind) ((key, value) :: ps) := by
  by_cases hseparator : separator ∈ behind
  · obtain ⟨value, rest, rfl, hvalue⟩ := List.eq_append_cons_of_mem hseparator
    obtain ⟨ps, hps⟩ := exists_reads equal separator rest
    exact ⟨value, ps, .more hkey hvalue hps⟩
  · exact ⟨behind, [], .last hkey hseparator⟩

theorem reads_join (h : Clean equal separator ps) : Reads equal separator (join equal separator ps) ps := by
  induction ps with
  | nil => exact .stop (by simp [join])
  | cons p ps ih =>
      obtain ⟨hkey, hvalue⟩ := h p List.mem_cons_self
      cases ps with
      | nil => exact .last hkey hvalue
      | cons q ps => exact .more hkey hvalue (ih fun r hr => h r (List.mem_cons_of_mem _ hr))

end Libcold.Delimited
