import Mathlib.Logic.Function.Basic
import Mathlib.Data.List.Basic

namespace Libcold.PointerChain

variable {Addr : Type} {null : Addr}

/-- The nodes that following `next` from `first` visits, down to the null pointer. -/
def Chain (null : Addr) (next : Addr → Addr) : Addr → List Addr → Prop
  | first, [] => first = null
  | first, a :: rest => first = a ∧ a ≠ null ∧ Chain null next (next a) rest

theorem chain_null_iff {next : Addr → Addr} {first : Addr} {nodes : List Addr} (h : Chain null next first nodes) :
    first = null ↔ nodes = [] := by
  cases nodes with
  | nil => exact iff_of_true h rfl
  | cons a rest =>
      obtain ⟨rfl, hne, _⟩ := h
      exact iff_of_false hne (List.cons_ne_nil _ _)

theorem Chain.congr {next next' : Addr → Addr} {first : Addr} {nodes : List Addr}
    (h : Chain null next first nodes) (hsame : ∀ a ∈ nodes, next' a = next a) : Chain null next' first nodes := by
  induction nodes generalizing first with
  | nil => exact h
  | cons a rest ih =>
      obtain ⟨rfl, hne, hrest⟩ := h
      rw [List.forall_mem_cons] at hsame
      exact ⟨rfl, hne, hsame.1 ▸ ih hrest hsame.2⟩

theorem Chain.cons_of_ne {next : Addr → Addr} {first : Addr} {nodes : List Addr} (h : Chain null next first nodes)
    (hne : first ≠ null) : ∃ rest, nodes = first :: rest ∧ Chain null next (next first) rest := by
  cases nodes with
  | nil => exact absurd h hne
  | cons a rest =>
      obtain ⟨rfl, _, hrest⟩ := h
      exact ⟨rest, rfl, hrest⟩

variable [DecidableEq Addr]

theorem Chain.update {next : Addr → Addr} {first : Addr} {nodes : List Addr} (h : Chain null next first nodes)
    {a : Addr} (ha : a ∉ nodes) (target : Addr) : Chain null (Function.update next a target) first nodes := by
  refine h.congr fun b hb => Function.update_of_ne ?_ _ _
  rintro rfl
  exact ha hb

theorem Chain.push {next : Addr → Addr} {first : Addr} {nodes : List Addr} (h : Chain null next first nodes)
    {a : Addr} (hne : a ≠ null) (ha : a ∉ nodes) : Chain null (Function.update next a first) a (a :: nodes) := by
  refine ⟨rfl, hne, ?_⟩
  rw [Function.update_self]
  exact h.update ha first

/-- The loop that reverses a list in place by turning one pointer after the
other; it is given up when the fuel is used up. -/
def reverseLoop (null : Addr) : Nat → (Addr → Addr) → Addr → Addr → Option ((Addr → Addr) × Addr)
  | 0, next, cur, newHead => if cur = null then some (next, newHead) else none
  | fuel + 1, next, cur, newHead =>
      if cur = null then some (next, newHead)
      else reverseLoop null fuel (Function.update next cur newHead) (next cur) cur

/-- The loop ends on a chain, reverses it onto the nodes turned before, and
writes no other node. -/
theorem reverseLoop_chain {nodes done : List Addr} {next : Addr → Addr} {cur newHead : Addr}
    (hcur : Chain null next cur nodes) (hdone : Chain null next newHead done) (hnodup : nodes.Nodup)
    (hdisjoint : ∀ a ∈ nodes, a ∉ done) {fuel : Nat} (hfuel : nodes.length ≤ fuel) :
    ∃ next' head, reverseLoop null fuel next cur newHead = some (next', head) ∧
      Chain null next' head (nodes.reverse ++ done) ∧ ∀ a, a ∉ nodes → next' a = next a := by
  induction nodes generalizing done next cur newHead fuel with
  | nil =>
      refine ⟨next, newHead, ?_, hdone, fun _ _ => rfl⟩
      have hnull : cur = null := hcur
      cases fuel <;> simp [reverseLoop, hnull]
  | cons a rest ih =>
      obtain ⟨rfl, hne, hrest⟩ := hcur
      rw [List.nodup_cons] at hnodup
      rw [List.forall_mem_cons] at hdisjoint
      obtain ⟨fuel, rfl⟩ : ∃ n, fuel = n + 1 := Nat.exists_eq_succ_of_ne_zero (by simp at hfuel; omega)
      obtain ⟨next', head, heq, hchain, hsame⟩ := ih (hrest.update hnodup.1 newHead) (hdone.push hne hdisjoint.1)
        hnodup.2 (fun b hb hmem => by
          rcases List.mem_cons.mp hmem with rfl | hmem
          · exact hnodup.1 hb
          · exact hdisjoint.2 b hb hmem) (by simpa using hfuel)
      refine ⟨next', head, ?_, by simpa using hchain, fun b hb => ?_⟩
      · rw [reverseLoop, if_neg hne, heq]
      · rw [List.mem_cons, not_or] at hb
        rw [hsame b hb.2, Function.update_of_ne hb.1]

theorem reverseLoop_fuel {fuel more : Nat} (hle : fuel ≤ more) {next : Addr → Addr} {cur newHead : Addr}
    {result : (Addr → Addr) × Addr} (h : reverseLoop null fuel next cur newHead = some result) :
    reverseLoop null more next cur newHead = some result := by
  induction fuel generalizing more next cur newHead with
  | zero =>
      by_cases hnull : cur = null
      · cases more <;> simpa [reverseLoop, hnull] using h
      · simp [reverseLoop, hnull] at h
  | succ fuel ih =>
      obtain ⟨more, rfl⟩ : ∃ n, more = n + 1 := Nat.exists_eq_succ_of_ne_zero (by omega)
      by_cases hnull : cur = null
      · simpa [reverseLoop, hnull] using h
      · rw [reverseLoop, if_neg hnull] at h ⊢
        exact ih (by omega) h

end Libcold.PointerChain
