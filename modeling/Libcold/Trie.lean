import Mathlib.Data.List.Infix
import Mathlib.Logic.Function.Basic

namespace Libcold

/-- A tree of values whose edges carry keys. -/
inductive Trie (κ α : Type) where
  | node (value : α) (children : κ → Option (Trie κ α))

namespace Trie

variable {κ α β : Type}

def value : Trie κ α → α
  | node v _ => v

def children : Trie κ α → κ → Option (Trie κ α)
  | node _ cs => cs

def leaf (v : α) : Trie κ α := node v fun _ => none

def subtrie : List κ → Trie κ α → Option (Trie κ α)
  | [], t => some t
  | k :: ks, t => (t.children k).bind (subtrie ks)

def entry (path : List κ) (t : Trie κ α) : Option α := (subtrie path t).map value

@[simp] theorem subtrie_nil (t : Trie κ α) : subtrie [] t = some t := rfl

@[simp] theorem subtrie_cons (k : κ) (ks : List κ) (t : Trie κ α) :
    subtrie (k :: ks) t = (t.children k).bind (subtrie ks) := rfl

theorem subtrie_append (path later : List κ) (t : Trie κ α) :
    subtrie (path ++ later) t = (subtrie path t).bind (subtrie later) := by
  induction path generalizing t with
  | nil => rfl
  | cons k ks ih =>
      cases h : t.children k with
      | none => simp [h]
      | some child => simp [h, ih]

theorem subtrie_snoc {path : List κ} {t s : Trie κ α} (h : subtrie path t = some s) (k : κ) :
    subtrie (path ++ [k]) t = s.children k := by
  rw [subtrie_append, h]
  cases hc : s.children k with
  | none => simp [hc]
  | some child => simp [hc]

/-- A path leads as far as there are edges for it. -/
theorem exists_stop (t : Trie κ α) (path : List κ) :
    ∃ walked rest s, path = walked ++ rest ∧ subtrie walked t = some s ∧
      ∀ k later, rest = k :: later → s.children k = none := by
  induction path generalizing t with
  | nil => exact ⟨[], [], t, rfl, rfl, by simp⟩
  | cons k ks ih =>
      cases hc : t.children k with
      | none => exact ⟨[], k :: ks, t, rfl, rfl, by rintro _ _ ⟨rfl, rfl⟩; exact hc⟩
      | some child =>
          obtain ⟨walked, rest, s, rfl, hs, hstop⟩ := ih child
          exact ⟨k :: walked, rest, s, rfl, by simp [hc, hs], hstop⟩

theorem entry_leaf (v : α) (path : List κ) : entry path (leaf v : Trie κ α) = if path = [] then some v else none := by
  cases path with
  | nil => rfl
  | cons k ks => simp [entry, leaf, children]

variable [DecidableEq κ]

/-- Changes the value at the end of a path; the nodes that are missing on it
are made with a default value. -/
def modify (default : α) (change : α → α) : List κ → Trie κ α → Trie κ α
  | [], t => node (change t.value) t.children
  | k :: ks, t =>
      node t.value (Function.update t.children k (some (modify default change ks ((t.children k).getD (leaf default)))))

/-- Only the value at the path changes, apart from the nodes made on the way. -/
theorem entry_modify (default : α) (change : α → α) (path query : List κ) (t : Trie κ α) :
    entry query (modify default change path t) =
      if query = path then some (change ((entry query t).getD default))
      else if query <+: path then some ((entry query t).getD default)
      else entry query t := by
  induction path generalizing query t with
  | nil =>
      cases query with
      | nil => simp [modify, entry, value]
      | cons q qs => simp [modify, entry, children]
  | cons k ks ih =>
      cases query with
      | nil => simp [modify, entry, value]
      | cons q qs =>
          by_cases hk : q = k
          · subst hk
            have hstep : entry (q :: qs) (modify default change (q :: ks) t) =
                entry qs (modify default change ks ((t.children q).getD (leaf default))) := by
              simp [modify, entry, children]
            have hsame : q :: qs = q :: ks ↔ qs = ks := by simp
            rw [hstep, ih]
            simp only [hsame, List.cons_prefix_cons, true_and]
            cases hc : t.children q with
            | none =>
                have hnone : entry (q :: qs) t = none := by simp [entry, hc]
                have hnew : (entry qs (leaf default : Trie κ α)).getD default = default := by
                  rw [entry_leaf]; split <;> rfl
                rw [hnone, Option.getD_none, hnew]
                split_ifs with hqs hpath
                · rfl
                · rfl
                · rw [entry_leaf, if_neg (by rintro rfl; exact hpath List.nil_prefix)]
            | some child =>
                have hsome : entry (q :: qs) t = entry qs child := by simp [entry, hc]
                rw [hsome, Option.getD_some]
          · have hpath : ¬ q :: qs <+: k :: ks := fun h => hk (List.cons_prefix_cons.mp h).1
            simp [modify, entry, children, hk, hpath]

/-- The value that the puts on one path lead to. -/
def valueAt (default : α) (put : β → α → α) (path : List κ) (puts : List (List κ × β)) : α :=
  (puts.filter fun p => p.1 = path).foldl (fun v p => put p.2 v) default

/-- A trie with values put at the ends of paths, one after the other. -/
def build (default : α) (put : β → α → α) (puts : List (List κ × β)) : Trie κ α :=
  puts.foldl (fun t p => t.modify default (put p.2) p.1) (leaf default)

theorem valueAt_snoc (default : α) (put : β → α → α) (path : List κ) (puts : List (List κ × β)) (p : List κ × β) :
    valueAt default put path (puts ++ [p]) =
      if p.1 = path then put p.2 (valueAt default put path puts) else valueAt default put path puts := by
  by_cases h : p.1 = path
  · simp [valueAt, h]
  · simp [valueAt, h]

theorem valueAt_of_not_put (default : α) (put : β → α → α) (path : List κ) (puts : List (List κ × β))
    (h : ∀ p ∈ puts, p.1 ≠ path) : valueAt default put path puts = default := by
  have hnone : puts.filter (fun p => p.1 = path) = [] := by simpa using h
  simp [valueAt, hnone]

theorem entry_build (default : α) (put : β → α → α) (puts : List (List κ × β)) (path : List κ) :
    entry path (build default put puts) =
      if path = [] ∨ ∃ p ∈ puts, path <+: p.1 then some (valueAt default put path puts) else none := by
  induction puts using List.reverseRecOn with
  | nil => simp [build, valueAt, entry_leaf]
  | append_singleton puts p ih =>
      have hsnoc : build default put (puts ++ [p]) = (build default put puts).modify default (put p.2) p.1 := by
        simp [build]
      have hget : (entry path (build default put puts)).getD default = valueAt default put path puts := by
        rw [ih]
        split_ifs with h
        · rfl
        · refine (valueAt_of_not_put default put path puts ?_).symm
          rintro q hq rfl
          exact h (.inr ⟨q, hq, List.prefix_rfl⟩)
      rw [hsnoc, entry_modify, hget, ih, valueAt_snoc]
      by_cases hp : path = p.1
      · subst hp
        rw [if_pos rfl, if_pos rfl, if_pos (.inr ⟨p, by simp, List.prefix_rfl⟩)]
      · rw [if_neg hp, if_neg (Ne.symm hp)]
        by_cases hpath : path <+: p.1
        · rw [if_pos hpath, if_pos (.inr ⟨p, by simp, hpath⟩)]
        · have hsame : (∃ q ∈ puts ++ [p], path <+: q.1) ↔ ∃ q ∈ puts, path <+: q.1 := by
            simp only [List.mem_append, List.mem_singleton, or_and_right, exists_or, exists_eq_left, hpath, or_false]
          rw [if_neg hpath]
          simp only [hsame]

theorem isSome_subtrie_build (default : α) (put : β → α → α) (puts : List (List κ × β)) (path : List κ) :
    (subtrie path (build default put puts)).isSome ↔ path = [] ∨ ∃ p ∈ puts, path <+: p.1 := by
  have h := congrArg Option.isSome (entry_build default put puts path)
  rw [entry, Option.isSome_map] at h
  rw [h]
  split_ifs with hbegins
  · simpa using hbegins
  · simpa using hbegins

theorem value_of_subtrie_build {default : α} {put : β → α → α} {puts : List (List κ × β)} {path : List κ}
    {t : Trie κ α} (h : subtrie path (build default put puts) = some t) : t.value = valueAt default put path puts := by
  have hentry := entry_build default put puts path
  rw [entry, h, Option.map_some] at hentry
  split_ifs at hentry
  exact Option.some.inj hentry

end Trie

end Libcold
