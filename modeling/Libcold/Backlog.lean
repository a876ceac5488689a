import Mathlib.Tactic.Common

namespace Libcold

/-- What a consumer that takes at most one item in each round has handled, and
what it has not taken yet. -/
structure Backlog (Item : Type) where
  handled : List Item := []
  waiting : List Item := []

namespace Backlog

variable {Item Byte : Type}

def round (s : Backlog Item) (arrived : List Item) : Backlog Item :=
  match s.waiting ++ arrived with
  | [] => s
  | item :: rest => ⟨s.handled ++ [item], rest⟩

theorem round_conserves (s : Backlog Item) (arrived : List Item) :
    (s.round arrived).handled ++ (s.round arrived).waiting = s.handled ++ s.waiting ++ arrived := by
  rw [round, List.append_assoc]
  cases h : s.waiting ++ arrived with
  | nil =>
      obtain ⟨hwaiting, -⟩ := List.append_eq_nil_iff.mp h
      rw [hwaiting]
  | cons item rest => simp

theorem round_waiting (s : Backlog Item) (arrived : List Item) :
    (s.round arrived).waiting = (s.waiting ++ arrived).tail := by
  rw [round]
  cases h : s.waiting ++ arrived with
  | nil => exact (List.append_eq_nil_iff.mp h).1
  | cons item rest => rfl

/-- A consumer that has nothing left keeps up where a round brings one item at most. -/
theorem round_keeps_up_iff {s : Backlog Item} (h : s.waiting = []) (arrived : List Item) :
    (s.round arrived).waiting = [] ↔ arrived.length ≤ 1 := by
  rw [round_waiting, h, List.nil_append]
  cases arrived with
  | nil => simp
  | cons item rest => simp

/-- The items whose encodings lie within so many bytes of the stream. -/
def completed (encode : Item → List Byte) : List Item → Nat → List Item
  | [], _ => []
  | item :: items, n =>
      if (encode item).length ≤ n then item :: completed encode items (n - (encode item).length) else []

section Completed

variable {encode : Item → List Byte} {items done rest : List Item} {bytes part : List Byte}

/-- A part of the stream that ends within the next item completes the items before it. -/
theorem completed_eq (hitems : items = done ++ rest) (hbytes : bytes = done.flatMap encode ++ part)
    (hpart : ∀ item later, rest = item :: later → part.length < (encode item).length) :
    completed encode items bytes.length = done := by
  subst hitems hbytes
  induction done with
  | nil =>
      cases rest with
      | nil => rfl
      | cons item later =>
          have hshort := hpart item later rfl
          rw [List.nil_append, completed, if_neg (by simpa using hshort)]
  | cons item done ih =>
      rw [List.cons_append, List.flatMap_cons, List.append_assoc, completed, List.length_append,
        if_pos (Nat.le_add_right _ _), Nat.add_sub_cancel_left, ih]

/-- Every part of the stream ends within an item, or at its end. -/
theorem exists_split (h : bytes <+: items.flatMap encode) :
    ∃ done rest part, items = done ++ rest ∧ bytes = done.flatMap encode ++ part ∧
      (rest = [] → part = []) ∧
      ∀ item later, rest = item :: later → part <+: encode item ∧ part.length < (encode item).length := by
  induction items generalizing bytes with
  | nil => exact ⟨[], [], [], rfl, List.prefix_nil.mp h, fun _ => rfl, fun _ _ h => by cases h⟩
  | cons item items ih =>
      rw [List.flatMap_cons] at h
      by_cases hlength : (encode item).length ≤ bytes.length
      · obtain ⟨tail, rfl⟩ := List.prefix_of_prefix_length_le (List.prefix_append _ _) h hlength
        obtain ⟨done, rest, part, rfl, rfl, hend, hpart⟩ := ih ((List.prefix_append_right_inj _).mp h)
        exact ⟨item :: done, rest, part, rfl, by simp, hend, hpart⟩
      · have hshort := Nat.lt_of_not_le hlength
        refine ⟨[], item :: items, bytes, rfl, rfl, (fun h => by cases h), fun next later heq => ?_⟩
        cases heq
        exact ⟨List.prefix_of_prefix_length_le h (List.prefix_append _ _) (Nat.le_of_lt hshort), hshort⟩

theorem completed_zero (h : ∀ item ∈ items, 0 < (encode item).length) : completed encode items 0 = [] := by
  cases items with
  | nil => rfl
  | cons item items => exact if_neg (Nat.not_le_of_lt (h item List.mem_cons_self))

/-- More bytes complete more items. -/
theorem completed_grows (encode : Item → List Byte) (items : List Item) (bytes more : List Byte) :
    ∃ arrived, completed encode items (bytes ++ more).length = completed encode items bytes.length ++ arrived := by
  rw [List.length_append]
  generalize bytes.length = n
  induction items generalizing n with
  | nil => exact ⟨[], rfl⟩
  | cons item items ih =>
      rw [completed, completed]
      by_cases h : (encode item).length ≤ n
      · obtain ⟨arrived, harrived⟩ := ih (n - (encode item).length)
        rw [if_pos h, if_pos (Nat.le_add_right_of_le h), Nat.sub_add_comm h, harrived]
        exact ⟨arrived, rfl⟩
      · rw [if_neg h]
        exact ⟨_, rfl⟩

end Completed

end Backlog

end Libcold
