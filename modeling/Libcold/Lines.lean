import Mathlib.Data.List.Infix
import Mathlib.Data.List.TakeWhile

namespace Libcold.Lines

variable {α : Type} [DecidableEq α] {cr lf : α}

def push (c : α) : List (List α) × List α → List (List α) × List α
  | ([], last) => ([], c :: last)
  | (line :: lines, last) => ((c :: line) :: lines, last)

/-- The lines of a text, each ended by two characters in a row, and what stands behind
the last of them. -/
def splitLines (cr lf : α) : List α → List (List α) × List α
  | c :: d :: rest =>
      if c = cr ∧ d = lf then ([] :: (splitLines cr lf rest).1, (splitLines cr lf rest).2)
      else push c (splitLines cr lf (d :: rest))
  | text => ([], text)

def joinLines (cr lf : α) (lines : List (List α)) : List α := lines.flatMap (· ++ [cr, lf])

theorem splitLines_line (hne : cr ≠ lf) {line : List α} (hline : ¬ [cr, lf] <:+: line) (rest : List α) :
    splitLines cr lf (line ++ cr :: lf :: rest) = (line :: (splitLines cr lf rest).1, (splitLines cr lf rest).2) := by
  induction line with
  | nil => simp [splitLines]
  | cons c line ih =>
      rw [List.infix_cons_iff, not_or] at hline
      obtain ⟨hbegin, hlater⟩ := hline
      cases line with
      | nil =>
          have hnot : ¬ (c = cr ∧ cr = lf) := fun h => hne h.2
          rw [List.cons_append, List.nil_append, splitLines, if_neg hnot]
          rw [List.nil_append] at ih
          rw [ih hlater]
          rfl
      | cons d line =>
          have hnot : ¬ (c = cr ∧ d = lf) := by
            rintro ⟨rfl, rfl⟩
            exact hbegin (List.prefix_append [c, d] line)
          rw [List.cons_append, List.cons_append, splitLines, if_neg hnot, ← List.cons_append, ih hlater]
          rfl

theorem splitLines_begins {text line last : List α} {lines : List (List α)}
    (h : splitLines cr lf text = (line :: lines, last)) : line <+: text := by
  fun_induction splitLines cr lf text generalizing line lines last with
  | case1 c d rest hend ih =>
      cases h
      exact List.nil_prefix
  | case2 c d rest hend ih =>
      rcases hsplit : splitLines cr lf (d :: rest) with ⟨_ | ⟨first, later⟩, behind⟩
      · rw [hsplit] at h
        cases h
      · rw [hsplit] at h
        cases h
        exact List.cons_prefix_cons.mpr ⟨rfl, ih hsplit⟩
  | case3 text hshort => cases h

/-- No line that is read has the end of a line in it. -/
theorem splitLines_clean (cr lf : α) (text : List α) :
    ∀ line ∈ (splitLines cr lf text).1, ¬ [cr, lf] <:+: line := by
  fun_induction splitLines cr lf text with
  | case1 c d rest hend ih =>
      intro line hline
      rcases List.mem_cons.mp hline with rfl | hline
      · simp
      · exact ih line hline
  | case2 c d rest hend ih =>
      rcases hsplit : splitLines cr lf (d :: rest) with ⟨_ | ⟨first, later⟩, behind⟩
      · intro line hline
        cases hline
      · rw [hsplit] at ih
        rw [push, List.forall_mem_cons]
        rw [List.forall_mem_cons] at ih
        refine ⟨fun hwithin => ?_, ih.2⟩
        rcases List.infix_cons_iff.mp hwithin with hbegin | hlater
        · obtain ⟨hc, hlf⟩ := List.cons_prefix_cons.mp hbegin
          obtain ⟨hd, -⟩ := List.cons_prefix_cons.mp (hlf.trans (splitLines_begins hsplit))
          exact hend ⟨hc.symm, hd.symm⟩
        · exact ih.1 hlater
  | case3 text hshort => simp

theorem splitLines_join_iff (hne : cr ≠ lf) (lines : List (List α)) :
    splitLines cr lf (joinLines cr lf lines) = (lines, []) ↔ ∀ line ∈ lines, ¬ [cr, lf] <:+: line := by
  constructor
  · intro h line hline
    have hclean := splitLines_clean cr lf (joinLines cr lf lines)
    rw [h] at hclean
    exact hclean line hline
  · intro h
    induction lines with
    | nil => rfl
    | cons line lines ih =>
        rw [List.forall_mem_cons] at h
        have hjoin : joinLines cr lf (line :: lines) = line ++ cr :: lf :: joinLines cr lf lines := by
          simp [joinLines]
        rw [hjoin, splitLines_line hne h.1, ih h.2]

theorem joinLines_splitLines (cr lf : α) (text : List α) :
    joinLines cr lf (splitLines cr lf text).1 ++ (splitLines cr lf text).2 = text := by
  fun_induction splitLines cr lf text with
  | case1 c d rest hend ih =>
      obtain ⟨rfl, rfl⟩ := hend
      simpa [joinLines] using ih
  | case2 c d rest hend ih =>
      rcases hsplit : splitLines cr lf (d :: rest) with ⟨_ | ⟨first, later⟩, behind⟩
      · rw [hsplit] at ih
        simpa [push, joinLines] using ih
      · rw [hsplit] at ih
        simpa [push, joinLines] using ih
  | case3 text hshort => rfl

theorem splitLines_join_append (hne : cr ≠ lf) {lines : List (List α)} (h : ∀ line ∈ lines, ¬ [cr, lf] <:+: line)
    (rest : List α) : splitLines cr lf (joinLines cr lf lines ++ rest) =
      (lines ++ (splitLines cr lf rest).1, (splitLines cr lf rest).2) := by
  induction lines with
  | nil => rfl
  | cons line lines ih =>
      rw [List.forall_mem_cons] at h
      have hjoin : joinLines cr lf (line :: lines) ++ rest = line ++ cr :: lf :: (joinLines cr lf lines ++ rest) := by
        simp [joinLines]
      rw [hjoin, splitLines_line hne h.1, ih h.2]
      rfl

theorem splitLines_append (cr lf : α) (text more : List α) : splitLines cr lf (text ++ more) =
    ((splitLines cr lf text).1 ++ (splitLines cr lf ((splitLines cr lf text).2 ++ more)).1,
      (splitLines cr lf ((splitLines cr lf text).2 ++ more)).2) := by
  fun_induction splitLines cr lf text with
  | case1 c d rest hend ih =>
      rw [List.cons_append, List.cons_append, splitLines, if_pos hend, ih]
      rfl
  | case2 c d rest hend ih =>
      have hjoin := joinLines_splitLines cr lf (d :: rest)
      rcases hsplit : splitLines cr lf (d :: rest) with ⟨_ | ⟨first, later⟩, behind⟩
      · rw [hsplit] at hjoin
        obtain rfl : behind = d :: rest := hjoin
        rfl
      · rw [hsplit] at ih
        rw [List.cons_append, List.cons_append, splitLines, if_neg hend, ← List.cons_append, ih]
        rfl
  | case3 text hshort => rfl

/-- The lines up to the first empty one, and the text behind that. -/
def takeBlock (cr lf : α) (text : List α) : Option (List (List α) × List α) :=
  match (splitLines cr lf text).1.dropWhile (· ≠ []) with
  | [] => none
  | _ :: later =>
      some ((splitLines cr lf text).1.takeWhile (· ≠ []), joinLines cr lf later ++ (splitLines cr lf text).2)

theorem takeBlock_join (hne : cr ≠ lf) {lines : List (List α)} (h : ∀ line ∈ lines, ¬ [cr, lf] <:+: line ∧ line ≠ [])
    (rest : List α) : takeBlock cr lf (joinLines cr lf (lines ++ [[]]) ++ rest) = some (lines, rest) := by
  have hclean : ∀ line ∈ lines ++ [[]], ¬ [cr, lf] <:+: line := by
    intro line hline
    rcases List.mem_append.mp hline with hline | hline
    · exact (h line hline).1
    · simp [List.mem_singleton.mp hline]
  have hfull : ∀ line ∈ lines, decide (line ≠ []) = true := fun line hline => by simpa using (h line hline).2
  rw [takeBlock, splitLines_join_append hne hclean, List.append_assoc, List.dropWhile_append_of_pos hfull,
    List.takeWhile_append_of_pos hfull]
  simp [joinLines_splitLines]

theorem takeBlock_clean {text rest : List α} {lines : List (List α)} (h : takeBlock cr lf text = some (lines, rest)) :
    ∀ line ∈ lines, ¬ [cr, lf] <:+: line := by
  intro line hline
  unfold takeBlock at h
  split at h
  · cases h
  · obtain ⟨rfl, -⟩ := Prod.mk.inj (Option.some.inj h)
    exact splitLines_clean cr lf _ line ((List.takeWhile_subset _) hline)

/-- A block that has come whole is read as before, whatever comes behind it. -/
theorem takeBlock_append {text rest : List α} {lines : List (List α)}
    (h : takeBlock cr lf text = some (lines, rest)) (more : List α) :
    takeBlock cr lf (text ++ more) = some (lines, rest ++ more) := by
  unfold takeBlock at h
  split at h
  · cases h
  next first later hdrop =>
    obtain ⟨rfl, rfl⟩ := Prod.mk.inj (Option.some.inj h)
    have hfull : ((splitLines cr lf text).1.takeWhile (· ≠ [])).length ≠ (splitLines cr lf text).1.length := by
      have hlength := congrArg List.length (List.takeWhile_append_dropWhile (p := fun line => decide (line ≠ []))
        (l := (splitLines cr lf text).1))
      rw [List.length_append, hdrop, List.length_cons] at hlength
      omega
    have hbehind := joinLines_splitLines cr lf ((splitLines cr lf text).2 ++ more)
    rw [takeBlock, splitLines_append]
    simp only [List.dropWhile_append, List.takeWhile_append, if_neg hfull, hdrop, List.cons_append,
      List.isEmpty_cons, Bool.false_eq_true, if_false]
    rw [joinLines, List.flatMap_append, List.append_assoc, List.append_assoc]
    exact congrArg (fun rest => some (_, joinLines cr lf later ++ rest)) hbehind

/-- Two texts together hold the end of a line if one of them does, or if one half of it
ends the first and the other half begins the second. -/
theorem ends_append_iff (cr lf : α) (text rest : List α) : [cr, lf] <:+: text ++ rest ↔
    [cr, lf] <:+: text ∨ [cr, lf] <:+: rest ∨ (text.getLast? = some cr ∧ rest.head? = some lf) := by
  rw [List.infix_append_iff_ne_nil]
  refine or_congr_right (or_congr_right ⟨?_, ?_⟩)
  · rintro ⟨first, second, hfirst, hsecond, hsplit, hsuffix, hprefix⟩
    obtain ⟨rfl, rfl⟩ : first = [cr] ∧ second = [lf] := by
      rcases first with _ | ⟨a, _ | ⟨b, first⟩⟩
      · exact absurd rfl hfirst
      · obtain ⟨rfl, rfl⟩ := List.cons.inj hsplit
        exact ⟨rfl, rfl⟩
      · have hlength := congrArg List.length hsplit
        have hpos := List.length_pos_of_ne_nil hsecond
        simp only [List.length_append, List.length_cons, List.length_nil] at hlength
        omega
    obtain ⟨before, rfl⟩ := hsuffix
    obtain ⟨behind, rfl⟩ := hprefix
    exact ⟨List.getLast?_concat, rfl⟩
  · rintro ⟨hlast, hhead⟩
    obtain ⟨before, rfl⟩ := List.getLast?_eq_some_iff.mp hlast
    obtain ⟨behind, rfl⟩ := List.head?_eq_some_iff.mp hhead
    exact ⟨[cr], [lf], List.cons_ne_nil _ _, List.cons_ne_nil _ _, rfl, List.suffix_append _ _, List.prefix_append [lf] _⟩

end Libcold.Lines
