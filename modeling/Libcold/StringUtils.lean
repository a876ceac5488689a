import Libcold.Router
import Mathlib.Data.List.Basic

namespace Libcold.StringUtils

variable {α : Type} {delim text : List α} {views : List (List α)}

/-- `string_view::substr`, which throws when it begins past the end. -/
def substr (str : List α) (pos count : Nat) : Option (List α) :=
  if pos ≤ str.length then some ((str.drop pos).take count) else none

def pushBack (skipEmpty : Bool) (view : List α) (views : List (List α)) : List (List α) :=
  if skipEmpty && view.isEmpty then views else view :: views

/-- How a text is cut up. Of a delimiter only the first character is left out, and
the others begin the next piece. -/
inductive Cut (delim : List α) : List α → List (List α) → Prop
  | last {text : List α} (hnone : ¬ delim <:+: text) : Cut delim text [text]
  | next {view behind : List α} {views : List (List α)} (hview : ¬ delim <:+: view)
      (later : Cut delim (delim.tail ++ behind) views) : Cut delim (view ++ (delim ++ behind)) (view :: views)

theorem Cut.ne_nil (h : Cut delim text views) : views ≠ [] := by
  cases h <;> simp

theorem Cut.delimiter_free (h : Cut delim text views) : ∀ view ∈ views, ¬ delim <:+: view := by
  induction h with
  | last hnone => simpa using hnone
  | next hview _ ih => exact List.forall_mem_cons.mpr ⟨hview, ih⟩

theorem intercalate_cons (delim view : List α) (h : views ≠ []) :
    delim.intercalate (view :: views) = view ++ (delim ++ delim.intercalate views) := by
  cases views with
  | nil => exact absurd rfl h
  | cons first views => rw [List.intercalate_cons_cons, List.append_assoc]

/-- Joining puts back the characters that were left out, and the rest of each delimiter once more. -/
theorem Cut.length_intercalate (h : Cut delim text views) (hdelim : delim ≠ []) :
    (delim.intercalate views).length = text.length + (views.length - 1) * (delim.length - 1) := by
  induction h with
  | last hnone => simp
  | @next view behind views hview later ih =>
      have hviews := List.length_pos_iff.mpr later.ne_nil
      have hpos := List.length_pos_iff.mpr hdelim
      obtain ⟨n, hn⟩ : ∃ n, views.length = n + 1 := ⟨views.length - 1, by omega⟩
      obtain ⟨m, hm⟩ : ∃ m, delim.length = m + 1 := ⟨delim.length - 1, by omega⟩
      rw [intercalate_cons delim view later.ne_nil]
      simp only [List.length_append, List.length_cons, List.length_tail, hn, hm, Nat.add_sub_cancel] at ih ⊢
      rw [ih, Nat.succ_mul]
      omega

theorem Cut.intercalate_of_single (h : Cut delim text views) (hsingle : delim.length = 1) :
    delim.intercalate views = text := by
  obtain ⟨c, rfl⟩ := List.length_eq_one_iff.mp hsingle
  induction h with
  | last hnone => exact List.intercalate_singleton
  | next hview later ih => rw [intercalate_cons _ _ later.ne_nil, ih]; rfl

theorem Cut.whole_iff (h : Cut delim text views) : views.length = 1 ↔ ¬ delim <:+: text := by
  cases h with
  | last hnone => simp [hnone]
  | next hview later =>
      have hviews := List.length_pos_iff.mpr later.ne_nil
      simp only [List.length_cons, Nat.add_eq_right]
      exact ⟨fun hnone => absurd hnone hviews.ne', fun hnone => absurd ⟨_, _, List.append_assoc _ _ _⟩ hnone⟩

theorem Cut.intercalate_eq_iff (h : Cut delim text views) (hdelim : delim ≠ []) :
    delim.intercalate views = text ↔ delim.length = 1 ∨ ¬ delim <:+: text := by
  have hviews := List.length_pos_iff.mpr h.ne_nil
  have hpos := List.length_pos_iff.mpr hdelim
  constructor
  · intro hjoin
    have hlength := h.length_intercalate hdelim
    rw [hjoin, Nat.left_eq_add, Nat.mul_eq_zero] at hlength
    rw [← h.whole_iff]
    omega
  · rintro (hsingle | hnone)
    · exact h.intercalate_of_single hsingle
    · cases h with
      | last => exact List.intercalate_singleton
      | next => exact absurd ⟨_, _, List.append_assoc _ _ _⟩ hnone

theorem pushBack_true (view : List α) (views : List (List α)) :
    pushBack true view (views.filter fun v => !v.isEmpty) = (view :: views).filter fun v => !v.isEmpty := by
  cases view <;> simp [pushBack]

theorem infix_iff_drop : delim <:+: text ↔ ∃ i ≤ text.length, delim <+: text.drop i := by
  constructor
  · rintro ⟨before, behind, rfl⟩
    exact ⟨before.length, by simp, by simp⟩
  · rintro ⟨i, -, h⟩
    exact h.isInfix.trans (List.drop_suffix i text).isInfix

theorem substr_of_le {str : List α} {start : Nat} (hstart : start ≤ str.length) (count : Nat) :
    substr str start count = some ((str.drop start).take count) := if_pos hstart

section Search

variable [DecidableEq α]

/-- `string_view::find`. The delimiter may begin anywhere up to the end. -/
def find (str delim : List α) (start : Nat) : Option Nat :=
  (List.range' start (str.length + 1 - start)).find? fun i => delim.isPrefixOf (str.drop i)

theorem find_bounds {str delim : List α} {start last : Nat} (h : find str delim start = some last) :
    start ≤ last ∧ last ≤ str.length := by
  rw [find, List.find?_range'_eq_some, List.mem_range'_1] at h
  omega

/-- The loop of `SplitToViews`; nothing is returned when `substr` throws. -/
def splitFrom (str delim : List α) (skipEmpty : Bool) (start : Nat) : Option (List (List α)) :=
  match _h : find str delim start with
  | none => do
      let view ← substr str start str.length
      some (pushBack skipEmpty view [])
  | some last => do
      let view ← substr str start (last - start)
      let views ← splitFrom str delim skipEmpty (last + 1)
      some (pushBack skipEmpty view views)
termination_by str.length + 1 - start
decreasing_by
  have := find_bounds _h
  omega

def splitToViews (str delim : List α) (skipEmpty : Bool) : Option (List (List α)) :=
  if str.isEmpty then some [] else splitFrom str delim skipEmpty 0

/-- The pieces are those of the text between the delimiters. -/
def Splits (str delim : List α) : Prop :=
  ∃ views, splitToViews str delim false = some views ∧ delim.intercalate views = str ∧
    (∀ view ∈ views, ¬ delim <:+: view) ∧ splitToViews str delim true = some (views.filter fun v => !v.isEmpty)

theorem not_infix_of_find_none {str : List α} {start : Nat} (hstart : start ≤ str.length)
    (h : find str delim start = none) : ¬ delim <:+: str.drop start := by
  rw [infix_iff_drop]
  rintro ⟨i, hi, hprefix⟩
  rw [List.length_drop] at hi
  rw [List.drop_drop] at hprefix
  rw [find, List.find?_range'_eq_none] at h
  have hnot := h (start + i) (by omega) (by omega)
  rw [List.isPrefixOf_iff_prefix.mpr hprefix] at hnot
  cases hnot

theorem find_some {str : List α} {start last : Nat} (hdelim : delim ≠ []) (h : find str delim start = some last) :
    ∃ behind, str.drop start = (str.drop start).take (last - start) ++ (delim ++ behind) ∧
      ¬ delim <:+: (str.drop start).take (last - start) ∧
      str.drop (last + 1) = delim.tail ++ behind ∧ last + 1 ≤ str.length := by
  obtain ⟨hle, -⟩ := find_bounds h
  rw [find, List.find?_range'_eq_some] at h
  obtain ⟨hfound, -, hfirst⟩ := h
  obtain ⟨behind, hbehind⟩ := List.isPrefixOf_iff_prefix.mp hfound
  obtain ⟨c, delim, rfl⟩ := List.exists_cons_of_ne_nil hdelim
  refine ⟨behind, ?_, ?_, ?_, ?_⟩
  · rw [hbehind, ← Nat.add_sub_cancel' hle, ← List.drop_drop, Nat.add_sub_cancel_left, List.take_append_drop]
  · rw [infix_iff_drop]
    rintro ⟨i, hi, hprefix⟩
    have hlength := hprefix.length_le
    rw [List.length_drop, List.length_take, List.length_cons] at hlength
    have hearlier : c :: delim <+: str.drop (start + i) := by
      rw [← List.drop_drop]
      rw [List.drop_take] at hprefix
      exact hprefix.trans (List.take_prefix _ _)
    have hnot := hfirst (start + i) (by omega) (by omega)
    rw [List.isPrefixOf_iff_prefix.mpr hearlier] at hnot
    cases hnot
  · rw [← List.drop_drop, ← hbehind]
    rfl
  · have hlength := congrArg List.length hbehind
    simp only [List.length_append, List.length_cons, List.length_drop] at hlength
    omega

theorem splitFrom_spec {str : List α} (hdelim : delim ≠ []) (start : Nat) (hstart : start ≤ str.length) :
    ∃ views, splitFrom str delim false start = some views ∧ Cut delim (str.drop start) views ∧
      splitFrom str delim true start = some (views.filter fun v => !v.isEmpty) := by
  induction hn : str.length - start using Nat.strong_induction_on generalizing start with
  | h n ih =>
      cases hfind : find str delim start with
      | none =>
          have hlast (skipEmpty : Bool) :
              splitFrom str delim skipEmpty start = some (pushBack skipEmpty (str.drop start) []) := by
            have htake : (str.drop start).take str.length = str.drop start :=
              List.take_of_length_le (by rw [List.length_drop]; omega)
            rw [splitFrom]
            split
            · rw [substr_of_le hstart, htake]
              rfl
            · next last hsome => rw [hfind] at hsome; cases hsome
          refine ⟨[str.drop start], hlast false, .last (not_infix_of_find_none hstart hfind), ?_⟩
          rw [hlast true, ← pushBack_true]
          rfl
      | some last =>
          obtain ⟨behind, htext, hview, hrest, hend⟩ := find_some hdelim hfind
          obtain ⟨hle, -⟩ := find_bounds hfind
          obtain ⟨views, hviews, hcut, hskip⟩ := ih (str.length - (last + 1)) (by omega) (last + 1) hend rfl
          have hnext (skipEmpty : Bool) {views : List (List α)}
              (hviews : splitFrom str delim skipEmpty (last + 1) = some views) :
              splitFrom str delim skipEmpty start =
                some (pushBack skipEmpty ((str.drop start).take (last - start)) views) := by
            rw [splitFrom]
            split
            · next hnone => rw [hfind] at hnone; cases hnone
            · next found hsome =>
                rw [hfind] at hsome
                cases hsome
                rw [substr_of_le hstart, hviews]
                rfl
          refine ⟨_, hnext false hviews, ?_, ?_⟩
          · rw [hrest] at hcut
            have hnew := Cut.next hview hcut
            rwa [← htext] at hnew
          · rw [hnext true hskip, pushBack_true]
            rfl

theorem splitToViews_spec {str : List α} (hstr : str ≠ []) (hdelim : delim ≠ []) :
    ∃ views, splitToViews str delim false = some views ∧ Cut delim str views ∧
      splitToViews str delim true = some (views.filter fun v => !v.isEmpty) := by
  have hstarts (skipEmpty : Bool) : splitToViews str delim skipEmpty = splitFrom str delim skipEmpty 0 := by
    rw [splitToViews, if_neg (by simpa using hstr)]
  rw [hstarts, hstarts]
  simpa using splitFrom_spec hdelim 0 (Nat.zero_le str.length)

/-- A text is split at its delimiters when these have one character, or when there are none in it. -/
theorem splits_iff (str delim : List α) (hstr : str ≠ []) (hdelim : delim ≠ []) :
    Splits str delim ↔ delim.length = 1 ∨ ¬ delim <:+: str := by
  obtain ⟨views, hviews, hcut, hskip⟩ := splitToViews_spec hstr hdelim
  rw [← hcut.intercalate_eq_iff hdelim]
  constructor
  · rintro ⟨views', hviews', hjoin, -, -⟩
    cases hviews.symm.trans hviews'
    exact hjoin
  · intro hjoin
    exact ⟨views, hviews, hjoin, hcut.delimiter_free, hskip⟩

theorem splits_iff_path : Splits ['/', 'a', '/'] ['/'] ↔ ['/'].length = 1 ∨ ¬ ['/'] <:+: ['/', 'a', '/'] :=
  splits_iff ['/', 'a', '/'] ['/'] (by decide) (by decide)

/-- The second colon stays in the text. -/
theorem two_colons_not_split : ¬ ∀ str delim : List Char, str ≠ [] → delim ≠ [] → Splits str delim := by
  intro h
  obtain ⟨views, hviews, hjoin, -⟩ := h ['a', ':', ':', 'b'] [':', ':'] (by decide) (by decide)
  obtain ⟨views', hviews', hcut, -⟩ :=
    @splitToViews_spec Char [':', ':'] _ ['a', ':', ':', 'b'] (by decide) (by decide)
  cases hviews.symm.trans hviews'
  exact absurd ((hcut.intercalate_eq_iff (by decide)).mp hjoin) (by decide)

end Search

section Routes

variable {c : Char} {text : List Char} {views : List (List Char)}

theorem singleton_infix_iff (c : α) (text : List α) : [c] <:+: text ↔ c ∈ text := by
  constructor
  · intro h
    exact h.subset List.mem_cons_self
  · intro h
    obtain ⟨before, behind, rfl⟩ := List.append_of_mem h
    exact ⟨before, behind, by simp⟩

theorem route_splitFrom_skip (c : Char) (view text : List Char) :
    Libcold.splitFrom c true view text = (Libcold.splitFrom c false view text).filter fun v => !v.isEmpty := by
  induction text generalizing view with
  | nil => cases view <;> simp [Libcold.splitFrom]
  | cons b text ih => by_cases hb : b = c <;> cases view <;> simp [Libcold.splitFrom, hb, ih]

theorem route_splitFrom_pass {passed : List Char} (hpassed : c ∉ passed) (view text : List Char) :
    Libcold.splitFrom c false view (passed ++ text) = Libcold.splitFrom c false (view ++ passed) text := by
  induction passed generalizing view with
  | nil => simp
  | cons b passed ih =>
      rw [List.mem_cons, not_or] at hpassed
      simp [Libcold.splitFrom, Ne.symm hpassed.1, ih hpassed.2]

theorem Cut.route_splitFrom (h : Cut [c] text views) : Libcold.splitFrom c false [] text = views := by
  induction h with
  | @last text hnone =>
      rw [singleton_infix_iff] at hnone
      have hpass := route_splitFrom_pass hnone [] []
      rw [List.append_nil] at hpass
      rw [hpass]
      rfl
  | @next view behind views hview later ih =>
      rw [singleton_infix_iff] at hview
      rw [route_splitFrom_pass hview, List.singleton_append, Libcold.splitFrom, if_pos rfl]
      exact congrArg (view :: ·) ih

/-- The parts that a route is walked by are the views that its URL is split into. -/
theorem segments_eq (url : List Char) : splitToViews url ['/'] true = some (segments url) := by
  by_cases hurl : url = []
  · subst url
    rfl
  · obtain ⟨views, -, hcut, hskip⟩ := splitToViews_spec hurl (List.cons_ne_nil '/' [])
    rw [hskip, segments, Libcold.splitToViews, if_neg (by simpa using hurl), route_splitFrom_skip,
      hcut.route_splitFrom]

end Routes

end Libcold.StringUtils
