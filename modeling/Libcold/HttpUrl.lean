import Libcold.HttpRequest
import Mathlib.Data.List.TakeWhile

namespace Libcold.HttpRequest

open HttpCommon Delimited

section SplitUrl

variable {path query view fragment : List UInt8}

theorem splitUrl_query (hpath : 63 ∉ path) (hhash : 35 ∉ path ++ 63 :: query) :
    splitUrl (path ++ 63 :: query) = ⟨path, some query, []⟩ := by
  simp only [splitUrl, findLastOf_none hhash, idxOf_append_cons hpath, drop_behind, List.take_left]

theorem splitUrl_plain (hview : 63 ∉ view) (hhash : 35 ∉ view) : splitUrl view = ⟨view, none, []⟩ := by
  simp only [splitUrl, findLastOf_none hhash, List.idxOf?_eq_none_iff.mpr hview]

/-- The last hash mark begins the fragment. -/
theorem splitUrl_query_fragment (hpath : 63 ∉ path) (hfragment : 35 ∉ fragment) :
    splitUrl ((path ++ 63 :: query) ++ 35 :: fragment) = ⟨path, some query, fragment⟩ := by
  simp only [splitUrl, findLastOf_append_cons hfragment, drop_behind, List.take_left, idxOf_append_cons hpath,
    UrlParts.mk.injEq, and_true]
  rw [List.append_assoc, List.take_left]

/-- Without a query the url keeps its fragment. -/
theorem splitUrl_fragment (hview : 63 ∉ view) (hfragment : 35 ∉ fragment) :
    splitUrl (view ++ 35 :: fragment) = ⟨view ++ 35 :: fragment, none, fragment⟩ := by
  simp only [splitUrl, findLastOf_append_cons hfragment, drop_behind, List.take_left,
    List.idxOf?_eq_none_iff.mpr hview]

theorem eq_append_cons_last {c : UInt8} {s : List UInt8} (h : c ∈ s) :
    ∃ before behind, s = before ++ c :: behind ∧ c ∉ behind := by
  obtain ⟨before, behind, heq, hnone⟩ := List.eq_append_cons_of_mem (List.mem_reverse.mpr h)
  refine ⟨behind.reverse, before.reverse, ?_, by simpa using hnone⟩
  rw [← List.reverse_reverse s, heq]
  simp

theorem head_take_idxOf {url view : List UInt8} {pos : Nat} (hview : view <+: url) (hpos : view.idxOf? 63 = some pos) :
    (url.take pos).head? = some 47 ↔ url.head? = some 47 := by
  cases view with
  | nil => cases hpos
  | cons c view =>
      obtain ⟨behind, rfl⟩ := hview
      rw [List.idxOf?_cons] at hpos
      split_ifs at hpos with hc
      · obtain rfl := eq_of_beq hc
        cases hpos
        simp
      · obtain ⟨pos', -, rfl⟩ := Option.map_eq_some_iff.mp hpos
        rfl

theorem head_splitUrl (url : List UInt8) : (splitUrl url).url.head? = some 47 ↔ url.head? = some 47 := by
  rw [splitUrl]
  cases findLastOf 35 url with
  | none =>
      cases hpos : url.idxOf? 63 with
      | none => simp [hpos]
      | some pos => simpa [hpos] using head_take_idxOf (List.prefix_rfl) hpos
  | some hash =>
      cases hpos : (url.take hash).idxOf? 63 with
      | none => simp [hpos]
      | some pos => simpa [hpos] using head_take_idxOf (List.take_prefix hash url) hpos

end SplitUrl

/-- The part of a target before its first question or hash mark. -/
def beforeMarks (target : List UInt8) : List UInt8 := target.takeWhile fun c => c ≠ 63 && c ≠ 35

def behindHash (target : List UInt8) : List UInt8 := (target.dropWhile (· ≠ 35)).tail

/-- What stands between the first question mark and the first hash mark behind it. -/
def queryOf (target : List UInt8) : Option (List UInt8) :=
  let view := target.takeWhile (· ≠ 35)
  if 63 ∈ view then some (view.dropWhile (· ≠ 63)).tail else none

/-- How a target is to be cut. -/
def marksOf (target : List UInt8) : UrlParts := ⟨beforeMarks target, queryOf target, behindHash target⟩

structure CutAtMarks (rawRequest : RawHttpRequest) : Prop where
  url : (ofRaw rawRequest).url = beforeMarks rawRequest.url
  fragment : (ofRaw rawRequest).fragment = behindHash rawRequest.url
  query : (splitUrl (urlDecode rawRequest.url)).query = queryOf rawRequest.url

section Marks

variable {path query view fragment : List UInt8}

theorem takeWhile_ne (c : UInt8) (before behind : List UInt8) (h : c ∉ before) :
    (before ++ c :: behind).takeWhile (· ≠ c) = before ∧ (before ++ c :: behind).dropWhile (· ≠ c) = c :: behind := by
  have hbefore : ∀ b ∈ before, decide (b ≠ c) = true := by
    rintro b hb
    simp only [decide_eq_true_eq]
    rintro rfl
    exact h hb
  rw [List.takeWhile_append_of_pos hbefore, List.dropWhile_append_of_pos hbefore]
  simp

theorem takeWhile_self {c : UInt8} {s : List UInt8} (h : c ∉ s) :
    s.takeWhile (· ≠ c) = s ∧ s.dropWhile (· ≠ c) = [] := by
  have hall : ∀ b ∈ s, decide (b ≠ c) = true := by
    rintro b hb
    simp only [decide_eq_true_eq]
    rintro rfl
    exact h hb
  exact ⟨List.takeWhile_eq_self_iff.mpr hall, List.dropWhile_eq_nil_iff.mpr hall⟩

theorem first_mark_unique {c : UInt8} {before before' behind behind' : List UInt8} (h : c ∉ before) (h' : c ∉ before')
    (heq : before ++ c :: behind = before' ++ c :: behind') : before = before' ∧ behind = behind' := by
  obtain ⟨htake, hdrop⟩ := takeWhile_ne c before behind h
  obtain ⟨htake', hdrop'⟩ := takeWhile_ne c before' behind' h'
  rw [heq] at htake hdrop
  exact ⟨htake.symm.trans htake', (List.cons.inj (hdrop.symm.trans hdrop')).2⟩

theorem beforeMarks_append (hpath : 63 ∉ path ∧ 35 ∉ path) {c : UInt8} (hc : c = 63 ∨ c = 35) (behind : List UInt8) :
    beforeMarks (path ++ c :: behind) = path := by
  rw [beforeMarks, List.takeWhile_append_of_pos]
  · rcases hc with rfl | rfl <;> simp
  · intro b hb
    have hquestion : b ≠ 63 := by rintro rfl; exact hpath.1 hb
    have hhash : b ≠ 35 := by rintro rfl; exact hpath.2 hb
    simp [hquestion, hhash]

theorem beforeMarks_self (hpath : 63 ∉ path ∧ 35 ∉ path) : beforeMarks path = path := by
  rw [beforeMarks, List.takeWhile_eq_self_iff]
  intro b hb
  have hquestion : b ≠ 63 := by rintro rfl; exact hpath.1 hb
  have hhash : b ≠ 35 := by rintro rfl; exact hpath.2 hb
  simp [hquestion, hhash]

theorem marksOf_query (hpath : 63 ∉ path) (hhash : 35 ∉ path ++ 63 :: query) :
    marksOf (path ++ 63 :: query) = ⟨path, some query, []⟩ := by
  have hpathHash : 35 ∉ path := fun hmem => hhash (List.mem_append_left _ hmem)
  rw [marksOf, beforeMarks_append ⟨hpath, hpathHash⟩ (.inl rfl), behindHash, (takeWhile_self hhash).2, List.tail_nil,
    queryOf, (takeWhile_self hhash).1]
  rw [if_pos (by simp), (takeWhile_ne 63 path query hpath).2, List.tail_cons]

theorem marksOf_plain (hview : 63 ∉ view) (hhash : 35 ∉ view) : marksOf view = ⟨view, none, []⟩ := by
  rw [marksOf, beforeMarks_self ⟨hview, hhash⟩, behindHash, (takeWhile_self hhash).2, List.tail_nil, queryOf,
    (takeWhile_self hhash).1]
  rw [if_neg hview]

/-- The first hash mark begins the fragment. -/
theorem marksOf_fragment (hview : 35 ∉ view) (fragment : List UInt8) :
    marksOf (view ++ 35 :: fragment) = { marksOf view with fragment } := by
  have hbefore : beforeMarks (view ++ 35 :: fragment) = beforeMarks view := by
    by_cases hquestion : 63 ∈ view
    · obtain ⟨path, query, rfl, hpath⟩ := List.eq_append_cons_of_mem hquestion
      simp only [List.mem_append, List.mem_cons, not_or] at hview
      rw [List.append_assoc, List.cons_append, beforeMarks_append ⟨hpath, hview.1⟩ (.inl rfl),
        beforeMarks_append ⟨hpath, hview.1⟩ (.inl rfl)]
    · rw [beforeMarks_append ⟨hquestion, hview⟩ (.inr rfl), beforeMarks_self ⟨hquestion, hview⟩]
  obtain ⟨htake, hdrop⟩ := takeWhile_ne 35 view fragment hview
  simp only [marksOf, hbefore, queryOf, behindHash, htake, hdrop, (takeWhile_self hview).1, List.tail_cons]

theorem splitUrl_eq_marksOf (hhash : 35 ∉ view) : splitUrl view = marksOf view := by
  by_cases hquestion : 63 ∈ view
  · obtain ⟨path, query, rfl, hpath⟩ := List.eq_append_cons_of_mem hquestion
    rw [splitUrl_query hpath hhash, marksOf_query hpath hhash]
  · rw [splitUrl_plain hquestion hhash, marksOf_plain hquestion hhash]

theorem fragment_splitUrl (hfragment : 35 ∉ fragment) : (splitUrl (view ++ 35 :: fragment)).fragment = fragment := by
  by_cases hquestion : 63 ∈ view
  · obtain ⟨path, query, rfl, hpath⟩ := List.eq_append_cons_of_mem hquestion
    rw [splitUrl_query_fragment hpath hfragment]
  · rw [splitUrl_fragment hquestion hfragment]

end Marks

/-- With a second hash mark the fragment is too short. -/
theorem splitUrl_ne_of_two {view behind : List UInt8} (hview : 35 ∉ view) (hagain : 35 ∈ behind) :
    splitUrl (view ++ 35 :: behind) ≠ marksOf (view ++ 35 :: behind) := by
  intro heq
  obtain ⟨middle, fragment, rfl, hlast⟩ := eq_append_cons_last hagain
  have hwhole : view ++ 35 :: (middle ++ 35 :: fragment) = (view ++ 35 :: middle) ++ 35 :: fragment := by simp
  have hcut : fragment = middle ++ 35 :: fragment := by
    calc fragment = (splitUrl ((view ++ 35 :: middle) ++ 35 :: fragment)).fragment := (fragment_splitUrl hlast).symm
      _ = (marksOf (view ++ 35 :: (middle ++ 35 :: fragment))).fragment := by rw [← hwhole, heq]
      _ = middle ++ 35 :: fragment := by rw [marksOf_fragment hview]
  have hlength := congrArg List.length hcut
  simp at hlength
  omega

/-- Without a question mark the url keeps its fragment. -/
theorem splitUrl_single_iff {view fragment : List UInt8} (hview : 35 ∉ view) (hfragment : 35 ∉ fragment) :
    splitUrl (view ++ 35 :: fragment) = marksOf (view ++ 35 :: fragment) ↔ 63 ∈ view := by
  rw [marksOf_fragment hview]
  by_cases hquestion : 63 ∈ view
  · obtain ⟨path, query, rfl, hpath⟩ := List.eq_append_cons_of_mem hquestion
    exact iff_of_true (by rw [splitUrl_query_fragment hpath hfragment, marksOf_query hpath hview]) hquestion
  · refine iff_of_false ?_ hquestion
    rw [splitUrl_fragment hquestion hfragment, marksOf_plain hquestion hview]
    simp

theorem splitUrl_eq_marksOf_iff (target : List UInt8) :
    splitUrl target = marksOf target ↔ 35 ∉ target ∨
      ∃ view fragment, target = view ++ 35 :: fragment ∧ 35 ∉ view ∧ 35 ∉ fragment ∧ 63 ∈ view := by
  by_cases hhash : 35 ∈ target
  · obtain ⟨view, behind, rfl, hview⟩ := List.eq_append_cons_of_mem hhash
    constructor
    · intro heq
      have honce : 35 ∉ behind := fun hagain => splitUrl_ne_of_two hview hagain heq
      exact .inr ⟨view, behind, rfl, hview, honce, (splitUrl_single_iff hview honce).mp heq⟩
    · rintro (hnone | ⟨view', fragment, heq, hview', hfragment, hquestion⟩)
      · exact absurd hhash hnone
      · obtain ⟨rfl, rfl⟩ := first_mark_unique hview hview' heq
        exact (splitUrl_single_iff hview hfragment).mpr hquestion
  · exact iff_of_true (splitUrl_eq_marksOf hhash) (.inl hhash)

theorem cutAtMarks_iff_marksOf {rawRequest : RawHttpRequest} (hplain : Plain rawRequest.url) :
    CutAtMarks rawRequest ↔ splitUrl rawRequest.url = marksOf rawRequest.url := by
  have hdecode := urlDecode_plain hplain
  have hurl : (ofRaw rawRequest).url = (splitUrl rawRequest.url).url := by rw [ofRaw, hdecode]
  have hfragment : (ofRaw rawRequest).fragment = (splitUrl rawRequest.url).fragment := by rw [ofRaw, hdecode]
  constructor
  · intro h
    rw [marksOf, ← h.url, ← h.fragment, ← h.query, hurl, hfragment, hdecode]
  · intro h
    exact ⟨by rw [hurl, h, marksOf], by rw [hfragment, h, marksOf], by rw [hdecode, h, marksOf]⟩

/-- A target is cut at its marks when it has no hash mark, or a single one that a
question mark precedes. -/
theorem cut_at_marks_iff (rawRequest : RawHttpRequest) (hplain : Plain rawRequest.url) :
    CutAtMarks rawRequest ↔ 35 ∉ rawRequest.url ∨
      ∃ view fragment, rawRequest.url = view ++ 35 :: fragment ∧ 35 ∉ view ∧ 35 ∉ fragment ∧ 63 ∈ view := by
  rw [cutAtMarks_iff_marksOf hplain]
  exact splitUrl_eq_marksOf_iff rawRequest.url

theorem plain_of_letters {url : List UInt8} (hplus : 43 ∉ url) (hpercent : 37 ∉ url) : Plain url := by
  rintro before c rest rfl
  constructor
  · rintro rfl
    exact hplus (by simp)
  · rintro ⟨high, low, behind, -, rfl, -⟩
    exact hpercent (by simp)

theorem cut_at_marks_query : CutAtMarks { url := ascii "/a?b=c#d" } :=
  (cut_at_marks_iff { url := ascii "/a?b=c#d" } (plain_of_letters (by decide) (by decide))).mpr
    (.inr ⟨ascii "/a?b=c", ascii "d", by decide, by decide, by decide, by decide⟩)

/-- A fragment without a query stays in the url. -/
theorem fragment_not_cut : ¬ ∀ rawRequest : RawHttpRequest, Plain rawRequest.url → CutAtMarks rawRequest := by
  intro h
  have hplain : Plain (ascii "/a#d") := plain_of_letters (by decide) (by decide)
  have heq := (cutAtMarks_iff_marksOf hplain).mp (h { url := ascii "/a#d" } hplain)
  have hmarks : splitUrl (ascii "/a" ++ 35 :: ascii "d") = marksOf (ascii "/a" ++ 35 :: ascii "d") := heq
  exact absurd ((splitUrl_single_iff (by decide) (by decide)).mp hmarks) (by decide)

end Libcold.HttpRequest
