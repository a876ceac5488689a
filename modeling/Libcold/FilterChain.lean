import Libcold.Router
import Mathlib.Data.List.Perm.Subperm

namespace Libcold.Router

variable {Servlet Filter : Type}

abbrev FilterRoute (Filter : Type) := List Segment × Filter

/-- The registrations whose filters are run for a URL: each of them matches and is chosen
once, a longer wildcard comes behind a shorter one and an exact pattern behind all of
them, and the order of registration is kept within a pattern. -/
structure IsChain (routes : List (FilterRoute Filter)) (url : List Segment) (chosen : List (FilterRoute Filter)) :
    Prop where
  sound : ∀ r ∈ chosen, Matches r.1 url
  once : chosen.Subperm routes
  ordered : chosen.Pairwise fun r r' => specificity r.1 url ≤ specificity r'.1 url
  inOrder : ∀ pattern, (chosen.filter fun r => r.1 = pattern).Sublist routes

/-- A filter object is registered once, so it is run once. -/
theorem IsChain.nodup {routes chosen : List (FilterRoute Filter)} {url : List Segment} (h : IsChain routes url chosen)
    (hdistinct : (routes.map Prod.snd).Nodup) : (chosen.map Prod.snd).Nodup := by
  obtain ⟨same, hperm, hsub⟩ := h.once
  exact (hperm.map Prod.snd).nodup_iff.mp (hdistinct.sublist (hsub.map Prod.snd))

def registered (routes : List (FilterRoute Filter)) (pattern : List Segment) : List (FilterRoute Filter) :=
  routes.filter fun r => r.1 = pattern

/-- The wildcards of the nodes above the URL, and then the URL itself. -/
def walked (routes : List (FilterRoute Filter)) (url : List Segment) : List (FilterRoute Filter) :=
  ((List.range url.length).flatMap fun n => registered routes (url.take n ++ [wildcard])) ++ registered routes url

theorem getD_entry_cons (t : FilterNode Filter) (part : Segment) (path : List Segment) :
    (Trie.entry (part :: path) t).getD [] =
      match t.children part with
      | none => []
      | some next => (Trie.entry path next).getD [] := by
  cases hc : t.children part with
  | none => simp [Trie.entry, hc]
  | some next => simp [Trie.entry, hc]

theorem matchChain_cons (t : FilterNode Filter) (part : Segment) (url : List Segment) :
    t.matchChain (part :: url) = (Trie.entry [wildcard] t).getD [] ++
      match t.children part with
      | none => []
      | some next => FilterNode.matchChain next url := by
  rw [FilterNode.matchChain, getD_entry_cons]
  cases t.children wildcard <;> rfl

/-- The chain by the entries of the tree. -/
theorem matchChain_eq (t : FilterNode Filter) (url : List Segment) :
    t.matchChain url =
      ((List.range url.length).flatMap fun n => (Trie.entry (url.take n ++ [wildcard]) t).getD []) ++
        (Trie.entry url t).getD [] := by
  induction url generalizing t with
  | nil => simp [FilterNode.matchChain, Trie.entry]
  | cons part url ih =>
      rw [matchChain_cons, List.length_cons, List.range_succ_eq_map, List.flatMap_cons, List.flatMap_map,
        List.take_zero, List.nil_append, List.append_assoc]
      simp only [List.take_succ_cons, List.cons_append, getD_entry_cons t part]
      cases t.children part with
      | none => simp
      | some next => rw [← ih next]

theorem valueAt_pushBack (routes : List (FilterRoute Filter)) (path : List Segment) :
    Trie.valueAt [] FilterNode.pushBack path routes = (registered routes path).map Prod.snd := by
  induction routes using List.reverseRecOn with
  | nil => rfl
  | append_singleton routes r ih =>
      rw [Trie.valueAt_snoc, ih, registered, registered, List.filter_append]
      by_cases hr : r.1 = path
      · simp [hr, FilterNode.pushBack]
      · simp [hr]

theorem getD_entry_build (routes : List (FilterRoute Filter)) (path : List Segment) :
    (Trie.entry path (Trie.build [] FilterNode.pushBack routes)).getD [] = (registered routes path).map Prod.snd := by
  rw [Trie.entry_build, ← valueAt_pushBack]
  split_ifs with h
  · rfl
  · refine (Trie.valueAt_of_not_put _ _ _ _ ?_).symm
    rintro r hr rfl
    exact h (.inr ⟨r, hr, List.prefix_rfl⟩)

theorem matchFilters_eq (registrations : List (Registration Servlet Filter)) (url : List Char) :
    (addRoutes registrations).matchFilters url =
      (walked (registrations.filterMap filterRoute) (segments url)).map Prod.snd := by
  rw [matchFilters, addRoutes_eq, matchChain_eq, walked, List.map_append, List.map_flatMap]
  simp only [getD_entry_build]

variable {routes : List (FilterRoute Filter)} {url : List Segment}

theorem mem_registered {pattern : List Segment} {r : FilterRoute Filter} :
    r ∈ registered routes pattern ↔ r ∈ routes ∧ r.1 = pattern := by
  simp [registered]

theorem take_ne_url {n : Nat} (h : n < url.length) : url.take n ≠ url := by
  intro heq
  have hlength := congrArg List.length heq
  rw [List.length_take] at hlength
  omega

theorem walked_sound : ∀ r ∈ walked routes url, Matches r.1 url := by
  intro r hr
  rcases List.mem_append.mp hr with hr | hr
  · obtain ⟨n, hn, hr⟩ := List.mem_flatMap.mp hr
    exact .inr ⟨url.take n, (mem_registered.mp hr).2, List.take_prefix n url, take_ne_url (List.mem_range.mp hn)⟩
  · exact .inl (mem_registered.mp hr).2

/-- Of lists that are empty but for one, the concatenation is that one. -/
theorem flatMap_range_sublist {α : Type} {f : Nat → List α} {whole : List α} {k m : Nat} (hk : (f k).Sublist whole)
    (hempty : ∀ n < m, n ≠ k → f n = []) : ((List.range m).flatMap f).Sublist whole := by
  induction m with
  | zero => simp
  | succ m ih =>
      rw [List.range_succ, List.flatMap_append, List.flatMap_singleton]
      by_cases hm : m = k
      · subst hm
        have hbefore : (List.range m).flatMap f = [] := by
          rw [List.flatMap_eq_nil_iff]
          intro n hn
          have hlt := List.mem_range.mp hn
          exact hempty n (Nat.lt_succ_of_lt hlt) (Nat.ne_of_lt hlt)
        rw [hbefore, List.nil_append]
        exact hk
      · rw [hempty m (Nat.lt_succ_self m) hm, List.append_nil]
        exact ih fun n hn => hempty n (Nat.lt_succ_of_lt hn)

theorem filter_registered (pattern pattern' : List Segment) :
    (registered routes pattern').filter (fun r => r.1 = pattern) =
      if pattern = pattern' then registered routes pattern else [] := by
  split_ifs with h
  · subst h
    simp [registered]
  · rw [List.filter_eq_nil_iff]
    intro r hr
    rw [(mem_registered.mp hr).2]
    simpa using Ne.symm h

/-- No wildcard pattern is registered that has the segments of the URL. -/
def Separate (routes : List (FilterRoute Filter)) (url : List Segment) : Prop :=
  ∀ r ∈ routes, r.1 = url → r.1.getLast? ≠ some wildcard

theorem registered_separate (h : Separate routes url) {pre : List Segment} (hurl : pre ++ [wildcard] = url) :
    registered routes url = [] := by
  rw [registered, List.filter_eq_nil_iff]
  intro r hr hpattern
  have hpattern : r.1 = url := by simpa using hpattern
  exact h r hr hpattern (by rw [hpattern, ← hurl]; simp)

theorem walked_inOrder (h : Separate routes url) (pattern : List Segment) :
    ((walked routes url).filter fun r => r.1 = pattern).Sublist routes := by
  rw [walked, List.filter_append, List.filter_flatMap]
  simp only [filter_registered]
  by_cases hurl : pattern = url
  · subst hurl
    have hnone : ((List.range pattern.length).flatMap fun n =>
        if pattern = pattern.take n ++ [wildcard] then registered routes pattern else []) = [] := by
      rw [List.flatMap_eq_nil_iff]
      intro n hn
      split_ifs with hpattern
      · exact registered_separate h hpattern.symm
      · rfl
    rw [hnone, if_pos rfl, List.nil_append]
    exact List.filter_sublist
  · rw [if_neg hurl, List.append_nil]
    apply flatMap_range_sublist (k := pattern.length - 1)
    · split_ifs
      · exact List.filter_sublist
      · exact List.nil_sublist routes
    · intro n hn hne
      refine if_neg fun hpattern => hne ?_
      rw [hpattern, List.length_append, List.length_take, List.length_singleton, Nat.min_eq_left (Nat.le_of_lt hn),
        Nat.add_sub_cancel]

theorem walked_ordered (h : Separate routes url) :
    (walked routes url).Pairwise fun r r' => specificity r.1 url ≤ specificity r'.1 url := by
  have hwild : ∀ n ∈ List.range url.length, ∀ r ∈ registered routes (url.take n ++ [wildcard]),
      specificity r.1 url = n + 1 := by
    intro n hn r hr
    obtain ⟨hr, hpattern⟩ := mem_registered.mp hr
    have hne : r.1 ≠ url := fun hurl => h r hr hurl (by rw [hpattern]; simp)
    rw [specificity, if_neg hne, hpattern, List.length_append, List.length_take, List.length_singleton,
      Nat.min_eq_left (Nat.le_of_lt (List.mem_range.mp hn))]
  have hexact : ∀ r ∈ registered routes url, specificity r.1 url = url.length + 1 := by
    intro r hr
    rw [specificity, if_pos (mem_registered.mp hr).2]
  rw [walked, List.pairwise_append, List.pairwise_flatMap]
  refine ⟨⟨fun n hn => ?_, ?_⟩, ?_, ?_⟩
  · apply List.pairwise_of_forall_mem_list
    intro r hr r' hr'
    rw [hwild n hn r hr, hwild n hn r' hr']
  · refine List.pairwise_lt_range.imp_of_mem fun {m n} hm hn hlt r hr r' hr' => ?_
    rw [hwild m hm r hr, hwild n hn r' hr']
    omega
  · apply List.pairwise_of_forall_mem_list
    intro r hr r' hr'
    rw [hexact r hr, hexact r' hr']
  · intro r hr r' hr'
    obtain ⟨n, hn, hr⟩ := List.mem_flatMap.mp hr
    rw [hwild n hn r hr, hexact r' hr']
    have := List.mem_range.mp hn
    omega

/-- A list that keeps the order of the registrations of each pattern has no registration
more often than it was made. -/
theorem subperm_of_inOrder {chosen : List (FilterRoute Filter)}
    (h : ∀ pattern, (chosen.filter fun r => r.1 = pattern).Sublist routes) : chosen.Subperm routes := by
  classical
  rw [List.subperm_ext_iff]
  intro r _
  have hcount := (h r.1).count_le r
  rwa [List.count_filter (by simp)] at hcount

theorem isChain_walked (h : Separate routes url) : IsChain routes url (walked routes url) where
  sound := walked_sound
  once := subperm_of_inOrder (walked_inOrder h)
  ordered := walked_ordered h
  inOrder := walked_inOrder h

theorem registered_sublist_flatMap {pre : List Segment} (hpre : pre <+: url) (hproper : pre ≠ url) :
    (registered routes (pre ++ [wildcard])).Sublist
      ((List.range url.length).flatMap fun n => registered routes (url.take n ++ [wildcard])) := by
  have htake : url.take pre.length = pre := (List.prefix_iff_eq_take.mp hpre).symm
  have hlength : pre.length < url.length :=
    Nat.lt_of_le_of_ne hpre.length_le fun h => hproper (hpre.eq_of_length h)
  have hmem := List.sublist_flatten_of_mem (List.mem_map_of_mem
    (f := fun n => registered routes (url.take n ++ [wildcard])) (List.mem_range.mpr hlength))
  rwa [htake] at hmem

/-- Every registration that matches is walked past. -/
theorem registered_sublist_walked {pattern : List Segment} (h : Matches pattern url) :
    (registered routes pattern).Sublist (walked routes url) := by
  rcases h with rfl | ⟨pre, rfl, hpre, hproper⟩
  · exact List.sublist_append_right _ _
  · exact (registered_sublist_flatMap hpre hproper).trans (List.sublist_append_left _ _)

/-- A registration that matches in both ways is walked past twice. -/
theorem length_lt_walked [DecidablePred fun r : FilterRoute Filter => Matches r.1 url] {r : FilterRoute Filter}
    (hr : r ∈ routes) (hurl : r.1 = url) (hlast : r.1.getLast? = some wildcard) :
    (routes.filter fun r => Matches r.1 url).length < (walked routes url).length := by
  classical
  obtain ⟨pre, hpre⟩ := List.getLast?_eq_some_iff.mp hlast
  rw [hurl] at hpre
  have hbefore : (registered routes (pre ++ [wildcard])).Sublist
      ((List.range url.length).flatMap fun n => registered routes (url.take n ++ [wildcard])) :=
    registered_sublist_flatMap (by rw [hpre]; exact List.prefix_append _ _) (by rw [hpre]; simp)
  rw [← hpre] at hbefore
  have htwice : (registered routes url ++ registered routes url).Sublist (walked routes url) :=
    hbefore.append (List.Sublist.refl _)
  have hsub : (r :: routes.filter fun r => Matches r.1 url).Subperm (walked routes url) := by
    rw [List.subperm_ext_iff]
    intro x hx
    have hfilter : (routes.filter fun r => Matches r.1 url).count x ≤ routes.count x := List.filter_sublist.count_le x
    have hregistered : (registered routes x.1).count x = routes.count x := List.count_filter (by simp)
    by_cases hexact : x.1 = url
    · have hcount := htwice.count_le x
      rw [hexact] at hregistered
      rw [List.count_append, hregistered] at hcount
      have hmem : x ∈ routes := by
        rcases List.mem_cons.mp hx with rfl | hx
        · exact hr
        · exact (List.mem_filter.mp hx).1
      have hpos := List.count_pos_iff.mpr hmem
      have hcons : (r :: routes.filter fun r => Matches r.1 url).count x ≤
          (routes.filter fun r => Matches r.1 url).count x + 1 := by
        rw [List.count_cons]
        split_ifs <;> omega
      omega
    · have hne : r ≠ x := by
        rintro rfl
        exact hexact hurl
      have hmatch : Matches x.1 url := by
        rcases List.mem_cons.mp hx with rfl | hx
        · exact absurd rfl hne
        · exact of_decide_eq_true (List.mem_filter.mp hx).2
      have hwalked : (registered routes x.1).Sublist (walked routes url) := registered_sublist_walked hmatch
      have hcount := hwalked.count_le x
      rw [List.count_cons_of_ne hne]
      omega
  exact hsub.length_le

/-- The filters that are run are a chain unless a wildcard pattern has the segments of the
URL. -/
theorem matchFilters_isChain_iff (registrations : List (Registration Servlet Filter)) (url : List Char) :
    (∃ chosen, IsChain (registrations.filterMap filterRoute) (segments url) chosen ∧
      (addRoutes registrations).matchFilters url = chosen.map Prod.snd) ↔
      Separate (registrations.filterMap filterRoute) (segments url) := by
  classical
  rw [matchFilters_eq]
  constructor
  · rintro ⟨chosen, hchain, heq⟩ r hr hurl hlast
    have hlength := congrArg List.length heq
    rw [List.length_map, List.length_map] at hlength
    have hmore := length_lt_walked hr hurl hlast
    have hall : (chosen.filter fun r => Matches r.1 (segments url)) = chosen := by
      rw [List.filter_eq_self]
      exact fun r hr => decide_eq_true (hchain.sound r hr)
    have hless := (hchain.once.filter fun r => Matches r.1 (segments url)).length_le
    rw [hall] at hless
    omega
  · exact fun h => ⟨_, isChain_walked h, rfl⟩

/-- A filter for everything below a path, and a URL that spells its pattern. -/
theorem filter_runs_twice :
    let registrations : List (Registration Empty Nat) := [.filter "/a/**".toList 1]
    ¬ ∃ chosen, IsChain (registrations.filterMap filterRoute) (segments "/a/**".toList) chosen ∧
      (addRoutes registrations).matchFilters "/a/**".toList = chosen.map Prod.snd := by
  rintro registrations ⟨chosen, hchain, heq⟩
  have hlength := congrArg List.length heq
  have htwo : ((addRoutes registrations).matchFilters "/a/**".toList).length = 2 := by decide
  rw [htwo, List.length_map] at hlength
  have hone := hchain.once.length_le
  rw [← hlength] at hone
  exact absurd hone (by decide)

end Libcold.Router
