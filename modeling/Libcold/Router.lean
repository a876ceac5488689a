import Libcold.Trie

namespace Libcold

/-- `SplitToViews` for a delimiter of one character; `view` is what was passed
since the last one. -/
def splitFrom (delim : Char) (skipEmpty : Bool) (view : List Char) : List Char → List (List Char)
  | [] => if skipEmpty && view.isEmpty then [] else [view]
  | c :: cs =>
      if c = delim then
        if skipEmpty && view.isEmpty then splitFrom delim skipEmpty [] cs
        else view :: splitFrom delim skipEmpty [] cs
      else splitFrom delim skipEmpty (view ++ [c]) cs

def splitToViews (str : List Char) (delim : Char) (skipEmpty : Bool) : List (List Char) :=
  if str.isEmpty then [] else splitFrom delim skipEmpty [] str

abbrev Segment := List Char

def wildcard : Segment := ['*', '*']

def segments (url : List Char) : List Segment := splitToViews url '/' true

/-- `Router::ServletNode`. -/
abbrev ServletNode (Servlet : Type) := Trie Segment (Option Servlet)

/-- `Router::FilterNode`. -/
abbrev FilterNode (Filter : Type) := Trie Segment (List Filter)

variable {Servlet Filter : Type}

namespace ServletNode

def setParam (servlet : Servlet) (_ : Option Servlet) : Option Servlet := some servlet

def insert (root : ServletNode Servlet) (url : List Char) (servlet : Servlet) : ServletNode Servlet :=
  root.modify none (setParam servlet) (segments url)

/-- The loop of `TryMatch` over the rest of the parts, at the node reached. -/
def tryMatch (last : ServletNode Servlet) : List Segment → Option Servlet
  | [] => last.value
  | part :: parts =>
      match last.children part with
      | none =>
          match last.children wildcard with
          | none => none
          | some it => it.value
      | some next => tryMatch next parts

end ServletNode

namespace FilterNode

def pushBack (filter : Filter) (params : List Filter) : List Filter := params ++ [filter]

def insert (root : FilterNode Filter) (url : List Char) (filter : Filter) : FilterNode Filter :=
  root.modify [] (pushBack filter) (segments url)

/-- The loop of `MatchChain` over the rest of the parts, at the node reached. -/
def matchChain (last : FilterNode Filter) : List Segment → List Filter
  | [] => last.value
  | part :: parts =>
      (match last.children wildcard with
        | none => []
        | some it => it.value) ++
      match last.children part with
      | none => []
      | some next => matchChain next parts

end FilterNode

/-- `Router`. -/
structure Router (Servlet Filter : Type) where
  servletRouterRoot : ServletNode Servlet := .leaf none
  filterRouterRoot : FilterNode Filter := .leaf []

namespace Router

def addServlet (router : Router Servlet Filter) (url : List Char) (servlet : Servlet) : Router Servlet Filter :=
  { router with servletRouterRoot := router.servletRouterRoot.insert url servlet }

def addFilter (router : Router Servlet Filter) (url : List Char) (filter : Filter) : Router Servlet Filter :=
  { router with filterRouterRoot := router.filterRouterRoot.insert url filter }

def matchServlet (router : Router Servlet Filter) (url : List Char) : Option Servlet :=
  router.servletRouterRoot.tryMatch (segments url)

def matchFilters (router : Router Servlet Filter) (url : List Char) : List Filter :=
  router.filterRouterRoot.matchChain (segments url)

inductive Registration (Servlet Filter : Type)
  | servlet (url : List Char) (servlet : Servlet)
  | filter (url : List Char) (filter : Filter)

def addRoute (router : Router Servlet Filter) : Registration Servlet Filter → Router Servlet Filter
  | .servlet url servlet => router.addServlet url servlet
  | .filter url filter => router.addFilter url filter

def addRoutes (registrations : List (Registration Servlet Filter)) : Router Servlet Filter :=
  registrations.foldl addRoute {}

def servletRoute : Registration Servlet Filter → Option (List Segment × Servlet)
  | .servlet url servlet => some (segments url, servlet)
  | .filter _ _ => none

def filterRoute : Registration Servlet Filter → Option (List Segment × Filter)
  | .servlet _ _ => none
  | .filter url filter => some (segments url, filter)

def Matches (pattern url : List Segment) : Prop :=
  pattern = url ∨ ∃ pre, pattern = pre ++ [wildcard] ∧ pre <+: url ∧ pre ≠ url

/-- An exact match counts more than any wildcard, a longer wildcard more than a
shorter one. -/
def specificity (pattern url : List Segment) : Nat := if pattern = url then url.length + 1 else pattern.length

/-- The servlet registered last under the most specific pattern that matches. -/
def IsRoute (routes : List (List Segment × Servlet)) (url : List Segment) : Option Servlet → Prop
  | none => ∀ r ∈ routes, ¬ Matches r.1 url
  | some servlet => ∃ before pattern after, routes = before ++ (pattern, servlet) :: after ∧ Matches pattern url ∧
      (∀ r ∈ after, r.1 ≠ pattern) ∧ ∀ r ∈ routes, Matches r.1 url → specificity r.1 url ≤ specificity pattern url

def Begins (routes : List (List Segment × Servlet)) (path : List Segment) : Prop :=
  path = [] ∨ ∃ r ∈ routes, path <+: r.1

/-- As much of the URL as is also the beginning of a pattern. -/
structure Deepest (routes : List (List Segment × Servlet)) (url path : List Segment) : Prop where
  isPrefix : path <+: url
  begins : Begins routes path
  longest : ∀ other, other <+: url → Begins routes other → other <+: path

/-- A pattern is registered for the place where the walk along the URL ends. -/
def Reached (routes : List (List Segment × Servlet)) (url : List Segment) : Prop :=
  ∃ path, Deepest routes url path ∧
    (path = url ∧ (∃ r ∈ routes, r.1 = url) ∨ path ≠ url ∧ ∃ r ∈ routes, r.1 = path ++ [wildcard])

theorem addRoutes_eq (registrations : List (Registration Servlet Filter)) :
    addRoutes registrations =
      ⟨.build none ServletNode.setParam (registrations.filterMap servletRoute),
        .build [] FilterNode.pushBack (registrations.filterMap filterRoute)⟩ := by
  induction registrations using List.reverseRecOn with
  | nil => rfl
  | append_singleton registrations r ih =>
      have hsnoc : addRoutes (registrations ++ [r]) = (addRoutes registrations).addRoute r := by
        simp [addRoutes]
      rw [hsnoc, ih]
      cases r with
      | servlet url servlet =>
          simp [addRoute, addServlet, ServletNode.insert, Trie.build, List.filterMap_cons, servletRoute, filterRoute]
      | filter url filter =>
          simp [addRoute, addFilter, FilterNode.insert, Trie.build, List.filterMap_cons, servletRoute, filterRoute]

theorem Deepest.unique {routes : List (List Segment × Servlet)} {url path other : List Segment}
    (h : Deepest routes url path) (hother : Deepest routes url other) : other = path :=
  (h.longest other hother.isPrefix hother.begins).eq_of_length_le
    (hother.longest path h.isPrefix h.begins).length_le

/-- The value of a node is the servlet registered last for it. -/
theorem registered_of_valueAt {routes : List (List Segment × Servlet)} {path : List Segment} {servlet : Servlet}
    (h : Trie.valueAt none ServletNode.setParam path routes = some servlet) :
    ∃ before after, routes = before ++ (path, servlet) :: after ∧ ∀ r ∈ after, r.1 ≠ path := by
  induction routes using List.reverseRecOn with
  | nil => simp [Trie.valueAt] at h
  | append_singleton routes r ih =>
      rw [Trie.valueAt_snoc] at h
      split_ifs at h with hpath
      · obtain rfl := Option.some.inj h
        exact ⟨routes, [], by rw [← hpath], by simp⟩
      · obtain ⟨before, after, rfl, hafter⟩ := ih h
        refine ⟨before, after ++ [r], by simp, ?_⟩
        intro q hq
        rcases List.mem_append.mp hq with hq | hq
        · exact hafter q hq
        · obtain rfl := List.mem_singleton.mp hq
          exact hpath

theorem valueAt_isSome_iff (routes : List (List Segment × Servlet)) (path : List Segment) :
    (Trie.valueAt none ServletNode.setParam path routes).isSome ↔ ∃ r ∈ routes, r.1 = path := by
  induction routes using List.reverseRecOn with
  | nil => simp [Trie.valueAt]
  | append_singleton routes r ih =>
      rw [Trie.valueAt_snoc]
      split_ifs with hpath
      · exact ⟨fun _ => ⟨r, by simp, hpath⟩, fun _ => rfl⟩
      · rw [ih]
        simp [or_and_right, exists_or, hpath]

theorem tryMatch_append (t s : ServletNode Servlet) (walked rest : List Segment)
    (h : Trie.subtrie walked t = some s) : t.tryMatch (walked ++ rest) = s.tryMatch rest := by
  induction walked generalizing t with
  | nil => cases h; rfl
  | cons part walked ih =>
      cases hc : t.children part with
      | none => simp [hc] at h
      | some next =>
          simp only [Trie.subtrie_cons, hc, Option.bind_some] at h
          simp only [List.cons_append, ServletNode.tryMatch, hc]
          exact ih next h

/-- The walk stops at the deepest node, and answers with what is registered for
the URL or for everything below that node. -/
theorem tryMatch_build (routes : List (List Segment × Servlet)) (url : List Segment) :
    ∃ path, Deepest routes url path ∧
      ServletNode.tryMatch (Trie.build none ServletNode.setParam routes) url =
        Trie.valueAt none ServletNode.setParam (if path = url then url else path ++ [wildcard]) routes := by
  obtain ⟨path, rest, s, rfl, hs, hstop⟩ :=
    Trie.exists_stop (Trie.build none ServletNode.setParam routes) url
  have hbegins : Begins routes path := (Trie.isSome_subtrie_build _ _ _ _).mp (by rw [hs]; rfl)
  refine ⟨path, ⟨List.prefix_append path rest, hbegins, ?_⟩, ?_⟩
  · intro other hother hfound
    rcases List.prefix_or_prefix_of_prefix hother (List.prefix_append path rest) with h | ⟨more, rfl⟩
    · exact h
    · cases more with
      | nil => simp
      | cons k more =>
          -- there is no edge where the walk stopped
          obtain ⟨later, rfl⟩ : ∃ later, rest = k :: later := by
            rw [List.prefix_append_right_inj] at hother
            obtain ⟨later, rfl⟩ := hother
            exact ⟨more ++ later, rfl⟩
          have hedge : (Trie.subtrie (path ++ [k]) (Trie.build none ServletNode.setParam routes)).isSome := by
            refine (Trie.isSome_subtrie_build _ _ _ _).mpr (.inr ?_)
            rcases hfound with hempty | ⟨r, hr, hbegin⟩
            · simp at hempty
            · exact ⟨r, hr, List.IsPrefix.trans ⟨more, by simp⟩ hbegin⟩
          rw [Trie.subtrie_snoc hs, hstop k later rfl] at hedge
          cases hedge
  · rw [tryMatch_append _ s path rest hs]
    cases rest with
    | nil => simpa [ServletNode.tryMatch] using Trie.value_of_subtrie_build hs
    | cons k later =>
        rw [if_neg (by simp), ServletNode.tryMatch, hstop k later rfl]
        cases hwild : s.children wildcard with
        | none =>
            have hnone : Trie.subtrie (path ++ [wildcard]) (Trie.build none ServletNode.setParam routes) = none := by
              rw [Trie.subtrie_snoc hs, hwild]
            refine (Trie.valueAt_of_not_put _ _ _ _ ?_).symm
            intro r hr hpattern
            have hsome := (Trie.isSome_subtrie_build none ServletNode.setParam routes (path ++ [wildcard])).mpr
              (.inr ⟨r, hr, by rw [hpattern]⟩)
            rw [hnone] at hsome
            cases hsome
        | some it =>
            have hit : Trie.subtrie (path ++ [wildcard]) (Trie.build none ServletNode.setParam routes) = some it := by
              rw [Trie.subtrie_snoc hs, hwild]
            exact Trie.value_of_subtrie_build hit

/-- No pattern that matches is more specific than the one looked up. -/
theorem specificity_le {routes : List (List Segment × Servlet)} {url path : List Segment}
    (h : Deepest routes url path) {r : List Segment × Servlet} (hr : r ∈ routes) (hmatch : Matches r.1 url) :
    specificity r.1 url ≤ specificity (if path = url then url else path ++ [wildcard]) url := by
  have hlength := h.isPrefix.length_le
  have hlow : path.length + 1 ≤ specificity (if path = url then url else path ++ [wildcard]) url := by
    by_cases hpath : path = url
    · rw [if_pos hpath, specificity, if_pos rfl]
      omega
    · rw [if_neg hpath, specificity]
      split_ifs
      · omega
      · simp
  by_cases hexact : r.1 = url
  · have hurl : url <+: path := h.longest url List.prefix_rfl (.inr ⟨r, hr, by rw [hexact]⟩)
    rw [if_pos (h.isPrefix.eq_of_length_le hurl.length_le), hexact]
  · obtain ⟨pre, hpattern, hpre, -⟩ := hmatch.resolve_left hexact
    have hshorter : pre <+: path := h.longest pre hpre (.inr ⟨r, hr, by rw [hpattern]; exact List.prefix_append pre _⟩)
    have hpattern_length : specificity r.1 url = pre.length + 1 := by
      rw [specificity, if_neg hexact, hpattern, List.length_append, List.length_singleton]
    have := hshorter.length_le
    omega

/-- What the walk looks up matches the URL. -/
theorem matches_lookup {url path : List Segment} (h : path <+: url) :
    Matches (if path = url then url else path ++ [wildcard]) url := by
  split_ifs with hpath
  · exact .inl rfl
  · exact .inr ⟨path, rfl, h, hpath⟩

theorem matchServlet_isRoute_iff (registrations : List (Registration Servlet Filter)) (url : List Char) :
    IsRoute (registrations.filterMap servletRoute) (segments url) ((addRoutes registrations).matchServlet url) ↔
      (∀ r ∈ registrations.filterMap servletRoute, ¬ Matches r.1 (segments url)) ∨
        Reached (registrations.filterMap servletRoute) (segments url) := by
  generalize hroutes : registrations.filterMap servletRoute = routes
  obtain ⟨path, hdeepest, hmatch⟩ := tryMatch_build routes (segments url)
  have hresult : (addRoutes registrations).matchServlet url =
      Trie.valueAt none ServletNode.setParam
        (if path = segments url then segments url else path ++ [wildcard]) routes := by
    rw [matchServlet, addRoutes_eq, hroutes, hmatch]
  have hreached : Reached routes (segments url) ↔
      ∃ r ∈ routes, r.1 = if path = segments url then segments url else path ++ [wildcard] := by
    constructor
    · rintro ⟨other, hother, h⟩
      obtain rfl := hdeepest.unique hother
      rcases h with ⟨hpath, h⟩ | ⟨hpath, h⟩
      · rwa [if_pos hpath]
      · rwa [if_neg hpath]
    · intro h
      refine ⟨path, hdeepest, ?_⟩
      by_cases hpath : path = segments url
      · rw [if_pos hpath] at h
        exact .inl ⟨hpath, h⟩
      · rw [if_neg hpath] at h
        exact .inr ⟨hpath, h⟩
  rw [hresult, hreached, ← valueAt_isSome_iff]
  cases hvalue : Trie.valueAt none ServletNode.setParam
    (if path = segments url then segments url else path ++ [wildcard]) routes with
  | none => simp [IsRoute]
  | some servlet =>
      refine ⟨fun _ => .inr rfl, fun _ => ?_⟩
      obtain ⟨before, after, hlast, hafter⟩ := registered_of_valueAt hvalue
      exact ⟨before, _, after, hlast, matches_lookup hdeepest.isPrefix, hafter,
        fun r hr hr' => specificity_le hdeepest hr hr'⟩

/-- A pattern that shares the first segments of the URL hides the wildcard. -/
theorem matchServlet_not_route :
    let registrations : List (Registration Nat Empty) := [.servlet "/a/**".toList 1, .servlet "/a/b/c".toList 2]
    ¬ IsRoute (registrations.filterMap servletRoute) (segments "/a/b/d".toList)
      ((addRoutes registrations).matchServlet "/a/b/d".toList) := by
  intro registrations
  have hnone : (addRoutes registrations).matchServlet "/a/b/d".toList = none := by decide
  have hmatch : Matches (segments "/a/**".toList) (segments "/a/b/d".toList) :=
    .inr ⟨[['a']], by decide, by decide, by decide⟩
  rw [hnone]
  intro h
  exact h (segments "/a/**".toList, 1) (by decide) hmatch

end Router

end Libcold
