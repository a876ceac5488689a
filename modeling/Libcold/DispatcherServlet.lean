import Libcold.Router

namespace Libcold.DispatcherServlet

open Router

variable {Servlet Filter World : Type}

/-- The calls that a dispatch makes, in order. -/
inductive DispatchCall (Servlet Filter : Type)
  | doFilter (filter : Filter) (result : Bool)
  | handle (servlet : Servlet)

/-- What filters and servlets do to the request, the response and the rest. -/
structure Behaviour (Servlet Filter World : Type) where
  doFilter : Filter → World → Bool × World
  handle : Servlet → World → World

/-- The loop over the filters, which ends when one of them returns false. -/
def runFilters (behaviour : Behaviour Servlet Filter World) :
    List Filter → World → Bool × World × List (DispatchCall Servlet Filter)
  | [], w => (true, w, [])
  | filter :: filters, w =>
      match behaviour.doFilter filter w with
      | (false, w) => (false, w, [.doFilter filter false])
      | (true, w) =>
          let (passed, w, calls) := runFilters behaviour filters w
          (passed, w, .doFilter filter true :: calls)

/-- `DefaultDispatcherServlet::DoDispathcer`. -/
def doDispathcer (behaviour : Behaviour Servlet Filter World) (router : Router Servlet Filter) (url : List Char)
    (w : World) : Bool × World × List (DispatchCall Servlet Filter) :=
  match runFilters behaviour (router.matchFilters url) w with
  | (false, w, calls) => (true, w, calls)
  | (true, w, calls) =>
      match router.matchServlet url with
      | none => (false, w, calls)
      | some servlet => (true, behaviour.handle servlet w, calls ++ [.handle servlet])

theorem runFilters_calls (behaviour : Behaviour Servlet Filter World) (filters : List Filter) (w : World) :
    (∀ servlet, .handle servlet ∉ (runFilters behaviour filters w).2.2) ∧
      ((runFilters behaviour filters w).1 = true →
        (runFilters behaviour filters w).2.2 = filters.map fun filter => .doFilter filter true) ∧
      ((runFilters behaviour filters w).1 = false ↔
        ∃ filter, .doFilter filter false ∈ (runFilters behaviour filters w).2.2) := by
  induction filters generalizing w with
  | nil => simp [runFilters]
  | cons filter filters ih =>
      obtain ⟨hhandle, hpassed, hfailed⟩ := ih (behaviour.doFilter filter w).2
      rcases hresult : behaviour.doFilter filter w with ⟨_ | _, w'⟩
      · simp [runFilters, hresult]
      · rw [hresult] at hhandle hpassed hfailed
        refine ⟨?_, ?_, ?_⟩
        · simpa [runFilters, hresult] using hhandle
        · simpa [runFilters, hresult] using hpassed
        · simpa [runFilters, hresult] using hfailed

/-- The filters put on a path are all in the node at its end. -/
theorem mem_valueAt {puts : List (List Segment × Filter)} {path : List Segment} {filter : Filter}
    (h : (path, filter) ∈ puts) : filter ∈ Trie.valueAt [] FilterNode.pushBack path puts := by
  induction puts using List.reverseRecOn with
  | nil => cases h
  | append_singleton puts p ih =>
      rw [Trie.valueAt_snoc]
      rcases List.mem_append.mp h with h | h
      · split_ifs
        · exact List.mem_append_left _ (ih h)
        · exact ih h
      · obtain rfl := List.mem_singleton.mp h
        rw [if_pos rfl]
        exact List.mem_append_right _ (List.mem_singleton.mpr rfl)

theorem mem_matchChain_end {t s : FilterNode Filter} {path : List Segment} {filter : Filter}
    (h : Trie.subtrie path t = some s) (hfilter : filter ∈ s.value) : filter ∈ t.matchChain path := by
  induction path generalizing t with
  | nil => cases h; exact hfilter
  | cons part path ih =>
      cases hc : t.children part with
      | none => simp [hc] at h
      | some next =>
          simp only [Trie.subtrie_cons, hc, Option.bind_some] at h
          simp only [FilterNode.matchChain, hc]
          exact List.mem_append_right _ (ih h)

/-- The walk passes every node above the URL, and looks at its wildcard. -/
theorem mem_matchChain_wildcard {t it : FilterNode Filter} {pre url : List Segment} {filter : Filter}
    (h : Trie.subtrie (pre ++ [wildcard]) t = some it) (hfilter : filter ∈ it.value) (hpre : pre <+: url)
    (hproper : pre ≠ url) : filter ∈ t.matchChain url := by
  induction pre generalizing t url with
  | nil =>
      cases url with
      | nil => exact absurd rfl hproper
      | cons part url =>
          simp only [List.nil_append, Trie.subtrie_cons, Option.bind_eq_some_iff] at h
          obtain ⟨child, hchild, hit⟩ := h
          cases hit
          simp only [FilterNode.matchChain, hchild]
          exact List.mem_append_left _ hfilter
  | cons part pre ih =>
      obtain ⟨rest, rfl⟩ := hpre
      simp only [List.cons_append, Trie.subtrie_cons, Option.bind_eq_some_iff] at h
      obtain ⟨next, hnext, hit⟩ := h
      simp only [List.cons_append, FilterNode.matchChain, hnext]
      exact List.mem_append_right _ (ih hit (List.prefix_append pre rest) fun heq => hproper (by simp [← heq]))

theorem mem_matchFilters (registrations : List (Registration Servlet Filter)) (url : List Char)
    {r : List Segment × Filter} (hr : r ∈ registrations.filterMap filterRoute) (hmatch : Matches r.1 (segments url)) :
    r.2 ∈ (addRoutes registrations).matchFilters url := by
  obtain ⟨pattern, filter⟩ := r
  rw [matchFilters, addRoutes_eq]
  have hsome := (Trie.isSome_subtrie_build [] FilterNode.pushBack (registrations.filterMap filterRoute) pattern).mpr
    (.inr ⟨_, hr, List.prefix_rfl⟩)
  obtain ⟨it, hit⟩ := Option.isSome_iff_exists.mp hsome
  have hfilter : filter ∈ it.value := by
    rw [Trie.value_of_subtrie_build hit]
    exact mem_valueAt hr
  rcases hmatch with rfl | ⟨pre, rfl, hpre, hproper⟩
  · exact mem_matchChain_end hit hfilter
  · exact mem_matchChain_wildcard hit hfilter hpre hproper

/-- No servlet is called before all filters that match have returned true, and
none after one has returned false. -/
theorem filters_not_bypassed (behaviour : Behaviour Servlet Filter World)
    (registrations : List (Registration Servlet Filter)) (url : List Char) (w : World) :
    (∀ before servlet after,
        (doDispathcer behaviour (addRoutes registrations) url w).2.2 = before ++ .handle servlet :: after →
        ∀ r ∈ registrations.filterMap filterRoute, Matches r.1 (segments url) → .doFilter r.2 true ∈ before) ∧
      ((∃ filter, .doFilter filter false ∈ (doDispathcer behaviour (addRoutes registrations) url w).2.2) →
        (∀ servlet, .handle servlet ∉ (doDispathcer behaviour (addRoutes registrations) url w).2.2) ∧
          (doDispathcer behaviour (addRoutes registrations) url w).1 = true) := by
  obtain ⟨hhandle, hpassed, hfailed⟩ := runFilters_calls behaviour ((addRoutes registrations).matchFilters url) w
  rcases hrun : runFilters behaviour ((addRoutes registrations).matchFilters url) w with ⟨_ | _, w', calls⟩
  · rw [hrun] at hhandle
    refine ⟨?_, fun _ => ?_⟩
    · intro before servlet after hcalls
      simp only [doDispathcer, hrun] at hcalls
      exact absurd (by rw [hcalls]; simp) (hhandle servlet)
    · simpa [doDispathcer, hrun] using hhandle
  · rw [hrun] at hhandle hpassed hfailed
    have hcalls := hpassed rfl
    have hnone : ∀ filter, .doFilter filter false ∉ calls := by
      intro filter hfilter
      exact absurd (hfailed.mpr ⟨filter, hfilter⟩) (by simp)
    cases hmatch : (addRoutes registrations).matchServlet url with
    | none =>
        refine ⟨?_, ?_⟩
        · intro before servlet after h
          simp only [doDispathcer, hrun, hmatch] at h
          exact absurd (by rw [h]; simp) (hhandle servlet)
        · rintro ⟨filter, hfilter⟩
          simp only [doDispathcer, hrun, hmatch] at hfilter
          exact absurd hfilter (hnone filter)
    | some found =>
        refine ⟨?_, ?_⟩
        · intro before servlet after h r hr hr'
          simp only [doDispathcer, hrun, hmatch] at h
          obtain ⟨rfl, -, -⟩ := (List.append_cons_inj_of_notMem (hhandle servlet) (by simp)).mp h
          simp only at hcalls
          rw [hcalls]
          exact List.mem_map_of_mem (mem_matchFilters registrations url hr hr')
        · rintro ⟨filter, hfilter⟩
          simp only [doDispathcer, hrun, hmatch, List.mem_append, List.mem_singleton, reduceCtorEq, or_false] at hfilter
          exact absurd hfilter (hnone filter)

end Libcold.DispatcherServlet
