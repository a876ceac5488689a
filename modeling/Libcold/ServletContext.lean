import Libcold.DispatcherServlet

namespace Libcold.ServletContext

open Router DispatcherServlet

variable {Servlet Filter World : Type}

def rootUrl : List Char := ['/']

def indexUrl : List Char := "/index.html".toList

/-- `ServletContext::ForwardTo`, with the calls that it makes. -/
def forwardTo (behaviour : Behaviour Servlet Filter World) (defaultServlet : Servlet) (router : Router Servlet Filter)
    (url : List Char) (w : World) : World × List (DispatchCall Servlet Filter) :=
  match doDispathcer behaviour router url w with
  | (true, w, calls) => (w, calls)
  | (false, w, calls) =>
      if url = rootUrl then
        match doDispathcer behaviour router indexUrl w with
        | (true, w, more) => (w, calls ++ more)
        | (false, w, more) => (behaviour.handle defaultServlet w, calls ++ more ++ [.handle defaultServlet])
      else (behaviour.handle defaultServlet w, calls ++ [.handle defaultServlet])

/-- The URLs that are looked up. -/
def tried (router : Router Servlet Filter) (url : List Char) : List (List Char) :=
  if url = rootUrl ∧ (router.matchServlet url).isNone then [url, indexUrl] else [url]

/-- The filters of one URL and then those of the other. -/
def chain (router : Router Servlet Filter) (url : List Char) : List Filter :=
  (tried router url).flatMap router.matchFilters

def target (defaultServlet : Servlet) (router : Router Servlet Filter) (url : List Char) : Servlet :=
  ((tried router url).findSome? router.matchServlet).getD defaultServlet

/-- One chain of filters before one servlet. -/
def serve (behaviour : Behaviour Servlet Filter World) (filters : List Filter) (servlet : Servlet) (w : World) :
    World × List (DispatchCall Servlet Filter) :=
  match runFilters behaviour filters w with
  | (false, w, calls) => (w, calls)
  | (true, w, calls) => (behaviour.handle servlet w, calls ++ [.handle servlet])

theorem runFilters_append (behaviour : Behaviour Servlet Filter World) (filters more : List Filter) (w : World) :
    runFilters behaviour (filters ++ more) w =
      match runFilters behaviour filters w with
      | (false, w, calls) => (false, w, calls)
      | (true, w, calls) =>
          ((runFilters behaviour more w).1, (runFilters behaviour more w).2.1,
            calls ++ (runFilters behaviour more w).2.2) := by
  induction filters generalizing w with
  | nil => rfl
  | cons filter filters ih =>
      rcases hresult : behaviour.doFilter filter w with ⟨_ | _, w'⟩
      · simp [runFilters, hresult]
      · rcases hrun : runFilters behaviour filters w' with ⟨_ | _, w'', calls⟩
        · simp [runFilters, hresult, ih, hrun]
        · simp [runFilters, hresult, ih, hrun]

/-- Two dispatches come to one chain of filters and one servlet. -/
theorem forwardTo_eq (behaviour : Behaviour Servlet Filter World) (defaultServlet : Servlet)
    (router : Router Servlet Filter) (url : List Char) (w : World) :
    forwardTo behaviour defaultServlet router url w =
      serve behaviour (chain router url) (target defaultServlet router url) w := by
  rcases hfirst : runFilters behaviour (router.matchFilters url) w with ⟨_ | _, w', calls⟩
  · have hchain : ∃ more, chain router url = router.matchFilters url ++ more := by
      unfold chain tried
      split_ifs
      · exact ⟨router.matchFilters indexUrl, by simp⟩
      · exact ⟨[], by simp⟩
    obtain ⟨more, hmore⟩ := hchain
    simp [forwardTo, doDispathcer, serve, hfirst, hmore, runFilters_append]
  · cases hservlet : router.matchServlet url with
    | some servlet =>
        have htried : tried router url = [url] := by simp [tried, hservlet]
        simp [forwardTo, doDispathcer, serve, hfirst, hservlet, chain, target, htried]
    | none =>
        by_cases hroot : url = rootUrl
        · subst hroot
          have htried : tried router rootUrl = [rootUrl, indexUrl] := by simp [tried, hservlet]
          have hchain : chain router rootUrl = router.matchFilters rootUrl ++ router.matchFilters indexUrl := by
            simp [chain, htried]
          rcases hsecond : runFilters behaviour (router.matchFilters indexUrl) w' with ⟨_ | _, w'', more⟩
          · simp [forwardTo, doDispathcer, serve, hfirst, hservlet, hsecond, hchain, runFilters_append]
          · cases hindex : router.matchServlet indexUrl with
            | some servlet =>
                have htarget : target defaultServlet router rootUrl = servlet := by
                  simp [target, htried, hservlet, hindex]
                simp [forwardTo, doDispathcer, serve, hfirst, hservlet, hsecond, hindex, hchain, htarget,
                  runFilters_append]
            | none =>
                have htarget : target defaultServlet router rootUrl = defaultServlet := by
                  simp [target, htried, hservlet, hindex]
                simp [forwardTo, doDispathcer, serve, hfirst, hservlet, hsecond, hindex, hchain, htarget,
                  runFilters_append]
        · have htried : tried router url = [url] := by simp [tried, hroot]
          simp [forwardTo, doDispathcer, serve, hfirst, hservlet, hroot, chain, target, htried]

/-- A run of filters lets through or stops at the first that refuses. -/
theorem runFilters_stops (behaviour : Behaviour Servlet Filter World) (filters : List Filter) (w : World)
    (h : (runFilters behaviour filters w).1 = false) : ∃ before filter after, filters = before ++ filter :: after ∧
      (runFilters behaviour filters w).2.2 = before.map (fun f => .doFilter f true) ++ [.doFilter filter false] := by
  induction filters generalizing w with
  | nil => cases h
  | cons filter filters ih =>
      rcases hresult : behaviour.doFilter filter w with ⟨_ | _, w'⟩
      · exact ⟨[], filter, filters, rfl, by simp [runFilters, hresult]⟩
      · have hlater : (runFilters behaviour filters w').1 = false := by simpa [runFilters, hresult] using h
        obtain ⟨before, stop, after, rfl, hcalls⟩ := ih w' hlater
        exact ⟨filter :: before, stop, after, rfl, by simp [runFilters, hresult, hcalls]⟩

theorem isRoute_of_matchServlet {registrations : List (Registration Servlet Filter)} {url : List Char}
    {servlet : Servlet} (h : (addRoutes registrations).matchServlet url = some servlet) :
    IsRoute (registrations.filterMap servletRoute) (segments url) (some servlet) := by
  obtain ⟨path, hdeepest, hmatch⟩ := tryMatch_build (registrations.filterMap servletRoute) (segments url)
  rw [matchServlet, addRoutes_eq, hmatch] at h
  obtain ⟨before, after, hlast, hafter⟩ := registered_of_valueAt h
  exact ⟨before, _, after, hlast, matches_lookup hdeepest.isPrefix, hafter,
    fun r hr hr' => specificity_le hdeepest hr hr'⟩

/-- Every filter that matches a URL that is tried is run for it, a servlet comes after all
of them and alone, and it is the default one or a route for a URL that is tried. -/
theorem forwardTo_guarded (behaviour : Behaviour Servlet Filter World) (defaultServlet : Servlet)
    (registrations : List (Registration Servlet Filter)) (url : List Char) (w : World) :
    let router := addRoutes registrations
    let calls := (forwardTo behaviour defaultServlet router url w).2
    (∀ path ∈ tried router url, ∀ r ∈ registrations.filterMap filterRoute, Matches r.1 (segments path) →
        r.2 ∈ router.matchFilters path) ∧
      (calls = (chain router url).map (fun f => .doFilter f true) ++ [.handle (target defaultServlet router url)] ∨
        ∃ before filter after, chain router url = before ++ filter :: after ∧
          calls = before.map (fun f => .doFilter f true) ++ [.doFilter filter false]) ∧
      ((∃ path ∈ tried router url, IsRoute (registrations.filterMap servletRoute) (segments path)
          (some (target defaultServlet router url))) ∨
        target defaultServlet router url = defaultServlet ∧
          ∀ path ∈ tried router url, router.matchServlet path = none) := by
  intro router calls
  have hcalls : calls = (serve behaviour (chain router url) (target defaultServlet router url) w).2 := by
    rw [← forwardTo_eq]
  refine ⟨fun path _ r hr hmatch => mem_matchFilters registrations path hr hmatch, ?_, ?_⟩
  · rw [hcalls]
    obtain ⟨-, hpassed, -⟩ := runFilters_calls behaviour (chain router url) w
    have hstopped := runFilters_stops behaviour (chain router url) w
    rcases hrun : runFilters behaviour (chain router url) w with ⟨_ | _, w', done⟩
    · rw [hrun] at hstopped
      exact .inr (by simpa [serve, hrun] using hstopped rfl)
    · rw [hrun] at hpassed
      exact .inl (by simpa [serve, hrun] using hpassed rfl)
  · cases hfound : (tried router url).findSome? router.matchServlet with
    | none =>
        refine .inr ⟨by rw [target, hfound]; rfl, ?_⟩
        simpa using hfound
    | some servlet =>
        obtain ⟨path, hpath, hservlet⟩ := List.exists_of_findSome?_eq_some hfound
        have htarget : target defaultServlet router url = servlet := by
          rw [target, hfound]
          rfl
        rw [htarget]
        exact .inl ⟨path, hpath, isRoute_of_matchServlet hservlet⟩

end Libcold.ServletContext
