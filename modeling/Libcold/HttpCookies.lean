import Libcold.HttpSession

namespace Libcold.Http

open Delimited

/-- Cookies of distinct names, without the delimiters in their names and values. -/
structure Cookies where
  entries : HeaderMap
  distinct : (entries.map Prod.fst).Nodup
  tokens : ∀ p ∈ entries, ∀ b ∈ p.1 ++ p.2, b ≠ 61 ∧ b ≠ 59 ∧ b ≠ 32 ∧ b ≠ 44

namespace Cookies

/-- The list `n1=v1; n2=v2; ...`. -/
def serialize : HeaderMap → List UInt8
  | [] => []
  | [p] => p.1 ++ 61 :: p.2
  | p :: q :: ps => p.1 ++ 61 :: (p.2 ++ 59 :: 32 :: serialize (q :: ps))

/-- A request that has the cookies. -/
def request (cookies : Cookies) (rawRequest : RawHttpRequest) : HttpRequest :=
  .ofRaw (rawRequest.setHeader (ascii "Cookie") (serialize cookies.entries))

/-- `GetCookie` gives the cookies and no other ones. -/
def Parsed (cookies : Cookies) (rawRequest : RawHttpRequest) : Prop :=
  ∀ key, (cookies.request rawRequest).cookies.lookup key = cookies.entries.lookup key

/-- A client gets back the session that its cookie names. -/
def SessionFound (cookies : Cookies) (rawRequest : RawHttpRequest) : Prop :=
  ∀ (s : Handling) sessionId session uuid, (sessionKey, sessionId) ∈ cookies.entries →
    s.manager.getSession sessionId = some session →
      (s.getSession (cookies.request rawRequest) uuid).returned = s.returned ++ [session]

/-- The pairs as `ParseKV` reads them: each name but the first has the space before it. -/
def spaced : HeaderMap → HeaderMap
  | [] => []
  | p :: ps => p :: ps.map fun q => (32 :: q.1, q.2)

theorem serialize_eq_join (ps : HeaderMap) : serialize ps = join 61 59 (spaced ps) := by
  have hspace (q : List UInt8 × List UInt8) (ps : HeaderMap) :
      32 :: serialize (q :: ps) = join 61 59 ((q :: ps).map fun q => (32 :: q.1, q.2)) := by
    induction ps generalizing q with
    | nil => rfl
    | cons r ps ih =>
        simp only [serialize, List.map_cons, join, List.cons_append] at ih ⊢
        rw [ih r]
  rcases ps with _ | ⟨p, _ | ⟨q, ps⟩⟩
  · rfl
  · rfl
  · rw [serialize, hspace q ps]
    rfl

variable (cookies : Cookies) (rawRequest : RawHttpRequest)

theorem clean_spaced : Clean 61 59 (spaced cookies.entries) := by
  have hclean : ∀ p ∈ cookies.entries, 61 ∉ p.1 ∧ 59 ∉ p.2 := by
    intro p hp
    refine ⟨fun h => ?_, fun h => ?_⟩
    · exact (cookies.tokens p hp 61 (List.mem_append_left _ h)).1 rfl
    · exact (cookies.tokens p hp 59 (List.mem_append_right _ h)).2.1 rfl
  intro p hp
  cases hentries : cookies.entries with
  | nil =>
      rw [hentries] at hp
      cases hp
  | cons q ps =>
      rw [hentries, spaced, List.mem_cons, List.mem_map] at hp
      rcases hp with rfl | ⟨r, hr, rfl⟩
      · exact hclean p (by simp [hentries])
      · have hmem := hclean r (by simp [hentries, hr])
        exact ⟨by simp [hmem.1], hmem.2⟩

theorem distinct_spaced : ((spaced cookies.entries).map Prod.fst).Nodup := by
  have hdistinct := cookies.distinct
  have htokens := cookies.tokens
  cases hentries : cookies.entries with
  | nil => exact .nil
  | cons p ps =>
      rw [hentries] at hdistinct htokens
      simp only [spaced, List.map_cons, List.map_map, List.nodup_cons] at hdistinct ⊢
      refine ⟨?_, ?_⟩
      · simp only [List.mem_map, Function.comp_apply, not_exists, not_and]
        intro q _ heq
        exact (htokens p (by simp) 32 (by simp [← heq])).2.2.1 rfl
      · have hmap : ps.map (Prod.fst ∘ fun q => (32 :: q.1, q.2)) = (ps.map Prod.fst).map (32 :: ·) := by simp
        rw [hmap]
        exact hdistinct.2.map fun _ _ heq => (List.cons.inj heq).2

theorem lookup_request (key : List UInt8) :
    (cookies.request rawRequest).cookies.lookup key = (spaced cookies.entries).lookup key := by
  have hcookies : (cookies.request rawRequest).cookies =
      HttpRequest.parseKV (serialize cookies.entries) [] 61 59 := by
    have hset := HeaderMap.lookup_set rawRequest.headers (ascii "Cookie") (serialize cookies.entries) (ascii "Cookie")
    rw [if_pos rfl] at hset
    simp only [request, HttpRequest.ofRaw, RawHttpRequest.setHeader, HeaderMap.has_eq, HeaderMap.get_eq, hset]
    rfl
  rw [hcookies, serialize_eq_join, HttpRequest.lookup_parseKV (reads_join cookies.clean_spaced),
    HeaderMap.lookup_reverse cookies.distinct_spaced]

/-- Of the names that clients send only the first one is found. -/
theorem lookup_spaced {p : List UInt8 × List UInt8} {key : List UInt8} (hkey : 32 ∉ key) (ps : HeaderMap) :
    (spaced (p :: ps)).lookup key = if p.1 = key then some p.2 else none := by
  by_cases hfirst : p.1 = key
  · simp [spaced, HeaderMap.lookup, hfirst]
  · have hothers : (ps.map fun q => (32 :: q.1, q.2)).find? (fun q => q.1 = key) = none := by
      simp only [List.find?_eq_none, List.mem_map, decide_eq_true_eq]
      rintro _ ⟨q, -, rfl⟩ rfl
      exact hkey List.mem_cons_self
    simp [spaced, HeaderMap.lookup, hfirst, hothers]

theorem space_not_mem {p : List UInt8 × List UInt8} (hp : p ∈ cookies.entries) : 32 ∉ p.1 := fun h =>
  (cookies.tokens p hp 32 (List.mem_append_left _ h)).2.2.1 rfl

theorem parsed_iff : cookies.Parsed rawRequest ↔ cookies.entries.length ≤ 1 := by
  constructor
  · intro h
    by_contra hmany
    rcases hentries : cookies.entries with _ | ⟨p, _ | ⟨q, ps⟩⟩
    · simp [hentries] at hmany
    · simp [hentries] at hmany
    · have hq : q ∈ cookies.entries := by simp [hentries]
      have hlookup := h q.1
      have hother : p.1 ≠ q.1 := by
        have hdistinct := cookies.distinct
        simp only [hentries, List.map_cons, List.nodup_cons, List.mem_cons, not_or] at hdistinct
        exact hdistinct.1.1
      rw [lookup_request, HeaderMap.lookup_of_mem cookies.distinct hq, hentries,
        lookup_spaced (cookies.space_not_mem hq), if_neg hother] at hlookup
      cases hlookup
  · intro hfew key
    rw [lookup_request]
    rcases hentries : cookies.entries with _ | ⟨p, _ | ⟨q, ps⟩⟩
    · rfl
    · rfl
    · simp [hentries] at hfew

theorem space_sessionKey : 32 ∉ sessionKey := by decide

theorem sessionFound_iff : cookies.SessionFound rawRequest ↔ ∀ p ∈ cookies.entries.tail, p.1 ≠ sessionKey := by
  cases hentries : cookies.entries with
  | nil => simp [SessionFound, hentries]
  | cons p ps =>
      have hlookup : (cookies.request rawRequest).cookies.lookup sessionKey =
          if p.1 = sessionKey then some p.2 else none := by
        rw [lookup_request, hentries, lookup_spaced space_sessionKey]
      constructor
      · intro h q hq hname
        have hother : p.1 ≠ sessionKey := by
          have hdistinct := cookies.distinct
          simp only [hentries, List.map_cons, List.nodup_cons, List.mem_map, not_exists, not_and] at hdistinct
          intro hfirst
          exact hdistinct.1 q hq (hname.trans hfirst.symm)
        let manager := (({} : HttpSessionManager).createSession q.2).2
        let s : Handling := { manager, response := {} }
        have hstored : s.manager.getSession q.2 = some ⟨0, q.2⟩ := Function.update_self _ _ _
        have hmem : (sessionKey, q.2) ∈ cookies.entries := by
          rw [hentries, ← hname]
          exact List.mem_cons_of_mem _ hq
        have hfound := h s q.2 ⟨0, q.2⟩ [] hmem hstored
        rw [if_neg hother] at hlookup
        rw [Handling.getSession_of_none (by rw [Handling.named, hlookup]; rfl)] at hfound
        -- the session that is made is the second one
        have hobject := congrArg (List.map HttpSession.object) hfound
        exact absurd hobject (by simp [s, manager, Handling.createNewSession, HttpSessionManager.createSession])
      · intro h s sessionId session uuid hmem hstored
        rw [hentries, List.mem_cons] at hmem
        rcases hmem with rfl | hmem
        · rw [if_pos rfl] at hlookup
          rw [Handling.getSession_of_named (by rw [Handling.named, hlookup]; exact hstored)]
        · exact absurd rfl (h _ hmem)

/-- The cookies are parsed when there is at most one, and the session is found when
its cookie comes first. -/
theorem cookies_parsed_iff :
    (cookies.Parsed rawRequest ∧ cookies.SessionFound rawRequest ↔ cookies.entries.length ≤ 1) ∧
      (cookies.SessionFound rawRequest ↔ ∀ p ∈ cookies.entries.tail, p.1 ≠ sessionKey) := by
  refine ⟨?_, sessionFound_iff cookies rawRequest⟩
  rw [parsed_iff, sessionFound_iff]
  refine ⟨And.left, fun hfew => ⟨hfew, fun p hp => ?_⟩⟩
  have htail : cookies.entries.tail = [] := List.eq_nil_of_length_eq_zero (by rw [List.length_tail]; omega)
  rw [htail] at hp
  cases hp

/-- A session cookie behind another cookie. -/
theorem second_cookie_lost :
    ¬ ∀ (cookies : Cookies) (rawRequest : RawHttpRequest),
      cookies.Parsed rawRequest ∧ cookies.SessionFound rawRequest := by
  intro h
  let cookies : Cookies :=
    ⟨[([97], [49]), (sessionKey, [50])], by decide, by simp [sessionKey, ascii, or_imp, forall_and]⟩
  have hlength := (parsed_iff cookies {}).mp (h cookies {}).1
  exact absurd hlength (by decide)

end Cookies

end Libcold.Http
