import Libcold.HttpFraming
import Libcold.Runs

namespace Libcold.Http

open Runs

/-- A session, by the object that it is. -/
structure HttpSession where
  object : Nat
  sessionId : List UInt8

/-- The sessions by their ids, and how many were ever made. -/
structure HttpSessionManager where
  sessions : List UInt8 → Option HttpSession := fun _ => none
  created : Nat := 0
  made : ∀ sessionId session, sessions sessionId = some session → session.object < created := by simp

namespace HttpSessionManager

def createSession (manager : HttpSessionManager) (uuid : List UInt8) : HttpSession × HttpSessionManager :=
  let session : HttpSession := ⟨manager.created, uuid⟩
  (session,
    { sessions := Function.update manager.sessions uuid (some session)
      created := manager.created + 1
      made := by
        intro sessionId stored hstored
        by_cases hid : sessionId = uuid
        · subst sessionId
          rw [Function.update_self] at hstored
          cases hstored
          exact Nat.lt_succ_self _
        · rw [Function.update_of_ne hid] at hstored
          exact (manager.made sessionId stored hstored).trans (Nat.lt_succ_self _) })

def getSession (manager : HttpSessionManager) (sessionId : List UInt8) : Option HttpSession :=
  manager.sessions sessionId

theorem getSession_createSession (manager : HttpSessionManager) {uuid sessionId : List UInt8} (h : sessionId ≠ uuid) :
    (manager.createSession uuid).2.getSession sessionId = manager.getSession sessionId :=
  Function.update_of_ne h _ _

end HttpSessionManager

def sessionKey : List UInt8 := ascii "SessionId"

/-- While a request is handled: the shared store, the response, and the sessions
that `GetSession` has returned. -/
structure Handling where
  manager : HttpSessionManager
  response : HttpResponse
  returned : List HttpSession := []

namespace Handling

/-- `CreateNewSession`, on the id that the generator gives. -/
def createNewSession (s : Handling) (uuid : List UInt8) : Handling :=
  let (session, manager) := s.manager.createSession uuid
  let cookie : HttpCookie :=
    { key := sessionKey, value := session.sessionId, path := ascii "/", httpOnly := true }
  { manager, response := s.response.addCookie cookie, returned := s.returned ++ [session] }

def getSession (request : HttpRequest) (s : Handling) (uuid : List UInt8) : Handling :=
  if request.cookies.has sessionKey then
    match s.manager.getSession (request.cookies.get sessionKey) with
    | some session => { s with returned := s.returned ++ [session] }
    | none => s.createNewSession uuid
  else s.createNewSession uuid

/-- A generated id is new: nobody's session has it, and the client has not named it. -/
def Fresh (request : HttpRequest) (s : Handling) (uuid : List UInt8) : Prop :=
  s.manager.getSession uuid = none ∧ request.cookies.lookup sessionKey ≠ some uuid

end Handling

inductive HandlingOp
  | getSession (uuid : List UInt8)
  | otherCreates (uuid : List UInt8)
  | respond (op : ResponseOp)

/-- Filters and servlets ask for the session and work on the response; other requests
are handled meanwhile, and make sessions of theirs. -/
inductive HandlingStep (request : HttpRequest) : Handling → HandlingOp → Handling → Prop
  | getSession (s uuid) (hfresh : s.Fresh request uuid) :
      HandlingStep request s (.getSession uuid) (s.getSession request uuid)
  | otherCreates (s uuid) (hfresh : s.Fresh request uuid) :
      HandlingStep request s (.otherCreates uuid) { s with manager := (s.manager.createSession uuid).2 }
  | respond (s op) (hcookie : ∀ cookie, op = .addCookie cookie → cookie.key ≠ sessionKey) :
      HandlingStep request s (.respond op) { s with response := s.response.perform op }

def HandlingOp.isCall : HandlingOp → Bool
  | getSession _ => true
  | _ => false

namespace Handling

def start (manager : HttpSessionManager) (rawRequest : RawHttpRequest) : Handling where
  manager
  response := HttpServer.opened (some rawRequest)

def sessionCookies (r : HttpResponse) : List (List UInt8) :=
  (r.cookies.filter fun cookie => cookie.key = sessionKey).map HttpCookie.value

/-- All calls return one session, and the response names it when it is new. -/
structure OneSession (manager : HttpSessionManager) (s : Handling) : Prop where
  same : ∀ a ∈ s.returned, ∀ b ∈ s.returned, a = b
  once : (sessionCookies s.response).length ≤ 1
  own : ∀ sessionId ∈ sessionCookies s.response,
    ∃ session ∈ s.returned, session.sessionId = sessionId ∧ manager.created ≤ session.object
  announced : ∀ session ∈ s.returned, manager.created ≤ session.object →
    session.sessionId ∈ sessionCookies s.response

/-- The session that the request's cookie names. -/
def named (manager : HttpSessionManager) (request : HttpRequest) : Option HttpSession :=
  (request.cookies.lookup sessionKey).bind manager.getSession

variable {manager : HttpSessionManager} {request : HttpRequest} {s t : Handling} {op : HandlingOp}

theorem getSession_of_named {session : HttpSession} (h : named s.manager request = some session) (uuid : List UInt8) :
    s.getSession request uuid = { s with returned := s.returned ++ [session] } := by
  obtain ⟨sessionId, hcookie, hstored⟩ := Option.bind_eq_some_iff.mp h
  rw [getSession, HeaderMap.has_eq, HeaderMap.get_eq, hcookie]
  simp only [Option.isSome_some, if_true, Option.getD_some, hstored]

theorem getSession_of_none (h : named s.manager request = none) (uuid : List UInt8) :
    s.getSession request uuid = s.createNewSession uuid := by
  rw [getSession, HeaderMap.has_eq, HeaderMap.get_eq]
  cases hcookie : request.cookies.lookup sessionKey with
  | none => rfl
  | some sessionId =>
      have hstored : s.manager.getSession sessionId = none := by simpa [named, hcookie] using h
      simp only [Option.isSome_some, if_true, Option.getD_some, hstored]

/-- New ids do not change what the cookie names. -/
theorem named_createSession {uuid : List UInt8} (hfresh : s.Fresh request uuid) :
    named (s.manager.createSession uuid).2 request = named s.manager request := by
  rw [named, named]
  cases hcookie : request.cookies.lookup sessionKey with
  | none => rfl
  | some sessionId =>
      refine HttpSessionManager.getSession_createSession s.manager ?_
      rintro rfl
      exact hfresh.2 hcookie

theorem named_step (h : HandlingStep request s op t) : named t.manager request = named s.manager request := by
  cases h with
  | getSession uuid hfresh =>
      cases hnamed : named s.manager request with
      | some session => rw [getSession_of_named hnamed, hnamed]
      | none =>
          rw [getSession_of_none hnamed, ← hnamed]
          exact named_createSession hfresh
  | otherCreates uuid hfresh => exact named_createSession hfresh
  | respond => rfl

theorem sessionCookies_perform (r : HttpResponse) {op : ResponseOp}
    (hcookie : ∀ cookie, op = .addCookie cookie → cookie.key ≠ sessionKey) :
    sessionCookies (r.perform op) = sessionCookies r := by
  cases op with
  | addCookie cookie =>
      have hkey := hcookie cookie rfl
      simp [sessionCookies, HttpResponse.perform, HttpResponse.addCookie, hkey]
  | _ => rfl

theorem sessionCookies_createNewSession (s : Handling) (uuid : List UInt8) :
    sessionCookies (s.createNewSession uuid).response = sessionCookies s.response ++ [uuid] := by
  simp [sessionCookies, createNewSession, HttpResponse.addCookie, HttpSessionManager.createSession]

/-- A session that the cookie names is returned each time. -/
structure Kept (session : HttpSession) (s : Handling) : Prop where
  returned : ∀ a ∈ s.returned, a = session
  cookies : sessionCookies s.response = []

theorem Kept.step {session : HttpSession} (h : Kept session s) (hnamed : named s.manager request = some session)
    (hstep : HandlingStep request s op t) : Kept session t := by
  cases hstep with
  | getSession uuid hfresh =>
      rw [getSession_of_named hnamed]
      refine ⟨fun a ha => ?_, h.cookies⟩
      rcases List.mem_append.mp ha with ha | ha
      · exact h.returned a ha
      · exact List.mem_singleton.mp ha
  | otherCreates => exact ⟨h.returned, h.cookies⟩
  | respond op hcookie => exact ⟨h.returned, (sessionCookies_perform _ hcookie).trans h.cookies⟩

theorem Kept.oneSession {session : HttpSession} (h : Kept session s) (hold : session.object < manager.created) :
    OneSession manager s := by
  refine ⟨fun a ha b hb => (h.returned a ha).trans (h.returned b hb).symm, by simp [h.cookies], by simp [h.cookies], ?_⟩
  rintro a ha hnew
  rw [h.returned a ha] at hnew
  omega

/-- Without one, each call makes another session and another cookie. -/
structure Multiplied (manager : HttpSessionManager) (trace : List HandlingOp) (s : Handling) : Prop where
  calls : s.returned.length = trace.countP HandlingOp.isCall
  ascending : (s.returned.map HttpSession.object).Pairwise (· < ·)
  made : ∀ session ∈ s.returned, manager.created ≤ session.object ∧ session.object < s.manager.created
  cookies : sessionCookies s.response = s.returned.map HttpSession.sessionId
  later : manager.created ≤ s.manager.created

theorem Multiplied.step {trace : List HandlingOp} (h : Multiplied manager trace s)
    (hnamed : named s.manager request = none) (hstep : HandlingStep request s op t) :
    Multiplied manager (trace ++ [op]) t := by
  cases hstep with
  | getSession uuid hfresh =>
      rw [getSession_of_none hnamed]
      refine ⟨?_, ?_, fun session hsession => ?_, ?_, h.later.trans (Nat.le_succ _)⟩
      · simp [createNewSession, h.calls, HandlingOp.isCall]
      · simp only [createNewSession, HttpSessionManager.createSession, List.map_append, List.map_cons, List.map_nil]
        refine List.pairwise_append.mpr ⟨h.ascending, List.pairwise_singleton _ _, fun a ha b hb => ?_⟩
        obtain ⟨session, hsession, rfl⟩ := List.mem_map.mp ha
        rw [List.mem_singleton.mp hb]
        exact (h.made session hsession).2
      · rcases List.mem_append.mp hsession with hsession | hsession
        · exact ⟨(h.made session hsession).1, (h.made session hsession).2.trans (Nat.lt_succ_self _)⟩
        · rw [List.mem_singleton.mp hsession]
          exact ⟨h.later, Nat.lt_succ_self _⟩
      · rw [sessionCookies_createNewSession, h.cookies]
        simp [createNewSession, HttpSessionManager.createSession]
  | otherCreates uuid hfresh =>
      refine ⟨by simpa [HandlingOp.isCall] using h.calls, h.ascending, fun session hsession => ?_, h.cookies,
        h.later.trans (Nat.le_succ _)⟩
      exact ⟨(h.made session hsession).1, (h.made session hsession).2.trans (Nat.lt_succ_self _)⟩
  | respond op hcookie =>
      exact ⟨by simpa [HandlingOp.isCall] using h.calls, h.ascending, h.made,
        (sessionCookies_perform _ hcookie).trans h.cookies, h.later⟩

theorem all_same_iff {α : Type} {l : List α} (hnodup : l.Nodup) : (∀ a ∈ l, ∀ b ∈ l, a = b) ↔ l.length ≤ 1 := by
  rcases l with _ | ⟨a, _ | ⟨b, l⟩⟩
  · simp
  · simp
  · refine iff_of_false (fun h => ?_) (by simp)
    obtain rfl : a = b := h a (by simp) b (by simp)
    simp at hnodup

theorem Multiplied.oneSession_iff {trace : List HandlingOp} (h : Multiplied manager trace s) :
    OneSession manager s ↔ trace.countP HandlingOp.isCall ≤ 1 := by
  have hnodup : s.returned.Nodup := by
    refine List.Nodup.of_map HttpSession.object (h.ascending.imp fun hlt => ?_)
    exact ne_of_lt hlt
  rw [← h.calls, ← all_same_iff hnodup]
  refine ⟨OneSession.same, fun hsame => ⟨hsame, ?_, fun sessionId hid => ?_, fun session hsession _ => ?_⟩⟩
  · rw [h.cookies, List.length_map]
    exact (all_same_iff hnodup).mp hsame
  · rw [h.cookies] at hid
    obtain ⟨session, hsession, rfl⟩ := List.mem_map.mp hid
    exact ⟨session, hsession, rfl, (h.made session hsession).1⟩
  · rw [h.cookies]
    exact List.mem_map_of_mem hsession

theorem kept_run {rawRequest : RawHttpRequest} {session : HttpSession} {trace : List HandlingOp}
    (hnamed : named manager (.ofRaw rawRequest) = some session)
    (hrun : Run (HandlingStep (.ofRaw rawRequest)) (start manager rawRequest) trace s) : Kept session s := by
  suffices hboth : Kept session s ∧ named s.manager (.ofRaw rawRequest) = some session from hboth.1
  refine @Run.invariant _ _ _ _ (fun _ s => Kept session s ∧ named s.manager (.ofRaw rawRequest) = some session)
    ⟨⟨by simp [start], rfl⟩, hnamed⟩ ?_ _ _ hrun
  rintro trace s op t ⟨hkept, hs⟩ hstep
  exact ⟨hkept.step hs hstep, (named_step hstep).trans hs⟩

theorem multiplied_run {rawRequest : RawHttpRequest} {trace : List HandlingOp}
    (hnamed : named manager (.ofRaw rawRequest) = none)
    (hrun : Run (HandlingStep (.ofRaw rawRequest)) (start manager rawRequest) trace s) :
    Multiplied manager trace s := by
  suffices hboth : Multiplied manager trace s ∧ named s.manager (.ofRaw rawRequest) = none from hboth.1
  refine @Run.invariant _ _ _ _
    (fun trace s => Multiplied manager trace s ∧ named s.manager (.ofRaw rawRequest) = none)
    ⟨⟨rfl, .nil, by simp [start], rfl, le_refl _⟩, hnamed⟩ ?_ _ _ hrun
  rintro trace s op t ⟨hmultiplied, hs⟩ hstep
  exact ⟨hmultiplied.step hs hstep, (named_step hstep).trans hs⟩

/-- While a request is handled all calls of `GetSession` give one session when there
is at most one call, or the cookie names a session from the start. -/
theorem one_session_iff (manager : HttpSessionManager) (rawRequest : RawHttpRequest) {trace : List HandlingOp}
    {s : Handling} (hrun : Run (HandlingStep (.ofRaw rawRequest)) (start manager rawRequest) trace s) :
    OneSession manager s ↔
      trace.countP HandlingOp.isCall ≤ 1 ∨ (named manager (.ofRaw rawRequest)).isSome := by
  cases hnamed : named manager (.ofRaw rawRequest) with
  | some session =>
      obtain ⟨sessionId, -, hstored⟩ := Option.bind_eq_some_iff.mp hnamed
      exact iff_of_true ((kept_run hnamed hrun).oneSession (manager.made sessionId session hstored)) (.inr rfl)
  | none =>
      rw [(multiplied_run hnamed hrun).oneSession_iff]
      simp

/-- The first request of a client. -/
def visit : RawHttpRequest := { method := ascii "GET", url := ascii "/user/home", version := ascii "HTTP/1.1" }

/-- The call of a filter that lets the request pass. -/
theorem filter_finds_one_session : OneSession {} ((start {} visit).getSession (.ofRaw visit) [1]) :=
  (one_session_iff {} visit (Run.single (.getSession (start {} visit) [1] ⟨rfl, by decide⟩))).mpr (.inl (by decide))

/-- A filter that forwards to the login page: both ask for the session. -/
theorem filter_and_page_differ :
    ¬ ∀ (manager : HttpSessionManager) (rawRequest : RawHttpRequest) trace s,
      Run (HandlingStep (.ofRaw rawRequest)) (start manager rawRequest) trace s → OneSession manager s := by
  intro h
  have hfilter : Run (HandlingStep (.ofRaw visit)) (start {} visit) [.getSession [1]] _ :=
    Run.single (.getSession (start {} visit) [1] ⟨rfl, by decide⟩)
  have hrun := hfilter.next (.getSession _ [2] ⟨rfl, by decide⟩)
  have hcalls := (multiplied_run rfl hrun).oneSession_iff.mp (h {} visit _ _ hrun)
  revert hcalls
  decide

end Handling

end Libcold.Http
