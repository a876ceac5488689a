import Libcold.HttpCookies

namespace Libcold.Http

open Runs Handling

variable {Client Tag Value : Type}

/-- `RemoveSession`. -/
def HttpSessionManager.removeSession (manager : HttpSessionManager) (sessionId : List UInt8) : HttpSessionManager where
  sessions := Function.update manager.sessions sessionId none
  created := manager.created
  made := by
    intro other session hstored
    by_cases hid : other = sessionId
    · simp [hid] at hstored
    · rw [Function.update_of_ne hid] at hstored
      exact manager.made other session hstored

/-- A request that is handled, the sessions that it holds, and whether `GetSession` has
looked for one in vain. -/
structure Exchange (Client : Type) where
  client : Client
  request : HttpRequest
  response : HttpResponse
  returned : List HttpSession := []
  creating : Bool := false

/-- The sessions of a server with their attributes, the requests that are handled, the
ids that each client has been told, and those that the generator has given, each with the
client that it was for. -/
structure HttpSessions (Client Value : Type) where
  manager : HttpSessionManager := {}
  attributes : Nat → List UInt8 → Option Value := fun _ _ => none
  exchanges : Nat → Option (Exchange Client) := fun _ => none
  received : Client → List (List UInt8) := fun _ => []
  generated : List (List UInt8 × Client) := []

inductive SessionEvent (Client Tag Value : Type)
  | finds (c : Client) (session : HttpSession)
  | misses (c : Client)
  | creates (c : Client) (session : HttpSession)
  | invalidates (c : Client) (session : HttpSession)
  | sets (c : Client) (session : HttpSession) (key : List UInt8) (value : Value)
  | removes (c : Client) (session : HttpSession) (key : List UInt8)
  | gets (c : Client) (session : HttpSession) (tag : Tag) (key : List UInt8) (result : Option Value)
  | other

/-- The client and the session that a handler works for and on. -/
def SessionEvent.use : SessionEvent Client Tag Value → Option (Client × HttpSession)
  | .finds c session | .creates c session | .invalidates c session => some (c, session)
  | .sets c session _ _ | .removes c session _ | .gets c session _ _ _ => some (c, session)
  | .misses _ | .other => none

/-- What an attribute is after an event. -/
def SessionEvent.write (object : Nat) (key : List UInt8) (old : Option Value) :
    SessionEvent Client Tag Value → Option Value
  | .sets _ session key' value => if session.object = object ∧ key' = key then some value else old
  | .removes _ session key' => if session.object = object ∧ key' = key then none else old
  | _ => old

/-- What an attribute is after the events of a trace. -/
def written (object : Nat) (key : List UInt8) (trace : List (SessionEvent Client Tag Value)) : Option Value :=
  trace.foldl (fun old event => event.write object key old) none

namespace HttpSessions

def put (s : HttpSessions Client Value) (x : Nat) (e : Option (Exchange Client)) : HttpSessions Client Value :=
  { s with exchanges := Function.update s.exchanges x e }

/-- `HttpSession::GetAttribute`, by what `std::any_cast` finds the value to be. -/
def getAttribute [DecidableEq Tag] (type : Value → Tag) (s : HttpSessions Client Value) (session : HttpSession)
    (tag : Tag) (key : List UInt8) : Option Value :=
  (s.attributes session.object key).filter fun value => type value = tag

def setAttribute (s : HttpSessions Client Value) (session : HttpSession) (key : List UInt8) (value : Option Value) :
    HttpSessions Client Value :=
  let attributes := Function.update (s.attributes session.object) key value
  { s with attributes := Function.update s.attributes session.object attributes }

def handling (s : HttpSessions Client Value) (e : Exchange Client) : Handling :=
  { manager := s.manager, response := e.response, returned := e.returned }

/-- The rest of `GetSession` when it has found none. -/
def create (s : HttpSessions Client Value) (x : Nat) (e : Exchange Client) (uuid : List UInt8) :
    HttpSessions Client Value :=
  let h := (s.handling e).createNewSession uuid
  { s.put x (some { e with response := h.response, returned := h.returned, creating := false }) with
    manager := h.manager
    generated := s.generated ++ [(uuid, e.client)] }

section Model

variable [DecidableEq Client] [DecidableEq Tag]

/-- Clients send requests that name no session or one that they were told; filters and
servlets look for the session, which makes one if there is none, use the sessions that
they hold, and answer. A generated id is a new one. -/
inductive Step (type : Value → Tag) :
    HttpSessions Client Value → SessionEvent Client Tag Value → HttpSessions Client Value → Prop
  | sends (s) (x) (c) (rawRequest : RawHttpRequest) (hfree : s.exchanges x = none)
      (htold : ∀ sessionId, (HttpRequest.ofRaw rawRequest).cookies.lookup sessionKey = some sessionId →
        sessionId ∈ s.received c) :
      Step type s .other (s.put x (some
        { client := c, request := .ofRaw rawRequest, response := HttpServer.opened (some rawRequest) }))
  | finds (s) (x) (e) (session) (hx : s.exchanges x = some e) (hlooks : e.creating = false)
      (hfound : named s.manager e.request = some session) :
      Step type s (.finds e.client session) (s.put x (some { e with returned := e.returned ++ [session] }))
  | misses (s) (x) (e) (hx : s.exchanges x = some e) (hlooks : e.creating = false)
      (hmissed : named s.manager e.request = none) :
      Step type s (.misses e.client) (s.put x (some { e with creating := true }))
  | creates (s) (x) (e) (uuid) (hx : s.exchanges x = some e) (hcreating : e.creating = true)
      (hnew : uuid ∉ s.generated.map Prod.fst) :
      Step type s (.creates e.client (s.manager.createSession uuid).1) (s.create x e uuid)
  | invalidates (s) (x) (e) (session) (hx : s.exchanges x = some e) (hheld : session ∈ e.returned) :
      Step type s (.invalidates e.client session) { s with manager := s.manager.removeSession session.sessionId }
  | sets (s) (x) (e) (session) (key) (value) (hx : s.exchanges x = some e) (hheld : session ∈ e.returned) :
      Step type s (.sets e.client session key value) (s.setAttribute session key (some value))
  | removes (s) (x) (e) (session) (key) (hx : s.exchanges x = some e) (hheld : session ∈ e.returned) :
      Step type s (.removes e.client session key) (s.setAttribute session key none)
  | gets (s) (x) (e) (session) (tag) (key) (hx : s.exchanges x = some e) (hheld : session ∈ e.returned) :
      Step type s (.gets e.client session tag key (s.getAttribute type session tag key)) s
  | responds (s) (x) (e) (op) (hx : s.exchanges x = some e)
      (hcookie : ∀ cookie, op = .addCookie cookie → cookie.key ≠ sessionKey) :
      Step type s .other (s.put x (some { e with response := e.response.perform op }))
  | receives (s) (x) (e) (hx : s.exchanges x = some e) :
      Step type s .other { s.put x none with
        received := Function.update s.received e.client (s.received e.client ++ sessionCookies e.response) }
  | loses (s) (x) (e) (hx : s.exchanges x = some e) : Step type s .other (s.put x none)

end Model

/-- With nothing in between, the two steps of `GetSession` are the function. -/
theorem getSession_eq (s : HttpSessions Client Value) (e : Exchange Client) (uuid : List UInt8) :
    (s.handling e).getSession e.request uuid =
      match named s.manager e.request with
      | some session => { s.handling e with returned := e.returned ++ [session] }
      | none => (s.handling e).createNewSession uuid := by
  cases hnamed : named s.manager e.request with
  | some session => exact getSession_of_named hnamed uuid
  | none => exact getSession_of_none hnamed uuid

/-- The session is the one that was made at its time, and for the client. -/
def Made (generated : List (List UInt8 × Client)) (session : HttpSession) (c : Client) : Prop :=
  generated[session.object]? = some (session.sessionId, c)

theorem Made.mem {generated : List (List UInt8 × Client)} {session : HttpSession} {c : Client}
    (h : Made generated session c) : (session.sessionId, c) ∈ generated := List.mem_of_getElem? h

theorem Made.grow {generated : List (List UInt8 × Client)} {session : HttpSession} {c : Client}
    (h : Made generated session c) (more : List (List UInt8 × Client)) : Made (generated ++ more) session c := by
  obtain ⟨hlt, -⟩ := List.getElem?_eq_some_iff.mp h
  rw [Made, List.getElem?_append_left hlt]
  exact h

/-- All that an exchange has to do with is of sessions that were made for its client. -/
structure Own (generated : List (List UInt8 × Client)) (e : Exchange Client) : Prop where
  held : ∀ session ∈ e.returned, Made generated session e.client
  answered : ∀ sessionId ∈ sessionCookies e.response, (sessionId, e.client) ∈ generated
  named : ∀ sessionId, e.request.cookies.lookup sessionKey = some sessionId → (sessionId, e.client) ∈ generated

structure Inv (s : HttpSessions Client Value) : Prop where
  created : s.manager.created = s.generated.length
  distinct : (s.generated.map Prod.fst).Nodup
  stored : ∀ sessionId session, s.manager.sessions sessionId = some session →
    session.sessionId = sessionId ∧ ∃ c, Made s.generated session c
  exchanges : ∀ x e, s.exchanges x = some e → Own s.generated e
  received : ∀ c, ∀ sessionId ∈ s.received c, (sessionId, c) ∈ s.generated

theorem Own.grow {generated : List (List UInt8 × Client)} {e : Exchange Client} (h : Own generated e)
    (more : List (List UInt8 × Client)) : Own (generated ++ more) e where
  held session hsession := (h.held session hsession).grow more
  answered sessionId hid := List.mem_append_left _ (h.answered sessionId hid)
  named sessionId hid := List.mem_append_left _ (h.named sessionId hid)

theorem Inv.client_unique {s : HttpSessions Client Value} (h : Inv s) {sessionId : List UInt8} {c d : Client}
    (hc : (sessionId, c) ∈ s.generated) (hd : (sessionId, d) ∈ s.generated) : c = d :=
  congrArg Prod.snd (List.inj_on_of_nodup_map h.distinct hc hd rfl)

/-- The session that a request names was made for its client. -/
theorem Inv.named_made {s : HttpSessions Client Value} (h : Inv s) {x : Nat} {e : Exchange Client}
    (hx : s.exchanges x = some e) {session : HttpSession} (hfound : Handling.named s.manager e.request = some session) :
    Made s.generated session e.client := by
  obtain ⟨sessionId, hcookie, hstored⟩ := Option.bind_eq_some_iff.mp hfound
  obtain ⟨rfl, c, hmade⟩ := h.stored _ _ hstored
  rwa [← h.client_unique hmade.mem ((h.exchanges x e hx).named _ hcookie)]

theorem Inv.put {s : HttpSessions Client Value} (h : Inv s) (x : Nat) {e : Option (Exchange Client)}
    (hown : ∀ f, e = some f → Own s.generated f) : Inv (s.put x e) := by
  refine ⟨h.created, h.distinct, h.stored, fun y f hy => ?_, h.received⟩
  by_cases hyx : y = x
  · subst hyx
    exact hown f (by simpa [HttpSessions.put] using hy)
  · exact h.exchanges y f (by simpa [HttpSessions.put, hyx] using hy)

/-- A new session is that of the client whose request has no other. -/
theorem Inv.create {s : HttpSessions Client Value} (h : Inv s) {x : Nat} {e : Exchange Client}
    (hx : s.exchanges x = some e) {uuid : List UInt8} (hnew : uuid ∉ s.generated.map Prod.fst) :
    Inv (s.create x e uuid) ∧
      Made (s.generated ++ [(uuid, e.client)]) (s.manager.createSession uuid).1 e.client := by
  have hmade : Made (s.generated ++ [(uuid, e.client)]) (s.manager.createSession uuid).1 e.client := by
    simp [Made, HttpSessionManager.createSession, h.created]
  have hgrown : Inv { s with
      manager := (s.manager.createSession uuid).2
      generated := s.generated ++ [(uuid, e.client)] } := by
    constructor
    · simp [HttpSessionManager.createSession, h.created]
    · rw [List.map_append, List.nodup_append]
      refine ⟨h.distinct, List.nodup_singleton _, fun a ha b hb hab => ?_⟩
      rw [hab, List.mem_singleton.mp hb] at ha
      exact hnew ha
    · intro sessionId session hstored
      by_cases hid : sessionId = uuid
      · subst hid
        obtain rfl : (s.manager.createSession sessionId).1 = session := by
          simpa [HttpSessionManager.createSession] using hstored
        exact ⟨rfl, e.client, hmade⟩
      · obtain ⟨heq, c, hold⟩ := h.stored sessionId session
          (by simpa [HttpSessionManager.createSession, hid] using hstored)
        exact ⟨heq, c, hold.grow _⟩
    · exact fun y f hy => (h.exchanges y f hy).grow _
    · exact fun c sessionId hid => List.mem_append_left _ (h.received c sessionId hid)
  refine ⟨hgrown.put x fun f hf => ?_, hmade⟩
  cases hf
  have hown := (h.exchanges x e hx).grow [(uuid, e.client)]
  refine ⟨fun session hsession => ?_, fun sessionId hid => ?_, hown.named⟩
  · rcases List.mem_append.mp hsession with hsession | hsession
    · exact hown.held session hsession
    · rw [List.mem_singleton.mp hsession]
      exact hmade
  · rw [sessionCookies_createNewSession] at hid
    rcases List.mem_append.mp hid with hid | hid
    · exact hown.answered sessionId hid
    · simp [List.mem_singleton.mp hid]

variable [DecidableEq Client] [DecidableEq Tag] {type : Value → Tag} {s t : HttpSessions Client Value}
variable {event : SessionEvent Client Tag Value}

theorem step_inv (h : Inv s) (hstep : Step type s event t) : Inv t := by
  cases hstep with
  | sends x c rawRequest hfree htold =>
      refine h.put x fun f hf => ?_
      cases hf
      have hcookies : (HttpServer.opened (some rawRequest)).cookies = [] := rfl
      exact ⟨by simp, by simp [sessionCookies, hcookies], fun sessionId hid => h.received c _ (htold sessionId hid)⟩
  | finds x e session hx hlooks hfound =>
      refine h.put x fun f hf => ?_
      cases hf
      have hown := h.exchanges x e hx
      refine ⟨fun a ha => ?_, hown.answered, hown.named⟩
      rcases List.mem_append.mp ha with ha | ha
      · exact hown.held a ha
      · rw [List.mem_singleton.mp ha]
        exact h.named_made hx hfound
  | misses x e hx =>
      refine h.put x fun f hf => ?_
      cases hf
      have hown := h.exchanges x e hx
      exact ⟨hown.held, hown.answered, hown.named⟩
  | creates x e uuid hx hcreating hnew => exact (h.create hx hnew).1
  | invalidates x e session hx hheld =>
      refine ⟨h.created, h.distinct, fun sessionId stored hstored => ?_, h.exchanges, h.received⟩
      by_cases hid : sessionId = session.sessionId
      · simp [HttpSessionManager.removeSession, hid] at hstored
      · refine h.stored sessionId stored ?_
        simpa [HttpSessionManager.removeSession, hid] using hstored
  | sets | removes => exact ⟨h.created, h.distinct, h.stored, h.exchanges, h.received⟩
  | gets => exact h
  | responds x e op hx hcookie =>
      refine h.put x fun f hf => ?_
      cases hf
      have hown := h.exchanges x e hx
      refine ⟨hown.held, ?_, hown.named⟩
      rw [sessionCookies_perform _ hcookie]
      exact hown.answered
  | receives x e hx =>
      have hclosed : Inv (s.put x none) := h.put x (by simp)
      refine ⟨h.created, h.distinct, h.stored, hclosed.exchanges, fun c sessionId hid => ?_⟩
      by_cases hc : c = e.client
      · subst hc
        simp only [Function.update_self] at hid
        rcases List.mem_append.mp hid with hid | hid
        · exact h.received _ sessionId hid
        · exact (h.exchanges x e hx).answered sessionId hid
      · exact h.received c sessionId (by simpa [hc] using hid)
  | loses x e hx => exact h.put x (by simp)

theorem run_inv {trace : List (SessionEvent Client Tag Value)} (h : Run (Step type) {} trace s) : Inv s := by
  induction h with
  | stop => exact ⟨rfl, .nil, nofun, nofun, nofun⟩
  | next _ taken ih => exact step_inv ih taken

theorem step_generated (hstep : Step type s event t) : s.generated <+: t.generated := by
  cases hstep with
  | creates => exact List.prefix_append _ _
  | _ => exact List.prefix_rfl

theorem step_used (h : Inv s) (hstep : Step type s event t) {c : Client} {session : HttpSession}
    (huse : event.use = some (c, session)) : Made t.generated session c := by
  cases hstep with
  | finds x e session hx hlooks hfound =>
      cases huse
      exact h.named_made hx hfound
  | creates x e uuid hx hcreating hnew =>
      cases huse
      exact (h.create hx hnew).2
  | invalidates x e session hx hheld | sets x e session key value hx hheld | removes x e session key hx hheld
  | gets x e session tag key hx hheld =>
      cases huse
      exact (h.exchanges x e hx).held _ hheld
  | _ => cases huse

theorem run_used {trace : List (SessionEvent Client Tag Value)} (h : Run (Step type) {} trace s) :
    ∀ event ∈ trace, ∀ c session, event.use = some (c, session) → Made s.generated session c := by
  induction h with
  | stop => exact nofun
  | next run taken ih =>
      intro event hevent c session huse
      rcases List.mem_append.mp hevent with hevent | hevent
      · obtain ⟨more, hmore⟩ := step_generated taken
        rw [← hmore]
        exact (ih event hevent c session huse).grow more
      · rw [List.mem_singleton.mp hevent] at huse
        exact step_used (run_inv run) taken huse

theorem step_written (hstep : Step type s event t) (object : Nat) (key : List UInt8) :
    t.attributes object key = event.write object key (s.attributes object key) := by
  have hset (session : HttpSession) (key' : List UInt8) (value : Option Value) :
      (s.setAttribute session key' value).attributes object key =
        if session.object = object ∧ key' = key then value else s.attributes object key := by
    by_cases hobject : session.object = object
    · subst hobject
      by_cases hkey : key' = key
      · simp [setAttribute, hkey]
      · simp [setAttribute, hkey, Ne.symm hkey]
    · simp [setAttribute, hobject, Ne.symm hobject]
  cases hstep with
  | sets x e session key' value => exact hset session key' (some value)
  | removes x e session key' => exact hset session key' none
  | _ => rfl

theorem run_written {trace : List (SessionEvent Client Tag Value)} (h : Run (Step type) {} trace s) (object : Nat)
    (key : List UInt8) : s.attributes object key = written object key trace := by
  induction h with
  | stop => rfl
  | next _ taken ih => rw [step_written taken, ih, written, written, List.foldl_append, List.foldl_cons, List.foldl_nil]

/-- The events of a client's handlers. -/
def own (c : Client) (trace : List (SessionEvent Client Tag Value)) : List (SessionEvent Client Tag Value) :=
  trace.filter fun event => event.use.map Prod.fst = some c

omit [DecidableEq Tag] in
/-- An attribute is the work of those that use the session. -/
theorem written_own {trace : List (SessionEvent Client Tag Value)} {object : Nat} {c : Client}
    (h : ∀ event ∈ trace, ∀ d session, event.use = some (d, session) → session.object = object → d = c)
    (key : List UInt8) : written object key trace = written object key (own c trace) := by
  unfold written own
  generalize (none : Option Value) = old
  induction trace generalizing old with
  | nil => rfl
  | cons event trace ih =>
      have hrest := ih fun event hevent => h event (List.mem_cons_of_mem _ hevent)
      by_cases hown : event.use.map Prod.fst = some c
      · rw [List.filter_cons_of_pos (by simpa using hown), List.foldl_cons, List.foldl_cons, hrest]
      · rw [List.filter_cons_of_neg (by simpa using hown), List.foldl_cons, hrest]
        have hother (d : Client) (session : HttpSession) (huse : event.use = some (d, session)) :
            session.object ≠ object := by
          intro hobject
          rw [huse, h event List.mem_cons_self d session huse hobject] at hown
          exact hown rfl
        congr 1
        cases event with
        | sets d session key' value => exact if_neg fun hboth => hother d session rfl hboth.1
        | removes d session key' => exact if_neg fun hboth => hother d session rfl hboth.1
        | _ => rfl

omit [DecidableEq Client] in
theorem Made.unique {generated : List (List UInt8 × Client)} {session session' : HttpSession} {c d : Client}
    (h : Made generated session c) (h' : Made generated session' d) (hobject : session.object = session'.object) :
    c = d ∧ session = session' := by
  unfold Made at h h'
  rw [hobject, h'] at h
  cases session
  cases session'
  simp_all

/-- No client ever has to do with a session of another, and what its handlers read is what
they have written themselves, whatever other clients do meanwhile. -/
theorem sessions_isolated {trace : List (SessionEvent Client Tag Value)} (h : Run (Step type) {} trace s) :
    (∀ first ∈ trace, ∀ second ∈ trace, ∀ c d session session', first.use = some (c, session) →
        second.use = some (d, session') → session.object = session'.object → c = d ∧ session = session') ∧
      ∀ before after c session tag key result, trace = before ++ .gets c session tag key result :: after →
        result = (written session.object key (own c before)).filter fun value => type value = tag := by
  have hused := run_used h
  have hone {first second : SessionEvent Client Tag Value} (hfirst : first ∈ trace) (hsecond : second ∈ trace)
      {c d : Client} {session session' : HttpSession} (huse : first.use = some (c, session))
      (huse' : second.use = some (d, session')) (hobject : session.object = session'.object) :
      c = d ∧ session = session' :=
    (hused first hfirst c session huse).unique (hused second hsecond d session' huse') hobject
  refine ⟨fun first hfirst second hsecond c d session session' => hone hfirst hsecond, ?_⟩
  rintro before after c session tag key result rfl
  obtain ⟨mid, hbefore, hrest⟩ := run_append_iff.mp h
  obtain ⟨next, hgets, -⟩ := run_cons_iff.mp hrest
  have hothers : ∀ event ∈ before, ∀ d session', event.use = some (d, session') →
      session'.object = session.object → d = c := fun event hevent d session' huse hobject =>
    (hone (List.mem_append_left _ hevent) (List.mem_append_right _ List.mem_cons_self) huse rfl hobject).1
  rw [← written_own hothers, ← run_written hbefore]
  cases hgets
  rfl

/-- A first request, whose handler writes an attribute and reads it. -/
def visited : List (SessionEvent Bool Unit Nat) :=
  [.other, .misses true, .creates true ⟨0, [49]⟩, .sets true ⟨0, [49]⟩ [107] 7,
    .gets true ⟨0, [49]⟩ () [107] (some 7)]

def untyped (_ : Nat) : Unit := ()

theorem visited_run : ∃ s : HttpSessions Bool Nat, Run (Step untyped) {} visited s := by
  have hsends : Run (Step untyped) ({} : HttpSessions Bool Nat) [(.other : SessionEvent Bool Unit Nat)] _ :=
    Run.single (.sends _ 0 true visit rfl nofun)
  have hcreates := (hsends.next (.misses _ 0 _ rfl rfl rfl)).next (.creates _ 0 _ [49] rfl rfl List.not_mem_nil)
  have hsets := hcreates.next (.sets _ 0 _ ⟨0, [49]⟩ [107] 7 rfl List.mem_cons_self)
  have hgets := hsets.next (.gets _ 0 _ ⟨0, [49]⟩ () [107] rfl List.mem_cons_self)
  exact ⟨_, hgets⟩

theorem sessions_isolated_visited :
    some 7 = (written 0 [107] (own true (visited.take 4))).filter fun value => untyped value = () := by
  obtain ⟨s, hrun⟩ := visited_run
  exact (sessions_isolated hrun).2 _ [] true ⟨0, [49]⟩ () [107] (some 7) rfl

end HttpSessions

end Libcold.Http
