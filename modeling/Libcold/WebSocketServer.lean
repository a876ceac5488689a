import Libcold.HttpServer
import Libcold.Task

namespace Libcold

open HttpRequestParser HttpParser HttpSegmentation

/-- What the two entry points do on a connection. -/
inductive ServerEffect
  | response (request : RawHttpRequest)
  | badRequest
  | wrote (header : List UInt8)
  | connected
  | startsDoRead
  | closed
  | failed (failure : Failure)

/-- What a read gives, whether what is written in answer to it gets out whole, and
whether the servlet keeps the connection. -/
structure HttpRead where
  chunk : List UInt8
  written : Bool
  keepAlive : Bool

inductive HttpStatus
  | ok
  | switchingProtocols

inductive ConnectionStatus
  | keepAlive
  | close
  | upgrade

structure HttpResponse where
  status : HttpStatus := .ok
  version : List UInt8 := ascii "HTTP/1.1"
  headers : HeaderMap := []
  connectionStatus : ConnectionStatus := .keepAlive

namespace HttpResponse

def crlf : List UInt8 := [13, 10]

def statusLine : HttpStatus → List UInt8
  | .ok => ascii "200 OK"
  | .switchingProtocols => ascii "101 Switching Protocols"

def connectionStr : ConnectionStatus → List UInt8
  | .keepAlive => ascii "keep-alive"
  | .close => ascii "close"
  | .upgrade => ascii "Upgrade"

def makeHeaders (r : HttpResponse) : List UInt8 :=
  r.version ++ ascii " " ++ statusLine r.status ++ crlf ++
    ((r.headers.set (ascii "Connection") (connectionStr r.connectionStatus)).flatMap fun p =>
      p.1 ++ ascii ": " ++ p.2 ++ crlf) ++ crlf

end HttpResponse

def base64Char (n : Nat) : UInt8 :=
  (ascii "ABCDEFGHIJKLMNOPQRSTUVWXYZabcdefghijklmnopqrstuvwxyz0123456789+/").getD n 0

def base64Encode : List UInt8 → List UInt8
  | [] => []
  | [a] =>
      let packed := a.toNat * 2 ^ 16
      [base64Char (packed / 2 ^ 18), base64Char (packed / 2 ^ 12 % 64), 61, 61]
  | [a, b] =>
      let packed := a.toNat * 2 ^ 16 + b.toNat * 2 ^ 8
      [base64Char (packed / 2 ^ 18), base64Char (packed / 2 ^ 12 % 64), base64Char (packed / 2 ^ 6 % 64), 61]
  | a :: b :: c :: rest =>
      let packed := a.toNat * 2 ^ 16 + b.toNat * 2 ^ 8 + c.toNat
      [base64Char (packed / 2 ^ 18), base64Char (packed / 2 ^ 12 % 64), base64Char (packed / 2 ^ 6 % 64),
        base64Char (packed % 64)] ++ base64Encode rest

namespace WebSocketServer

variable {L : Llhttp} (sha1 : List UInt8 → List UInt8)

def checkWhetherUpgradeRequest (request : RawHttpRequest) : Bool :=
  request.headers.get (ascii "Connection") = ascii "Upgrade" &&
    request.headers.get (ascii "Upgrade") = ascii "websocket" && request.headers.has (ascii "Sec-WebSocket-Key")

/-- The response that completes the handshake. -/
def switchingProtocols (request : RawHttpRequest) : HttpResponse where
  status := .switchingProtocols
  headers :=
    let key := request.headers.get (ascii "Sec-WebSocket-Key") ++ ascii "258EAFA5-E914-47DA-95CA-C5AB0DC85B11"
    HeaderMap.set (ascii "Sec-WebSocket-Accept") (base64Encode (sha1 key))
      (HeaderMap.set (ascii "Upgrade") (ascii "websocket") [])
  connectionStatus := .upgrade

/-- The body of `OnReceivedUpgradeRequest`, by whether the response gets out whole. -/
def onReceivedUpgradeRequest (request : RawHttpRequest) (written : Bool) : List ServerEffect :=
  if written then [.wrote (switchingProtocols sha1 request).makeHeaders, .connected, .startsDoRead] else [.closed]

/-- `StandAloneWsServerContext::OnConnect`, on what its reads give until one fails. The
callback returns nothing, so that the `Task` of the handshake goes with the socket in
its frame; the loop reads from the socket that was moved from, which has no service. -/
inductive OnConnect (L : Llhttp) (limits : HttpLimits) : List HttpRead → List ServerEffect → Prop
  | readFails : OnConnect L limits [] [.closed]
  | noBytes (r rs) (hbytes : r.chunk = []) : OnConnect L limits (r :: rs) [.closed]
  -- the read behind `Close` fails
  | malformed (r rs) (t : HttpParser L) (hbytes : r.chunk ≠ []) (hparse : Parse limits {} r.chunk (false, t)) :
      OnConnect L limits (r :: rs) [.closed, .closed]
  | upgrade (r rs) (t : HttpParser L) (request queue) (hbytes : r.chunk ≠ [])
      (hparse : Parse limits {} r.chunk (true, t)) (hqueue : t.self.requestQueue = request :: queue) :
      OnConnect L limits (r :: rs)
        (Task.drop (onReceivedUpgradeRequest sha1 request r.written) ++ [.closed, .failed .danglingPointer])
  | goOn (r rs) (t : HttpParser L) (effects) (hbytes : r.chunk ≠ []) (hparse : Parse limits {} r.chunk (true, t))
      (hqueue : t.self.requestQueue = []) (hlater : OnConnect L limits rs effects) :
      OnConnect L limits (r :: rs) effects

/-- `HttpServer::DoHttp` with a `WebSocketServer`. -/
inductive DoHttp (limits : HttpLimits) : HttpParser L → List HttpRead → List ServerEffect → Prop
  | readFails (s) : DoHttp limits s [] [.closed]
  | noBytes (s r rs) (hbytes : r.chunk = []) : DoHttp limits s (r :: rs) [.closed]
  | badRequest (s r rs t) (hbytes : r.chunk ≠ []) (hparse : Parse limits s r.chunk (false, t)) :
      DoHttp limits s (r :: rs) (if r.written then [.badRequest, .closed] else [.closed])
  | upgrade (s r rs t request queue) (hbytes : r.chunk ≠ []) (hparse : Parse limits s r.chunk (true, t))
      (hqueue : t.self.requestQueue = request :: queue) (hupgrade : checkWhetherUpgradeRequest request = true) :
      DoHttp limits s (r :: rs) (Task.coAwait (onReceivedUpgradeRequest sha1 request r.written))
  | writeFails (s r rs t request queue) (hbytes : r.chunk ≠ []) (hparse : Parse limits s r.chunk (true, t))
      (hqueue : t.self.requestQueue = request :: queue) (hupgrade : checkWhetherUpgradeRequest request = false)
      (hwritten : r.written = false) : DoHttp limits s (r :: rs) [.closed]
  | close (s r rs t request queue) (hbytes : r.chunk ≠ []) (hparse : Parse limits s r.chunk (true, t))
      (hqueue : t.self.requestQueue = request :: queue) (hupgrade : checkWhetherUpgradeRequest request = false)
      (hwritten : r.written = true) (hkeep : r.keepAlive = false) :
      DoHttp limits s (r :: rs) [.response request, .closed]
  | respond (s r rs t request queue effects) (hbytes : r.chunk ≠ []) (hparse : Parse limits s r.chunk (true, t))
      (hqueue : t.self.requestQueue = request :: queue) (hupgrade : checkWhetherUpgradeRequest request = false)
      (hwritten : r.written = true) (hkeep : r.keepAlive = true)
      (hlater : DoHttp limits (HttpConnection.setQueue t queue) rs effects) :
      DoHttp limits s (r :: rs) (.response request :: effects)
  | goOn (s r rs t effects) (hbytes : r.chunk ≠ []) (hparse : Parse limits s r.chunk (true, t))
      (hqueue : t.self.requestQueue = []) (hlater : DoHttp limits t rs effects) : DoHttp limits s (r :: rs) effects

/-- The handshake is completed. -/
def Completes (effects : List ServerEffect) : Prop :=
  (∃ request, .wrote (switchingProtocols sha1 request).makeHeaders ∈ effects) ∧ .startsDoRead ∈ effects

/-- The two entry points complete the handshake on the same reads, and a `Task` that is
neither awaited nor spawned performs nothing. -/
structure Agree (L : Llhttp) (limits : HttpLimits) (reads : List HttpRead) : Prop where
  sameHandshake : ∀ effects effects', OnConnect sha1 L limits reads effects →
    DoHttp sha1 limits ({} : HttpParser L) reads effects' → (Completes sha1 effects ↔ Completes sha1 effects')
  tasksLazy : ∀ (body : List ServerEffect) uses, .resume ∉ uses → ((Task.call body).after uses).performed = []

/-- The requests of a connection, the oldest for each read that leaves some, with the read. -/
def taken (limits : HttpLimits) : Conf L → List HttpRead → List (RawHttpRequest × HttpRead)
  | _, [] => []
  | c, r :: rs =>
      if r.chunk = [] then []
      else
        match c.parse limits r.chunk with
        | .dead _ => []
        | .live state self =>
            match self.requestQueue with
            | [] => taken limits (.live state self) rs
            | request :: queue =>
                (request, r) :: taken limits (.live state { self with requestQueue := queue }) rs

/-- A request among them is for an upgrade and can be answered, and so could those
before it, which left the connection open. -/
def Switches (requests : List (RawHttpRequest × HttpRead)) : Prop :=
  ∃ before request after, requests = before ++ request :: after ∧
    (∀ p ∈ before, p.2.written = true ∧ p.2.keepAlive = true) ∧
    checkWhetherUpgradeRequest request.1 = true ∧ request.2.written = true

section

variable {sha1} {limits : HttpLimits} {reads rs : List HttpRead} {effects : List ServerEffect} {r : HttpRead}
  {request : RawHttpRequest}

theorem completes_handshake (request : RawHttpRequest) (written : Bool) :
    Completes sha1 (onReceivedUpgradeRequest sha1 request written) ↔ written = true := by
  cases written with
  | true => exact iff_of_true ⟨⟨request, by simp [onReceivedUpgradeRequest]⟩, by simp [onReceivedUpgradeRequest]⟩ rfl
  | false => exact iff_of_false (fun h => by simpa [onReceivedUpgradeRequest] using h.2) nofun

theorem completes_response : Completes sha1 (.response request :: effects) ↔ Completes sha1 effects := by
  simp [Completes]

/-- The stand-alone server drops the handshake with its `Task`. -/
theorem onConnect_not_completes (h : OnConnect sha1 L limits reads effects) : ¬ Completes sha1 effects := by
  induction h with
  | readFails => exact fun h => by simpa using h.2
  | noBytes r rs hbytes => exact fun h => by simpa using h.2
  | malformed r rs t hbytes hparse => exact fun h => by simpa using h.2
  | upgrade r rs t request queue hbytes hparse hqueue => exact fun h => by simpa [Task.drop_eq] using h.2
  | goOn r rs t effects hbytes hparse hqueue hlater ih => exact ih

theorem switches_nil : ¬ Switches [] := by
  rintro ⟨before, request, after, heq, -⟩
  cases before <;> cases heq

theorem switches_upgrade {requests : List (RawHttpRequest × HttpRead)}
    (h : checkWhetherUpgradeRequest request = true) : Switches ((request, r) :: requests) ↔ r.written = true := by
  constructor
  · rintro ⟨before, last, after, heq, hbefore, hlast, hwritten⟩
    cases before with
    | nil =>
        cases heq
        exact hwritten
    | cons first before =>
        cases heq
        exact (hbefore _ List.mem_cons_self).1
  · exact fun hwritten => ⟨[], (request, r), requests, rfl, by simp, h, hwritten⟩

theorem switches_plain {requests : List (RawHttpRequest × HttpRead)}
    (h : checkWhetherUpgradeRequest request = false) :
    Switches ((request, r) :: requests) ↔ r.written = true ∧ r.keepAlive = true ∧ Switches requests := by
  constructor
  · rintro ⟨before, last, after, heq, hbefore, hlast, hwritten⟩
    cases before with
    | nil =>
        cases heq
        cases h.symm.trans hlast
    | cons first before =>
        cases heq
        obtain ⟨hsent, hkeep⟩ := hbefore _ List.mem_cons_self
        exact ⟨hsent, hkeep, before, last, after, rfl, fun p hp => hbefore p (List.mem_cons_of_mem _ hp), hlast,
          hwritten⟩
  · rintro ⟨hsent, hkeep, before, last, after, rfl, hbefore, hlast, hwritten⟩
    refine ⟨(request, r) :: before, last, after, rfl, ?_, hlast, hwritten⟩
    intro p hp
    rcases List.mem_cons.mp hp with rfl | hp
    · exact ⟨hsent, hkeep⟩
    · exact hbefore p hp

theorem self_behind (t : HttpParser L) (queue : List RawHttpRequest) :
    (HttpConnection.setQueue t queue).self = HttpConnection.behind queue (HttpConnection.setQueue t []).self := by
  simp [HttpConnection.setQueue, HttpConnection.behind]

theorem opened_setQueue {t : HttpParser L} (h : Opened limits t) (queue : List RawHttpRequest) :
    Opened limits (HttpConnection.setQueue t queue) := by
  intro hlive kind hkind
  have hspan := h hlive kind hkind
  have hself : t.self = HttpConnection.behind t.self.requestQueue (HttpConnection.setQueue t []).self :=
    self_behind t t.self.requestQueue
  rw [hself, HttpConnection.onCall_behind] at hspan
  obtain ⟨hsame, hok⟩ := Prod.mk.inj hspan
  rw [self_behind, HttpConnection.onCall_behind, HttpConnection.behind_injective hsame, hok]

theorem taken_malformed {s t : HttpParser L} (hopened : Opened limits s) (hparse : Parse limits s r.chunk (false, t)) :
    taken limits (conf s) (r :: rs) = [] := by
  obtain ⟨hconf, hdead, -⟩ := parse_conf hopened hparse
  rw [hconf] at hdead
  rw [taken]
  split_ifs
  · rfl
  · cases hresult : (conf s).parse limits r.chunk with
    | dead requests => rfl
    | live state self => simp [hresult, Conf.isLive] at hdead

theorem taken_parsed {s t : HttpParser L} (hopened : Opened limits s) (hbytes : r.chunk ≠ [])
    (hparse : Parse limits s r.chunk (true, t)) :
    taken limits (conf s) (r :: rs) =
      (match t.self.requestQueue with
      | [] => taken limits (conf t) rs
      | request :: queue => (request, r) :: taken limits (conf (HttpConnection.setQueue t queue)) rs) := by
  obtain ⟨hconf, hlive, -⟩ := parse_conf hopened hparse
  rw [taken, if_neg hbytes, ← hconf]
  obtain ⟨_ | state, self, opened⟩ := t
  · cases hlive
  · rfl

/-- `DoHttp` completes the handshake where a request switches. -/
theorem doHttp_completes_iff {s : HttpParser L} (hopened : Opened limits s) (h : DoHttp sha1 limits s reads effects) :
    Completes sha1 effects ↔ Switches (taken limits (conf s) reads) := by
  induction h with
  | readFails s => exact iff_of_false (fun h => by simpa using h.2) switches_nil
  | noBytes s r rs hbytes =>
      rw [taken, if_pos hbytes]
      exact iff_of_false (fun h => by simpa using h.2) switches_nil
  | badRequest s r rs t hbytes hparse =>
      rw [taken_malformed hopened hparse]
      refine iff_of_false (fun h => ?_) switches_nil
      cases hwritten : r.written <;> simpa [hwritten] using h.2
  | upgrade s r rs t request queue hbytes hparse hqueue hupgrade =>
      rw [taken_parsed hopened hbytes hparse, hqueue, Task.coAwait_eq, completes_handshake]
      exact (switches_upgrade hupgrade).symm
  | writeFails s r rs t request queue hbytes hparse hqueue hupgrade hwritten =>
      rw [taken_parsed hopened hbytes hparse, hqueue]
      exact iff_of_false (fun h => by simpa using h.2) (by simp [switches_plain hupgrade, hwritten])
  | close s r rs t request queue hbytes hparse hqueue hupgrade hwritten hkeep =>
      rw [taken_parsed hopened hbytes hparse, hqueue]
      exact iff_of_false (fun h => by simpa using h.2) (by simp [switches_plain hupgrade, hkeep])
  | respond s r rs t request queue effects hbytes hparse hqueue hupgrade hwritten hkeep hlater ih =>
      obtain ⟨-, -, hafter⟩ := parse_conf hopened hparse
      rw [taken_parsed hopened hbytes hparse, hqueue, completes_response, ih (opened_setQueue hafter queue)]
      simp [switches_plain hupgrade, hwritten, hkeep]
  | goOn s r rs t effects hbytes hparse hqueue hlater ih =>
      obtain ⟨-, -, hafter⟩ := parse_conf hopened hparse
      rw [taken_parsed hopened hbytes hparse, hqueue, ih hafter]

theorem exists_onConnect (sha1 : List UInt8 → List UInt8) (L : Llhttp) (limits : HttpLimits) (reads : List HttpRead) :
    ∃ effects, OnConnect sha1 L limits reads effects := by
  induction reads with
  | nil => exact ⟨_, .readFails⟩
  | cons r rs ih =>
      obtain ⟨effects, hlater⟩ := ih
      by_cases hbytes : r.chunk = []
      · exact ⟨_, .noBytes r rs hbytes⟩
      obtain ⟨_ | _, t, hparse⟩ := exists_parse limits ({} : HttpParser L) r.chunk
      · exact ⟨_, .malformed r rs t hbytes hparse⟩
      · cases hqueue : t.self.requestQueue with
        | nil => exact ⟨_, .goOn r rs t effects hbytes hparse hqueue hlater⟩
        | cons request queue => exact ⟨_, .upgrade r rs t request queue hbytes hparse hqueue⟩

theorem exists_doHttp (sha1 : List UInt8 → List UInt8) (limits : HttpLimits) (s : HttpParser L)
    (reads : List HttpRead) : ∃ effects, DoHttp sha1 limits s reads effects := by
  induction reads generalizing s with
  | nil => exact ⟨_, .readFails s⟩
  | cons r rs ih =>
      by_cases hbytes : r.chunk = []
      · exact ⟨_, .noBytes s r rs hbytes⟩
      obtain ⟨_ | _, t, hparse⟩ := exists_parse limits s r.chunk
      · exact ⟨_, .badRequest s r rs t hbytes hparse⟩
      cases hqueue : t.self.requestQueue with
      | nil =>
          obtain ⟨effects, hlater⟩ := ih t
          exact ⟨_, .goOn s r rs t effects hbytes hparse hqueue hlater⟩
      | cons request queue =>
          by_cases hupgrade : checkWhetherUpgradeRequest request = true
          · exact ⟨_, .upgrade s r rs t request queue hbytes hparse hqueue hupgrade⟩
          rw [Bool.not_eq_true] at hupgrade
          cases hwritten : r.written with
          | false => exact ⟨_, .writeFails s r rs t request queue hbytes hparse hqueue hupgrade hwritten⟩
          | true =>
              cases hkeep : r.keepAlive with
              | false => exact ⟨_, .close s r rs t request queue hbytes hparse hqueue hupgrade hwritten hkeep⟩
              | true =>
                  obtain ⟨effects, hlater⟩ := ih (HttpConnection.setQueue t queue)
                  exact ⟨_, .respond s r rs t request queue effects hbytes hparse hqueue hupgrade hwritten hkeep hlater⟩

/-- The stand-alone server completes no handshake, so that the entry points agree where
`DoHttp` completes none. -/
theorem not_agree_of_switches (h : Switches (taken limits (conf ({} : HttpParser L)) reads)) :
    ¬ Agree sha1 L limits reads := by
  intro hagree
  obtain ⟨effects, honConnect⟩ := exists_onConnect sha1 L limits reads
  obtain ⟨effects', hdoHttp⟩ := exists_doHttp sha1 limits ({} : HttpParser L) reads
  have hcompletes := (doHttp_completes_iff (opened_start limits) hdoHttp).mpr h
  exact onConnect_not_completes honConnect ((hagree.sameHandshake effects effects' honConnect hdoHttp).mpr hcompletes)

/-- The entry points agree exactly where no request for an upgrade is taken that can be
answered, behind requests that were answered and kept the connection. -/
theorem entry_points_agree_iff (sha1 : List UInt8 → List UInt8) (L : Llhttp) (limits : HttpLimits)
    (reads : List HttpRead) :
    Agree sha1 L limits reads ↔ ¬ Switches (taken limits (conf ({} : HttpParser L)) reads) := by
  constructor
  · exact fun hagree hswitches => not_agree_of_switches hswitches hagree
  · intro hno
    refine ⟨fun effects effects' honConnect hdoHttp => ?_, fun body uses => Task.lazy⟩
    refine iff_of_false (onConnect_not_completes honConnect) fun hcompletes => ?_
    exact hno ((doHttp_completes_iff (opened_start limits) hdoHttp).mp hcompletes)

end

/-- A parser of one text, which asks for an upgrade, by what is reported of each byte. -/
def parserOf (script : List (UInt8 × List HttpEvent)) : Llhttp where
  State := List (UInt8 × List HttpEvent)
  start := script
  next
    | [], _ => ([], .error)
    | [(c, events)], b =>
        if b = c then (events ++ [.notice .messageComplete], .pausedUpgrade script) else ([], .error)
    | (c, events) :: rest, b => if b = c then (events, .ok rest) else ([], .error)
  completes := by
    intro state b events resumed h
    rcases state with _ | ⟨⟨c, first⟩, _ | ⟨second, rest⟩⟩
    · cases h
    · simp only at h
      split_ifs at h
      · cases h
        exact List.mem_append_right _ List.mem_cons_self
      · cases h
    · simp only at h
      split_ifs at h <;> cases h

def unreported (text : List UInt8) : List (UInt8 × List HttpEvent) := text.map fun b => (b, [])

def span (kind : HttpSpan) (text : List UInt8) : List (UInt8 × List HttpEvent) := text.map fun b => (b, [.byte kind b])

def header (field value : List UInt8) : List (UInt8 × List HttpEvent) :=
  span .headerField field ++ [(58, [.notice .headerFieldComplete]), (32, [])] ++ span .headerValue value ++
    [(13, []), (10, [.notice .headerValueComplete])]

/-- A request for an upgrade to a WebSocket. -/
def upgradeScript : List (UInt8 × List HttpEvent) :=
  unreported (ascii "GET") ++ [(32, [.notice (.method (ascii "GET"))])] ++ span .url (ascii "/") ++
    [(32, [.notice .urlComplete])] ++ unreported (ascii "HTTP/") ++ span .version (ascii "1.1") ++
    [(13, [.notice .versionComplete]), (10, [])] ++ header (ascii "Connection") (ascii "Upgrade") ++
    header (ascii "Upgrade") (ascii "websocket") ++ header (ascii "Sec-WebSocket-Key") (ascii "a") ++
    unreported (ascii "\r\n")

def upgradeRead : HttpRead := ⟨upgradeScript.map Prod.fst, true, true⟩

/-- A request for an upgrade, in one read. -/
theorem entry_points_disagree : ¬ ∀ (sha1 : List UInt8 → List UInt8) (L : Llhttp) (limits : HttpLimits)
    (reads : List HttpRead), Agree sha1 L limits reads := by
  intro h
  refine not_agree_of_switches ?_ (h id (parserOf upgradeScript) {} [upgradeRead])
  have htaken : (taken {} (conf ({} : HttpParser (parserOf upgradeScript))) [upgradeRead]).map
      (fun p => (checkWhetherUpgradeRequest p.1, p.2.written)) = [(true, true)] := by decide +kernel
  rcases hrequests : taken {} (conf ({} : HttpParser (parserOf upgradeScript))) [upgradeRead] with _ | ⟨p, rest⟩
  · rw [hrequests] at htaken
    cases htaken
  · rw [hrequests] at htaken
    simp only [List.map_cons, List.cons.injEq, Prod.mk.injEq] at htaken
    exact ⟨[], p, rest, rfl, by simp, htaken.1.1, htaken.1.2⟩

end WebSocketServer

end Libcold
