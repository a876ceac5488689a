import Libcold.HttpSegmentation
import Libcold.Runs

namespace Libcold

open Runs SpanCalls HttpRequestParser HttpParser HttpSegmentation

variable {L : Llhttp}

inductive HttpSent
  | response (request : RawHttpRequest)
  | badRequest

/-- A connection: its parser, the responses that were written, and whether `DoHttp`
has closed the socket. -/
structure HttpConnection (L : Llhttp) where
  parser : HttpParser L := {}
  sent : List HttpSent := []
  closed : Bool := false

namespace HttpConnection

def setQueue (parser : HttpParser L) (queue : List RawHttpRequest) : HttpParser L :=
  { parser with self := { parser.self with requestQueue := queue } }

/-- What `DoHttp` does from one read to the next. The servlets decide whether a
connection is kept, writing may fail, and a read may give nothing. -/
inductive Step (limits : HttpLimits) : HttpConnection L → List UInt8 → HttpConnection L → Prop
  | badRequest (s chunk t) (hopen : s.closed = false) (hparse : Parse limits s.parser chunk (false, t)) :
      Step limits s chunk ⟨t, s.sent ++ [.badRequest], true⟩
  | respond (s chunk t request rest keepAlive) (hopen : s.closed = false)
      (hparse : Parse limits s.parser chunk (true, t)) (hqueue : t.self.requestQueue = request :: rest) :
      Step limits s chunk ⟨setQueue t rest, s.sent ++ [.response request], !keepAlive⟩
  | goOn (s chunk t) (hopen : s.closed = false) (hparse : Parse limits s.parser chunk (true, t))
      (hqueue : t.self.requestQueue = []) : Step limits s chunk ⟨t, s.sent, false⟩
  | writeFails (s chunk ok t) (hopen : s.closed = false) (hparse : Parse limits s.parser chunk (ok, t)) :
      Step limits s chunk ⟨t, s.sent, true⟩
  | readFails (s) (hopen : s.closed = false) : Step limits s [] { s with closed := true }

/-- A parser that is given the bytes one by one, and so drops none of them. -/
def reading (L : Llhttp) (limits : HttpLimits) (bytes : List UInt8) : Conf L :=
  (Conf.live L.start {}).parseAll limits (bytes.map fun b => [b])

/-- The complete requests among the bytes. -/
def received (L : Llhttp) (limits : HttpLimits) (bytes : List UInt8) : List RawHttpRequest :=
  (reading L limits bytes).queue

/-- Whenever the connection waits for input, every request has its response, and a
malformed one is answered behind those before it. -/
def Answered (limits : HttpLimits) (reads : List (List UInt8)) (s : HttpConnection L) : Prop :=
  (s.closed = false → s.sent = (received L limits reads.flatten).map .response) ∧
    (.badRequest ∈ s.sent → s.sent = (received L limits reads.flatten).map .response ++ [.badRequest])

/-- No read completes two requests, or one and a malformed one, and none goes on
behind a message that asks for an upgrade. -/
def OneByOne (L : Llhttp) (limits : HttpLimits) (reads : List (List UInt8)) : Prop :=
  ∀ before chunk after, reads = before ++ chunk :: after →
    (received L limits (before ++ [chunk]).flatten).length ≤
      (received L limits before.flatten).length +
        (if (reading L limits (before ++ [chunk]).flatten).isLive then 1 else 0) ∧
    unread (reading L limits before.flatten) chunk = []

/-- The queue has more requests before those that it has. -/
def behind (queue : List RawHttpRequest) (self : HttpRequestParser) : HttpRequestParser :=
  { self with requestQueue := queue ++ self.requestQueue }

def confBehind (queue : List RawHttpRequest) : Conf L → Conf L
  | .live state self => .live state (behind queue self)
  | .dead requests => .dead (queue ++ requests)

theorem onCall_behind (limits : HttpLimits) (queue : List RawHttpRequest) (self : HttpRequestParser) (call : HttpCall) :
    onCall limits (behind queue self) call =
      (behind queue (onCall limits self call).1, (onCall limits self call).2) := by
  cases call with
  | span kind bytes =>
      cases kind with
      | url =>
          by_cases h : limits.maxUrlSize < self.buf.length + bytes.length
          · simp [onCall, onUrl, behind, h]
          · simp [onCall, onUrl, behind, h]
      | version => rfl
      | headerField =>
          by_cases hcount : limits.maxHeaderCount < self.curRequest.headers.length + 1
          · simp [onCall, onHeaderField, behind, hcount]
          · by_cases h : limits.maxHeaderFieldSize < self.buf.length + bytes.length
            · simp [onCall, onHeaderField, behind, hcount, h]
            · simp [onCall, onHeaderField, behind, hcount, h]
      | headerValue =>
          by_cases h : limits.maxHeaderValueSize < self.bufForHeaderValue.length + bytes.length
          · simp [onCall, onHeaderValue, behind, h]
          · simp [onCall, onHeaderValue, behind, h]
      | body =>
          by_cases hcheck : self.checkContentLength = true
          · rcases hlength : fromChars (self.curRequest.headers.get (ascii "Content-Length")) with _ | n
            · simp [onCall, onBody, behind, hcheck, hlength]
            · by_cases hn : limits.maxBodySize < n
              · simp [onCall, onBody, behind, hcheck, hlength, hn]
              · simp [onCall, onBody, behind, hcheck, hlength, hn]
          · simp [onCall, onBody, behind, hcheck]
  | notice n =>
      cases n with
      | messageComplete => simp [onCall, onMessageComplete, behind]
      | _ => rfl

theorem run_behind (limits : HttpLimits) (queue : List RawHttpRequest) (self : HttpRequestParser)
    (events : List HttpEvent) :
    runUntil (byEvent (onCall limits)) (behind queue self) events =
      (behind queue (runUntil (byEvent (onCall limits)) self events).1,
        (runUntil (byEvent (onCall limits)) self events).2) := by
  induction events generalizing self with
  | nil => rfl
  | cons event events ih =>
      have hbehind := onCall_behind limits queue self event.call
      rcases hevent : byEvent (onCall limits) self event with ⟨next, _ | _⟩
      · have hfirst : byEvent (onCall limits) (behind queue self) event = (behind queue next, false) := by
          rw [byEvent] at hevent ⊢
          rw [hbehind, hevent]
        rw [runUntil_cons_false hevent, runUntil_cons_false hfirst]
      · have hfirst : byEvent (onCall limits) (behind queue self) event = (behind queue next, true) := by
          rw [byEvent] at hevent ⊢
          rw [hbehind, hevent]
        rw [runUntil_cons hevent, runUntil_cons hfirst, ih]

theorem parse_behind (limits : HttpLimits) (queue : List RawHttpRequest) (c : Conf L) (chunk : List UInt8) :
    (confBehind queue c).parse limits chunk = confBehind queue (c.parse limits chunk) := by
  cases c with
  | dead requests => rfl
  | live state self =>
      simp only [confBehind, Conf.parse, run_behind]
      rcases runUntil (byEvent (onCall limits)) self (L.execute state chunk).1 with ⟨next, _ | _⟩
      · cases (L.execute state chunk).2.1 <;> rfl
      · cases (L.execute state chunk).2.1 <;> rfl

/-- A chunk that is read to its end is read as its bytes are, one by one. -/
theorem parse_bytes {limits : HttpLimits} {c : Conf L} {chunk : List UInt8} (h : unread c chunk = []) :
    c.parseAll limits (chunk.map fun b => [b]) = c.parse limits chunk := by
  have hflatten : (chunk.map fun b => [b]).flatten = chunk := by
    rw [← List.flatMap_def, List.flatMap_singleton']
  by_cases hpaused : Paused c (chunk.map fun b => [b]).flatten
  · obtain ⟨later, hsuffix, hall⟩ := parseAll_of_paused limits hpaused
    rw [hflatten, h] at hsuffix
    have hempty : later.flatten = [] := List.suffix_nil.mp hsuffix
    have hnone : ¬ Paused (c.parse limits chunk) later.flatten := by
      rw [hempty]
      rintro ⟨state, self, events, resumed, rest, -, ⟨⟩⟩
    rw [hall, hflatten, parseAll_of_not_paused hnone, hempty, parse_nil]
  · rw [parseAll_of_not_paused hpaused, hflatten]

theorem reading_append (limits : HttpLimits) (before chunk : List UInt8) :
    reading L limits (before ++ chunk) = (reading L limits before).parseAll limits (chunk.map fun b => [b]) := by
  simp [reading, Conf.parseAll, List.foldl_append]

/-- A connection that waits has read all bytes and answered all requests. -/
structure Waiting (limits : HttpLimits) (reads : List (List UInt8)) (s : HttpConnection L) : Prop where
  opened : Opened limits s.parser
  live : (conf s.parser).isLive = true
  empty : s.parser.self.requestQueue = []
  read : reading L limits reads.flatten = confBehind (received L limits reads.flatten) (conf s.parser)
  sent : s.sent = (received L limits reads.flatten).map .response

/-- What holds in every state that well cut reads lead to. -/
structure Inv (limits : HttpLimits) (reads : List (List UInt8)) (s : HttpConnection L) : Prop where
  waiting : s.closed = false → Waiting limits reads s
  answered : Answered limits reads s

theorem queue_confBehind (queue : List RawHttpRequest) (c : Conf L) :
    (confBehind queue c).queue = queue ++ c.queue := by
  cases c with
  | live state self => rfl
  | dead requests => rfl

theorem isLive_confBehind (queue : List RawHttpRequest) (c : Conf L) : (confBehind queue c).isLive = c.isLive := by
  cases c with
  | live state self => rfl
  | dead requests => rfl

/-- A read that is cut well brings at most one request, and none when it is malformed. -/
theorem Waiting.read_chunk {limits : HttpLimits} {reads : List (List UInt8)} {s : HttpConnection L}
    {t : HttpParser L} {chunk : List UInt8} {ok : Bool} (h : Waiting limits reads s)
    (hguard : OneByOne L limits (reads ++ [chunk])) (hparse : Parse limits s.parser chunk (ok, t)) :
    ok = (conf t).isLive ∧ Opened limits t ∧
      reading L limits (reads ++ [chunk]).flatten = confBehind (received L limits reads.flatten) (conf t) ∧
      received L limits (reads ++ [chunk]).flatten = received L limits reads.flatten ++ t.self.requestQueue ∧
      t.self.requestQueue.length ≤ if ok then 1 else 0 := by
  obtain ⟨hconf, hok, hopened⟩ := parse_conf h.opened hparse
  obtain ⟨hlength, hunread⟩ := hguard reads chunk [] rfl
  have hread : reading L limits (reads ++ [chunk]).flatten =
      confBehind (received L limits reads.flatten) (conf t) := by
    rw [List.flatten_append, List.flatten_singleton, reading_append, parse_bytes hunread, h.read, parse_behind, hconf]
  have hreceived : received L limits (reads ++ [chunk]).flatten =
      received L limits reads.flatten ++ t.self.requestQueue := by
    rw [received, hread, queue_confBehind, queue_conf]
  refine ⟨hok, hopened, hread, hreceived, ?_⟩
  rw [hreceived, hread, isLive_confBehind, ← hok, List.length_append] at hlength
  omega

theorem behind_injective {queue : List RawHttpRequest} {self self' : HttpRequestParser}
    (h : behind queue self = behind queue self') : self = self' := by
  obtain ⟨curRequest, checkContentLength, buf, bufForHeaderValue, requestQueue⟩ := self
  obtain ⟨curRequest', checkContentLength', buf', bufForHeaderValue', requestQueue'⟩ := self'
  simpa [behind] using h

theorem self_eq_behind {t : HttpParser L} {request : RawHttpRequest} (h : t.self.requestQueue = [request]) :
    t.self = behind [request] (setQueue t []).self := by
  obtain ⟨llhttp, ⟨curRequest, checkContentLength, buf, bufForHeaderValue, requestQueue⟩, opened⟩ := t
  obtain rfl : requestQueue = [request] := h
  rfl

theorem opened_taken {limits : HttpLimits} {t : HttpParser L} {request : RawHttpRequest}
    (h : t.self.requestQueue = [request]) (hopened : Opened limits t) : Opened limits (setQueue t []) := by
  intro hlive kind hkind
  have hspan := hopened hlive kind hkind
  rw [self_eq_behind h, onCall_behind] at hspan
  obtain ⟨hself, hok⟩ := Prod.mk.inj hspan
  exact Prod.ext (behind_injective hself) hok

theorem conf_taken {t : HttpParser L} {request : RawHttpRequest} (h : t.self.requestQueue = [request])
    (queue : List RawHttpRequest) :
    confBehind queue (conf t) = confBehind (queue ++ [request]) (conf (setQueue t [])) := by
  have hself := self_eq_behind h
  obtain ⟨_ | state, self, opened⟩ := t
  · simp only [conf, confBehind, setQueue] at h ⊢
    rw [h, List.append_nil]
  · simp only [conf, confBehind, setQueue] at hself ⊢
    rw [hself]
    simp [behind]

theorem isLive_taken {t : HttpParser L} {request : RawHttpRequest} (h : t.self.requestQueue = [request]) :
    (conf (setQueue t [])).isLive = (conf t).isLive := by
  have hconf := congrArg Conf.isLive (conf_taken h [])
  rw [isLive_confBehind, isLive_confBehind] at hconf
  exact hconf.symm

theorem badRequest_not_mem (requests : List RawHttpRequest) : .badRequest ∉ requests.map HttpSent.response := by
  simp

theorem step_inv {limits : HttpLimits} {reads : List (List UInt8)} {s t : HttpConnection L} {chunk : List UInt8}
    (h : Inv limits reads s) (hguard : OneByOne L limits (reads ++ [chunk])) (hstep : Step limits s chunk t) :
    Inv limits (reads ++ [chunk]) t := by
  cases hstep with
  | badRequest _ parser hopen hparse =>
      have hwaiting := h.waiting hopen
      obtain ⟨-, -, -, hreceived, hlength⟩ := hwaiting.read_chunk hguard hparse
      have hnone : parser.self.requestQueue = [] := List.eq_nil_of_length_eq_zero (Nat.le_zero.mp hlength)
      rw [hnone, List.append_nil] at hreceived
      refine ⟨by rintro ⟨⟩, by rintro ⟨⟩, fun _ => ?_⟩
      rw [hreceived, hwaiting.sent]
  | respond _ parser request rest keepAlive hopen hparse hqueue =>
      have hwaiting := h.waiting hopen
      obtain ⟨hok, hopened, hread, hreceived, hlength⟩ := hwaiting.read_chunk hguard hparse
      obtain rfl : rest = [] := by
        rw [hqueue, List.length_cons] at hlength
        exact List.eq_nil_of_length_eq_zero (by simpa using hlength)
      have hsent : s.sent ++ [.response request] = (received L limits (reads ++ [chunk]).flatten).map .response := by
        rw [hwaiting.sent, hreceived, hqueue, List.map_append]
        rfl
      refine ⟨fun _ => ⟨opened_taken hqueue hopened, ?_, rfl, ?_, hsent⟩, fun _ => hsent, ?_⟩
      · rw [isLive_taken hqueue, ← hok]
      · rw [hread, conf_taken hqueue, hreceived, hqueue]
      · intro hbad
        rw [hsent] at hbad
        exact absurd hbad (badRequest_not_mem _)
  | goOn _ parser hopen hparse hqueue =>
      have hwaiting := h.waiting hopen
      obtain ⟨hok, hopened, hread, hreceived, -⟩ := hwaiting.read_chunk hguard hparse
      rw [hqueue, List.append_nil] at hreceived
      have hsent : s.sent = (received L limits (reads ++ [chunk]).flatten).map .response := by
        rw [hreceived, hwaiting.sent]
      refine ⟨fun _ => ⟨hopened, hok.symm, hqueue, by rw [hreceived]; exact hread, hsent⟩, fun _ => hsent, ?_⟩
      intro hbad
      rw [hsent] at hbad
      exact absurd hbad (badRequest_not_mem _)
  | writeFails _ ok parser hopen hparse =>
      refine ⟨by rintro ⟨⟩, by rintro ⟨⟩, fun hbad => ?_⟩
      rw [(h.waiting hopen).sent] at hbad
      exact absurd hbad (badRequest_not_mem _)
  | readFails hopen =>
      refine ⟨by rintro ⟨⟩, by rintro ⟨⟩, fun hbad => ?_⟩
      rw [(h.waiting hopen).sent] at hbad
      exact absurd hbad (badRequest_not_mem _)

theorem OneByOne.of_append {limits : HttpLimits} {first second : List (List UInt8)}
    (h : OneByOne L limits (first ++ second)) : OneByOne L limits first := by
  intro before chunk after hreads
  exact h before chunk (after ++ second) (by simp [hreads])

theorem run_inv {limits : HttpLimits} {reads : List (List UInt8)} {s : HttpConnection L}
    (h : Run (Step limits) {} reads s) (hguard : OneByOne L limits reads) : Inv limits reads s := by
  induction h with
  | stop =>
      refine ⟨fun _ => ⟨opened_start limits, rfl, rfl, rfl, rfl⟩, fun _ => rfl, ?_⟩
      rintro ⟨⟩
  | next _ taken ih => exact step_inv (ih hguard.of_append) hguard taken

end HttpConnection

end Libcold
