import Libcold.HttpCommon
import Libcold.HttpSegmentation

namespace Libcold

open SpanCalls HttpRequestParser HttpParser HttpSegmentation HttpCommon

/-- The fields of a message as they stand in it, one behind the other. -/
abbrev Fields := List (List UInt8 × List UInt8)

def IsLength (p : List UInt8 × List UInt8) : Prop := Spells (ascii "Content-Length") p.1

instance : DecidablePred IsLength := fun p => inferInstanceAs (Decidable (Spells (ascii "Content-Length") p.1))

/-- A message as llhttp reports it. A `Content-Length` is the length of the body, if
there is a body; the trailers are those of the chunked coding. -/
structure HttpMessage where
  method : List UInt8
  url : List UInt8
  version : Option (List UInt8)
  headers : Fields
  body : List UInt8
  trailers : Fields
  named : ∀ p ∈ headers ++ trailers, p.1 ≠ []
  length : ∀ p ∈ headers ++ trailers, IsLength p → ∃ n, fromChars p.2 = some n ∧ (body ≠ [] → body.length = n)

/-- In a message that is accepted to its end no second `Content-Length` stands, and
none beside the chunked coding. -/
structure HttpMessage.Accepted (m : HttpMessage) : Prop where
  once : ∀ before p after, m.headers ++ m.trailers = before ++ p :: after → IsLength p →
    ∀ q ∈ before ++ after, ¬ IsLength q
  unchunked : ∀ p ∈ m.headers ++ m.trailers, IsLength p → m.trailers = []

/-- A span is reported when there is something in it. -/
def spanCalls (kind : HttpSpan) : List UInt8 → List HttpCall
  | [] => []
  | b :: bytes => [.span kind (b :: bytes)]

def fieldCalls (p : List UInt8 × List UInt8) : List HttpCall :=
  spanCalls .headerField p.1 ++ [.notice .headerFieldComplete] ++ spanCalls .headerValue p.2 ++
    [.notice .headerValueComplete]

def callEvents : HttpCall → List HttpEvent
  | .span kind bytes => bytes.map (.byte kind)
  | .notice n => [.notice n]

namespace HttpMessage

/-- The callbacks up to the body. -/
def head (m : HttpMessage) : List HttpCall :=
  [.notice (.method m.method)] ++ (spanCalls .url m.url ++ [.notice .urlComplete]) ++
    (match m.version with
      | some version => spanCalls .version version ++ [.notice .versionComplete]
      | none => []) ++
    m.headers.flatMap fieldCalls

/-- The callbacks of a message in their order, each span in one piece. -/
def calls (m : HttpMessage) : List HttpCall :=
  m.head ++ spanCalls .body m.body ++ m.trailers.flatMap fieldCalls ++ [.notice .messageComplete]

def events (m : HttpMessage) : List HttpEvent := m.calls.flatMap callEvents

/-- The same message, with its names in other spellings. -/
structure Recased (m m' : HttpMessage) : Prop where
  method : m'.method = m.method
  url : m'.url = m.url
  version : m'.version = m.version
  headers : List.Forall₂ (fun p q => Spells p.1 q.1 ∧ q.2 = p.2) m.headers m'.headers
  body : m'.body = m.body
  trailers : List.Forall₂ (fun p q => Spells p.1 q.1 ∧ q.2 = p.2) m.trailers m'.trailers

end HttpMessage

/-- The header map with some more fields, and what is left in the buffer, unless a
field is refused. What is in the buffer before goes to the first name. -/
def addFields (limits : HttpLimits) (headers : HeaderMap) (buf : List UInt8) :
    Fields → Option (HeaderMap × List UInt8)
  | [] => some (headers, buf)
  | p :: ps =>
      if limits.maxHeaderCount < headers.length + 1 ∨ limits.maxHeaderFieldSize < buf.length + p.1.length ∨
          limits.maxHeaderValueSize < p.2.length then none
      else addFields limits (headers.set (buf ++ p.1) p.2) [] ps

/-- The first span of a body is let through. -/
def bodyAllowed (limits : HttpLimits) (headers : HeaderMap) : Bool :=
  match fromChars (headers.get (ascii "Content-Length")) with
  | some contentLength => contentLength ≤ limits.maxBodySize
  | none => false

namespace HttpMessage

/-- The request line. -/
def line (m : HttpMessage) : RawHttpRequest where
  method := m.method.map toUpper
  url := m.url
  version := m.version.elim [] (ascii "HTTP/" ++ ·)

/-- The request that a message becomes, unless it is refused. -/
def request (limits : HttpLimits) (m : HttpMessage) : Option RawHttpRequest :=
  if limits.maxUrlSize < m.url.length ∨ hasDots m.url = true then none
  else
    (addFields limits [] [] m.headers).bind fun added =>
      if m.body ≠ [] ∧ bodyAllowed limits added.1 = false then none
      else
        (addFields limits added.1 m.body m.trailers).map fun r => { m.line with headers := r.1, body := r.2 }

end HttpMessage

namespace HttpRequestParser

/-- The parser between two messages. -/
def between (queue : List RawHttpRequest) : HttpRequestParser := { requestQueue := queue }

/-- What a run ends with: a parser, or a refusal that leaves the queue as it was. -/
def Ends (queue : List RawHttpRequest) (r : HttpRequestParser × Bool) : Option HttpRequestParser → Prop
  | some s => r = (s, true)
  | none => r.2 = false ∧ r.1.requestQueue = queue

section

variable {limits : HttpLimits} {queue : List RawHttpRequest} {s t : HttpRequestParser}

theorem Ends.refused {first : List HttpCall} (h : Ends queue (runUntil (onCall limits) s first) none)
    (second : List HttpCall) : Ends queue (runUntil (onCall limits) s (first ++ second)) none := by
  obtain ⟨hfalse, hqueue⟩ := h
  rw [runUntil_append]
  rcases hfirst : runUntil (onCall limits) s first with ⟨t, _ | _⟩
  · rw [hfirst] at hqueue
    exact ⟨rfl, hqueue⟩
  · rw [hfirst] at hfalse
    cases hfalse

theorem Ends.andThen {first second : List HttpCall} {outcome : Option HttpRequestParser}
    (h : Ends queue (runUntil (onCall limits) s first) (some t))
    (hsecond : Ends queue (runUntil (onCall limits) t second) outcome) :
    Ends queue (runUntil (onCall limits) s (first ++ second)) outcome := by
  rw [runUntil_append, show runUntil (onCall limits) s first = (t, true) from h]
  exact hsecond

/-- A notice that is never refused. -/
theorem ends_notice (n : HttpNotice) (h : onCall limits s (.notice n) = (t, true)) :
    Ends queue (runUntil (onCall limits) s [.notice n]) (some t) := by
  rw [runUntil_single]
  exact h

theorem ends_spanCalls {kind : HttpSpan} {bytes : List UInt8} {outcome : Option HttpRequestParser}
    (hempty : bytes = [] → outcome = some s)
    (hspan : bytes ≠ [] → Ends queue (onCall limits s (.span kind bytes)) outcome) :
    Ends queue (runUntil (onCall limits) s (spanCalls kind bytes)) outcome := by
  cases bytes with
  | nil =>
      rw [hempty rfl]
      rfl
  | cons b bytes =>
      rw [spanCalls, runUntil_single]
      exact hspan (List.cons_ne_nil b bytes)

theorem ends_url (limits : HttpLimits) (hbuf : s.buf = []) (url : List UInt8) :
    Ends s.requestQueue (runUntil (onCall limits) s (spanCalls .url url ++ [.notice .urlComplete]))
      (if limits.maxUrlSize < url.length ∨ hasDots url = true then none
        else some { s with curRequest := { s.curRequest with url } }) := by
  by_cases hlong : limits.maxUrlSize < url.length
  · rw [if_pos (.inl hlong)]
    refine Ends.refused (ends_spanCalls (by rintro rfl; simp at hlong) fun _ => ?_) _
    simp [onCall, onUrl, hbuf, hlong, Ends]
  · have hspan : Ends s.requestQueue (runUntil (onCall limits) s (spanCalls .url url))
        (some { s with buf := url }) := by
      refine ends_spanCalls (by rintro rfl; rw [← hbuf]) fun _ => ?_
      simp [onCall, onUrl, hbuf, hlong, Ends]
    refine hspan.andThen ?_
    rw [runUntil_single]
    by_cases hdots : hasDots url = true
    · rw [if_pos (.inr hdots)]
      exact ⟨by simp [onCall, onUrlComplete, hdots], rfl⟩
    · rw [if_neg (not_or.mpr ⟨hlong, hdots⟩)]
      simp [onCall, onUrlComplete, hdots, hbuf, Ends]

theorem ends_version (hbuf : s.buf = []) (version : Option (List UInt8)) :
    Ends queue
      (runUntil (onCall limits) s
        (match version with
          | some version => spanCalls .version version ++ [.notice .versionComplete]
          | none => []))
      (some { s with curRequest :=
        { s.curRequest with version := version.elim s.curRequest.version (ascii "HTTP/" ++ ·) } }) := by
  cases version with
  | none => rfl
  | some version =>
      have hspan : Ends queue (runUntil (onCall limits) s (spanCalls .version version))
          (some { s with buf := version }) := by
        refine ends_spanCalls (by rintro rfl; rw [← hbuf]) fun _ => ?_
        simp [onCall, onVersion, hbuf, Ends]
      refine hspan.andThen (ends_notice _ ?_)
      simp [onCall, onVersionComplete, hbuf]

/-- A field becomes an entry, unless it is refused. -/
theorem ends_field (limits : HttpLimits) (hvalue : s.bufForHeaderValue = []) {p : List UInt8 × List UInt8}
    (hnamed : p.1 ≠ []) :
    Ends s.requestQueue (runUntil (onCall limits) s (fieldCalls p))
      (if limits.maxHeaderCount < s.curRequest.headers.length + 1 ∨
          limits.maxHeaderFieldSize < s.buf.length + p.1.length ∨ limits.maxHeaderValueSize < p.2.length then none
        else some { s with curRequest := s.curRequest.setHeader (s.buf ++ p.1) p.2, buf := [] }) := by
  rw [fieldCalls]
  by_cases hname : limits.maxHeaderCount < s.curRequest.headers.length + 1 ∨
      limits.maxHeaderFieldSize < s.buf.length + p.1.length
  · rw [if_pos (or_assoc.mp (.inl hname))]
    refine (((ends_spanCalls (fun hnil => absurd hnil hnamed) fun _ => ?_).refused _).refused _).refused _
    rcases hname with hcount | hlong
    · simp [onCall, onHeaderField, hcount, Ends]
    · by_cases hcount : limits.maxHeaderCount < s.curRequest.headers.length + 1
      · simp [onCall, onHeaderField, hcount, Ends]
      · simp [onCall, onHeaderField, hcount, hlong, Ends]
  · rw [not_or] at hname
    have hfield : Ends s.requestQueue (runUntil (onCall limits) s (spanCalls .headerField p.1))
        (some { s with buf := s.buf ++ p.1 }) := by
      refine ends_spanCalls (fun hnil => absurd hnil hnamed) fun _ => ?_
      simp [onCall, onHeaderField, hname, Ends]
    have hcomplete : Ends s.requestQueue
        (runUntil (onCall limits) s (spanCalls .headerField p.1 ++ [.notice .headerFieldComplete]))
        (some { s with buf := s.buf ++ p.1 }) := hfield.andThen (ends_notice _ rfl)
    by_cases hlong : limits.maxHeaderValueSize < p.2.length
    · rw [if_pos (.inr (.inr hlong))]
      refine (hcomplete.andThen (ends_spanCalls (fun hnil => ?_) fun _ => ?_)).refused _
      · simp [hnil] at hlong
      · simp [onCall, onHeaderValue, hvalue, hlong, Ends]
    · rw [if_neg (by simp [hname, hlong])]
      have htaken : Ends s.requestQueue
          (runUntil (onCall limits) { s with buf := s.buf ++ p.1 } (spanCalls .headerValue p.2))
          (some { s with buf := s.buf ++ p.1, bufForHeaderValue := p.2 }) := by
        refine ends_spanCalls (fun hnil => ?_) fun _ => ?_
        · rw [hnil, ← hvalue]
        · simp [onCall, onHeaderValue, hvalue, hlong, Ends]
      refine (hcomplete.andThen htaken).andThen (ends_notice _ ?_)
      simp [onCall, onHeaderValueComplete, hvalue]

/-- The header map that the fields lead to. -/
theorem ends_fields (limits : HttpLimits) (hvalue : s.bufForHeaderValue = []) {ps : Fields}
    (hnamed : ∀ p ∈ ps, p.1 ≠ []) :
    Ends s.requestQueue (runUntil (onCall limits) s (ps.flatMap fieldCalls))
      ((addFields limits s.curRequest.headers s.buf ps).map fun r =>
        { s with curRequest := { s.curRequest with headers := r.1 }, buf := r.2 }) := by
  induction ps generalizing s with
  | nil => rfl
  | cons p ps ih =>
      have hfield := ends_field limits hvalue (hnamed p List.mem_cons_self)
      rw [List.flatMap_cons, addFields]
      split_ifs at hfield ⊢
      · exact hfield.refused _
      · exact hfield.andThen (ih (s := { s with curRequest := s.curRequest.setHeader (s.buf ++ p.1) p.2, buf := [] })
          hvalue fun q hq => hnamed q (List.mem_cons_of_mem _ hq))

theorem ends_body (limits : HttpLimits) (hcheck : s.checkContentLength = true) (hbuf : s.buf = [])
    (body : List UInt8) :
    Ends s.requestQueue (runUntil (onCall limits) s (spanCalls .body body))
      (if body ≠ [] ∧ bodyAllowed limits s.curRequest.headers = false then none
        else some { s with buf := body, checkContentLength := decide (body = []) }) := by
  refine ends_spanCalls (fun hnil => ?_) fun hbody => ?_
  · simp [hnil, ← hbuf, ← hcheck]
  · rw [bodyAllowed]
    cases hlength : fromChars (s.curRequest.headers.get (ascii "Content-Length")) with
    | none => simp [onCall, onBody, hcheck, hlength, hbody, Ends]
    | some contentLength =>
        by_cases hlong : limits.maxBodySize < contentLength
        · simp [onCall, onBody, hcheck, hlength, hlong, hbody, Ends]
        · simp [onCall, onBody, hcheck, hlength, hlong, hbody, hbuf, Ends]

theorem buf_addFields {headers headers' : HeaderMap} {buf : List UInt8} {ps : Fields}
    (h : addFields limits headers [] ps = some (headers', buf)) : buf = [] := by
  induction ps generalizing headers with
  | nil =>
      cases h
      rfl
  | cons p ps ih =>
      rw [addFields] at h
      split_ifs at h
      exact ih h

/-- The parser within a message. -/
def within (queue : List RawHttpRequest) (curRequest : RawHttpRequest) (buf : List UInt8) (checkContentLength : Bool) :
    HttpRequestParser :=
  { curRequest, checkContentLength, buf, requestQueue := queue }

/-- What a message between two others comes to. -/
theorem ends_calls (limits : HttpLimits) (queue : List RawHttpRequest) (m : HttpMessage) :
    Ends queue (runUntil (onCall limits) (between queue) m.calls)
      ((m.request limits).map fun r => between (queue ++ [r])) := by
  have hmethod : Ends queue (runUntil (onCall limits) (between queue) [.notice (.method m.method)])
      (some (within queue { method := m.method.map toUpper } [] true)) := ends_notice _ rfl
  have hurl := ends_url limits (s := within queue { method := m.method.map toUpper } [] true) rfl m.url
  rw [HttpMessage.request, HttpMessage.calls, HttpMessage.head]
  by_cases hrefused : limits.maxUrlSize < m.url.length ∨ hasDots m.url = true
  · rw [if_pos hrefused] at hurl ⊢
    exact (((((hmethod.andThen hurl).refused _).refused _).refused _).refused _).refused _
  · rw [if_neg hrefused] at hurl ⊢
    have hline : Ends queue _ (some (within queue m.line [] true)) :=
      (hmethod.andThen hurl).andThen (ends_version rfl m.version)
    have hheaders := ends_fields limits (s := within queue m.line [] true) rfl fun p hp =>
      m.named p (List.mem_append_left m.trailers hp)
    change Ends queue _ ((addFields limits [] [] m.headers).map fun r =>
      within queue { m.line with headers := r.1 } r.2 true) at hheaders
    cases hadd : addFields limits [] [] m.headers with
    | none =>
        rw [hadd] at hheaders
        exact (((hline.andThen hheaders).refused _).refused _).refused _
    | some r =>
        obtain ⟨headers, buf⟩ := r
        obtain rfl := buf_addFields hadd
        rw [hadd] at hheaders
        have hread := hline.andThen hheaders
        have hbody := ends_body limits (s := within queue { m.line with headers } [] true) rfl rfl m.body
        change Ends queue _ (if m.body ≠ [] ∧ bodyAllowed limits headers = false then none
          else some (within queue { m.line with headers } m.body (decide (m.body = [])))) at hbody
        rw [Option.bind_some]
        dsimp only
        by_cases hlength : m.body ≠ [] ∧ bodyAllowed limits headers = false
        · rw [if_pos hlength] at hbody ⊢
          exact ((hread.andThen hbody).refused _).refused _
        · rw [if_neg hlength] at hbody ⊢
          have htrailers := ends_fields limits
            (s := within queue { m.line with headers } m.body (decide (m.body = []))) rfl fun p hp =>
              m.named p (List.mem_append_right m.headers hp)
          change Ends queue _ ((addFields limits headers m.body m.trailers).map fun r =>
            within queue { m.line with headers := r.1 } r.2 (decide (m.body = []))) at htrailers
          cases hmore : addFields limits headers m.body m.trailers with
          | none =>
              rw [hmore] at htrailers
              exact ((hread.andThen hbody).andThen htrailers).refused _
          | some r =>
              rw [hmore] at htrailers
              exact ((hread.andThen hbody).andThen htrailers).andThen (ends_notice _ rfl)

theorem Ends.of_same {r r' : HttpRequestParser × Bool} {outcome : Option HttpRequestParser}
    (h : Ends queue r outcome) (hsame : Same requestQueue r r') : Ends queue r' outcome := by
  obtain ⟨hok, hqueue, hself⟩ := hsame
  cases outcome with
  | none => exact ⟨hok.symm.trans h.1, hqueue.symm.trans h.2⟩
  | some s =>
      obtain rfl : r = (s, true) := h
      exact Prod.ext (hself rfl).symm hok.symm

end

/-- No call reports an empty span. -/
def Filled (calls : List HttpCall) : Prop := ∀ kind, .span kind [] ∉ calls

theorem grouped_filled {calls : List HttpCall} (h : Filled calls) (opened : Option HttpSpan) :
    Grouped opened calls (calls.flatMap callEvents) := by
  induction calls generalizing opened with
  | nil => exact .done opened
  | cons call calls ih =>
      have hlater : Filled calls := fun kind hmem => h kind (List.mem_cons_of_mem _ hmem)
      cases call with
      | span kind bytes =>
          refine .span (.inl ?_) (ih hlater (some kind))
          rintro rfl
          exact h kind List.mem_cons_self
      | notice n => exact .notice (ih hlater none)

theorem filled_append {first second : List HttpCall} (h : Filled first) (h' : Filled second) :
    Filled (first ++ second) :=
  fun kind hmem => (List.mem_append.mp hmem).elim (h kind) (h' kind)

theorem filled_notice (n : HttpNotice) : Filled [.notice n] := by
  intro kind hmem
  simp at hmem

theorem filled_spanCalls (kind : HttpSpan) (bytes : List UInt8) : Filled (spanCalls kind bytes) := by
  intro kind' hmem
  cases bytes <;> simp [spanCalls] at hmem

theorem filled_fields (ps : Fields) : Filled (ps.flatMap fieldCalls) := by
  intro kind hmem
  obtain ⟨p, -, hp⟩ := List.mem_flatMap.mp hmem
  exact filled_append (filled_append (filled_append (filled_spanCalls _ _) (filled_notice _)) (filled_spanCalls _ _))
    (filled_notice _) kind hp

theorem filled_calls (m : HttpMessage) : Filled m.calls := by
  have hversion : Filled (match m.version with
      | some version => spanCalls .version version ++ [.notice .versionComplete]
      | none => []) := by
    cases m.version with
    | none => simp [Filled]
    | some version => exact filled_append (filled_spanCalls _ _) (filled_notice _)
  have hline := filled_append (filled_append (filled_notice (.method m.method))
    (filled_append (filled_spanCalls .url m.url) (filled_notice .urlComplete))) hversion
  exact filled_append (filled_append (filled_append (filled_append hline (filled_fields _)) (filled_spanCalls _ _))
    (filled_fields _)) (filled_notice _)

/-- However its spans are cut, a message comes to its request. -/
theorem ends_events (limits : HttpLimits) (queue : List RawHttpRequest) (m : HttpMessage) :
    Ends queue (runUntil (byEvent (onCall limits)) (between queue) m.events)
      ((m.request limits).map fun r => between (queue ++ [r])) :=
  (ends_calls limits queue m).of_same
    ((onCall_splits limits).grouped (grouped_filled (filled_calls m) none) _ (by rintro kind ⟨⟩))

/-- The requests of successive messages, up to the first that is refused, and whether
none is. -/
def requests (limits : HttpLimits) : List HttpMessage → List RawHttpRequest × Bool
  | [] => ([], true)
  | m :: ms =>
      match m.request limits with
      | some r => (r :: (requests limits ms).1, (requests limits ms).2)
      | none => ([], false)

theorem run_messages (limits : HttpLimits) (queue : List RawHttpRequest) (ms : List HttpMessage) :
    let r := runUntil (byEvent (onCall limits)) (between queue) (ms.flatMap HttpMessage.events)
    r.1.requestQueue = queue ++ (requests limits ms).1 ∧ r.2 = (requests limits ms).2 := by
  induction ms generalizing queue with
  | nil => exact ⟨(List.append_nil queue).symm, rfl⟩
  | cons m ms ih =>
      have hfirst := ends_events limits queue m
      rw [List.flatMap_cons, requests, runUntil_append]
      cases hrequest : m.request limits with
      | some r =>
          rw [hrequest] at hfirst
          rw [show runUntil _ _ m.events = (between (queue ++ [r]), true) from hfirst]
          obtain ⟨hqueue, hok⟩ := ih (queue ++ [r])
          exact ⟨by simpa using hqueue, hok⟩
      | none =>
          rw [hrequest] at hfirst
          rcases hrun : runUntil (byEvent (onCall limits)) (between queue) m.events with ⟨t, _ | _⟩
          · rw [hrun] at hfirst
            exact ⟨by simpa using hfirst.2, rfl⟩
          · rw [hrun] at hfirst
            cases hfirst.1

theorem requestQueue_prefix (limits : HttpLimits) (self : HttpRequestParser) (events : List HttpEvent) :
    self.requestQueue <+: (runUntil (byEvent (onCall limits)) self events).1.requestQueue := by
  induction events generalizing self with
  | nil => exact List.prefix_rfl
  | cons event events ih =>
      obtain ⟨more, hmore, -⟩ := requestQueue_call limits self event.call
      have hfirst : self.requestQueue <+: (byEvent (onCall limits) self event).1.requestQueue := ⟨more, hmore.symm⟩
      rcases hevent : byEvent (onCall limits) self event with ⟨t, _ | _⟩
      · rw [runUntil_cons_false hevent]
        rwa [hevent] at hfirst
      · rw [runUntil_cons hevent]
        rw [hevent] at hfirst
        exact hfirst.trans (ih t)

/-- The requests of the first events are among those of all. -/
theorem requestQueue_mono (limits : HttpLimits) (self : HttpRequestParser) {first events : List HttpEvent}
    (h : first <+: events) :
    (runUntil (byEvent (onCall limits)) self first).1.requestQueue <+:
      (runUntil (byEvent (onCall limits)) self events).1.requestQueue := by
  obtain ⟨rest, rfl⟩ := h
  rw [runUntil_append]
  rcases runUntil (byEvent (onCall limits)) self first with ⟨t, _ | _⟩
  · exact List.prefix_rfl
  · exact requestQueue_prefix limits t rest

end HttpRequestParser

namespace Llhttp

variable (L : Llhttp)

/-- The events of successive calls of `llhttp_execute`, up to an error, and the state
they end in. -/
def executeAll : L.State → List (List UInt8) → List HttpEvent × Option L.State
  | state, [] => ([], some state)
  | state, chunk :: chunks =>
      match L.execute state chunk with
      | (events, .ok next, _) | (events, .pausedUpgrade next, _) =>
          (events ++ (executeAll next chunks).1, (executeAll next chunks).2)
      | (events, .error, _) => (events, none)

variable {L}

theorem execute_ok {state next : L.State} {b : UInt8} {events : List HttpEvent}
    (h : L.next state b = (events, .ok next)) (bytes : List UInt8) :
    L.execute state (b :: bytes) =
      (events ++ (L.execute next bytes).1, (L.execute next bytes).2.1, (L.execute next bytes).2.2) := by
  simp only [execute, h]

theorem execute_error {state : L.State} {b : UInt8} {events : List HttpEvent} (h : L.next state b = (events, .error))
    (bytes : List UInt8) : L.execute state (b :: bytes) = (events, .error, bytes) := by
  simp only [execute, h]

theorem executeAll_ok {state next : L.State} {chunk rest : List UInt8} {events : List HttpEvent}
    (h : L.execute state chunk = (events, .ok next, rest)) (chunks : List (List UInt8)) :
    L.executeAll state (chunk :: chunks) = (events ++ (L.executeAll next chunks).1, (L.executeAll next chunks).2) := by
  simp only [executeAll, h]

theorem executeAll_error {state : L.State} {chunk rest : List UInt8} {events : List HttpEvent}
    (h : L.execute state chunk = (events, .error, rest)) (chunks : List (List UInt8)) :
    L.executeAll state (chunk :: chunks) = (events, none) := by
  simp only [executeAll, h]

theorem parseAll_executeAll (limits : HttpLimits) (state : L.State) (self : HttpRequestParser)
    (chunks : List (List UInt8)) :
    let r := runUntil (byEvent (onCall limits)) self (L.executeAll state chunks).1
    ((Conf.live state self).parseAll limits chunks).queue = r.1.requestQueue ∧
      ((Conf.live state self).parseAll limits chunks).isLive = (r.2 && (L.executeAll state chunks).2.isSome) := by
  induction chunks generalizing state self with
  | nil => exact ⟨rfl, rfl⟩
  | cons chunk chunks ih =>
      have hgoOn (next : L.State) (events : List HttpEvent) :
          let r := runUntil (byEvent (onCall limits)) self (events ++ (L.executeAll next chunks).1)
          let c := (Conf.settle (runUntil (byEvent (onCall limits)) self events) (.ok next)).parseAll limits chunks
          c.queue = r.1.requestQueue ∧ c.isLive = (r.2 && (L.executeAll next chunks).2.isSome) := by
        rw [runUntil_append]
        rcases runUntil (byEvent (onCall limits)) self events with ⟨t, _ | _⟩
        · have hdead : (.dead t.requestQueue : Conf L).parseAll limits chunks = _ := parseAll_of_not_live rfl chunks
          exact ⟨congrArg Conf.queue hdead, congrArg Conf.isLive hdead⟩
        · exact ih next t
      have hcons : (Conf.live state self).parseAll limits (chunk :: chunks) =
          ((Conf.live state self).parse limits chunk).parseAll limits chunks := rfl
      rw [hcons, executeAll, Conf.parse]
      rcases L.execute state chunk with ⟨events, next | _ | next, rest⟩
      · exact hgoOn next events
      · dsimp only
        rw [settle_error]
        have hdead : (.dead (runUntil (byEvent (onCall limits)) self events).1.requestQueue : Conf L).parseAll limits
            chunks = _ := parseAll_of_not_live rfl chunks
        exact ⟨congrArg Conf.queue hdead, (congrArg Conf.isLive hdead).trans (Bool.and_false _).symm⟩
      · have hsettle (r : HttpRequestParser × Bool) :
            Conf.settle r (.pausedUpgrade next : LlhttpEnd L.State) = Conf.settle r (.ok next) := by
          obtain ⟨t, _ | _⟩ := r <;> rfl
        dsimp only
        rw [hsettle]
        exact hgoOn next events

/-- What `Parse` makes of the bytes is what the callbacks make of the events. -/
theorem parseAll_eq {limits : HttpLimits} {chunks : List (List UInt8)} {ok : Bool} {t : HttpParser L}
    (h : ParseAll limits ({} : HttpParser L) chunks (ok, t)) :
    let r := runUntil (byEvent (onCall limits)) (between []) (L.executeAll L.start chunks).1
    t.self.requestQueue = r.1.requestQueue ∧ ok = (r.2 && (L.executeAll L.start chunks).2.isSome) := by
  obtain ⟨hconf, hok⟩ := parseAll_conf (opened_start limits) rfl h
  have hstart : conf ({} : HttpParser L) = .live L.start (between []) := rfl
  obtain ⟨hqueue, hlive⟩ := parseAll_executeAll limits L.start (between []) chunks
  rw [hok, ← queue_conf, hconf, hstart]
  exact ⟨hqueue, hlive⟩

/-- What `Parse` makes of the bytes of some messages. -/
theorem parseAll_messages {limits : HttpLimits} {chunks : List (List UInt8)} {ok : Bool} {t : HttpParser L}
    (h : ParseAll limits ({} : HttpParser L) chunks (ok, t)) {ms : List HttpMessage} {state : L.State}
    (hevents : L.executeAll L.start chunks = (ms.flatMap HttpMessage.events, some state)) :
    t.self.requestQueue = (requests limits ms).1 ∧ ok = (requests limits ms).2 := by
  obtain ⟨hqueue, hok⟩ := parseAll_eq h
  rw [hevents] at hqueue hok
  obtain ⟨hqueue', hok'⟩ := run_messages limits [] ms
  exact ⟨hqueue.trans hqueue', by rw [hok, hok']; exact Bool.and_true _⟩

end Llhttp

end Libcold
