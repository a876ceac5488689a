import Libcold.HttpResponse

namespace Libcold.Http

open HttpCommon

/-- What filters, servlets and error-page handlers do to a response. -/
inductive ResponseOp
  | setStatus (status : HttpStatus)
  | setHeader (key value : List UInt8)
  | setBody (body : HttpResponseBody)
  | sendRedirect (url : List UInt8)
  | addCookie (cookie : HttpCookie)

namespace HttpResponse

def perform (r : HttpResponse) : ResponseOp → HttpResponse
  | .setStatus status => r.setStatus status
  | .setHeader key value => r.setHeader key value
  | .setBody body => r.setBody body
  | .sendRedirect url => r.sendRedirect url
  | .addCookie cookie => r.addCookie cookie

def performAll (r : HttpResponse) (ops : List ResponseOp) : HttpResponse := ops.foldl perform r

/-- The length of the body is given, in every spelling of the field that is there. -/
def Framed (r : HttpResponse) : Prop :=
  (∃ p ∈ r.sentHeaders, Spells (ascii "Content-Length") p.1) ∧
    ∀ p ∈ r.sentHeaders, Spells (ascii "Content-Length") p.1 → readDecimal p.2 = some r.sentBody.length

end HttpResponse

/-- The handler that the constructor of `HttpServer` installs. -/
def defaultErrorPage (r : HttpResponse) : List ResponseOp :=
  let title := decimal r.status.code ++ ascii " " ++ ascii r.status.message
  [.setBody (.text (ascii "<html><head><title>" ++ title ++ ascii "</title></head><body><center><h1>" ++ title ++
      ascii "</h1></center><hr><center>Cold/1.0.0</center></body></html>")),
    .setHeader (ascii "Content-type") (ascii "text/html;charset=utf-8")]

/-- A server by what its filters and servlets do for a request, and its handlers for
a response. -/
structure HttpServer where
  servlets : HttpRequest → List ResponseOp
  errorPageHandler : HttpStatus → Option (HttpResponse → List ResponseOp) := fun _ => none
  defaultErrorPageHandler : HttpResponse → List ResponseOp := defaultErrorPage

namespace HttpServer

variable (server : HttpServer)

/-- The response before the servlets have it; a request that is malformed is none. -/
def opened : Option RawHttpRequest → HttpResponse
  | none => (({} : HttpResponse).setStatus .badRequest).setCloseConnection true
  | some rawRequest =>
      (({} : HttpResponse).setCloseConnection (!(HttpRequest.ofRaw rawRequest).isKeepAlive)).setVersion
        rawRequest.version

def handled : Option RawHttpRequest → List ResponseOp
  | none => []
  | some rawRequest => server.servlets (HttpRequest.ofRaw rawRequest)

def errorPage (r : HttpResponse) : List ResponseOp :=
  if r.status.code = HttpStatus.ok.code then []
  else
    match server.errorPageHandler r.status with
    | some handler => handler r
    | none => server.defaultErrorPageHandler r

/-- The response that `DoHttp` sends. -/
def respond (received : Option RawHttpRequest) : HttpResponse :=
  let r := (opened received).performAll (server.handled received)
  r.performAll (server.errorPage r)

/-- All that is done to the response. -/
def operations (received : Option RawHttpRequest) : List ResponseOp :=
  server.handled received ++ server.errorPage ((opened received).performAll (server.handled received))

end HttpServer

namespace ResponseOp

/-- What an operation writes under a key. -/
def written (key : List UInt8) : ResponseOp → Option (List UInt8)
  | setHeader k value => if k = key then some value else none
  | setBody body => HeaderMap.lookup (body.setRelatedHeaders []) key
  | sendRedirect url => if ascii "Location" = key then some url else none
  | _ => none

def body? : ResponseOp → Option HttpResponseBody
  | setBody body => some body
  | _ => none

def lastWritten (ops : List ResponseOp) (key : List UInt8) : Option (List UInt8) := ops.reverse.findSome? (written key)

def lastBody (ops : List ResponseOp) : Option HttpResponseBody := ops.reverse.findSome? body?

def bodyLength (ops : List ResponseOp) : Nat :=
  match lastBody ops with
  | some body => body.content.length
  | none => 0

/-- Some operation writes the length, and of each spelling the last one that does
writes that of the last body. -/
structure LengthGiven (ops : List ResponseOp) : Prop where
  given : ∃ key, Spells (ascii "Content-Length") key ∧ (lastWritten ops key).isSome
  right : ∀ key value, Spells (ascii "Content-Length") key → lastWritten ops key = some value →
    readDecimal value = some (bodyLength ops)

theorem lastWritten_split (before after : List ResponseOp) (op : ResponseOp) (key : List UInt8) :
    lastWritten (before ++ op :: after) key =
      (lastWritten after key).or ((written key op).or (lastWritten before key)) := by
  simp only [lastWritten, List.reverse_append, List.reverse_cons, List.append_assoc, List.findSome?_append,
    List.findSome?_cons, List.findSome?_nil]
  cases written key op <;> rfl

theorem lastWritten_none {ops : List ResponseOp} {key : List UInt8} (h : ∀ op ∈ ops, written key op = none) :
    lastWritten ops key = none := by
  rw [lastWritten, List.findSome?_eq_none_iff]
  intro op hop
  exact h op (List.mem_reverse.mp hop)

/-- A `TextBody` gives its length, if nobody else gives one in another spelling or later. -/
theorem lengthGiven_text {before after : List ResponseOp} (body : List UInt8)
    (hbefore : ∀ key, Spells (ascii "Content-Length") key → key ≠ ascii "Content-Length" →
      ∀ op ∈ before, written key op = none)
    (hafter : ∀ key, Spells (ascii "Content-Length") key → ∀ op ∈ after, written key op = none)
    (hlast : ∀ op ∈ after, body? op = none) : LengthGiven (before ++ .setBody (.text body) :: after) := by
  have hlength : bodyLength (before ++ .setBody (.text body) :: after) = body.length := by
    have hnone : after.reverse.findSome? body? = none := by simpa using hlast
    have hbody : lastBody (before ++ .setBody (.text body) :: after) = some (.text body) := by
      simp only [lastBody, List.reverse_append, List.reverse_cons, List.append_assoc, List.findSome?_append, hnone]
      rfl
    rw [bodyLength, hbody]
    rfl
  have hwritten (key : List UInt8) (hkey : Spells (ascii "Content-Length") key) :
      lastWritten (before ++ .setBody (.text body) :: after) key =
        if key = ascii "Content-Length" then some (decimal body.length) else none := by
    have htype : ascii "Content-Type" ≠ key := by
      rintro rfl
      exact absurd hkey (by decide)
    rw [lastWritten_split, lastWritten_none (hafter key hkey), Option.none_or]
    simp only [written, HttpResponseBody.setRelatedHeaders, HeaderMap.lookup_set, if_neg htype]
    by_cases hname : key = ascii "Content-Length"
    · rw [if_pos hname.symm, if_pos hname, Option.some_or]
    · rw [if_neg (Ne.symm hname), if_neg hname, lastWritten_none (hbefore key hkey hname)]
      rfl
  refine ⟨⟨ascii "Content-Length", rfl, by rw [hwritten _ rfl, if_pos rfl]; rfl⟩, fun key value hkey hvalue => ?_⟩
  rw [hwritten key hkey] at hvalue
  split_ifs at hvalue
  cases hvalue
  rw [hlength, readDecimal_decimal]

end ResponseOp

namespace HttpResponse

open ResponseOp

theorem lookup_setRelatedHeaders (headers : HeaderMap) (body : HttpResponseBody) (key : List UInt8) :
    (body.setRelatedHeaders headers).lookup key =
      (HeaderMap.lookup (body.setRelatedHeaders []) key).or (headers.lookup key) := by
  cases body with
  | notOpened => rfl
  | text body | file content contentType =>
      simp only [HttpResponseBody.setRelatedHeaders, HeaderMap.lookup_set]
      split_ifs <;> rfl

theorem lookup_perform (r : HttpResponse) (op : ResponseOp) (key : List UInt8) :
    (r.perform op).headers.lookup key = (written key op).or (r.headers.lookup key) := by
  cases op with
  | setStatus | addCookie => rfl
  | setHeader k value =>
      simp only [perform, setHeader, HeaderMap.lookup_set, written]
      split_ifs <;> rfl
  | setBody body => exact lookup_setRelatedHeaders r.headers body key
  | sendRedirect url =>
      simp only [perform, sendRedirect, setHeader, setStatus, HeaderMap.lookup_set, written]
      split_ifs <;> rfl

/-- The last operation that writes under a key decides. -/
theorem lookup_performAll (r : HttpResponse) (ops : List ResponseOp) (key : List UInt8) :
    (r.performAll ops).headers.lookup key = (lastWritten ops key).or (r.headers.lookup key) := by
  induction ops generalizing r with
  | nil => rfl
  | cons op ops ih =>
      rw [performAll, List.foldl_cons, ← performAll, ih, lookup_perform, lastWritten, lastWritten, List.reverse_cons,
        List.findSome?_append, Option.or_assoc]
      simp

theorem body_performAll (r : HttpResponse) (ops : List ResponseOp) :
    (r.performAll ops).body = (lastBody ops).or r.body := by
  induction ops generalizing r with
  | nil => rfl
  | cons op ops ih =>
      have hbody : (r.perform op).body = (body? op).or r.body := by cases op <;> rfl
      rw [performAll, List.foldl_cons, ← performAll, ih, hbody, lastBody, lastBody, List.reverse_cons,
        List.findSome?_append, Option.or_assoc]
      simp

theorem connectionStatus_performAll (r : HttpResponse) (ops : List ResponseOp) :
    (r.performAll ops).connectionStatus = r.connectionStatus := by
  induction ops generalizing r with
  | nil => rfl
  | cons op ops ih =>
      have hstatus : (r.perform op).connectionStatus = r.connectionStatus := by cases op <;> rfl
      rw [performAll, List.foldl_cons, ← performAll, ih, hstatus]

theorem mem_sentHeaders_iff (r : HttpResponse) {p : List UInt8 × List UInt8}
    (hspells : Spells (ascii "Content-Length") p.1) : p ∈ r.sentHeaders ↔ r.headers.lookup p.1 = some p.2 := by
  have hother : ascii "Connection" ≠ p.1 := by
    intro heq
    rw [← heq] at hspells
    exact absurd hspells (by decide)
  rw [sentHeaders, (r.sorted.set _ _).mem_iff, HeaderMap.lookup_set, if_neg hother]

theorem framed_performAll_iff (r : HttpResponse) (hheaders : r.headers = []) (hbody : r.body = none)
    (ops : List ResponseOp) : (r.performAll ops).Framed ↔ LengthGiven ops := by
  have hlookup (key : List UInt8) : (r.performAll ops).headers.lookup key = lastWritten ops key := by
    rw [lookup_performAll, hheaders]
    exact Option.or_none
  have hlength : (r.performAll ops).sentBody.length = bodyLength ops := by
    rw [sentBody, body_performAll, hbody, Option.or_none, bodyLength]
    cases lastBody ops <;> rfl
  constructor
  · rintro ⟨⟨p, hp, hspells⟩, hright⟩
    rw [mem_sentHeaders_iff _ hspells, hlookup] at hp
    refine ⟨⟨p.1, hspells, by rw [hp]; rfl⟩, fun key value hkey hvalue => ?_⟩
    rw [← hlength]
    exact hright (key, value) ((mem_sentHeaders_iff _ hkey).mpr ((hlookup key).trans hvalue)) hkey
  · rintro ⟨⟨key, hspells, hsome⟩, hright⟩
    obtain ⟨value, hvalue⟩ := Option.isSome_iff_exists.mp hsome
    refine ⟨⟨(key, value), (mem_sentHeaders_iff _ hspells).mpr ((hlookup key).trans hvalue), hspells⟩, ?_⟩
    rintro p hp hkey
    rw [mem_sentHeaders_iff _ hkey, hlookup] at hp
    rw [hlength]
    exact hright p.1 p.2 hkey hp

end HttpResponse

namespace HttpServer

open ResponseOp

variable (server : HttpServer)

theorem respond_eq (received : Option RawHttpRequest) :
    server.respond received = (opened received).performAll (server.operations received) := by
  rw [operations, HttpResponse.performAll, List.foldl_append]
  rfl

theorem connectionStatus_respond (received : Option RawHttpRequest) :
    (server.respond received).connectionStatus = .keepAlive ↔
      ∃ rawRequest, received = some rawRequest ∧ (HttpRequest.ofRaw rawRequest).isKeepAlive = true := by
  rw [respond_eq, HttpResponse.connectionStatus_performAll]
  cases received with
  | none => simp [opened, HttpResponse.setCloseConnection]
  | some rawRequest => simp [opened, HttpResponse.setCloseConnection, HttpResponse.setVersion]

theorem framed_respond_iff (received : Option RawHttpRequest) :
    (server.respond received).Framed ↔ LengthGiven (server.operations received) := by
  rw [respond_eq]
  cases received with
  | none => exact HttpResponse.framed_performAll_iff _ rfl rfl _
  | some rawRequest => exact HttpResponse.framed_performAll_iff _ rfl rfl _

/-- The default error page is framed, whatever was done to the response before. -/
theorem framed_defaultErrorPage {received : Option RawHttpRequest} {r : HttpResponse}
    (hpage : server.errorPage r = defaultErrorPage r) (hr : r = (opened received).performAll (server.handled received))
    (hbefore : ∀ key, Spells (ascii "Content-Length") key → key ≠ ascii "Content-Length" →
      ∀ op ∈ server.handled received, written key op = none) : (server.respond received).Framed := by
  rw [framed_respond_iff, operations, ← hr, hpage, defaultErrorPage]
  refine lengthGiven_text _ hbefore ?_ (by simp [body?])
  intro key hkey op hop
  rw [List.mem_singleton.mp hop, written, if_neg]
  rintro rfl
  exact absurd hkey (by decide)

/-- A response that keeps the connection is framed when the length of its last body
is what was written last. -/
theorem keepAlive_framed_iff (received : Option RawHttpRequest) :
    ((server.respond received).connectionStatus = .keepAlive → (server.respond received).Framed) ↔
      ∀ rawRequest, received = some rawRequest → (HttpRequest.ofRaw rawRequest).isKeepAlive = true →
        LengthGiven (server.operations received) := by
  rw [connectionStatus_respond, framed_respond_iff]
  constructor
  · intro h rawRequest hreceived hkeep
    exact h ⟨rawRequest, hreceived, hkeep⟩
  · rintro h ⟨rawRequest, hreceived, hkeep⟩
    exact h rawRequest hreceived hkeep

/-- A servlet that sets no body. -/
theorem keepAlive_not_framed :
    ¬ ∀ (server : HttpServer) (received : Option RawHttpRequest),
      (server.respond received).connectionStatus = .keepAlive → (server.respond received).Framed := by
  intro h
  let server : HttpServer := { servlets := fun _ => [] }
  let rawRequest : RawHttpRequest := { method := ascii "GET", url := ascii "/", version := ascii "HTTP/1.1" }
  have hkeep := (connectionStatus_respond server (some rawRequest)).mpr ⟨rawRequest, rfl, by decide⟩
  obtain ⟨key, -, hsome⟩ := ((framed_respond_iff server (some rawRequest)).mp (h server _ hkeep)).given
  cases hsome

end HttpServer

end Libcold.Http
