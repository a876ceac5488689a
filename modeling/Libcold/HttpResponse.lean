import Libcold.HttpCommon
import Libcold.HttpRequest
import Libcold.WebSocketServer
import Mathlib.Data.Nat.Digits.Defs

namespace Libcold

/-- `std::to_string` of a `size_t`. -/
def decimal (n : Nat) : List UInt8 :=
  if n = 0 then [48] else (Nat.digits 10 n).reverse.map fun d => UInt8.ofNat (48 + d)

/-- The number that a text of digits stands for. -/
def readDecimal (text : List UInt8) : Option Nat :=
  if text ≠ [] ∧ (text.all fun b => 48 ≤ b && b ≤ 57) = true then
    some (text.foldl (fun n b => 10 * n + (b.toNat - 48)) 0)
  else none

theorem toNat_digit {d : Nat} (h : d < 10) : (UInt8.ofNat (48 + d)).toNat = 48 + d := by
  rw [UInt8.toNat_ofNat']
  omega

theorem foldl_digits {ds : List Nat} (h : ∀ d ∈ ds, d < 10) :
    (ds.reverse.map fun d => UInt8.ofNat (48 + d)).foldl (fun n b => 10 * n + (b.toNat - 48)) 0 =
      Nat.ofDigits 10 ds := by
  induction ds with
  | nil => rfl
  | cons d ds ih =>
      simp only [List.mem_cons, forall_eq_or_imp] at h
      simp only [List.reverse_cons, List.map_append, List.map_cons, List.map_nil, List.foldl_append, ih h.2,
        List.foldl_cons, List.foldl_nil, toNat_digit h.1, Nat.ofDigits_cons]
      omega

theorem readDecimal_decimal (n : Nat) : readDecimal (decimal n) = some n := by
  by_cases hn : n = 0
  · subst n
    decide
  · have hdigits : ∀ d ∈ Nat.digits 10 n, d < 10 := fun d hd => Nat.digits_lt_base (by decide) hd
    rw [decimal, if_neg hn, readDecimal, if_pos, foldl_digits hdigits, Nat.ofDigits_digits]
    refine ⟨by simpa [Nat.digits_ne_nil_iff_ne_zero] using hn, List.all_eq_true.mpr fun b hb => ?_⟩
    simp only [List.mem_map, List.mem_reverse] at hb
    obtain ⟨d, hd, rfl⟩ := hb
    have hlt := hdigits d hd
    simp only [Bool.and_eq_true, decide_eq_true_eq, UInt8.le_iff_toNat_le, toNat_digit hlt]
    exact ⟨Nat.le_add_right 48 d, by simpa using (by omega : 48 + d ≤ 57)⟩

namespace Http

def httpStatusMessageMap : List (Nat × String) :=
  [(100, "Continue"), (101, "Switching Protocols"), (102, "Processing"), (103, "Early Hints"),
    (110, "Response Is Stale"), (111, "Revalidation Failed"), (112, "Disconnected Operation"),
    (113, "Heuristic ExpiratioN"), (199, "Miscellaneous Warning"), (200, "OK"), (201, "Created"),
    (202, "Accepted"), (203, "Non Authoritative Information"), (204, "No Content"), (205, "Reset Content"),
    (206, "Partial Content"), (207, "Multi - Status"), (208, "Already Reported"),
    (214, "Transformation Applied"), (226, "IM Used"), (299, "Miscellaneous Persistent Warning"),
    (300, "Multiple Choices"), (301, "Moved Permanently"), (302, "Found"), (303, "See Other"),
    (304, "Not Modified"), (305, "Use Proxy"), (306, "Switch Proxy"), (307, "Temporary Redirect"),
    (308, "Permanent Redirect"), (400, "Bad Request"), (401, "Unauthorized"), (402, "Payment Required"),
    (403, "Forbidden"), (404, "Not Found"), (405, "Method Not Allowed"), (406, "Not Acceptable"),
    (407, "Proxy Authentication Required"), (408, "Request Timeout"), (409, "Conflict"), (410, "Gone"),
    (411, "Length Required"), (412, "Precondition Failed"), (413, "Payload Too Large"), (414, "URI Too Long"),
    (415, "Unsupported Media Type"), (416, "Range Not Satisfiable"), (417, "Expectation Failed"),
    (418, "Im a teapot"), (419, "Page Expired"), (420, "Enhance Your Calm"), (421, "Misdirected Request"),
    (422, "Unprocessable Entity"), (423, "Locked"), (424, "Failed Dependency"), (425, "Too Early"),
    (426, "Upgrade Required"), (428, "Precondition Required"), (429, "Too Many Requests"),
    (430, "Request Header Fields Too Large Unofficial"), (431, "Request Header Fields Too Large"),
    (440, "Login Timeout"), (444, "No Response"), (449, "Retry With"), (450, "Blocked by Parental Control"),
    (451, "Unavailable For Legal Reasons"), (460, "Client Closed Load Balanced Request"),
    (463, "Invalid X Forwarded For"), (494, "Request Header Too Large"), (495, "SSL Certificate Error"),
    (496, "SSL Certificate Required"), (497, "HTTP Request Sent to HTTPS Port"), (498, "Invalid Token"),
    (499, "Client Closed Request"), (500, "Internal Server Error"), (501, "Not Implemented"),
    (502, "Bad Gateway"), (503, "Service Unavailable"), (504, "Gateway Timeout"),
    (505, "HTTP Version Not Supported"), (506, "Variant Also Negotiates"), (507, "Insufficient Storage"),
    (508, "Loop Detected"), (509, "Bandwidth Limit Exceeded"), (510, "Not Extended"),
    (511, "Network Authentication Required"), (520, "Web Server Unknown Error"), (521, "Web Server Is Down"),
    (522, "Connection Timeout"), (523, "Origin Is Unreachable"), (524, "Timeout Occurred"),
    (525, "SSL Handshake Failed"), (526, "Invalid SSL Certificate"), (527, "Railgun Error"),
    (529, "Site Is Overloaded"), (530, "Site Is Frozen"), (561, "Identity Provider Authentication Error"),
    (598, "Network Read Timeout"), (599, "Network Connect Timeout")]

/-- A status of the table, with its message. -/
structure HttpStatus where
  code : Nat
  message : String
  listed : (code, message) ∈ httpStatusMessageMap

namespace HttpStatus

def ok : HttpStatus := ⟨200, "OK", by simp [httpStatusMessageMap]⟩

def found : HttpStatus := ⟨302, "Found", by simp [httpStatusMessageMap]⟩

def badRequest : HttpStatus := ⟨400, "Bad Request", by simp [httpStatusMessageMap]⟩

def notFound : HttpStatus := ⟨404, "Not Found", by simp [httpStatusMessageMap]⟩

def internalServerError : HttpStatus := ⟨500, "Internal Server Error", by simp [httpStatusMessageMap]⟩

end HttpStatus

structure HttpCookie where
  key : List UInt8
  value : List UInt8
  maxAge : Int := -1
  domain : List UInt8 := []
  path : List UInt8 := []
  httpOnly : Bool := false
  secure : Bool := false

def HttpCookie.dump (cookie : HttpCookie) : List UInt8 :=
  cookie.key ++ ascii "=" ++ cookie.value ++
    (if 0 ≤ cookie.maxAge then ascii ";Max-Age=" ++ decimal cookie.maxAge.toNat else []) ++
    (if cookie.domain ≠ [] then ascii ";Domain=" ++ cookie.domain else []) ++
    (if cookie.path ≠ [] then ascii ";Path=" ++ cookie.path else []) ++
    (if cookie.httpOnly then ascii ";HttpOnly" else []) ++ (if cookie.secure then ascii ";Secure" else [])

/-- A `TextBody`, or a `StaticFileBody` with the file that it has opened. -/
inductive HttpResponseBody
  | text (body : List UInt8)
  | file (content contentType : List UInt8)
  | notOpened

namespace HttpResponseBody

def setRelatedHeaders (headers : HeaderMap) : HttpResponseBody → HeaderMap
  | text body =>
      (headers.set (ascii "Content-Length") (decimal body.length)).set (ascii "Content-Type")
        (ascii "text/html;charset=utf-8")
  | file content contentType =>
      (headers.set (ascii "Content-Length") (decimal content.length)).set (ascii "Content-Type")
        (contentType ++ ascii "; charset=utf-8")
  | notOpened => headers

/-- What `Send` transmits. -/
def content : HttpResponseBody → List UInt8
  | text body => body
  | file content _ => content
  | notOpened => []

theorem sorted_setRelatedHeaders {headers : HeaderMap} (h : headers.Sorted) (body : HttpResponseBody) :
    (body.setRelatedHeaders headers).Sorted := by
  cases body with
  | text body => exact (h.set _ _).set _ _
  | file content contentType => exact (h.set _ _).set _ _
  | notOpened => exact h

end HttpResponseBody

structure HttpResponse where
  status : HttpStatus := .ok
  version : List UInt8 := ascii "HTTP/1.1"
  headers : HeaderMap := []
  sorted : headers.Sorted := by exact .nil
  body : Option HttpResponseBody := none
  cookies : List HttpCookie := []
  connectionStatus : ConnectionStatus := .keepAlive

namespace HttpResponse

open Libcold.HttpResponse (crlf connectionStr)

def setStatus (r : HttpResponse) (status : HttpStatus) : HttpResponse := { r with status }

def setVersion (r : HttpResponse) (version : List UInt8) : HttpResponse := { r with version }

def setHeader (r : HttpResponse) (key value : List UInt8) : HttpResponse :=
  { r with headers := r.headers.set key value, sorted := r.sorted.set key value }

def setCloseConnection (r : HttpResponse) (close : Bool) : HttpResponse :=
  { r with connectionStatus := if close then .close else .keepAlive }

def setBody (r : HttpResponse) (body : HttpResponseBody) : HttpResponse :=
  { r with
    body := some body
    headers := body.setRelatedHeaders r.headers
    sorted := body.sorted_setRelatedHeaders r.sorted }

def addCookie (r : HttpResponse) (cookie : HttpCookie) : HttpResponse := { r with cookies := r.cookies ++ [cookie] }

def sendRedirect (r : HttpResponse) (url : List UInt8) : HttpResponse :=
  (r.setStatus .found).setHeader (ascii "Location") url

/-- The headers as `MakeHeaders` leaves them. -/
def sentHeaders (r : HttpResponse) : HeaderMap := r.headers.set (ascii "Connection") (connectionStr r.connectionStatus)

def makeHeaders (r : HttpResponse) : List UInt8 :=
  r.version ++ ascii " " ++ decimal r.status.code ++ ascii " " ++ ascii r.status.message ++ crlf ++
    (r.sentHeaders.flatMap fun p => p.1 ++ ascii ": " ++ p.2 ++ crlf) ++
    (r.cookies.flatMap fun cookie => ascii "Set-Cookie: " ++ cookie.dump ++ crlf) ++ crlf

/-- What `SendBody` transmits. -/
def sentBody (r : HttpResponse) : List UInt8 :=
  match r.body with
  | some body => body.content
  | none => []

end HttpResponse

end Http

end Libcold
