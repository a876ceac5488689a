import Libcold.Platform
import Libcold.SpanCalls

namespace Libcold

open SpanCalls

inductive HttpSpan
  | url
  | version
  | headerField
  | headerValue
  | body
  deriving DecidableEq

inductive HttpNotice
  | method (name : List UInt8)
  | urlComplete
  | versionComplete
  | headerFieldComplete
  | headerValueComplete
  | messageComplete

abbrev HttpEvent := Event HttpSpan HttpNotice

abbrev HttpCall := Call HttpSpan HttpNotice

/-- How a run of llhttp ends: it wants more input, it has found an error, or it
has paused behind a message that asks for an upgrade. The states are those from
which it goes on, after a pause those behind the resumption. -/
inductive LlhttpEnd (State : Type)
  | ok (state : State)
  | error
  | pausedUpgrade (resumed : State)

/-- llhttp by what it reports of each byte. A message that asks for an upgrade is
reported as complete before the pause. -/
structure Llhttp where
  State : Type
  start : State
  next : State → UInt8 → List HttpEvent × LlhttpEnd State
  completes : ∀ state b events resumed, next state b = (events, .pausedUpgrade resumed) →
    .notice .messageComplete ∈ events

/-- The settings of the parser. -/
structure HttpLimits where
  maxUrlSize : Nat := 190000
  maxHeaderFieldSize : Nat := 1024
  maxHeaderValueSize : Nat := 10 * 1024
  maxHeaderCount : Nat := 100
  maxBodySize : Nat := 1024 * 1024

def ascii (s : String) : List UInt8 := s.toList.map fun c => UInt8.ofNat c.toNat

/-- `std::map`, as its pairs in the order of the keys. -/
abbrev HeaderMap := List (List UInt8 × List UInt8)

namespace HeaderMap

def set (key value : List UInt8) : HeaderMap → HeaderMap
  | [] => [(key, value)]
  | (k, v) :: rest =>
      if key = k then (k, value) :: rest
      else if key < k then (key, value) :: (k, v) :: rest
      else (k, v) :: set key value rest

def get (headers : HeaderMap) (key : List UInt8) : List UInt8 :=
  match headers.find? fun p => p.1 = key with
  | some p => p.2
  | none => []

def has (headers : HeaderMap) (key : List UInt8) : Bool := headers.any fun p => p.1 = key

end HeaderMap

structure RawHttpRequest where
  method : List UInt8 := []
  url : List UInt8 := []
  version : List UInt8 := []
  headers : HeaderMap := []
  body : List UInt8 := []
  deriving DecidableEq

def toUpper (b : UInt8) : UInt8 := if 97 ≤ b ∧ b ≤ 122 then b - 32 else b

namespace RawHttpRequest

def setMethod (r : RawHttpRequest) (method : List UInt8) : RawHttpRequest := { r with method := method.map toUpper }

def setHeader (r : RawHttpRequest) (key value : List UInt8) : RawHttpRequest :=
  { r with headers := r.headers.set key value }

end RawHttpRequest

/-- `std::from_chars` for a `size_t`: the digits that the text begins with. -/
def fromChars (str : List UInt8) : Option Nat :=
  let digits := str.takeWhile fun b => 48 ≤ b ∧ b ≤ 57
  let value := digits.foldl (fun n b => 10 * n + (b.toNat - 48)) 0
  if digits.isEmpty ∨ wordModulus ≤ value then none else some value

/-- `find("..")`. -/
def hasDots : List UInt8 → Bool
  | a :: b :: rest => (a = 46 && b = 46) || hasDots (b :: rest)
  | _ => false

/-- A string that was moved from is empty. -/
structure HttpRequestParser where
  curRequest : RawHttpRequest := {}
  checkContentLength : Bool := true
  buf : List UInt8 := []
  bufForHeaderValue : List UInt8 := []
  requestQueue : List RawHttpRequest := []
  deriving DecidableEq

namespace HttpRequestParser

/-- The callbacks, which return true for 0. -/
def onMethod (p : HttpRequestParser) (name : List UInt8) : HttpRequestParser × Bool :=
  ({ p with curRequest := p.curRequest.setMethod name }, true)

def onUrl (limits : HttpLimits) (p : HttpRequestParser) (bytes : List UInt8) : HttpRequestParser × Bool :=
  if limits.maxUrlSize < p.buf.length + bytes.length then (p, false) else ({ p with buf := p.buf ++ bytes }, true)

def onUrlComplete (p : HttpRequestParser) : HttpRequestParser × Bool :=
  ({ p with curRequest := { p.curRequest with url := p.buf }, buf := [] }, !hasDots p.buf)

def onVersion (p : HttpRequestParser) (bytes : List UInt8) : HttpRequestParser × Bool :=
  ({ p with buf := p.buf ++ bytes }, true)

def onVersionComplete (p : HttpRequestParser) : HttpRequestParser × Bool :=
  ({ p with curRequest := { p.curRequest with version := ascii "HTTP/" ++ p.buf }, buf := [] }, true)

def onHeaderField (limits : HttpLimits) (p : HttpRequestParser) (bytes : List UInt8) : HttpRequestParser × Bool :=
  if limits.maxHeaderCount < p.curRequest.headers.length + 1 then (p, false)
  else if limits.maxHeaderFieldSize < p.buf.length + bytes.length then (p, false)
  else ({ p with buf := p.buf ++ bytes }, true)

def onHeaderFieldComplete (p : HttpRequestParser) : HttpRequestParser × Bool := (p, true)

def onHeaderValue (limits : HttpLimits) (p : HttpRequestParser) (bytes : List UInt8) : HttpRequestParser × Bool :=
  if limits.maxHeaderValueSize < p.bufForHeaderValue.length + bytes.length then (p, false)
  else ({ p with bufForHeaderValue := p.bufForHeaderValue ++ bytes }, true)

def onHeaderValueComplete (p : HttpRequestParser) : HttpRequestParser × Bool :=
  ({ p with curRequest := p.curRequest.setHeader p.buf p.bufForHeaderValue, buf := [], bufForHeaderValue := [] }, true)

def onBody (limits : HttpLimits) (p : HttpRequestParser) (bytes : List UInt8) : HttpRequestParser × Bool :=
  if p.checkContentLength then
    match fromChars (p.curRequest.headers.get (ascii "Content-Length")) with
    | none => (p, false)
    | some contentLength =>
        if limits.maxBodySize < contentLength then (p, false)
        else ({ p with checkContentLength := false, buf := p.buf ++ bytes }, true)
  else ({ p with buf := p.buf ++ bytes }, true)

def onMessageComplete (p : HttpRequestParser) : HttpRequestParser × Bool :=
  ({ p with
      requestQueue := p.requestQueue ++ [{ p.curRequest with body := p.buf }]
      curRequest := {}, buf := [], checkContentLength := true }, true)

def onCall (limits : HttpLimits) (p : HttpRequestParser) : HttpCall → HttpRequestParser × Bool
  | .span .url bytes => p.onUrl limits bytes
  | .span .version bytes => p.onVersion bytes
  | .span .headerField bytes => p.onHeaderField limits bytes
  | .span .headerValue bytes => p.onHeaderValue limits bytes
  | .span .body bytes => p.onBody limits bytes
  | .notice (.method name) => p.onMethod name
  | .notice .urlComplete => p.onUrlComplete
  | .notice .versionComplete => p.onVersionComplete
  | .notice .headerFieldComplete => p.onHeaderFieldComplete
  | .notice .headerValueComplete => p.onHeaderValueComplete
  | .notice .messageComplete => p.onMessageComplete

theorem onCall_append (limits : HttpLimits) (s : HttpRequestParser) (kind : HttpSpan) (x y : List UInt8) :
    Same requestQueue (onCall limits s (.span kind (x ++ y)))
      (runUntil (onCall limits) s [.span kind x, .span kind y]) := by
  cases kind with
  | url =>
      have hwhole : onCall limits s (.span .url (x ++ y)) =
          if limits.maxUrlSize < s.buf.length + (x.length + y.length) then (s, false)
          else ({ s with buf := s.buf ++ x ++ y }, true) := by
        simp [onCall, onUrl]
      have hsecond : onCall limits { s with buf := s.buf ++ x } (.span .url y) =
          if limits.maxUrlSize < s.buf.length + x.length + y.length then ({ s with buf := s.buf ++ x }, false)
          else ({ s with buf := s.buf ++ x ++ y }, true) := by
        simp [onCall, onUrl]
      exact Same.within hwhole rfl hsecond rfl
  | version => simp [runUntil, onCall, onVersion, Same]
  | headerField =>
      by_cases hcount : limits.maxHeaderCount < s.curRequest.headers.length + 1
      · simp [runUntil, onCall, onHeaderField, hcount, Same]
      · have hwhole : onCall limits s (.span .headerField (x ++ y)) =
            if limits.maxHeaderFieldSize < s.buf.length + (x.length + y.length) then (s, false)
            else ({ s with buf := s.buf ++ x ++ y }, true) := by
          simp [onCall, onHeaderField, hcount]
        have hfirst : onCall limits s (.span .headerField x) =
            if limits.maxHeaderFieldSize < s.buf.length + x.length then (s, false)
            else ({ s with buf := s.buf ++ x }, true) := by
          simp [onCall, onHeaderField, hcount]
        have hsecond : onCall limits { s with buf := s.buf ++ x } (.span .headerField y) =
            if limits.maxHeaderFieldSize < s.buf.length + x.length + y.length then
              ({ s with buf := s.buf ++ x }, false)
            else ({ s with buf := s.buf ++ x ++ y }, true) := by
          simp [onCall, onHeaderField, hcount]
        exact Same.within hwhole hfirst hsecond rfl
  | headerValue =>
      have hwhole : onCall limits s (.span .headerValue (x ++ y)) =
          if limits.maxHeaderValueSize < s.bufForHeaderValue.length + (x.length + y.length) then (s, false)
          else ({ s with bufForHeaderValue := s.bufForHeaderValue ++ x ++ y }, true) := by
        simp [onCall, onHeaderValue]
      have hsecond : onCall limits { s with bufForHeaderValue := s.bufForHeaderValue ++ x } (.span .headerValue y) =
          if limits.maxHeaderValueSize < s.bufForHeaderValue.length + x.length + y.length then
            ({ s with bufForHeaderValue := s.bufForHeaderValue ++ x }, false)
          else ({ s with bufForHeaderValue := s.bufForHeaderValue ++ x ++ y }, true) := by
        simp [onCall, onHeaderValue]
      exact Same.within hwhole rfl hsecond rfl
  | body =>
      by_cases hcheck : s.checkContentLength = true
      · rcases hlength : fromChars (s.curRequest.headers.get (ascii "Content-Length")) with _ | n
        · simp [runUntil, onCall, onBody, hcheck, hlength, Same]
        · by_cases hn : limits.maxBodySize < n
          · simp [runUntil, onCall, onBody, hcheck, hlength, hn, Same]
          · simp [runUntil, onCall, onBody, hcheck, hlength, hn, Same]
      · simp [runUntil, onCall, onBody, hcheck, Same]

/-- A span that was accepted can end with an empty piece. -/
theorem onCall_empty (limits : HttpLimits) {s t : HttpRequestParser} {kind : HttpSpan} {bytes : List UInt8}
    (h : onCall limits s (.span kind bytes) = (t, true)) : onCall limits t (.span kind []) = (t, true) := by
  cases kind with
  | url =>
      simp only [onCall, onUrl] at h ⊢
      split_ifs at h with hlimit
      · cases h
      · cases h
        rw [if_neg (by simpa using hlimit), List.append_nil]
  | version =>
      cases h
      simp [onCall, onVersion]
  | headerField =>
      simp only [onCall, onHeaderField] at h ⊢
      split_ifs at h with hcount hlimit
      · cases h
      · cases h
      · cases h
        rw [if_neg hcount, if_neg (by simpa using hlimit), List.append_nil]
  | headerValue =>
      simp only [onCall, onHeaderValue] at h ⊢
      split_ifs at h with hlimit
      · cases h
      · cases h
        rw [if_neg (by simpa using hlimit), List.append_nil]
  | body =>
      have hcheck : t.checkContentLength = false := by
        simp only [onCall, onBody] at h
        split at h
        · split at h
          · cases h
          · split_ifs at h
            · cases h
            · cases h
              rfl
        · rename_i hnot
          cases h
          simpa using hnot
      obtain ⟨curRequest, checkContentLength, buf, value, queue⟩ := t
      obtain rfl : checkContentLength = false := hcheck
      simp [onCall, onBody]

/-- However llhttp cuts its spans, the callbacks come to the same. -/
theorem onCall_splits (limits : HttpLimits) : Splits (onCall limits) requestQueue :=
  ⟨onCall_append limits, fun _ _ _ _ h => onCall_empty limits h⟩

end HttpRequestParser

namespace Llhttp

variable (L : Llhttp)

/-- `llhttp_execute`: the events, how it ends, and the bytes that it leaves unread. -/
def execute : L.State → List UInt8 → List HttpEvent × LlhttpEnd L.State × List UInt8
  | state, [] => ([], .ok state, [])
  | state, b :: bytes =>
      match L.next state b with
      | (events, .ok state) =>
          let (later, ended, rest) := execute state bytes
          (events ++ later, ended, rest)
      | (events, ended) => (events, ended, bytes)

/-- The calls for some events. The span in which an error is found may have been
left unreported. -/
def Reports {L : Llhttp} (opened : Option HttpSpan) (calls : List HttpCall) (events : List HttpEvent)
    (ended : LlhttpEnd L.State) : Prop :=
  ∃ reported unreported, events = reported ++ unreported ∧ Grouped opened calls reported ∧
    (∀ event ∈ unreported, event.kind ≠ none) ∧ (ended ≠ .error → unreported = [])

end Llhttp

/-- A parser with its `llhttp_t`, which stays in an error once it has found one,
and the span that is open. -/
structure HttpParser (L : Llhttp) where
  llhttp : Option L.State := some L.start
  self : HttpRequestParser := {}
  opened : Option HttpSpan := none

namespace HttpParser

variable {L : Llhttp}

/-- What `Parse` returns and leaves behind. Resuming after an upgrade reads nothing more. -/
def finish (opened : Option HttpSpan) : HttpRequestParser × Bool → LlhttpEnd L.State → Bool × HttpParser L
  | (self, true), .ok state => (true, ⟨some state, self, opened⟩)
  | (self, true), .pausedUpgrade resumed => (true, ⟨some resumed, self, opened⟩)
  | (self, _), _ => (false, ⟨none, self, opened⟩)

/-- `HttpRequestParser::Parse`. -/
inductive Parse (limits : HttpLimits) : HttpParser L → List UInt8 → Bool × HttpParser L → Prop
  | lingering (s chunk) (herror : s.llhttp = none) : Parse limits s chunk (false, s)
  | execute (s chunk state events ended rest calls) (hstate : s.llhttp = some state)
      (hexecute : L.execute state chunk = (events, ended, rest)) (hcalls : Llhttp.Reports s.opened calls events ended) :
      Parse limits s chunk
        (finish (openAfter s.opened events) (runUntil (HttpRequestParser.onCall limits) s.self calls) ended)

/-- Successive calls, with the conjunction of their results. -/
inductive ParseAll (limits : HttpLimits) : HttpParser L → List (List UInt8) → Bool × HttpParser L → Prop
  | nil (s) : ParseAll limits s [] (true, s)
  | cons {s chunk chunks ok t ok' u} (hparse : Parse limits s chunk (ok, t))
      (hlater : ParseAll limits t chunks (ok', u)) : ParseAll limits s (chunk :: chunks) (ok && ok', u)

end HttpParser

end Libcold
