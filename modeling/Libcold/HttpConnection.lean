import Libcold.LlhttpConnection
import Mathlib.Data.List.DropRight

namespace Libcold

open HttpCommon

/-- The part of a list without the blanks around it. -/
def trim (s : List UInt8) : List UInt8 :=
  (s.dropWhile fun c => c = 9 ∨ c = 32).rdropWhile fun c => c = 9 ∨ c = 32

/-- The tokens of a list that commas separate. -/
def tokens (value : List UInt8) : List (List UInt8) := (value.splitOn 44).map trim

namespace HttpMessage

variable {limits : HttpLimits} {m : HttpMessage} {r : RawHttpRequest}

/-- The fields in which llhttp reads connection tokens. -/
def NamesConnection (name : List UInt8) : Prop :=
  Spells (ascii "Connection") name ∨ Spells (ascii "Proxy-Connection") name

instance : DecidablePred NamesConnection := fun _ => inferInstanceAs (Decidable (_ ∨ _))

def connectionFlags (m : HttpMessage) : Finset ConnectionToken :=
  m.fields.foldl (fun flags p => if NamesConnection p.1 then LlhttpConnection.readValue flags p.2 else flags) ∅

/-- `http_major` and `http_minor`; a message without a version is one of HTTP/0.9. -/
def httpNumbers (m : HttpMessage) : Nat × Nat :=
  match m.version with
  | some [major, _, minor] => (major.toNat - 48, minor.toNat - 48)
  | _ => (0, 9)

/-- `llhttp_should_keep_alive`. A request does not need the end of the input. -/
def shouldKeepAlive (m : HttpMessage) : Bool :=
  if 0 < m.httpNumbers.1 ∧ 0 < m.httpNumbers.2 then ConnectionToken.close ∉ m.connectionFlags
  else ConnectionToken.keepAlive ∈ m.connectionFlags

/-- The message asks for a WebSocket, with tokens and names in any case. -/
structure RequestsWebSocket (m : HttpMessage) : Prop where
  connection : ∃ p ∈ m.fields, Spells (ascii "Connection") p.1 ∧ ∃ t ∈ tokens p.2, t.map toLower = ascii "upgrade"
  upgrade : ∃ p ∈ m.fields, Spells (ascii "Upgrade") p.1 ∧ p.2.map toLower = ascii "websocket"
  key : ∃ p ∈ m.fields, Spells (ascii "Sec-WebSocket-Key") p.1

structure ConnectionAgrees (m : HttpMessage) (r : RawHttpRequest) : Prop where
  keepAlive : (HttpRequest.ofRaw r).isKeepAlive = m.shouldKeepAlive
  upgrade : WebSocketServer.checkWhetherUpgradeRequest r = true ↔ m.RequestsWebSocket

/-- The value of the last field with the name in this spelling. -/
def spelled (m : HttpMessage) (key : List UInt8) : Option (List UInt8) := HeaderMap.lookup m.fields.reverse key

/-- A field that llhttp reads lists the token. -/
def Listed (m : HttpMessage) (w : ConnectionToken) : Prop := ∃ p ∈ m.fields, NamesConnection p.1 ∧ Lists w p.2

/-- What the lists say is said in the spellings that are compared with. -/
structure SaidLiterally (m : HttpMessage) : Prop where
  close : m.version = some (ascii "1.1") →
    (m.Listed .close ↔ ∃ value, m.spelled (ascii "Connection") = some value ∧ value ≠ ascii "keep-alive")
  keepAlive : m.version = some (ascii "1.0") →
    (m.Listed .keepAlive ↔ m.spelled (ascii "Connection") = some (ascii "keep-alive"))
  upgrade : m.RequestsWebSocket → m.spelled (ascii "Connection") = some (ascii "Upgrade") ∧
    m.spelled (ascii "Upgrade") = some (ascii "websocket") ∧ (m.spelled (ascii "Sec-WebSocket-Key")).isSome = true

theorem mem_connectionFlags (m : HttpMessage) (w : ConnectionToken) : w ∈ m.connectionFlags ↔ m.Listed w := by
  have hfold (ps : Fields) (flags : Finset ConnectionToken) :
      w ∈ ps.foldl (fun flags p => if NamesConnection p.1 then LlhttpConnection.readValue flags p.2 else flags) flags ↔
        w ∈ flags ∨ ∃ p ∈ ps, NamesConnection p.1 ∧ Lists w p.2 := by
    induction ps generalizing flags with
    | nil => simp
    | cons p ps ih =>
        rw [List.foldl_cons, ih]
        split_ifs with hname
        · simp [LlhttpConnection.mem_readValue, hname, or_assoc]
        · simp [hname]
  rw [connectionFlags, hfold, Listed]
  simp only [Finset.notMem_empty, false_or]

theorem shouldKeepAlive_1_1 (hversion : m.version = some (ascii "1.1")) :
    m.shouldKeepAlive = true ↔ ¬ m.Listed .close := by
  have hnumbers : m.httpNumbers = (1, 1) := by
    rw [httpNumbers, hversion]
    decide
  rw [← mem_connectionFlags]
  simp [shouldKeepAlive, hnumbers]

theorem shouldKeepAlive_1_0 (hversion : m.version = some (ascii "1.0")) :
    m.shouldKeepAlive = true ↔ m.Listed .keepAlive := by
  have hnumbers : m.httpNumbers = (1, 0) := by
    rw [httpNumbers, hversion]
    decide
  rw [← mem_connectionFlags]
  simp [shouldKeepAlive, hnumbers]

theorem isKeepAlive_whole (m : HttpMessage) :
    (HttpRequest.ofRaw m.whole).isKeepAlive = true ↔
      m.spelled (ascii "Connection") = some (ascii "keep-alive") ∨
        (m.spelled (ascii "Connection") = none ∧ m.version = some (ascii "1.1")) := by
  rw [isKeepAlive_ofRaw, lookup_whole, ← spelled]
  cases m.spelled (ascii "Connection") with
  | none =>
      have hline : m.whole.version = ascii "HTTP/1.1" ↔ m.version = some (ascii "1.1") := version_line m
      simpa using hline
  | some value => simp

theorem keepAlive_agrees_iff (hversion : m.version = some (ascii "1.0") ∨ m.version = some (ascii "1.1")) :
    (HttpRequest.ofRaw m.whole).isKeepAlive = m.shouldKeepAlive ↔
      (m.version = some (ascii "1.1") →
        (m.Listed .close ↔ ∃ value, m.spelled (ascii "Connection") = some value ∧ value ≠ ascii "keep-alive")) ∧
      (m.version = some (ascii "1.0") →
        (m.Listed .keepAlive ↔ m.spelled (ascii "Connection") = some (ascii "keep-alive"))) := by
  have hdiffer : ascii "1.0" ≠ ascii "1.1" := by decide
  rw [Bool.eq_iff_iff, isKeepAlive_whole]
  rcases hversion with hversion | hversion
  · rw [shouldKeepAlive_1_0 hversion, hversion]
    simp only [Option.some.injEq, hdiffer, and_false, or_false, false_implies, true_and, true_implies]
    exact Iff.comm
  · rw [shouldKeepAlive_1_1 hversion, hversion]
    simp only [Option.some.injEq, hdiffer.symm, and_true, false_implies, true_implies]
    cases m.spelled (ascii "Connection") with
    | none => simp
    | some value =>
        by_cases hvalue : value = ascii "keep-alive"
        · simp [hvalue]
        · simp [hvalue]

theorem mem_fields_of_spelled {key value : List UInt8} (h : m.spelled key = some value) : (key, value) ∈ m.fields :=
  List.mem_reverse.mp (HeaderMap.mem_of_lookup h)

theorem requestsWebSocket_of_check (h : WebSocketServer.checkWhetherUpgradeRequest m.whole = true) :
    m.RequestsWebSocket := by
  simp only [checkWhetherUpgradeRequest_iff, lookup_whole, Option.isSome_iff_exists] at h
  obtain ⟨hconnection, hupgrade, key, hkey⟩ := h
  refine ⟨⟨_, mem_fields_of_spelled hconnection, rfl, ascii "Upgrade", ?_, by decide⟩,
    ⟨_, mem_fields_of_spelled hupgrade, rfl, by decide⟩, _, mem_fields_of_spelled hkey, rfl⟩
  rw [tokens, List.splitOn_eq_singleton (by decide)]
  simp
  decide

/-- The request is taken as the message says if and only if the lists say what the
comparisons look for. -/
theorem connection_agrees_iff (haccepted : m.Accepted) (hrequest : m.request limits = some r)
    (hversion : m.version = some (ascii "1.0") ∨ m.version = some (ascii "1.1")) :
    m.ConnectionAgrees r ↔ m.SaidLiterally := by
  obtain ⟨-, rfl⟩ := (request_eq_some_iff haccepted).mp hrequest
  constructor
  · intro h
    obtain ⟨hclose, hkeepAlive⟩ := (keepAlive_agrees_iff hversion).mp h.keepAlive
    refine ⟨hclose, hkeepAlive, fun hrequests => ?_⟩
    have hcheck := h.upgrade.mpr hrequests
    rw [checkWhetherUpgradeRequest_iff, lookup_whole, lookup_whole, lookup_whole] at hcheck
    exact hcheck
  · intro h
    refine ⟨(keepAlive_agrees_iff hversion).mpr ⟨h.close, h.keepAlive⟩, requestsWebSocket_of_check, fun hrequests => ?_⟩
    rw [checkWhetherUpgradeRequest_iff, lookup_whole, lookup_whole, lookup_whole]
    exact h.upgrade hrequests

/-- A message with a single field, that says what becomes of the connection. -/
def single (value : List UInt8) : HttpMessage where
  method := ascii "GET"
  url := ascii "/"
  version := some (ascii "1.1")
  headers := [(ascii "Connection", value)]
  body := []
  trailers := []
  named := by
    intro p hp
    obtain rfl := List.mem_singleton.mp hp
    change ascii "Connection" ≠ []
    decide
  length := by
    intro p hp hlength
    obtain rfl := List.mem_singleton.mp hp
    have hother : ¬ Spells (ascii "Content-Length") (ascii "Connection") := by decide
    exact absurd hlength hother

theorem request_single (value : List UInt8) (h : value.length ≤ 10240) :
    (single value).Accepted ∧ (single value).request {} = some (single value).whole := by
  have haccepted : (single value).Accepted := Llhttp.accepted_of_single rfl rfl
  have hurl : (ascii "/").length ≤ 190000 ∧ hasDots (ascii "/") = false := by decide
  have hcount : ¬ Overfull {} [ascii "Connection"] := fun hover => absurd hover.2 (by decide)
  have hname : (ascii "Connection").length ≤ 1024 := by decide
  refine ⟨haccepted, request_of_fits haccepted ⟨hurl, ?_, hcount, fun hbody => absurd rfl hbody⟩⟩
  intro p hp
  obtain rfl := List.mem_singleton.mp hp
  exact ⟨hname, h⟩

theorem connection_agrees_close : (single (ascii "close")).ConnectionAgrees (single (ascii "close")).whole := by
  obtain ⟨haccepted, hrequest⟩ := request_single (ascii "close") (by decide)
  refine (connection_agrees_iff haccepted hrequest (.inr rfl)).mpr ⟨fun _ => ?_, fun h => absurd h (by decide), ?_⟩
  · exact iff_of_true ((mem_connectionFlags _ _).mp (by decide)) ⟨ascii "close", by decide, by decide⟩
  · rintro ⟨-, ⟨p, hp, hname, -⟩, -⟩
    obtain rfl := List.mem_singleton.mp hp
    exact absurd hname (by decide)

/-- A token in another case is not what the server compares with. -/
theorem connection_not_agrees :
    ¬ ∀ limits (m : HttpMessage) r, m.Accepted → m.request limits = some r →
      m.version = some (ascii "1.0") ∨ m.version = some (ascii "1.1") → m.ConnectionAgrees r := by
  intro h
  obtain ⟨haccepted, hrequest⟩ := request_single (ascii "Keep-Alive") (by decide)
  have hagrees := (h {} _ _ haccepted hrequest (.inr rfl)).keepAlive
  have hclose := ((keepAlive_agrees_iff (.inr rfl)).mp hagrees).1 rfl
  have hlisted := hclose.mpr ⟨ascii "Keep-Alive", by decide, by decide⟩
  exact absurd ((mem_connectionFlags _ _).mpr hlisted) (by decide)

end HttpMessage

end Libcold
