import Libcold.HttpClient
import Libcold.HttpServer
import Mathlib.Data.List.ReduceOption

namespace Libcold.Http

open HttpCommon Lines Runs

/-- Where `DoHttp` waits: for the next read, or for room for the headers or for the body,
of which so much was accepted. When it ends, a response may have been cut. -/
inductive WritePhase
  | reading
  | headers (e : Reply) (alreadyWrite : Nat)
  | body (e : Reply) (alreadySend : Nat)
  | closed (cut : Option Reply)

/-- One connection of `DoHttp`, with the bytes that were accepted and the responses that
it knows to be sent. -/
structure HttpWriter where
  phase : WritePhase := .reading
  wire : List UInt8 := []
  sent : List Reply := []

inductive WriteEvent
  | readEnds
  | readMore
  | received (received : Option RawHttpRequest)
  | accepts (n : Nat)
  | fails (n : Nat)

namespace HttpServer

def reply (server : HttpServer) (received : Option RawHttpRequest) : Reply := (method received, server.respond received)

end HttpServer

namespace HttpWriter

def accept (s : HttpWriter) (bytes : List UInt8) : HttpWriter := { s with wire := s.wire ++ bytes }

def complete (s : HttpWriter) (e : Reply) : HttpWriter :=
  { s with phase := if e.2.isKeepAlive then .reading else .closed none, sent := s.sent ++ [e] }

/-- The head of the loop in `Send`; no body is sent like an empty one. -/
def sendBody (s : HttpWriter) (e : Reply) (alreadySend : Nat) : HttpWriter :=
  if alreadySend < e.2.sentBody.length then { s with phase := .body e alreadySend } else s.complete e

/-- The head of the loop in `WriteNWithTimeout`. -/
def writeHeaders (s : HttpWriter) (e : Reply) (alreadyWrite : Nat) : HttpWriter :=
  if alreadyWrite < e.2.makeHeaders.length then { s with phase := .headers e alreadyWrite } else s.sendBody e 0

/-- `DoHttp` from one suspension to the next. A call accepts as many bytes as it likes,
none at all included, of a file that stays as it was when its size was taken. It fails
with an error, or for a timeout, when it may have accepted bytes nevertheless; the loop
over a file also ends when the socket is not connected any more. -/
inductive Step (server : HttpServer) (requests : Option RawHttpRequest → Prop) :
    HttpWriter → WriteEvent → HttpWriter → Prop
  | readEnds (s) (h : s.phase = .reading) : Step server requests s .readEnds { s with phase := .closed none }
  | readMore (s) (h : s.phase = .reading) : Step server requests s .readMore s
  | received (s) (received) (h : s.phase = .reading) (hreceived : requests received) :
      Step server requests s (.received received) (s.writeHeaders (server.reply received) 0)
  | writes (s) (e) (k) (n) (h : s.phase = .headers e k) (hn : k + n ≤ e.2.makeHeaders.length) :
      Step server requests s (.accepts n) ((s.accept ((e.2.makeHeaders.drop k).take n)).writeHeaders e (k + n))
  | writeFails (s) (e) (k) (n) (h : s.phase = .headers e k) (hn : k + n ≤ e.2.makeHeaders.length) :
      Step server requests s (.fails n)
        { s.accept ((e.2.makeHeaders.drop k).take n) with phase := .closed (some e) }
  | sends (s) (e) (k) (n) (h : s.phase = .body e k) (hn : k + n ≤ e.2.sentBody.length) :
      Step server requests s (.accepts n) ((s.accept ((e.2.sentBody.drop k).take n)).sendBody e (k + n))
  | sendFails (s) (e) (k) (n) (h : s.phase = .body e k) (hn : k + n ≤ e.2.sentBody.length) :
      Step server requests s (.fails n)
        { s.accept ((e.2.sentBody.drop k).take n) with phase := .closed (some e) }

/-- What is on the wire of a response that `DoHttp` does not know to be whole. -/
inductive Partial : WritePhase → List UInt8 → Prop
  | reading : Partial .reading []
  | headers (e) (k) (hk : k < e.2.makeHeaders.length) : Partial (.headers e k) (e.2.makeHeaders.take k)
  | body (e) (k) (hk : k < e.2.sentBody.length) : Partial (.body e k) (e.2.makeHeaders ++ e.2.sentBody.take k)
  | ended : Partial (.closed none) []
  | cut (e) (part) (hpart : part <+: e.2.wire) : Partial (.closed (some e)) part

/-- The response of the phase, if there is one. -/
def current : WritePhase → Option Reply
  | .reading => none
  | .headers e _ | .body e _ => some e
  | .closed cut => cut

/-- The responses that were begun. -/
def begun (s : HttpWriter) : List Reply := s.sent ++ (current s.phase).toList

/-- The wire holds the responses in order and at most the last of them in part, and
nothing follows a response that closes the connection. -/
structure Inv (server : HttpServer) (requests : Option RawHttpRequest → Prop) (s : HttpWriter) : Prop where
  wire : ∃ part, Partial s.phase part ∧ s.wire = Reply.wire s.sent ++ part
  chained : s.begun.Pairwise fun e _ => ¬ e.Closes
  opened : s.phase = .reading → ∀ e ∈ s.sent, ¬ e.Closes
  answers : ∀ e ∈ s.begun, ∃ received, requests received ∧ e = server.reply received

variable {server : HttpServer} {requests : Option RawHttpRequest → Prop} {s t : HttpWriter} {e : Reply}

theorem wire_append (es fs : List Reply) : Reply.wire (es ++ fs) = Reply.wire es ++ Reply.wire fs :=
  List.flatMap_append

theorem wire_singleton (e : Reply) : Reply.wire [e] = e.2.wire := List.flatMap_singleton _ _

theorem makeHeaders_ne_nil (r : HttpResponse) : r.makeHeaders ≠ [] := by
  have hcrlf : Libcold.HttpResponse.crlf ≠ [] := by decide
  simp [HttpResponse.makeHeaders, hcrlf]

/-- In the middle of a response. -/
structure Going (server : HttpServer) (requests : Option RawHttpRequest → Prop) (s : HttpWriter) (e : Reply) :
    Prop where
  opened : ∀ other ∈ s.sent, ¬ other.Closes
  answers : ∀ other ∈ s.sent ++ [e], ∃ received, requests received ∧ other = server.reply received

theorem pairwise_of_open {es : List Reply} (h : ∀ e ∈ es, ¬ e.Closes) (f : List Reply) (hf : f.length ≤ 1) :
    (es ++ f).Pairwise fun e _ => ¬ e.Closes := by
  have hlast : f.Pairwise fun e _ => ¬ e.Closes := by
    rcases f with _ | ⟨e, _ | ⟨_, _⟩⟩
    · exact .nil
    · exact List.pairwise_singleton _ _
    · simp at hf
  exact List.pairwise_append.mpr
    ⟨List.pairwise_of_forall_mem_list fun e he _ _ => h e he, hlast, fun e he _ _ => h e he⟩

/-- A response that is whole on the wire. -/
theorem Going.complete (h : Going server requests s e) (hwire : s.wire = Reply.wire s.sent ++ e.2.wire) :
    (s.complete e).Inv server requests := by
  have hsent : (s.complete e).begun = s.sent ++ [e] := by
    cases hkeep : e.2.isKeepAlive <;> simp [HttpWriter.complete, begun, current, hkeep]
  refine ⟨⟨[], ?_, ?_⟩, ?_, ?_, ?_⟩
  · cases hkeep : e.2.isKeepAlive
    · simpa [HttpWriter.complete, hkeep] using Partial.ended
    · simpa [HttpWriter.complete, hkeep] using Partial.reading
  · simp only [HttpWriter.complete, wire_append, wire_singleton, List.append_nil]
    exact hwire
  · rw [hsent]
    exact pairwise_of_open h.opened [e] le_rfl
  · intro hreading other hother
    have hkeep : e.2.isKeepAlive = true := by
      by_contra hclose
      simp [HttpWriter.complete, hclose] at hreading
    rcases List.mem_append.mp hother with hother | hother
    · exact h.opened other hother
    · rw [List.mem_singleton.mp hother, Reply.Closes, hkeep]
      exact Bool.noConfusion
  · rw [hsent]
    exact h.answers

theorem Going.amid (h : Going server requests s e) {phase : WritePhase} {part : List UInt8}
    (hphase : current phase = some e) (hpart : Partial phase part) (hwire : s.wire = Reply.wire s.sent ++ part) :
    ({ s with phase } : HttpWriter).Inv server requests := by
  have hbegun : ({ s with phase } : HttpWriter).begun = s.sent ++ [e] := by simp [begun, hphase]
  refine ⟨⟨part, hpart, hwire⟩, ?_, ?_, ?_⟩
  · rw [hbegun]
    exact pairwise_of_open h.opened [e] le_rfl
  · rintro rfl
    cases hphase
  · rw [hbegun]
    exact h.answers

theorem Going.sendBody (h : Going server requests s e) (k : Nat)
    (hwire : s.wire = Reply.wire s.sent ++ (e.2.makeHeaders ++ e.2.sentBody.take k)) :
    (s.sendBody e k).Inv server requests := by
  rw [HttpWriter.sendBody]
  split_ifs with hless
  · exact h.amid rfl (.body e k hless) hwire
  · apply h.complete
    rw [hwire, HttpResponse.wire, List.take_of_length_le (Nat.le_of_not_lt hless)]

theorem Going.writeHeaders (h : Going server requests s e) (k : Nat)
    (hwire : s.wire = Reply.wire s.sent ++ e.2.makeHeaders.take k) : (s.writeHeaders e k).Inv server requests := by
  rw [HttpWriter.writeHeaders]
  split_ifs with hless
  · exact h.amid rfl (.headers e k hless) hwire
  · apply h.sendBody 0
    rw [hwire, List.take_of_length_le (Nat.le_of_not_lt hless), List.take_zero, List.append_nil]

theorem Going.accept (h : Going server requests s e) (bytes : List UInt8) : Going server requests (s.accept bytes) e :=
  ⟨h.opened, h.answers⟩

theorem Inv.going (h : s.Inv server requests) (hcurrent : current s.phase = some e) : Going server requests s e := by
  have hbegun : s.begun = s.sent ++ [e] := by simp [begun, hcurrent]
  refine ⟨fun other hother => ?_, ?_⟩
  · have hchained := h.chained
    rw [hbegun] at hchained
    exact (List.pairwise_append.mp hchained).2.2 other hother e List.mem_cons_self
  · rw [← hbegun]
    exact h.answers

theorem Partial.eq_headers {k : Nat} {part : List UInt8} (h : Partial (.headers e k) part) :
    part = e.2.makeHeaders.take k := by
  cases h with
  | headers => rfl

theorem Partial.eq_body {k : Nat} {part : List UInt8} (h : Partial (.body e k) part) :
    part = e.2.makeHeaders ++ e.2.sentBody.take k := by
  cases h with
  | body => rfl

theorem Partial.eq_closed {part : List UInt8} (h : Partial (.closed (some e)) part) : part <+: e.2.wire := by
  cases h with
  | cut _ _ hpart => exact hpart

theorem start_inv : ({} : HttpWriter).Inv server requests :=
  ⟨⟨[], .reading, rfl⟩, .nil, fun _ _ he => absurd he List.not_mem_nil, fun _ he => absurd he List.not_mem_nil⟩

theorem step_inv {event : WriteEvent} (h : s.Inv server requests) (hstep : Step server requests s event t) :
    t.Inv server requests := by
  obtain ⟨part, hpart, hwire⟩ := h.wire
  cases hstep with
  | readEnds hphase =>
      have hbegun : s.begun = ({ s with phase := .closed none } : HttpWriter).begun := by
        simp [begun, hphase, current]
      rw [hphase] at hpart
      cases hpart
      exact ⟨⟨[], .ended, hwire⟩, hbegun ▸ h.chained, by simp, hbegun ▸ h.answers⟩
  | readMore hphase => exact h
  | received received hphase hreceived =>
      have hbegun : s.begun = s.sent := by simp [begun, hphase, current]
      rw [hphase] at hpart
      cases hpart
      have hgoing : Going server requests s (server.reply received) := by
        refine ⟨h.opened hphase, fun other hother => ?_⟩
        rcases List.mem_append.mp hother with hother | hother
        · exact h.answers other (hbegun ▸ hother)
        · exact ⟨received, hreceived, List.mem_singleton.mp hother⟩
      exact hgoing.writeHeaders 0 hwire
  | writes e k n hphase hn =>
      have hgoing := h.going (e := e) (by rw [hphase]; rfl)
      rw [hphase] at hpart
      obtain rfl := hpart.eq_headers
      apply (hgoing.accept _).writeHeaders
      rw [accept, hwire, List.append_assoc, ← List.take_add]
  | writeFails e k n hphase hn =>
      have hgoing := h.going (e := e) (by rw [hphase]; rfl)
      rw [hphase] at hpart
      obtain rfl := hpart.eq_headers
      apply (hgoing.accept _).amid rfl (.cut e (e.2.makeHeaders.take (k + n)) ?_)
      · rw [accept, hwire, List.append_assoc, ← List.take_add]
      · exact (List.take_prefix _ _).trans (List.prefix_append _ _)
  | sends e k n hphase hn =>
      have hgoing := h.going (e := e) (by rw [hphase]; rfl)
      rw [hphase] at hpart
      obtain rfl := hpart.eq_body
      apply (hgoing.accept _).sendBody
      rw [accept, hwire, List.append_assoc, List.append_assoc, ← List.take_add]
  | sendFails e k n hphase hn =>
      have hgoing := h.going (e := e) (by rw [hphase]; rfl)
      rw [hphase] at hpart
      obtain rfl := hpart.eq_body
      apply (hgoing.accept _).amid rfl (.cut e (e.2.makeHeaders ++ e.2.sentBody.take (k + n)) ?_)
      · rw [accept, hwire, List.append_assoc, List.append_assoc, ← List.take_add]
      · exact (List.prefix_append_right_inj _).mpr (List.take_prefix _ _)

end HttpWriter

namespace HttpClient

/-- The responses to the methods of the requests, as far as a client finds them. -/
def readSome (closed : Bool) : List (List UInt8) → List UInt8 → List ClientMessage
  | [], _ => []
  | method :: methods, stream =>
      match readMessage closed method stream with
      | none => []
      | some (message, rest) => message :: readSome closed methods rest

theorem exists_of_readSome {closed : Bool} {method stream : List UInt8} {methods : List (List UInt8)}
    {message : ClientMessage} {messages : List ClientMessage}
    (h : readSome closed (method :: methods) stream = message :: messages) :
    ∃ rest, readMessage closed method stream = some (message, rest) := by
  rw [readSome] at h
  split at h
  · cases h
  next first rest hread =>
    obtain ⟨rfl, -⟩ := List.cons.inj h
    exact ⟨rest, hread⟩

theorem readSome_nil (closed : Bool) (methods : List (List UInt8)) : readSome closed methods [] = [] := by
  cases methods with
  | nil => rfl
  | cons method methods => rfl

end HttpClient

namespace Reply

open HttpClient

/-- What the response says of its own end does not hold of a part of it: it gives its
length, or it has no body and is the last one. -/
def SelfDelimited (e : Reply) : Prop :=
  e.2.Legible ∧ (e.2.Delimited False e.1 ∨ e.2.sentBody = [] ∧ e.2.Delimited e.Closes e.1)

variable {e : Reply}

theorem SelfDelimited.extent (h : e.SelfDelimited) :
    extent e.1 e.2.sentHead = some (.bytes e.2.sentBody.length) ∨
      e.2.sentBody = [] ∧ e.Closes ∧ extent e.1 e.2.sentHead = some .untilClose := by
  rcases h.2 with hlength | ⟨hbody, hends⟩
  · rcases (e.2.extent_iff e.1 False).mpr hlength with hbytes | ⟨hfalse, -⟩
    · exact .inl hbytes
    · exact hfalse.elim
  · rcases (e.2.extent_iff e.1 e.Closes).mpr hends with hbytes | huntil
    · exact .inl hbytes
    · exact .inr ⟨hbody, huntil⟩

theorem SelfDelimited.read (h : e.SelfDelimited) {rest : List UInt8} (hrest : e.Closes → rest = []) :
    readMessage true e.1 (e.2.wire ++ rest) = some (e.2.sentMessage, rest) := by
  rw [HttpResponse.readMessage_wire_iff]
  refine ⟨h.1, ?_⟩
  rcases h.extent with hbytes | ⟨-, hcloses, huntil⟩
  · exact .inl ⟨hbytes, rfl⟩
  · exact .inr ⟨rfl, huntil, hrest hcloses, hrest hcloses⟩

/-- A part of a response is not read as one. -/
theorem SelfDelimited.not_read (h : e.SelfDelimited) {part : List UInt8} (hpart : part <+: e.2.wire)
    (hne : part ≠ e.2.wire) : readMessage true e.1 part = none := by
  obtain ⟨missing, hmissing⟩ := hpart
  have hpos : missing ≠ [] := by
    rintro rfl
    exact hne (by simpa using hmissing)
  rcases hblock : takeBlock 13 10 part with _ | ⟨lines, rest⟩
  · simp [readMessage, hblock]
  · have hwhole := takeBlock_append hblock missing
    have hwire := HttpResponse.takeBlock_wire h.1.lines []
    rw [List.append_nil, ← hmissing, hwhole, List.append_nil] at hwire
    obtain ⟨rfl, hbody⟩ := Prod.mk.inj (Option.some.inj hwire)
    have hhead := (HttpResponse.readHead_blockLines_iff e.2).mpr ⟨h.1.version, h.1.fields⟩
    rcases h.extent with hbytes | ⟨hnone, -, -⟩
    · have hshort : ¬ e.2.sentBody.length ≤ rest.length := by
        have hlength := congrArg List.length hbody
        have hmore := List.length_pos_of_ne_nil hpos
        rw [List.length_append] at hlength
        omega
      simp [readMessage, hblock, hhead, hbytes, readBody, hshort]
    · rw [hnone] at hbody
      exact absurd (List.append_eq_nil_iff.mp hbody).2 hpos

theorem readSome_wire {es : List Reply} (h : ∀ e ∈ es, e.SelfDelimited) (hchained : es.Pairwise fun e _ => ¬ e.Closes)
    {part : List UInt8} (hlast : ∀ e ∈ es, e.Closes → part = []) (methods : List (List UInt8)) :
    readSome true (es.map Prod.fst ++ methods) (wire es ++ part) =
      es.map (fun e => e.2.sentMessage) ++ readSome true methods part := by
  induction es with
  | nil => rfl
  | cons e es ih =>
      rw [List.forall_mem_cons] at h hlast
      rw [List.pairwise_cons] at hchained
      have hrest : e.Closes → wire es ++ part = [] := by
        intro hcloses
        obtain rfl : es = [] := List.eq_nil_iff_forall_not_mem.mpr fun later hlater => hchained.1 later hlater hcloses
        exact hlast.1 hcloses
      have hwire : wire (e :: es) ++ part = e.2.wire ++ (wire es ++ part) := List.append_assoc _ _ _
      rw [List.map_cons, List.cons_append, readSome, hwire, h.1.read hrest]
      exact congrArg (e.2.sentMessage :: ·) (ih h.2 hchained.2 hlast.2)

end Reply

namespace HttpWriter

open HttpClient

variable {server : HttpServer} {requests : Option RawHttpRequest → Prop} {s t : HttpWriter} {e : Reply}

/-- The responses that are whole on the wire. -/
def arrived (s : HttpWriter) : List Reply := if s.wire = Reply.wire s.begun then s.begun else s.sent

/-- Once the connection is closed a client finds the responses that are whole, whatever
else it has asked for, and takes nothing else for a response. -/
def ReadBack (s : HttpWriter) : Prop :=
  ∀ more, readSome true (s.begun.map Prod.fst ++ more) s.wire = s.arrived.map fun e => e.2.sentMessage

theorem arrived_of_none (h : current s.phase = none) : s.arrived = s.sent := by
  have hbegun : s.begun = s.sent := by simp [begun, h]
  rw [arrived, hbegun, ite_self]

theorem Inv.readBack (h : s.Inv server requests) {cut : Option Reply} (hphase : s.phase = .closed cut)
    (hgood : ∀ e ∈ s.begun, e.SelfDelimited) : s.ReadBack := by
  intro more
  obtain ⟨part, hpart, hwire⟩ := h.wire
  rw [arrived]
  split_ifs with hwhole
  · have hread := Reply.readSome_wire hgood h.chained (fun _ _ _ => Eq.refl []) more
    rw [List.append_nil, ← hwhole, readSome_nil, List.append_nil] at hread
    exact hread
  · have hchained := h.chained
    have hcurrent : current s.phase = cut := by rw [hphase]; rfl
    rw [begun, hcurrent] at hgood hchained hwhole ⊢
    cases cut with
    | none =>
        rw [hphase] at hpart
        cases hpart
        exact absurd (by simpa using hwire) hwhole
    | some e =>
        rw [hphase] at hpart
        have hne : part ≠ e.2.wire := by
          rintro rfl
          exact hwhole (by rw [hwire, Option.toList_some, wire_append, wire_singleton])
        rw [List.pairwise_append] at hchained
        have hsent (other : Reply) (hother : other ∈ s.sent) : other.SelfDelimited :=
          hgood other (List.mem_append_left _ hother)
        have hopen : ∀ other ∈ s.sent, other.Closes → part = [] := fun other hother hcloses =>
          absurd hcloses (hchained.2.2 other hother e (by simp))
        have hcut := (hgood e (by simp)).not_read hpart.eq_closed hne
        have hmethods : (s.sent ++ (some e).toList).map Prod.fst ++ more = s.sent.map Prod.fst ++ e.1 :: more := by
          simp
        rw [hmethods, hwire, Reply.readSome_wire hsent hchained.1 hopen, readSome, hcut, List.append_nil]

variable {received : Option RawHttpRequest}

/-- The headers go out in one piece. -/
theorem step_headers (s : HttpWriter) (e : Reply) : Step server requests { s with phase := .headers e 0 }
    (.accepts e.2.makeHeaders.length) ((s.accept e.2.makeHeaders).sendBody e 0) := by
  convert Step.writes { s with phase := .headers e 0 } e 0 e.2.makeHeaders.length rfl (Nat.zero_add _).le using 1
  rw [Nat.zero_add, writeHeaders, if_neg (lt_irrefl _), List.drop_zero, List.take_length]
  rfl

/-- The body goes out in one piece. -/
theorem step_body (s : HttpWriter) (e : Reply) : Step server requests { s with phase := .body e 0 }
    (.accepts e.2.sentBody.length) ((s.accept e.2.sentBody).complete e) := by
  convert Step.sends { s with phase := .body e 0 } e 0 e.2.sentBody.length rfl (Nat.zero_add _).le using 1
  rw [Nat.zero_add, sendBody, if_neg (lt_irrefl _), List.drop_zero, List.take_length]
  rfl

theorem begins (s : HttpWriter) (e : Reply) : s.writeHeaders e 0 = { s with phase := .headers e 0 } :=
  if_pos (List.length_pos_of_ne_nil (makeHeaders_ne_nil _))

theorem run_headers (hphase : s.phase = .reading) (h : requests received) (he : server.reply received = e) :
    ∃ trace, Run (Step server requests) s trace ((s.accept e.2.makeHeaders).sendBody e 0) := by
  have hreceived := @Step.received server requests s received hphase h
  rw [he, begins] at hreceived
  exact ⟨_, run_cons_iff.mpr ⟨_, hreceived, .single (step_headers s e)⟩⟩

theorem run_whole (hphase : s.phase = .reading) (h : requests received) (he : server.reply received = e) :
    ∃ trace, Run (Step server requests) s trace ((s.accept e.2.wire).complete e) := by
  obtain ⟨trace, hrun⟩ := run_headers hphase h he
  have hwire : s.accept e.2.wire = (s.accept e.2.makeHeaders).accept e.2.sentBody := by
    simp [accept, HttpResponse.wire]
  rw [hwire]
  rw [sendBody] at hrun
  split_ifs at hrun with hbody
  · exact ⟨_, hrun.next (step_body _ e)⟩
  · have hnone : e.2.sentBody = [] := List.eq_nil_of_length_eq_zero (Nat.eq_zero_of_not_pos hbody)
    have hsame : (s.accept e.2.makeHeaders).accept e.2.sentBody = s.accept e.2.makeHeaders := by
      simp [accept, hnone]
    rw [hsame]
    exact ⟨trace, hrun⟩

/-- A client reads what was sent, on every run. -/
def AlwaysReadBack (server : HttpServer) (requests : Option RawHttpRequest → Prop) : Prop :=
  ∀ trace s cut, Run (Step server requests) {} trace s → s.phase = .closed cut → s.ReadBack

/-- The connection ends with the response, or goes on and answers the same request once more. -/
theorem AlwaysReadBack.read (h : AlwaysReadBack server requests) (hreceived : requests received)
    (he : server.reply received = e) : ∃ rest behind,
      readMessage true e.1 (e.2.wire ++ rest) = some (e.2.sentMessage, behind) ∧ (rest = [] → e.Closes) := by
  obtain ⟨trace, hfirst⟩ := run_whole (s := {}) rfl hreceived he
  cases hkeep : e.2.isKeepAlive with
  | false =>
      have hback := h trace _ none hfirst (by simp [complete, hkeep]) []
      rw [arrived_of_none (by simp [complete, hkeep, current])] at hback
      have hsome : readSome true [e.1] e.2.wire = [e.2.sentMessage] := by
        simpa [begun, current, complete, accept, hkeep] using hback
      obtain ⟨rest, hread⟩ := exists_of_readSome hsome
      exact ⟨[], rest, by rw [List.append_nil]; exact hread, fun _ => hkeep⟩
  | true =>
      have hphase : ((({} : HttpWriter).accept e.2.wire).complete e).phase = .reading := by simp [complete, hkeep]
      obtain ⟨more, hsecond⟩ := run_whole hphase hreceived he
      have hends := (hfirst.append hsecond).next (.readEnds _ (by simp [complete, hkeep]))
      have hback := h _ _ none hends rfl []
      rw [arrived_of_none rfl] at hback
      have hsome : readSome true [e.1, e.1] (e.2.wire ++ e.2.wire) = [e.2.sentMessage, e.2.sentMessage] := by
        simpa [begun, current, complete, accept, hkeep] using hback
      obtain ⟨rest, hread⟩ := exists_of_readSome hsome
      exact ⟨e.2.wire, rest, hread, fun hnil => absurd hnil (HttpResponse.wire_ne_nil _)⟩

/-- Between the headers and the body the connection may end. -/
theorem AlwaysReadBack.bodyless (h : AlwaysReadBack server requests) (hreceived : requests received)
    (he : server.reply received = e) (hlegible : e.2.Legible)
    (huntil : extent e.1 e.2.sentHead = some .untilClose) : e.2.sentBody = [] := by
  by_contra hbody
  obtain ⟨trace, hheaders⟩ := run_headers (s := {}) rfl hreceived he
  rw [sendBody, if_pos (List.length_pos_of_ne_nil hbody)] at hheaders
  have hback := h _ _ (some e) (hheaders.next (.sendFails _ e 0 0 rfl (Nat.zero_le _))) rfl []
  have hsome : readSome true [e.1] e.2.makeHeaders = [] := by
    simpa [begun, current, accept, arrived, wire_singleton, HttpResponse.wire, hbody] using hback
  have hread : readMessage true e.1 e.2.makeHeaders = some (⟨e.2.sentHead, []⟩, []) := by
    have hblock := HttpResponse.takeBlock_makeHeaders hlegible.lines []
    have hhead := (HttpResponse.readHead_blockLines_iff e.2).mpr ⟨hlegible.version, hlegible.fields⟩
    rw [List.append_nil] at hblock
    simp [readMessage, hblock, hhead, huntil, readBody]
  rw [readSome, hread] at hsome
  cases hsome

theorem run_inv {trace : List WriteEvent} (h : Run (Step server requests) {} trace s) : s.Inv server requests := by
  induction h with
  | stop => exact start_inv
  | next _ taken ih => exact step_inv ih taken

/-- Whatever calls fail and when, a client takes no part of a response for a response,
exactly if each response gives its length or is the last one and has no body. -/
theorem cut_read_back_iff (server : HttpServer) (requests : Option RawHttpRequest → Prop) :
    AlwaysReadBack server requests ↔ ∀ received, requests received → (server.reply received).SelfDelimited := by
  constructor
  · intro h received hreceived
    obtain ⟨rest, behind, hread, hlast⟩ := h.read hreceived rfl
    obtain ⟨hlegible, ⟨hbytes, -⟩ | ⟨-, huntil, hrest, -⟩⟩ := (HttpResponse.readMessage_wire_iff _ _ _ _ _).mp hread
    · exact ⟨hlegible, .inl ((HttpResponse.extent_iff _ _ _).mp (.inl hbytes))⟩
    · refine ⟨hlegible, .inr ⟨h.bodyless hreceived rfl hlegible huntil, ?_⟩⟩
      exact (HttpResponse.extent_iff _ _ _).mp (.inr ⟨hlast hrest, huntil⟩)
  · intro h trace s cut hrun hphase
    have hinv := run_inv hrun
    apply hinv.readBack hphase
    intro e he
    obtain ⟨received, hreceived, rfl⟩ := hinv.answers e he
    exact h received hreceived

end HttpWriter

/-- `DoHttp` with its parser and its socket. -/
structure DoHttp (L : Llhttp) where
  parser : HttpParser L := {}
  writer : HttpWriter := {}

namespace DoHttp

open HttpParser HttpSegmentation
open HttpConnection (setQueue)

variable {L : Llhttp}

/-- From one suspension to the next, with what the read gave if it was one. -/
inductive Step (server : HttpServer) (limits : HttpLimits) : DoHttp L → Option (List UInt8) → DoHttp L → Prop
  | badRequest (s chunk t w) (hparse : Parse limits s.parser chunk (false, t))
      (hw : HttpWriter.Step server (fun _ => True) s.writer (.received none) w) :
      Step server limits s (some chunk) ⟨t, w⟩
  | respond (s chunk t request rest w) (hparse : Parse limits s.parser chunk (true, t))
      (hqueue : t.self.requestQueue = request :: rest)
      (hw : HttpWriter.Step server (fun _ => True) s.writer (.received (some request)) w) :
      Step server limits s (some chunk) ⟨setQueue t rest, w⟩
  | goOn (s chunk t w) (hparse : Parse limits s.parser chunk (true, t)) (hqueue : t.self.requestQueue = [])
      (hw : HttpWriter.Step server (fun _ => True) s.writer .readMore w) : Step server limits s (some chunk) ⟨t, w⟩
  | readEnds (s w) (hw : HttpWriter.Step server (fun _ => True) s.writer .readEnds w) :
      Step server limits s (some []) ⟨s.parser, w⟩
  | accepts (s n w) (hw : HttpWriter.Step server (fun _ => True) s.writer (.accepts n) w) :
      Step server limits s none ⟨s.parser, w⟩
  | fails (s n w) (hw : HttpWriter.Step server (fun _ => True) s.writer (.fails n) w) :
      Step server limits s none ⟨s.parser, w⟩

/-- The response for what the parser has of a request. -/
def replyOf (server : HttpServer) : HttpSent → Reply
  | .response request => server.reply (some request)
  | .badRequest => server.reply none

/-- In the middle of a response: the connection may go on when it is whole, and is closed
without it when it is cut. -/
structure Answering (server : HttpServer) (limits : HttpLimits) (reads : List (List UInt8)) (parser : HttpParser L)
    (sent : List Reply) (e : Reply) : Prop where
  whole : ∃ c : HttpConnection L, Run (HttpConnection.Step limits) {} reads c ∧ c.parser = parser ∧
    c.closed = !e.2.isKeepAlive ∧ sent ++ [e] = c.sent.map (replyOf server)
  cut : ∃ c : HttpConnection L, Run (HttpConnection.Step limits) {} reads c ∧ c.closed = true ∧
    sent = c.sent.map (replyOf server)

/-- What the connection is, seen from one read to the next. -/
inductive Refines (server : HttpServer) (limits : HttpLimits) (reads : List (List UInt8)) (s : DoHttp L) : Prop
  | waits (c : HttpConnection L) (hrun : Run (HttpConnection.Step limits) {} reads c)
      (hphase : s.writer.phase = .reading) (hclosed : c.closed = false) (hparser : c.parser = s.parser)
      (hsent : s.writer.sent = c.sent.map (replyOf server))
  | answers (e k) (hphase : s.writer.phase = .headers e k ∨ s.writer.phase = .body e k)
      (h : Answering server limits reads s.parser s.writer.sent e)
  | closed (c : HttpConnection L) (cut) (hrun : Run (HttpConnection.Step limits) {} reads c)
      (hphase : s.writer.phase = .closed cut) (hclosed : c.closed = true)
      (hsent : s.writer.sent = c.sent.map (replyOf server))

variable {server : HttpServer} {limits : HttpLimits} {reads : List (List UInt8)} {s t : DoHttp L}
  {parser : HttpParser L} {w : HttpWriter} {e : Reply}

theorem Answering.complete (h : Answering server limits reads parser w.sent e) :
    Refines server limits reads ⟨parser, w.complete e⟩ := by
  obtain ⟨c, hrun, hparser, hclosed, hsent⟩ := h.whole
  cases hkeep : e.2.isKeepAlive with
  | false => exact .closed c none hrun (by simp [HttpWriter.complete, hkeep]) (by rw [hclosed, hkeep]; rfl) hsent
  | true => exact .waits c hrun (by simp [HttpWriter.complete, hkeep]) (by rw [hclosed, hkeep]; rfl) hparser hsent

theorem Answering.sendBody (h : Answering server limits reads parser w.sent e) (k : Nat) :
    Refines server limits reads ⟨parser, w.sendBody e k⟩ := by
  rw [HttpWriter.sendBody]
  split_ifs
  · exact .answers e k (.inr rfl) h
  · exact h.complete

theorem Answering.writeHeaders (h : Answering server limits reads parser w.sent e) (k : Nat) :
    Refines server limits reads ⟨parser, w.writeHeaders e k⟩ := by
  rw [HttpWriter.writeHeaders]
  split_ifs
  · exact .answers e k (.inl rfl) h
  · exact h.sendBody 0

theorem isKeepAlive_none (server : HttpServer) : (server.respond none).isKeepAlive = false := by
  have hnone := (server.connectionStatus_respond none).not.mpr (by simp)
  rw [HttpResponse.isKeepAlive]
  split
  · exact absurd ‹_› hnone
  · rfl

theorem Refines.waiting (h : Refines server limits reads s) (hphase : s.writer.phase = .reading) :
    ∃ c : HttpConnection L, Run (HttpConnection.Step limits) {} reads c ∧ c.closed = false ∧ c.parser = s.parser ∧
      s.writer.sent = c.sent.map (replyOf server) := by
  cases h with
  | waits c hrun _ hclosed hparser hsent => exact ⟨c, hrun, hclosed, hparser, hsent⟩
  | answers e k hwriting => rcases hwriting with hwriting | hwriting <;> rw [hphase] at hwriting <;> cases hwriting
  | closed c cut _ hend => rw [hphase] at hend; cases hend

theorem Refines.answering (h : Refines server limits reads s) {k : Nat}
    (hphase : s.writer.phase = .headers e k ∨ s.writer.phase = .body e k) :
    Answering server limits reads s.parser s.writer.sent e := by
  cases h with
  | waits c _ hreading => rcases hphase with hphase | hphase <;> rw [hphase] at hreading <;> cases hreading
  | answers e' k' hwriting hanswering =>
      rcases hphase with hphase | hphase <;> rcases hwriting with hwriting | hwriting <;> rw [hphase] at hwriting <;>
        cases hwriting
      · exact hanswering
      · exact hanswering
  | closed c cut _ hend => rcases hphase with hphase | hphase <;> rw [hphase] at hend <;> cases hend

theorem Answering.fails (h : Answering server limits reads parser w.sent e) :
    Refines server limits reads ⟨parser, { w with phase := .closed (some e) }⟩ := by
  obtain ⟨c, hrun, hclosed, hsent⟩ := h.cut
  exact .closed c (some e) hrun rfl hclosed hsent

/-- A read is a step of the connection, or one of two that the end of the response decides between. -/
theorem Refines.read {chunk : List UInt8} (h : Refines server limits reads s)
    (hstep : Step server limits s (some chunk) t) : Refines server limits (reads ++ [chunk]) t := by
  cases hstep with
  | badRequest _ t w hparse hw =>
      cases hw with
      | received _ hphase _ =>
          obtain ⟨c, hrun, hopen, hparser, hsent⟩ := h.waiting hphase
          rw [← hparser] at hparse
          refine Answering.writeHeaders ⟨?_, ?_⟩ 0
          · refine ⟨_, hrun.next (.badRequest c chunk t hopen hparse), rfl, ?_, ?_⟩
            · exact (congrArg (!·) (isKeepAlive_none server)).symm
            · rw [hsent, List.map_append]
              rfl
          · exact ⟨_, hrun.next (.writeFails c chunk false t hopen hparse), rfl, hsent⟩
  | respond _ t request rest w hparse hqueue hw =>
      cases hw with
      | received _ hphase _ =>
          obtain ⟨c, hrun, hopen, hparser, hsent⟩ := h.waiting hphase
          rw [← hparser] at hparse
          refine Answering.writeHeaders ⟨?_, ?_⟩ 0
          · refine ⟨_, hrun.next (.respond c chunk t request rest (server.respond (some request)).isKeepAlive hopen
              hparse hqueue), rfl, rfl, ?_⟩
            rw [hsent, List.map_append]
            rfl
          · exact ⟨_, hrun.next (.writeFails c chunk true t hopen hparse), rfl, hsent⟩
  | goOn _ t w hparse hqueue hw =>
      cases hw with
      | readMore hphase =>
          obtain ⟨c, hrun, hopen, hparser, hsent⟩ := h.waiting hphase
          rw [← hparser] at hparse
          exact .waits _ (hrun.next (.goOn c chunk t hopen hparse hqueue)) hphase rfl rfl hsent
  | readEnds w hw =>
      cases hw with
      | readEnds hphase =>
          obtain ⟨c, hrun, hopen, -, hsent⟩ := h.waiting hphase
          exact .closed _ none (hrun.next (.readFails c hopen)) rfl rfl hsent

/-- Nothing that happens to the output is a step of the connection. -/
theorem Refines.write (h : Refines server limits reads s) (hstep : Step server limits s none t) :
    Refines server limits reads t := by
  cases hstep with
  | accepts n w hw =>
      cases hw with
      | writes e k _ hphase _ =>
          exact Answering.writeHeaders (w := s.writer.accept _) (h.answering (.inl hphase)) (k + n)
      | sends e k _ hphase _ => exact Answering.sendBody (w := s.writer.accept _) (h.answering (.inr hphase)) (k + n)
  | fails n w hw =>
      cases hw with
      | writeFails e k _ hphase _ => exact Answering.fails (w := s.writer.accept _) (h.answering (.inl hphase))
      | sendFails e k _ hphase _ => exact Answering.fails (w := s.writer.accept _) (h.answering (.inr hphase))

theorem run_refines {trace : List (Option (List UInt8))} (h : Run (Step server limits) {} trace s) :
    Refines server limits trace.reduceOption s := by
  induction h with
  | stop => exact .waits {} .stop rfl rfl rfl rfl
  | @next trace s t label _ taken ih =>
      rw [List.reduceOption_append]
      cases label with
      | none => simpa using ih.write taken
      | some chunk => exact ih.read taken

theorem run_writer {trace : List (Option (List UInt8))} (h : Run (Step server limits) {} trace s) :
    s.writer.Inv server fun _ => True := by
  induction h with
  | stop => exact HttpWriter.start_inv
  | next _ taken ih =>
      cases taken with
      | badRequest _ _ _ _ hw | respond _ _ _ _ _ _ _ hw | goOn _ _ _ _ _ hw | readEnds _ hw | accepts _ _ hw
      | fails _ _ hw => exact HttpWriter.step_inv ih hw

open HttpConnection (received OneByOne)

/-- Bytes in, bytes out: however the kernel takes the output, whenever the connection waits
for input its whole output is the responses to the requests that have come. -/
theorem waiting_wire {trace : List (Option (List UInt8))} (h : Run (Step server limits) {} trace s)
    (hguard : OneByOne L limits trace.reduceOption) (hphase : s.writer.phase = .reading) :
    s.writer.wire = Reply.wire ((received L limits trace.reduceOption.flatten).map fun r => server.reply (some r)) := by
  obtain ⟨c, hrun, hopen, -, hsent⟩ := (run_refines h).waiting hphase
  obtain ⟨part, hpart, hwire⟩ := (run_writer h).wire
  have hanswered := (HttpConnection.run_inv hrun hguard).answered.1 hopen
  rw [hphase] at hpart
  cases hpart
  rw [hwire, List.append_nil, hsent, hanswered, List.map_map]
  rfl

/-- A request that comes in two reads, and its response. -/
theorem waiting_wire_greeting : ∃ (server : HttpServer) (s : DoHttp requestLines), s.writer.sent.length = 1 ∧
    s.writer.wire = Reply.wire ((received requestLines {} behindTunnel).map fun r => server.reply (some r)) := by
  let server : HttpServer := { servlets := fun _ => [.setBody (.text (ascii "hello"))] }
  have hguard : OneByOne requestLines {} [behindTunnel] := by
    rintro (_ | ⟨_, _ | ⟨_, before⟩⟩) chunk after h <;> cases h
    exact ⟨by decide, by decide⟩
  obtain ⟨ok, t, hparse⟩ := exists_parse {} ({} : HttpParser requestLines) behindTunnel
  obtain ⟨hconf, hok, -⟩ := parse_conf (opened_start {}) hparse
  obtain rfl : ok = true := by
    rw [hok, hconf]
    decide
  have hqueue : t.self.requestQueue = received requestLines {} behindTunnel := by
    rw [← queue_conf, hconf]
    decide
  have hone : (received requestLines {} behindTunnel).length = 1 := by decide
  obtain ⟨request, hrequest⟩ := List.length_eq_one_iff.mp hone
  have hkeep : ∀ r ∈ received requestLines {} behindTunnel, (HttpRequest.ofRaw r).isKeepAlive = true := by decide
  rw [hrequest] at hqueue
  have hread : Step server {} ({} : DoHttp requestLines) (some behindTunnel) ⟨setQueue t [], _⟩ :=
    .respond _ _ t request [] _ hparse hqueue (.received _ _ rfl trivial)
  rw [HttpWriter.begins] at hread
  have hheaders := (Run.single hread).next (.accepts _ _ _ (HttpWriter.step_headers {} _))
  have hbody : (server.respond (some request)).sentBody = ascii "hello" := rfl
  have hpos : 0 < (server.reply (some request)).2.sentBody.length := by
    rw [HttpServer.reply, hbody]
    decide
  rw [HttpWriter.sendBody, if_pos hpos] at hheaders
  have hwhole := hheaders.next (.accepts _ _ _ (HttpWriter.step_body _ _))
  have hstatus := (server.connectionStatus_respond (some request)).mpr
    ⟨request, rfl, hkeep request (by rw [hrequest]; exact List.mem_cons_self)⟩
  have hopen : (server.reply (some request)).2.isKeepAlive = true := by
    rw [HttpServer.reply, HttpResponse.isKeepAlive, hstatus]
  refine ⟨server, _, ?_, waiting_wire hwhole hguard ?_⟩
  · rfl
  · rw [HttpWriter.complete, if_pos hopen]

end DoHttp

end Libcold.Http
