import Libcold.WebSocketWriter

namespace Libcold

open Runs WebSocketParser

variable {Coro : Type}

/-- Where `DoRead` is: at the head of its loop, in `Read`, or back from it. -/
inductive DoReadPc
  | loopHead
  | reading
  | returned
  deriving DecidableEq

/-- What a step is about: a call of `WebSocket::Close`, one of the cases in which
`onClose_` is called, the end of the input, or something else. -/
inductive LifeEvent
  | localClose
  | peerClose
  | parseError
  | unknownOpcode
  | pingTimeout
  | writeError
  | readEnd
  | other
  deriving DecidableEq

def LifeEvent.callsOnClose : LifeEvent → Bool
  | localClose | peerClose | parseError | unknownOpcode | pingTimeout | writeError => true
  | readEnd | other => false

/-- A `WebSocket` that a `WebSocketServer` has accepted: its coroutines, whether
`webSockets_` still holds it, how often `OnClose` was called, and what has happened. -/
structure WebSocketLife (Coro : Type) where
  writer : WebSocketWriter Coro := {}
  doRead : DoReadPc := .loopHead
  parser : WebSocketParser := {}
  inWebSockets : Bool := true
  onCloses : Nat := 0
  events : List LifeEvent := []

namespace WebSocketLife

def onClose (s : WebSocketLife Coro) : WebSocketLife Coro :=
  { s with inWebSockets := false, onCloses := s.onCloses + 1 }

def closeSocket (s : WebSocketLife Coro) : WebSocketLife Coro :=
  { s with writer := { s.writer with connected := false } }

def onError (s : WebSocketLife Coro) : WebSocketLife Coro := s.onClose.closeSocket

def log (s : WebSocketLife Coro) (e : LifeEvent) : WebSocketLife Coro := { s with events := s.events ++ [e] }

/-- What a frame is to `DoRead`. -/
def frameEvent (frame : WebSocketFrame) : LifeEvent :=
  if frame.opcode = 0x8 then .peerClose
  else if frame.opcode ∈ [0x1, 0x2, 0x9, 0xa] then .other
  else .unknownOpcode

/-- `OnClose` is not called twice, and when the socket is closed it was called and the
socket has left `webSockets_`. -/
structure ClosedOnce (s : WebSocketLife Coro) : Prop where
  atMostOnce : s.onCloses ≤ 1
  ended : s.writer.connected = false → s.onCloses = 1 ∧ s.inWebSockets = false

/-- Of the cases in which `onClose_` is called there is one at most; the input does not end
before it, unless the socket is closed. -/
def OneCase (s : WebSocketLife Coro) (e : LifeEvent) : Prop :=
  (e.callsOnClose = true → ∀ e' ∈ s.events, e'.callsOnClose = false) ∧
    (e = .readEnd → s.writer.connected = true → ∃ e' ∈ s.events, e'.callsOnClose = true)

variable [DecidableEq Coro]

/-- The frame that a read has completed; a ping is answered by a coroutine of its own. -/
def handle (s : WebSocketLife Coro) (frame : WebSocketFrame) (c : Coro) : WebSocketLife Coro :=
  if frame.opcode = 0x8 then s.onClose.closeSocket
  else if frame.opcode = 0x9 then
    if s.writer.connected then { s with writer := s.writer.setPc c WriteRequest.sendPong.pc } else s
  else if frame.opcode ∈ [0x1, 0x2, 0xa] then s
  else s.onError

/-- The steps of a connection. A write that does not write the whole buffer is an
error, be the socket closed already or not. -/
inductive Step (P : Platform) : WebSocketLife Coro → LifeEvent → WebSocketLife Coro → Prop
  | spawn (s) (c) (request : WriteRequest) (hrequest : request ≠ .close) (hpc : s.writer.pc c = .absent)
      (hopen : request.checksConnected = true → s.writer.connected = true) :
      Step P s .other (log { s with writer := s.writer.setPc c request.pc } .other)
  | close (s) (c) (hpc : s.writer.pc c = .absent) :
      Step P s .localClose (log { s.onClose with writer := s.writer.setPc c WriteRequest.close.pc } .localClose)
  | ping (s) (c) (hpc : s.writer.pc c = .pinging) (hopen : s.writer.connected = true) :
      Step P s .other (log { s with writer := s.writer.setPc c (.spawned (controlFrame 0x9) .pingAgain) } .other)
  | stopPinging (s) (c) (hpc : s.writer.pc c = .pinging) (hclosed : s.writer.connected = false) :
      Step P s .other (log { s with writer := s.writer.setPc c .finished } .other)
  | makeFrame (s) (c) (frame) (atEnd) (rand) (buf) (hpc : s.writer.pc c = .spawned frame atEnd)
      (hmade : makeFrameToBuffer P frame rand s.writer.writeTempBuffer = .ok buf) :
      Step P s .other (log { s with writer := s.writer.made c atEnd buf } .other)
  | write (s) (c) (byteAlreadyWrite) (atEnd) (bytes)
      (hpc : s.writer.pc c = .writing byteAlreadyWrite s.writer.writeBuffer.length atEnd)
      (hopen : s.writer.connected = true) (hbytes : bytes <+: s.writer.writeBuffer.drop byteAlreadyWrite) :
      Step P s .other
        (log { s with writer := s.writer.written c byteAlreadyWrite s.writer.writeBuffer.length atEnd bytes } .other)
  | writeError (s) (c) (byteAlreadyWrite n) (atEnd) (hpc : s.writer.pc c = .writing byteAlreadyWrite n atEnd) :
      Step P s .writeError (log { s.onError with writer := s.onError.writer.leave c atEnd } .writeError)
  | toRead (s) (hread : s.doRead = .loopHead) (hopen : s.writer.connected = true) :
      Step P s .other (log { s with doRead := .reading } .other)
  | toReturn (s) (hread : s.doRead = .loopHead) (hclosed : s.writer.connected = false) :
      Step P s .other (log { s with doRead := .returned } .other)
  | pingTimeout (s) (hread : s.doRead = .loopHead) (hopen : s.writer.connected = true) :
      Step P s .pingTimeout (log { s.onError with doRead := .returned } .pingTimeout)
  | readEnd (s) (hread : s.doRead = .reading) :
      Step P s .readEnd (log { s.closeSocket with doRead := .returned } .readEnd)
  | parseError (s) (chunk parser) (hread : s.doRead = .reading) (hopen : s.writer.connected = true)
      (hsize : 0 < chunk.length ∧ chunk.length ≤ 65536) (hparse : parse P s.parser chunk = .ok (false, parser)) :
      Step P s .parseError (log { s.onError with doRead := .returned, parser } .parseError)
  | noFrame (s) (chunk parser) (hread : s.doRead = .reading) (hopen : s.writer.connected = true)
      (hsize : 0 < chunk.length ∧ chunk.length ≤ 65536) (hparse : parse P s.parser chunk = .ok (true, parser))
      (hframe : parser.hasFrame = false) : Step P s .other (log { s with doRead := .loopHead, parser } .other)
  | frame (s) (chunk parser frame rest) (c) (hread : s.doRead = .reading) (hopen : s.writer.connected = true)
      (hsize : 0 < chunk.length ∧ chunk.length ≤ 65536) (hparse : parse P s.parser chunk = .ok (true, parser))
      (hframe : parser.hasFrame = true) (htake : parser.takeFrame = (frame, rest))
      (hfin : P.ndebug = true ∨ frame.fin = true) (hpc : frame.opcode = 0x9 → s.writer.pc c = .absent) :
      Step P s (frameEvent frame)
        (log ({ s with doRead := .loopHead, parser := rest }.handle frame c) (frameEvent frame))

/-- The coroutine of a `Close`, which closes the socket in the end. -/
def Closer (pc : WritePc) : Prop :=
  (∃ frame, pc = .spawned frame .closeSocket) ∨ ∃ byteAlreadyWrite n, pc = .writing byteAlreadyWrite n .closeSocket

/-- What a step of a writing coroutine can do to it and to the socket. -/
structure Acts (w v : WebSocketWriter Coro) (c : Coro) (atEnd : WriteEnd) : Prop where
  pc : ∃ pc, v.pc = Function.update w.pc c pc ∧ (Closer pc → atEnd = .closeSocket)
  closed : v.connected = false → w.connected = false ∨ atEnd = .closeSocket

/-- What a step can do to what the life of a connection is about. -/
structure Effect (s : WebSocketLife Coro) (e : LifeEvent) (t : WebSocketLife Coro) : Prop where
  events : t.events = s.events ++ [e]
  onCloses : t.onCloses = s.onCloses + if e.callsOnClose then 1 else 0
  inWebSockets : t.inWebSockets = (s.inWebSockets && !e.callsOnClose)
  closers : ∀ c, Closer (t.writer.pc c) → Closer (s.writer.pc c) ∨ e.callsOnClose = true
  closed : t.writer.connected = false →
    s.writer.connected = false ∨ e.callsOnClose = true ∨ e = .readEnd ∨ ∃ c, Closer (s.writer.pc c)

section

variable {P : Platform} {s t : WebSocketLife Coro} {e : LifeEvent}

omit [DecidableEq Coro] in
theorem not_closer_skipped (atEnd : WriteEnd) : ¬ Closer (WebSocketWriter.skipped atEnd) := by
  cases atEnd <;> simp [Closer, WebSocketWriter.skipped]

theorem leave_acts (w : WebSocketWriter Coro) (c : Coro) (atEnd : WriteEnd) : Acts w (w.leave c atEnd) c atEnd where
  pc := ⟨_, rfl, fun h => absurd h (not_closer_skipped atEnd)⟩
  closed h := by
    cases atEnd with
    | closeSocket => exact .inr rfl
    | finish | pingAgain => exact .inl (by simpa [WebSocketWriter.leave] using h)

theorem writing_acts (w : WebSocketWriter Coro) (c : Coro) (byteAlreadyWrite n : Nat) (atEnd : WriteEnd) :
    Acts w (w.setPc c (.writing byteAlreadyWrite n atEnd)) c atEnd where
  pc := ⟨_, rfl, by simp [Closer]⟩
  closed := .inl

theorem Acts.of_same {w v x : WebSocketWriter Coro} {c : Coro} {atEnd : WriteEnd} (h : Acts w v c atEnd)
    (hpc : w.pc = x.pc) (hconnected : w.connected = x.connected) : Acts x v c atEnd where
  pc := hpc ▸ h.pc
  closed := hconnected ▸ h.closed

theorem doWrite_acts (w : WebSocketWriter Coro) (c : Coro) (atEnd : WriteEnd) : Acts w (w.doWrite c atEnd) c atEnd := by
  rw [WebSocketWriter.doWrite]
  dsimp only
  split_ifs
  · have h := leave_acts { w with writeBuffer := w.writeTempBuffer, writeTempBuffer := w.writeBuffer } c atEnd
    exact h.of_same rfl rfl
  · have h := writing_acts { w with writeBuffer := w.writeTempBuffer, writeTempBuffer := w.writeBuffer } c 0
      w.writeTempBuffer.length atEnd
    exact h.of_same rfl rfl
  · exact leave_acts w c atEnd

theorem made_acts (w : WebSocketWriter Coro) (c : Coro) (atEnd : WriteEnd) (buf : List UInt8) :
    Acts w (w.made c atEnd buf) c atEnd := by
  rw [WebSocketWriter.made]
  dsimp only
  split_ifs
  · exact ⟨⟨_, rfl, fun h => absurd h (not_closer_skipped atEnd)⟩, .inl⟩
  · exact (doWrite_acts { w with writeTempBuffer := buf, isWriting := true } c atEnd).of_same rfl rfl

theorem written_acts (w : WebSocketWriter Coro) (c : Coro) (byteAlreadyWrite : Nat) (atEnd : WriteEnd)
    (bytes : List UInt8) : Acts w (w.written c byteAlreadyWrite w.writeBuffer.length atEnd bytes) c atEnd := by
  rw [WebSocketWriter.written]
  dsimp only
  split_ifs with hmore hsize
  · exact (writing_acts { w with stream := w.stream ++ bytes } c _ _ atEnd).of_same rfl rfl
  · exact (doWrite_acts { w with stream := w.stream ++ bytes, writeBuffer := [] } c atEnd).of_same rfl rfl
  · exact absurd rfl hsize

/-- Where the coroutine that acts was a closer if it is one, so was it before. -/
theorem Acts.closers {w v : WebSocketWriter Coro} {c : Coro} {atEnd : WriteEnd} (h : Acts w v c atEnd)
    (hcloser : atEnd = .closeSocket → Closer (w.pc c)) (d : Coro) (hd : Closer (v.pc d)) : Closer (w.pc d) := by
  obtain ⟨pc, heq, hpc⟩ := h.pc
  rw [heq] at hd
  by_cases hdc : d = c
  · subst hdc
    exact hcloser (hpc (by simpa using hd))
  · simpa [hdc] using hd

theorem setPc_closers {w : WebSocketWriter Coro} {c : Coro} {pc : WritePc} (hpc : ¬ Closer pc) (d : Coro)
    (hd : Closer ((w.setPc c pc).pc d)) : Closer (w.pc d) := by
  by_cases hdc : d = c
  · subst hdc
    exact absurd (by simpa [WebSocketWriter.setPc] using hd) hpc
  · simpa [WebSocketWriter.setPc, hdc] using hd

theorem Acts.effect {w : WebSocketWriter Coro} {c : Coro} {atEnd : WriteEnd} (h : Acts s.writer w c atEnd)
    (hcloser : atEnd = .closeSocket → Closer (s.writer.pc c)) :
    Effect s .other (log { s with writer := w } .other) where
  events := rfl
  onCloses := rfl
  inWebSockets := (Bool.and_true _).symm
  closers d hd := .inl (h.closers hcloser d hd)
  closed hclosed := by
    rcases h.closed hclosed with hold | hend
    · exact .inl hold
    · exact .inr (.inr (.inr ⟨c, hcloser hend⟩))

theorem setPc_effect (s : WebSocketLife Coro) (c : Coro) {pc : WritePc} (hpc : ¬ Closer pc) :
    Effect s .other (log { s with writer := s.writer.setPc c pc } .other) where
  events := rfl
  onCloses := rfl
  inWebSockets := (Bool.and_true _).symm
  closers d hd := .inl (setPc_closers hpc d hd)
  closed := .inl

omit [DecidableEq Coro] in
/-- A step that calls `OnClose` may do anything to the coroutines and to the socket. -/
theorem called_effect (hcalls : e.callsOnClose = true) (hevents : t.events = s.events ++ [e])
    (honCloses : t.onCloses = s.onCloses + 1) (hleft : t.inWebSockets = false) : Effect s e t where
  events := hevents
  onCloses := by rw [honCloses, if_pos hcalls]
  inWebSockets := by rw [hleft, hcalls, Bool.not_true, Bool.and_false]
  closers _ _ := .inr hcalls
  closed _ := .inr (.inl hcalls)

omit [DecidableEq Coro] in
/-- A step that neither calls `OnClose` nor touches what the coroutines share. -/
theorem quiet_effect (hevents : t.events = s.events ++ [.other]) (honCloses : t.onCloses = s.onCloses)
    (hin : t.inWebSockets = s.inWebSockets) (hwriter : t.writer = s.writer) : Effect s .other t where
  events := hevents
  onCloses := honCloses
  inWebSockets := by rw [hin]; exact (Bool.and_true _).symm
  closers c hc := .inl (hwriter ▸ hc)
  closed h := .inl (hwriter ▸ h)

theorem request_not_closer {request : WriteRequest} (h : request ≠ .close) : ¬ Closer request.pc := by
  cases request with
  | close => exact absurd rfl h
  | send | sendPong | sendPing => simp [Closer, WriteRequest.pc]

theorem handle_effect (s : WebSocketLife Coro) (frame : WebSocketFrame) (c : Coro) :
    Effect s (frameEvent frame) (log (s.handle frame c) (frameEvent frame)) := by
  rw [frameEvent, handle]
  by_cases hclose : frame.opcode = 0x8
  · rw [if_pos hclose, if_pos hclose]
    exact called_effect rfl rfl rfl rfl
  · rw [if_neg hclose, if_neg hclose]
    by_cases hping : frame.opcode = 0x9
    · rw [if_pos hping, if_pos (by simp [hping])]
      split_ifs with hconnected
      · exact setPc_effect s c (request_not_closer (by simp))
      · exact quiet_effect rfl rfl rfl rfl
    · rw [if_neg hping]
      by_cases hknown : frame.opcode ∈ [0x1, 0x2, 0xa]
      · rw [if_pos hknown, if_pos]
        · exact quiet_effect rfl rfl rfl rfl
        · simp only [List.mem_cons, List.not_mem_nil, or_false] at hknown ⊢
          rcases hknown with h | h | h
          · exact .inl h
          · exact .inr (.inl h)
          · exact .inr (.inr (.inr h))
      · rw [if_neg hknown, if_neg]
        · exact called_effect rfl rfl rfl rfl
        · simp only [List.mem_cons, List.not_mem_nil, or_false, not_or] at hknown ⊢
          exact ⟨hknown.1, hknown.2.1, hping, hknown.2.2⟩

theorem Step.effect (hstep : Step P s e t) : Effect s e t := by
  cases hstep with
  | spawn c request hrequest hpc hopen => exact setPc_effect s c (request_not_closer hrequest)
  | close c hpc => exact called_effect rfl rfl rfl rfl
  | ping c hpc hopen => exact setPc_effect s c (by simp [Closer])
  | stopPinging c hpc hclosed => exact setPc_effect s c (by simp [Closer])
  | makeFrame c frame atEnd rand buf hpc hmade =>
      refine (made_acts s.writer c atEnd buf).effect ?_
      rintro rfl
      exact .inl ⟨frame, hpc⟩
  | write c byteAlreadyWrite atEnd bytes hpc hopen hbytes =>
      refine (written_acts s.writer c byteAlreadyWrite atEnd bytes).effect ?_
      rintro rfl
      exact .inr ⟨_, _, hpc⟩
  | writeError => exact called_effect rfl rfl rfl rfl
  | toRead | toReturn | noFrame => exact quiet_effect rfl rfl rfl rfl
  | pingTimeout | parseError => exact called_effect rfl rfl rfl rfl
  | readEnd => exact ⟨rfl, rfl, (Bool.and_true _).symm, fun _ => .inl, fun _ => .inr (.inr (.inl rfl))⟩
  | frame chunk parser frame rest c =>
      have h := handle_effect { s with doRead := .loopHead, parser := rest } frame c
      exact ⟨h.events, h.onCloses, h.inWebSockets, h.closers, h.closed⟩

theorem Step.readEnd_closes (hstep : Step P s e t) (h : e = .readEnd) : t.writer.connected = false := by
  cases hstep with
  | readEnd => rfl
  | frame chunk parser frame =>
      rw [frameEvent] at h
      split_ifs at h
  | spawn | close | ping | stopPinging | makeFrame | write | writeError => cases h
  | toRead | toReturn | pingTimeout | parseError | noFrame => cases h

omit [DecidableEq Coro] in
/-- What holds of every run, and the property. -/
structure Inv (s : WebSocketLife Coro) : Prop where
  counted : s.onCloses = s.events.countP LifeEvent.callsOnClose
  left : s.inWebSockets = !decide (0 < s.onCloses)
  closers : ∀ c, Closer (s.writer.pc c) → 0 < s.onCloses
  once : ClosedOnce s

omit [DecidableEq Coro] in
theorem Inv.onCloses_pos_iff (h : Inv s) : 0 < s.onCloses ↔ ∃ e ∈ s.events, e.callsOnClose = true := by
  rw [h.counted, List.countP_pos_iff]

omit [DecidableEq Coro] in
theorem Inv.onCloses_zero_iff (h : Inv s) : s.onCloses = 0 ↔ ∀ e ∈ s.events, e.callsOnClose = false := by
  rw [h.counted, List.countP_eq_zero]
  simp

omit [DecidableEq Coro] in
/-- A step keeps what holds of every run when it keeps the property. -/
theorem Effect.inv (heffect : Effect s e t) (h : Inv s) (honce : ClosedOnce t) : Inv t where
  counted := by
    rw [heffect.onCloses, heffect.events, List.countP_append, h.counted, List.countP_singleton]
  left := by
    rw [heffect.inWebSockets, heffect.onCloses, h.left]
    cases e.callsOnClose <;> simp
  closers c hc := by
    have hcount := heffect.onCloses
    rcases heffect.closers c hc with hold | hcall
    · have hpos := h.closers c hold
      omega
    · rw [if_pos hcall] at hcount
      omega
  once := honce

omit [DecidableEq Coro] in
theorem start_inv : Inv ({} : WebSocketLife Coro) :=
  ⟨rfl, rfl, by simp [Closer], by simp, by simp⟩

/-- A step keeps what holds of every run when it is the one case, or the input ends after it. -/
theorem step_inv (h : Inv s) (hguard : OneCase s e) (hstep : Step P s e t) : Inv t := by
  have heffect := hstep.effect
  refine heffect.inv h ?_
  have hcount := heffect.onCloses
  have hleft := heffect.inWebSockets
  rw [h.left] at hleft
  cases hcall : e.callsOnClose with
  | true =>
      have hzero := h.onCloses_zero_iff.mpr (hguard.1 hcall)
      rw [hcall, hzero] at hcount
      rw [hcall, Bool.not_true, Bool.and_false] at hleft
      exact ⟨Nat.le_of_eq hcount, fun _ => ⟨hcount, hleft⟩⟩
  | false =>
      rw [hcall] at hcount
      rw [hcall, Bool.not_false, Bool.and_true] at hleft
      have hmost := h.once.atMostOnce
      refine ⟨by simpa [hcount] using hmost, fun hclosed => ?_⟩
      suffices hpos : 0 < s.onCloses by
        exact ⟨by simp only [hcount, Bool.false_eq_true, if_false]; omega, by simp [hleft, hpos]⟩
      rcases heffect.closed hclosed with hold | hcalls | hend | ⟨c, hc⟩
      · have hone := (h.once.ended hold).1
        omega
      · rw [hcall] at hcalls
        cases hcalls
      · by_cases hopen : s.writer.connected = true
        · exact h.onCloses_pos_iff.mpr (hguard.2 hend hopen)
        · have hone := (h.once.ended (Bool.eq_false_iff.mpr hopen)).1
          omega
      · exact h.closers c hc

theorem step_guarded (h : Inv s) (hstep : Step P s e t) (honce : ClosedOnce t) : OneCase s e := by
  have heffect := hstep.effect
  have hcount := heffect.onCloses
  constructor
  · intro hcall
    rw [hcall] at hcount
    have hmost := honce.atMostOnce
    exact h.onCloses_zero_iff.mp (by simp only [if_true] at hcount; omega)
  · rintro hend _
    have hone := (honce.ended (hstep.readEnd_closes hend)).1
    rw [hone, hend] at hcount
    simp only [LifeEvent.callsOnClose, Bool.false_eq_true, if_false] at hcount
    exact h.onCloses_pos_iff.mp (by omega)

/-- `OnClose` is called once for a connection, by its end, exactly where one of the cases
in which it is called comes before the input ends, and no other after it. -/
theorem onClose_once_iff (P : Platform) (trace : List LifeEvent) (s : WebSocketLife Coro) :
    Run (Guarded OneCase (Step P)) {} trace s ↔ Run (Within ClosedOnce (Step P)) {} trace s := by
  refine run_guarded_iff_within start_inv (fun _ h => h.once) ?_ ?_ trace s
  · intro s e t h hguard hstep
    exact step_inv h hguard hstep
  · intro s e t h hstep honce
    exact step_guarded h hstep honce

end

/-- The peer is gone without a close frame: `OnClose` is not called. -/
theorem onClose_not_called : ¬ ∀ (P : Platform) (trace : List LifeEvent) (s : WebSocketLife Nat),
    Run (Step P) {} trace s → ClosedOnce s := by
  intro h
  have hrun : Run (Step ⟨.little, false⟩) ({} : WebSocketLife Nat) [.other, .readEnd] _ :=
    run_cons_iff.mpr ⟨_, .toRead _ rfl rfl, .single (.readEnd _ rfl)⟩
  have hone := ((h _ _ _ hrun).ended rfl).1
  cases hone

end WebSocketLife

end Libcold
