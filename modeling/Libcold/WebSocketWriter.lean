import Libcold.Runs
import Libcold.WebSocketParser

namespace Libcold

open Runs WebSocketParser

variable {Coro : Type}

/-- What a coroutine does once its `DoWrite` has returned. -/
inductive WriteEnd
  | finish
  | closeSocket
  | pingAgain
  deriving DecidableEq

/-- Where a coroutine is: about to make its frame, in the `WriteN` of `DoWrite`,
or at the head of the loop of `SendPing`. -/
inductive WritePc
  | absent
  | spawned (frame : WebSocketFrame) (atEnd : WriteEnd)
  | writing (byteAlreadyWrite n : Nat) (atEnd : WriteEnd)
  | pinging
  | finished

/-- What the coroutines of a `WebSocket` share, and the bytes written to the socket. -/
structure WebSocketWriter (Coro : Type) where
  connected : Bool := true
  isWriting : Bool := false
  writeTempBuffer : List UInt8 := []
  writeBuffer : List UInt8 := []
  stream : List UInt8 := []
  pc : Coro → WritePc := fun _ => .absent

inductive WriteEvent
  | made (frame : WebSocketFrame)
  | other

inductive WriteRequest
  | send (buf : List UInt8) (binary : Bool)
  | sendPong
  | close
  | sendPing

def controlFrame (opcode : UInt8) : WebSocketFrame := { fin := true, mask := false, opcode }

def dataFrame (buf : List UInt8) (binary : Bool) : WebSocketFrame :=
  { fin := true, mask := false, opcode := if binary then 0x2 else 0x1, payloadView := buf }

/-- The coroutine that a call spawns. -/
def WriteRequest.pc : WriteRequest → WritePc
  | .send buf binary => .spawned (dataFrame buf binary) .finish
  | .sendPong => .spawned (controlFrame 0xa) .finish
  | .close => .spawned (controlFrame 0x8) .closeSocket
  | .sendPing => .pinging

def WriteRequest.checksConnected : WriteRequest → Bool
  | .send _ _ | .sendPong => true
  | .close | .sendPing => false

namespace WebSocketWriter

variable [DecidableEq Coro]

def setPc (s : WebSocketWriter Coro) (c : Coro) (pc : WritePc) : WebSocketWriter Coro :=
  { s with pc := Function.update s.pc c pc }

/-- A coroutine that leaves the writing to another one does not close the socket. -/
def skipped : WriteEnd → WritePc
  | .finish | .closeSocket => .finished
  | .pingAgain => .pinging

/-- `DoWrite` returns. -/
def leave (s : WebSocketWriter Coro) (c : Coro) (atEnd : WriteEnd) : WebSocketWriter Coro :=
  { s.setPc c (skipped atEnd) with
    isWriting := false, connected := s.connected && decide (atEnd ≠ .closeSocket) }

/-- The head of the loop of `DoWrite`, up to the first byte of `WriteN`. -/
def doWrite (s : WebSocketWriter Coro) (c : Coro) (atEnd : WriteEnd) : WebSocketWriter Coro :=
  if s.connected then
    let s := { s with writeBuffer := s.writeTempBuffer, writeTempBuffer := s.writeBuffer }
    if s.writeBuffer.isEmpty then s.leave c atEnd else s.setPc c (.writing 0 s.writeBuffer.length atEnd)
  else s.leave c atEnd

/-- The frame is in `writeTempBuffer_`; somebody writes it. -/
def made (s : WebSocketWriter Coro) (c : Coro) (atEnd : WriteEnd) (buf : List UInt8) : WebSocketWriter Coro :=
  let s := { s with writeTempBuffer := buf }
  if s.isWriting then s.setPc c (skipped atEnd) else { s with isWriting := true }.doWrite c atEnd

/-- A write has written some bytes, and `WriteN` goes on or returns. -/
def written (s : WebSocketWriter Coro) (c : Coro) (byteAlreadyWrite n : Nat) (atEnd : WriteEnd)
    (bytes : List UInt8) : WebSocketWriter Coro :=
  let s := { s with stream := s.stream ++ bytes }
  if byteAlreadyWrite + bytes.length < n then s.setPc c (.writing (byteAlreadyWrite + bytes.length) n atEnd)
  else if n = s.writeBuffer.length then { s with writeBuffer := [] }.doWrite c atEnd
  else { s with connected := false }.leave c atEnd

/-- The steps of the coroutines between the places where they can be suspended,
which is before each write. No write fails on a socket that is connected; the
reading side may close the socket. -/
inductive Step (P : Platform) : WebSocketWriter Coro → WriteEvent → WebSocketWriter Coro → Prop
  | spawn (s) (c) (request : WriteRequest) (hpc : s.pc c = .absent)
      (hopen : request.checksConnected = true → s.connected = true) : Step P s .other (s.setPc c request.pc)
  | ping (s) (c) (hpc : s.pc c = .pinging) (hopen : s.connected = true) :
      Step P s .other (s.setPc c (.spawned (controlFrame 0x9) .pingAgain))
  | stopPinging (s) (c) (hpc : s.pc c = .pinging) (hclosed : s.connected = false) :
      Step P s .other (s.setPc c .finished)
  | makeFrame (s) (c) (frame) (atEnd) (rand) (buf) (hpc : s.pc c = .spawned frame atEnd)
      (hmade : makeFrameToBuffer P frame rand s.writeTempBuffer = .ok buf) : Step P s (.made frame) (s.made c atEnd buf)
  | write (s) (c) (byteAlreadyWrite n) (atEnd) (bytes) (hpc : s.pc c = .writing byteAlreadyWrite n atEnd)
      (hopen : s.connected = true)
      (hbytes : bytes <+: (s.writeBuffer.drop byteAlreadyWrite).take (n - byteAlreadyWrite)) :
      Step P s .other (s.written c byteAlreadyWrite n atEnd bytes)
  | notConnected (s) (c) (byteAlreadyWrite n) (atEnd) (hpc : s.pc c = .writing byteAlreadyWrite n atEnd)
      (hclosed : s.connected = false) : Step P s .other (s.leave c atEnd)
  | closeByRead (s) : Step P s .other { s with connected := false }

/-- What `MakeFrameToBuffer` appends for a frame without a mask. -/
def frameBytes (P : Platform) (frame : WebSocketFrame) : List UInt8 :=
  match makeFrameToBuffer P frame (Vector.replicate 4 0) [] with
  | .ok bytes => bytes
  | .error _ => []

/-- The frames that were made, one after the other. -/
def madeBytes (P : Platform) (trace : List WriteEvent) : List UInt8 :=
  trace.flatMap fun
    | .made frame => frameBytes P frame
    | .other => []

def Writing (pc : WritePc) : Prop := ∃ byteAlreadyWrite n atEnd, pc = .writing byteAlreadyWrite n atEnd

/-- The coroutine is in `DoWrite`. -/
def Active (s : WebSocketWriter Coro) (c : Coro) : Prop := Writing (s.pc c)

/-- The frames that the coroutines make have no mask. -/
def Outbound (pc : WritePc) : Prop := ∀ frame atEnd, pc = .spawned frame atEnd → frame.fin = true ∧ frame.mask = false

/-- What the writer has still to write, while there is one. -/
inductive Writer (s : WebSocketWriter Coro) (bytes : List UInt8) : Prop
  | idle (hflag : s.isWriting = false) (hpc : ∀ c, ¬ s.Active c) (hstream : s.stream <+: bytes)
      (hflushed : s.connected = true → s.writeTempBuffer = [] ∧ s.writeBuffer = [] ∧ s.stream = bytes)
  | busy (c) (byteAlreadyWrite) (atEnd) (hflag : s.isWriting = true)
      (hpc : s.pc c = .writing byteAlreadyWrite s.writeBuffer.length atEnd) (hother : ∀ c', s.Active c' → c' = c)
      (hbytes : bytes = s.stream ++ (s.writeBuffer.drop byteAlreadyWrite ++ s.writeTempBuffer))

structure Inv (P : Platform) (trace : List WriteEvent) (s : WebSocketWriter Coro) : Prop where
  writer : Writer s (madeBytes P trace)
  outbound : ∀ c, Outbound (s.pc c)

omit [DecidableEq Coro] in
theorem makeFrameToBuffer_append (P : Platform) (frame : WebSocketFrame) (rand : Vector Nat 4) (buf : List UInt8)
    (hfin : frame.fin = true) (hmask : frame.mask = false) :
    makeFrameToBuffer P frame rand buf = .ok (buf ++ frameBytes P frame) := by
  by_cases h1 : frame.payloadView.length < 126
  · simp [frameBytes, makeFrameToBuffer, hfin, hmask, h1]
  · by_cases h2 : frame.payloadView.length < 65536
    · simp [frameBytes, makeFrameToBuffer, hfin, hmask, h1, h2]
    · simp [frameBytes, makeFrameToBuffer, hfin, hmask, h1, h2]

theorem active_update {s t : WebSocketWriter Coro} {c c' : Coro} {pc : WritePc} (h : t.pc = Function.update s.pc c pc) :
    t.Active c' ↔ (c' = c ∧ Writing pc) ∨ (c' ≠ c ∧ s.Active c') := by
  by_cases hc : c' = c
  · subst hc; simp [Active, h]
  · simp [Active, h, hc]

omit [DecidableEq Coro] in
theorem not_writing_skipped (atEnd : WriteEnd) : ¬ Writing (skipped atEnd) := by
  rintro ⟨byteAlreadyWrite, n, e, h⟩
  cases atEnd <;> cases h

theorem leave_writer {s : WebSocketWriter Coro} {c : Coro} {bytes : List UInt8} (atEnd : WriteEnd)
    (hother : ∀ c', s.Active c' → c' = c) (hstream : s.stream <+: bytes)
    (hflushed : s.connected = true → s.writeTempBuffer = [] ∧ s.writeBuffer = [] ∧ s.stream = bytes) :
    Writer (s.leave c atEnd) bytes := by
  refine .idle rfl ?_ hstream ?_
  · intro c' hactive
    rcases (active_update rfl).mp hactive with ⟨-, hwriting⟩ | ⟨hne, hactive⟩
    · exact not_writing_skipped atEnd hwriting
    · exact hne (hother c' hactive)
  · intro hopen
    exact hflushed (Bool.and_eq_true_iff.mp hopen).1

theorem doWrite_writer {s : WebSocketWriter Coro} {c : Coro} {bytes : List UInt8} (atEnd : WriteEnd)
    (hflag : s.isWriting = true) (hother : ∀ c', s.Active c' → c' = c) (hstream : s.stream <+: bytes)
    (hrest : s.connected = true → s.writeBuffer = [] ∧ bytes = s.stream ++ s.writeTempBuffer) :
    Writer (s.doWrite c atEnd) bytes := by
  by_cases hopen : s.connected = true
  · obtain ⟨hbuf, hbytes⟩ := hrest hopen
    by_cases hempty : s.writeTempBuffer = []
    · have hleave : s.doWrite c atEnd =
          { s with writeBuffer := s.writeTempBuffer, writeTempBuffer := s.writeBuffer }.leave c atEnd := by
        simp [doWrite, hopen, hempty]
      rw [hleave]
      refine leave_writer atEnd hother hstream fun _ => ⟨hbuf, hempty, ?_⟩
      rw [hbytes, hempty, List.append_nil]
    · have hwrite : s.doWrite c atEnd = { s with writeBuffer := s.writeTempBuffer, writeTempBuffer := [] }.setPc c
          (.writing 0 s.writeTempBuffer.length atEnd) := by
        simp [doWrite, hopen, hempty, hbuf]
      rw [hwrite]
      refine .busy c 0 atEnd hflag ?_ ?_ ?_
      · simp [setPc]
      · intro c' hactive
        rcases (active_update rfl).mp hactive with ⟨hc, -⟩ | ⟨-, hactive⟩
        · exact hc
        · exact hother c' hactive
      · simpa [setPc] using hbytes
  · have hleave : s.doWrite c atEnd = s.leave c atEnd := by
      rw [doWrite, if_neg hopen]
    rw [hleave]
    exact leave_writer atEnd hother hstream fun hconnected => absurd hconnected hopen

theorem made_writer {s : WebSocketWriter Coro} {c : Coro} {bytes frame : List UInt8} (atEnd : WriteEnd)
    (h : Writer s bytes) (hpc : ¬ s.Active c) :
    Writer (s.made c atEnd (s.writeTempBuffer ++ frame)) (bytes ++ frame) := by
  cases h with
  | idle hflag hidle hstream hflushed =>
      have hmade : s.made c atEnd (s.writeTempBuffer ++ frame) =
          { s with writeTempBuffer := s.writeTempBuffer ++ frame, isWriting := true }.doWrite c atEnd := by
        simp [made, hflag]
      rw [hmade]
      refine doWrite_writer atEnd rfl (fun c' hactive => absurd hactive (hidle c'))
        (hstream.trans (List.prefix_append bytes frame)) ?_
      intro hopen
      obtain ⟨htemp, hbuf, hstream⟩ := hflushed hopen
      exact ⟨hbuf, by simp [hstream, htemp]⟩
  | busy c' byteAlreadyWrite e hflag hwriting hother hbytes =>
      have hne : c' ≠ c := by
        rintro rfl
        exact hpc ⟨_, _, _, hwriting⟩
      have hmade : s.made c atEnd (s.writeTempBuffer ++ frame) =
          { s with writeTempBuffer := s.writeTempBuffer ++ frame }.setPc c (skipped atEnd) := by
        simp [made, hflag]
      rw [hmade]
      refine .busy c' byteAlreadyWrite e hflag ?_ ?_ ?_
      · simpa [setPc, hne] using hwriting
      · intro d hactive
        rcases (active_update rfl).mp hactive with ⟨-, hskipped⟩ | ⟨-, hactive⟩
        · exact absurd hskipped (not_writing_skipped atEnd)
        · exact hother d hactive
      · simp [setPc, hbytes]

theorem written_writer {s : WebSocketWriter Coro} {c : Coro} {byteAlreadyWrite : Nat} {bytes new : List UInt8}
    (atEnd : WriteEnd) (hflag : s.isWriting = true) (hother : ∀ c', s.Active c' → c' = c)
    (hbytes : bytes = s.stream ++ (s.writeBuffer.drop byteAlreadyWrite ++ s.writeTempBuffer))
    (hnew : new <+: s.writeBuffer.drop byteAlreadyWrite) :
    Writer (s.written c byteAlreadyWrite s.writeBuffer.length atEnd new) bytes := by
  obtain ⟨rest, hrest⟩ := hnew
  have hdrop : s.writeBuffer.drop (byteAlreadyWrite + new.length) = rest := by
    rw [← List.drop_drop, ← hrest, List.drop_left]
  rw [← hrest, List.append_assoc, ← List.append_assoc] at hbytes
  rw [written]
  dsimp only
  split_ifs with hmore hsize
  · refine .busy c (byteAlreadyWrite + new.length) atEnd hflag ?_ ?_ ?_
    · simp [setPc]
    · intro c' hactive
      rcases (active_update rfl).mp hactive with ⟨hc, -⟩ | ⟨-, hactive⟩
      · exact hc
      · exact hother c' hactive
    · simpa [setPc, hdrop] using hbytes
  · have hdone : rest = [] := by
      rw [← hdrop]
      exact List.drop_of_length_le (Nat.le_of_not_lt hmore)
    refine doWrite_writer atEnd hflag hother ?_ ?_
    · rw [hbytes]
      exact List.prefix_append _ _
    · intro _
      exact ⟨rfl, by simpa [hdone] using hbytes⟩
  · exact absurd rfl hsize

omit [DecidableEq Coro] in
theorem outbound_of_not_spawned {pc : WritePc} (h : ∀ frame atEnd, pc ≠ .spawned frame atEnd) : Outbound pc :=
  fun frame atEnd heq => absurd heq (h frame atEnd)

theorem outbound_update {pcs : Coro → WritePc} {c : Coro} {pc : WritePc} (h : ∀ c', Outbound (pcs c'))
    (hpc : Outbound pc) (c' : Coro) : Outbound (Function.update pcs c pc c') := by
  by_cases hc : c' = c
  · subst hc; simpa using hpc
  · simpa [hc] using h c'

theorem outbound_skipped (atEnd : WriteEnd) : Outbound (skipped atEnd) := by
  intro frame e h
  cases atEnd <;> cases h

theorem outbound_request (request : WriteRequest) : Outbound request.pc := by
  intro frame atEnd h
  cases request with
  | send buf binary => cases h; exact ⟨rfl, rfl⟩
  | sendPong => cases h; exact ⟨rfl, rfl⟩
  | close => cases h; exact ⟨rfl, rfl⟩
  | sendPing => cases h

theorem outbound_doWrite {s : WebSocketWriter Coro} (c : Coro) (atEnd : WriteEnd) (h : ∀ c', Outbound (s.pc c'))
    (c' : Coro) : Outbound ((s.doWrite c atEnd).pc c') := by
  rw [doWrite]
  dsimp only
  split_ifs
  · exact outbound_update h (outbound_skipped atEnd) c'
  · exact outbound_update h (outbound_of_not_spawned (by simp)) c'
  · exact outbound_update h (outbound_skipped atEnd) c'

theorem setPc_writer {s : WebSocketWriter Coro} {c : Coro} {pc : WritePc} {bytes : List UInt8} (h : Writer s bytes)
    (hold : ¬ s.Active c) (hnew : ¬ Writing pc) : Writer (s.setPc c pc) bytes := by
  cases h with
  | idle hflag hidle hstream hflushed =>
      refine .idle hflag ?_ hstream hflushed
      intro c' hactive
      rcases (active_update rfl).mp hactive with ⟨-, hwriting⟩ | ⟨-, hactive⟩
      · exact hnew hwriting
      · exact hidle c' hactive
  | busy d byteAlreadyWrite e hflag hwriting hother hbytes =>
      have hne : d ≠ c := by
        rintro rfl
        exact hold ⟨_, _, _, hwriting⟩
      refine .busy d byteAlreadyWrite e hflag (by simpa [setPc, hne] using hwriting) ?_ hbytes
      intro c' hactive
      rcases (active_update rfl).mp hactive with ⟨-, hwriting⟩ | ⟨-, hactive⟩
      · exact absurd hwriting hnew
      · exact hother c' hactive

omit [DecidableEq Coro] in
/-- The writer that a step is about is the one that the flag stands for. -/
theorem Writer.at {s : WebSocketWriter Coro} {c : Coro} {byteAlreadyWrite n : Nat} {atEnd : WriteEnd}
    {bytes : List UInt8} (h : Writer s bytes) (hpc : s.pc c = .writing byteAlreadyWrite n atEnd) :
    s.isWriting = true ∧ n = s.writeBuffer.length ∧ (∀ c', s.Active c' → c' = c) ∧
      bytes = s.stream ++ (s.writeBuffer.drop byteAlreadyWrite ++ s.writeTempBuffer) := by
  cases h with
  | idle hflag hidle hstream hflushed => exact absurd ⟨_, _, _, hpc⟩ (hidle c)
  | busy d already e hflag hwriting hother hbytes =>
      obtain rfl := hother c ⟨_, _, _, hpc⟩
      rw [hwriting] at hpc
      cases hpc
      exact ⟨hflag, rfl, hother, hbytes⟩

theorem step_inv {P : Platform} {trace : List WriteEvent} {s t : WebSocketWriter Coro} {event : WriteEvent}
    (h : Inv P trace s) (hstep : Step P s event t) : Inv P (trace ++ [event]) t := by
  obtain ⟨hwriter, houtbound⟩ := h
  have hquiet : madeBytes P (trace ++ [.other]) = madeBytes P trace := by simp [madeBytes]
  have hidle {c : Coro} {pc : WritePc} (hpc : s.pc c = pc) (hnot : ¬ Writing pc) : ¬ s.Active c := by
    rwa [Active, hpc]
  cases hstep with
  | spawn c request hpc hopen =>
      refine ⟨?_, outbound_update houtbound (outbound_request request)⟩
      rw [hquiet]
      refine setPc_writer hwriter (hidle hpc (by simp [Writing])) ?_
      cases request <;> simp [Writing, WriteRequest.pc]
  | ping c hpc hopen =>
      refine ⟨?_, outbound_update houtbound ?_⟩
      · rw [hquiet]
        exact setPc_writer hwriter (hidle hpc (by simp [Writing])) (by simp [Writing])
      · rintro frame atEnd ⟨⟩
        exact ⟨rfl, rfl⟩
  | stopPinging c hpc hclosed =>
      refine ⟨?_, outbound_update houtbound (outbound_of_not_spawned (by simp))⟩
      rw [hquiet]
      exact setPc_writer hwriter (hidle hpc (by simp [Writing])) (by simp [Writing])
  | makeFrame c frame atEnd rand buf hpc hmade =>
      obtain ⟨hfin, hmask⟩ := houtbound c frame atEnd hpc
      rw [makeFrameToBuffer_append P frame rand _ hfin hmask] at hmade
      cases hmade
      refine ⟨?_, ?_⟩
      · have hbytes : madeBytes P (trace ++ [.made frame]) = madeBytes P trace ++ frameBytes P frame := by
          simp [madeBytes]
        rw [hbytes]
        exact made_writer atEnd hwriter (hidle hpc (by simp [Writing]))
      · rw [made]
        dsimp only
        split_ifs
        · exact outbound_update houtbound (outbound_skipped atEnd)
        · exact outbound_doWrite c atEnd houtbound
  | write c byteAlreadyWrite n atEnd bytes hpc hopen hbytes =>
      obtain ⟨hflag, rfl, hother, hrest⟩ := hwriter.at hpc
      refine ⟨?_, ?_⟩
      · rw [hquiet]
        exact written_writer atEnd hflag hother hrest (hbytes.trans (List.take_prefix _ _))
      · rw [written]
        dsimp only
        split_ifs
        · exact outbound_update houtbound (outbound_of_not_spawned (by simp))
        · exact outbound_doWrite c atEnd houtbound
        · exact outbound_update houtbound (outbound_skipped atEnd)
  | notConnected c byteAlreadyWrite n atEnd hpc hclosed =>
      obtain ⟨hflag, rfl, hother, hrest⟩ := hwriter.at hpc
      refine ⟨?_, outbound_update houtbound (outbound_skipped atEnd)⟩
      rw [hquiet]
      refine leave_writer atEnd hother ?_ fun hopen => ?_
      · rw [hrest]
        exact List.prefix_append _ _
      · rw [hclosed] at hopen
        cases hopen
  | closeByRead =>
      refine ⟨?_, houtbound⟩
      rw [hquiet]
      cases hwriter with
      | idle hflag hpc hstream hflushed => exact .idle hflag hpc hstream (by rintro ⟨⟩)
      | busy c byteAlreadyWrite atEnd hflag hpc hother hbytes =>
          exact .busy c byteAlreadyWrite atEnd hflag hpc hother hbytes

theorem run_inv {P : Platform} {trace : List WriteEvent} {s : WebSocketWriter Coro}
    (h : Run (Step P) {} trace s) : Inv P trace s := by
  refine h.invariant ⟨.idle rfl ?_ List.prefix_rfl fun _ => ⟨rfl, rfl, rfl⟩, ?_⟩ fun _ _ _ _ => step_inv
  · rintro c ⟨_, _, _, ⟨⟩⟩
  · rintro c frame atEnd ⟨⟩

/-- The socket gets the frames in the order in which they were made, from one
writer at a time, and all of them before the last writer leaves. -/
theorem frames_written_in_order (P : Platform) (trace : List WriteEvent) (s : WebSocketWriter Coro)
    (h : Run (Step P) {} trace s) :
    s.stream <+: madeBytes P trace ∧ (∀ c c', s.Active c → s.Active c' → c = c') ∧
      ((∀ c, ¬ s.Active c) → s.connected = true → s.stream = madeBytes P trace) := by
  cases (run_inv h).writer with
  | idle hflag hidle hstream hflushed =>
      refine ⟨hstream, fun c _ hactive => absurd hactive (hidle c), ?_⟩
      intro _ hopen
      exact (hflushed hopen).2.2
  | busy c byteAlreadyWrite atEnd hflag hpc hother hbytes =>
      refine ⟨?_, ?_, ?_⟩
      · rw [hbytes]
        exact List.prefix_append _ _
      · intro d d' hactive hactive'
        rw [hother d hactive, hother d' hactive']
      · intro hidle
        exact absurd ⟨_, _, _, hpc⟩ (hidle c)

/-- Two senders: the first writes the frame of the second as well. -/
def twoSenders : List WriteEvent :=
  [.other, .made (dataFrame [65, 66] true), .other, .other, .made (controlFrame 0xa), .other, .other]

theorem frames_written_in_order_two : ∃ s : WebSocketWriter Nat, Run (Step ⟨.little, false⟩) {} twoSenders s ∧
    s.stream = [0x82, 2, 65, 66, 0x8a, 0] ∧
    s.stream <+: madeBytes ⟨.little, false⟩ twoSenders ∧ (∀ c c', s.Active c → s.Active c' → c = c') ∧
      ((∀ c, ¬ s.Active c) → s.connected = true → s.stream = madeBytes ⟨.little, false⟩ twoSenders) := by
  have hrun : ∃ s : WebSocketWriter Nat, Run (Step ⟨.little, false⟩) {} twoSenders s ∧
      s.stream = [0x82, 2, 65, 66, 0x8a, 0] :=
    ⟨_, run_cons_iff.mpr ⟨_, .spawn _ 0 (.send [65, 66] true) rfl (fun _ => rfl),
      run_cons_iff.mpr ⟨_, .makeFrame _ 0 _ _ (Vector.replicate 4 0) _ rfl rfl,
      run_cons_iff.mpr ⟨_, .write _ 0 0 4 .finish [0x82, 2, 65] rfl rfl (by decide),
      run_cons_iff.mpr ⟨_, .spawn _ 1 .sendPong rfl (fun _ => rfl),
      run_cons_iff.mpr ⟨_, .makeFrame _ 1 _ _ (Vector.replicate 4 0) _ rfl rfl,
      run_cons_iff.mpr ⟨_, .write _ 0 3 4 .finish [66] rfl rfl (by decide),
      .single (.write _ 0 0 2 .finish [0x8a, 0] rfl rfl (by decide))⟩⟩⟩⟩⟩⟩, rfl⟩
  obtain ⟨s, h, hstream⟩ := hrun
  exact ⟨s, h, hstream, frames_written_in_order _ _ s h⟩

end WebSocketWriter

end Libcold
