import Libcold.Platform
import Libcold.Runs

namespace Libcold

open ByteOrder Runs

variable {Coro : Type}

/-- `std::vector<char> writeBuf_`: the block that `data()` points to, all that the
block holds, and `size()`. -/
structure WriteBuffer where
  block : Nat := 0
  storage : List UInt8 := []
  size : Nat := 0

/-- The length in network byte order and the message; a message is given by its
serialization. -/
def serialized (P : Platform) (message : List UInt8) : List UInt8 :=
  store P.hostOrder 8 (host64ToNetwork64 P message.length) ++ message

/-- `RpcCodec::WriteMessageToBuffer`. Clearing the vector keeps its block, and a
larger frame moves it to a new one, which has room for `spare` more bytes. -/
def writeMessageToBuffer (P : Platform) (buf : WriteBuffer) (message spare : List UInt8) : WriteBuffer :=
  let frame := serialized P message
  if frame.length ≤ buf.storage.length then
    { buf with storage := frame ++ buf.storage.drop frame.length, size := frame.length }
  else ⟨buf.block + 1, frame ++ spare, frame.length⟩

/-- The arguments of `WriteNWithTimeout`, which has written the first bytes. -/
structure Transfer where
  block : Nat
  n : Nat
  byteAlreadyWrite : Nat

/-- Where a coroutine of `Send` is. It is suspended before each write, and may
wait once more for the socket to become writable. -/
inductive SendPc
  | absent
  | spawned (message : List UInt8) (checksConnected : Bool)
  | suspended (transfer : Transfer)
  | listening (transfer : Transfer)
  | finished

/-- What the `Send` coroutines of a channel share, and the bytes written to the
socket. -/
structure RpcChannel (Coro : Type) where
  writeBuf : WriteBuffer := {}
  connected : Bool := true
  writeHandle : Option Coro := none
  stream : List UInt8 := []
  pc : Coro → SendPc := fun _ => .absent

inductive SendEvent
  | sent (message : List UInt8)
  | other

namespace RpcChannel

def transfer : SendPc → Option Transfer
  | .suspended t | .listening t => some t
  | _ => none

variable [DecidableEq Coro]

def setPc (s : RpcChannel Coro) (c : Coro) (pc : SendPc) : RpcChannel Coro :=
  { s with pc := Function.update s.pc c pc }

/-- What `write` can read at the pointer of a transfer: the block of the buffer,
or whatever a block that was given back holds by now. -/
def Readable (s : RpcChannel Coro) (t : Transfer) (bytes : List UInt8) : Prop :=
  t.byteAlreadyWrite + bytes.length ≤ t.n ∧
    (t.block = s.writeBuf.block → bytes = (s.writeBuf.storage.drop t.byteAlreadyWrite).take bytes.length)

/-- After a write `WriteNWithTimeout` goes on, or `Send` compares the result with
the size of the buffer. -/
def written (s : RpcChannel Coro) (c : Coro) (t : Transfer) (bytes : List UInt8) : RpcChannel Coro :=
  let s := { s with stream := s.stream ++ bytes }
  -- `WriteNWithTimeout` is handed the size once, `Send` compares with that of the moment
  if t.byteAlreadyWrite + bytes.length < t.n then
    s.setPc c (.suspended { t with byteAlreadyWrite := t.byteAlreadyWrite + bytes.length })
  else { s.setPc c .finished with connected := s.connected && decide (t.n = s.writeBuf.size) }

/-- The steps of the coroutines between their suspension points. No write fails. -/
inductive Step (P : Platform) : RpcChannel Coro → SendEvent → RpcChannel Coro → Prop
  | spawn (s) (c) (message) (checksConnected) (hpc : s.pc c = .absent) (hsize : message.length + 8 ≤ maxSize) :
      Step P s .other (s.setPc c (.spawned message checksConnected))
  | skip (s) (c) (message) (hpc : s.pc c = .spawned message true) (hclosed : s.connected = false) :
      Step P s .other (s.setPc c .finished)
  | send (s) (c) (message) (spare) (checksConnected : Bool) (hpc : s.pc c = .spawned message checksConnected)
      (hopen : checksConnected = true → s.connected = true) :
      Step P s (.sent message) { s.setPc c (.suspended ⟨(writeMessageToBuffer P s.writeBuf message spare).block,
          (writeMessageToBuffer P s.writeBuf message spare).size, 0⟩) with
        writeBuf := writeMessageToBuffer P s.writeBuf message spare }
  | write (s) (c) (t) (bytes) (hpc : s.pc c = .suspended t) (hopen : s.connected = true)
      (hread : s.Readable t bytes) : Step P s .other (s.written c t bytes)
  | eagain (s) (c) (t) (hpc : s.pc c = .suspended t) (hopen : s.connected = true)
      (hassert : P.ndebug = true ∨ s.writeHandle = none) :
      Step P s .other { s.setPc c (.listening t) with writeHandle := some c }
  | writable (s) (c) (t) (bytes) (hpc : s.pc c = .listening t) (hhandle : s.writeHandle = some c)
      (hopen : s.connected = true) (hread : s.Readable t bytes) :
      Step P s .other ({ s with writeHandle := none }.written c t bytes)
  | notConnected (s) (c) (t) (hpc : s.pc c = .suspended t) (hclosed : s.connected = false) :
      Step P s .other (s.setPc c .finished)

def sent (trace : List SendEvent) : List (List UInt8) :=
  trace.filterMap fun
    | .sent message => some message
    | .other => none

def frame (message : List UInt8) : List UInt8 := bigBytes 8 message.length ++ message

/-- The stream is made of the frames of the messages sent, one after the other,
and of nothing else once no coroutine has bytes left to write. -/
def Intact (trace : List SendEvent) (s : RpcChannel Coro) : Prop :=
  ∃ order : List (List UInt8), order.Perm (sent trace) ∧ s.stream <+: order.flatMap frame ∧
    ((∀ c, transfer (s.pc c) = none) → s.stream = order.flatMap frame)

/-- No coroutine fills the buffer while another one has bytes in it to write. -/
def Alone (s : RpcChannel Coro) : SendEvent → Prop
  | .sent _ => ∀ c, transfer (s.pc c) = none
  | .other => True

theorem serialized_eq (P : Platform) (message : List UInt8) : serialized P message = frame message := by
  rw [serialized, store_host64, frame]

theorem writeMessageToBuffer_spec (P : Platform) (buf : WriteBuffer) (message spare : List UInt8) :
    (writeMessageToBuffer P buf message spare).size = (frame message).length ∧
      (writeMessageToBuffer P buf message spare).storage.take (frame message).length = frame message := by
  unfold writeMessageToBuffer
  rw [serialized_eq]
  dsimp only
  split <;> simp

theorem frame_length (message : List UInt8) : (frame message).length = message.length + 8 := by
  rw [frame, List.length_append, bigBytes_length, Nat.add_comm]

theorem transfer_setPc (s : RpcChannel Coro) (c d : Coro) (pc : SendPc) :
    transfer ((s.setPc c pc).pc d) = if d = c then transfer pc else transfer (s.pc d) := by
  by_cases hd : d = c <;> simp [setPc, hd]

/-- A coroutine that is writing its frame from the buffer, which holds that frame. -/
structure Writing (trace : List SendEvent) (s : RpcChannel Coro) (c : Coro) (t : Transfer)
    (earlier : List (List UInt8)) (message : List UInt8) : Prop where
  transfer : transfer (s.pc c) = some t
  alone : ∀ d, d ≠ c → RpcChannel.transfer (s.pc d) = none
  latest : sent trace = earlier ++ [message]
  stream : s.stream = earlier.flatMap frame ++ (frame message).take t.byteAlreadyWrite
  block : t.block = s.writeBuf.block
  size : t.n = (frame message).length ∧ t.n = s.writeBuf.size
  storage : s.writeBuf.storage.take t.n = frame message
  unfinished : t.byteAlreadyWrite < t.n

inductive Inv (trace : List SendEvent) (s : RpcChannel Coro) : Prop
  | idle (hopen : s.connected = true) (hnone : ∀ c, transfer (s.pc c) = none)
      (hstream : s.stream = (sent trace).flatMap frame)
  | busy (hopen : s.connected = true) (c t earlier message) (h : Writing trace s c t earlier message)

omit [DecidableEq Coro] in
theorem Inv.connected {trace : List SendEvent} {s : RpcChannel Coro} (h : Inv trace s) : s.connected = true := by
  cases h with
  | idle hopen | busy hopen => exact hopen

omit [DecidableEq Coro] in
theorem Inv.intact {trace : List SendEvent} {s : RpcChannel Coro} (h : Inv trace s) : Intact trace s := by
  refine ⟨sent trace, .refl _, ?_, fun hnone => ?_⟩
  · cases h with
    | idle hopen hnone hstream => exact hstream ▸ List.prefix_refl _
    | busy hopen c t earlier message h =>
        rw [h.stream, h.latest, List.flatMap_append, List.flatMap_singleton]
        exact (List.prefix_append_right_inj _).mpr (List.take_prefix _ _)
  · cases h with
    | idle hopen hnone hstream => exact hstream
    | busy hopen c t earlier message h => exact absurd (hnone c) (by simp [h.transfer])

theorem sent_other (trace : List SendEvent) : sent (trace ++ [.other]) = sent trace := by simp [sent]

theorem Inv.setPc {trace : List SendEvent} {s : RpcChannel Coro} (h : Inv trace s) {c : Coro} {pc : SendPc}
    (hwas : RpcChannel.transfer (s.pc c) = none) (hnow : RpcChannel.transfer pc = none) :
    Inv (trace ++ [.other]) (s.setPc c pc) := by
  have hsame (d : Coro) : RpcChannel.transfer ((s.setPc c pc).pc d) = RpcChannel.transfer (s.pc d) := by
    rw [transfer_setPc]
    by_cases hd : d = c <;> simp [hd, hwas, hnow]
  cases h with
  | idle hopen hnone hstream =>
      exact .idle hopen (fun d => (hsame d).trans (hnone d)) (by rw [sent_other]; exact hstream)
  | busy hopen d t earlier message h =>
      exact .busy hopen d t earlier message { h with
        transfer := (hsame d).trans h.transfer
        alone := fun e he => (hsame e).trans (h.alone e he)
        latest := (sent_other trace).trans h.latest }

theorem Inv.writing {trace : List SendEvent} {s : RpcChannel Coro} (h : Inv trace s) {c : Coro} {t : Transfer}
    (hpc : RpcChannel.transfer (s.pc c) = some t) : ∃ earlier message, Writing trace s c t earlier message := by
  cases h with
  | idle hopen hnone => simp [hnone c] at hpc
  | busy hopen d t' earlier message h =>
      have hcd : c = d := by
        by_contra hne
        simp [h.alone c hne] at hpc
      subst d
      rw [h.transfer] at hpc
      cases hpc
      exact ⟨earlier, message, h⟩

theorem written_inv {trace : List SendEvent} {s : RpcChannel Coro} {c : Coro} {t : Transfer} {bytes : List UInt8}
    {earlier : List (List UInt8)} {message : List UInt8} (hopen : s.connected = true)
    (h : Writing trace s c t earlier message) (hread : s.Readable t bytes) (handle : Option Coro) :
    Inv (trace ++ [.other]) ({ s with writeHandle := handle }.written c t bytes) := by
  obtain ⟨hle, hbytes⟩ := hread
  have hframe : bytes = ((frame message).drop t.byteAlreadyWrite).take bytes.length := by
    have hroom : min bytes.length (t.n - t.byteAlreadyWrite) = bytes.length := by omega
    rw [← h.storage, List.drop_take, List.take_take, hroom]
    exact hbytes h.block
  have hstream : s.stream ++ bytes =
      earlier.flatMap frame ++ (frame message).take (t.byteAlreadyWrite + bytes.length) := by
    rw [h.stream, List.take_add, ← List.append_assoc, ← hframe]
  rw [written]
  dsimp only
  split
  · next hlt =>
      refine .busy hopen c { t with byteAlreadyWrite := t.byteAlreadyWrite + bytes.length } earlier message { h with
        transfer := ?_
        alone := fun d hd => ?_
        latest := (sent_other trace).trans h.latest
        stream := hstream
        unfinished := hlt }
      · rw [transfer_setPc, if_pos rfl]
        rfl
      · rw [transfer_setPc, if_neg hd]
        exact h.alone d hd
  · next hge =>
      have hall : t.byteAlreadyWrite + bytes.length = (frame message).length := by
        have := h.size.1
        omega
      refine .idle ?_ (fun d => ?_) ?_
      · simpa [hopen] using h.size.2
      · by_cases hd : d = c
        · subst d
          exact (transfer_setPc _ _ _ _).trans (if_pos rfl)
        · exact ((transfer_setPc _ _ _ _).trans (if_neg hd)).trans (h.alone d hd)
      · rw [sent_other, h.latest, List.flatMap_append, List.flatMap_singleton]
        rw [hall, List.take_length] at hstream
        exact hstream

theorem send_inv {P : Platform} {trace : List SendEvent} {s : RpcChannel Coro} (h : Inv trace s)
    (halone : ∀ c, transfer (s.pc c) = none) (c : Coro) (message spare : List UInt8) :
    Inv (trace ++ [.sent message]) { s.setPc c (.suspended ⟨(writeMessageToBuffer P s.writeBuf message spare).block,
        (writeMessageToBuffer P s.writeBuf message spare).size, 0⟩) with
      writeBuf := writeMessageToBuffer P s.writeBuf message spare } := by
  obtain ⟨hsize, hstorage⟩ := writeMessageToBuffer_spec P s.writeBuf message spare
  have hstream : s.stream = (sent trace).flatMap frame := by
    cases h with
    | idle hopen hnone hstream => exact hstream
    | busy hopen d t earlier message' h => exact absurd (halone d) (by simp [h.transfer])
  refine .busy h.connected c ⟨(writeMessageToBuffer P s.writeBuf message spare).block,
    (writeMessageToBuffer P s.writeBuf message spare).size, 0⟩ (sent trace) message
    ⟨(transfer_setPc _ _ _ _).trans (if_pos rfl), fun d hd => ?_, ?_, ?_, rfl, ⟨hsize, rfl⟩, ?_, ?_⟩
  · exact ((transfer_setPc _ _ _ _).trans (if_neg hd)).trans (halone d)
  · simp [sent]
  · simpa [RpcChannel.setPc] using hstream
  · rw [hsize]
    exact hstorage
  · change 0 < (writeMessageToBuffer P s.writeBuf message spare).size
    rw [hsize, frame_length]
    omega

theorem step_inv {P : Platform} {trace : List SendEvent} {s s' : RpcChannel Coro} {e : SendEvent} (h : Inv trace s)
    (hguard : s.Alone e) (hstep : Step P s e s') : Inv (trace ++ [e]) s' := by
  have hopen := h.connected
  cases hstep with
  | spawn c message checksConnected hpc => exact h.setPc (by rw [hpc]; rfl) rfl
  | skip c message hpc hclosed => simp [hopen] at hclosed
  | send c message spare checksConnected hpc => exact send_inv h hguard c message spare
  | write c t bytes hpc _ hread =>
      obtain ⟨earlier, message, hw⟩ := h.writing (c := c) (t := t) (by rw [hpc]; rfl)
      exact written_inv hopen hw hread s.writeHandle
  | eagain c t hpc =>
      obtain ⟨earlier, message, hw⟩ := h.writing (c := c) (t := t) (by rw [hpc]; rfl)
      exact .busy hopen c t earlier message { hw with
        transfer := (transfer_setPc _ _ _ _).trans (if_pos rfl)
        alone := fun d hd => ((transfer_setPc _ _ _ _).trans (if_neg hd)).trans (hw.alone d hd)
        latest := (sent_other trace).trans hw.latest }
  | writable c t bytes hpc _ _ hread =>
      obtain ⟨earlier, message, hw⟩ := h.writing (c := c) (t := t) (by rw [hpc]; rfl)
      exact written_inv hopen hw hread none
  | notConnected c t hpc hclosed => simp [hopen] at hclosed

/-- While no `Send` fills the buffer that another one is writing from, every
frame arrives whole. -/
theorem stream_intact {P : Platform} {trace : List SendEvent} {s : RpcChannel Coro}
    (h : Run (Guarded Alone (Step P)) {} trace s) : Intact trace s := by
  suffices hs : Inv trace s from hs.intact
  exact h.invariant (.idle rfl (fun _ => rfl) rfl) fun _ _ _ _ hs hstep => step_inv hs hstep.1 hstep.2

/-- Two messages one after the other, the first written in two parts. -/
theorem sends_in_turn : ∃ s : RpcChannel Bool,
    s.stream = frame [1] ++ frame [2] ∧ Intact [.other, .sent [1], .other, .other, .other, .sent [2], .other] s := by
  have hspawn : Run (Guarded Alone (Step ⟨.little, false⟩)) ({} : RpcChannel Bool) [.other] _ :=
    Run.stop.next ⟨trivial, .spawn _ false [1] true rfl (by decide)⟩
  have hsend : Run (Guarded Alone (Step ⟨.little, false⟩)) _ [.other, .sent [1]] _ :=
    hspawn.next ⟨fun c => by cases c <;> rfl, .send _ false [1] [] true rfl fun _ => rfl⟩
  have hpart : Run (Guarded Alone (Step ⟨.little, false⟩)) _ [.other, .sent [1], .other] _ :=
    hsend.next ⟨trivial, .write _ false _ [0, 0, 0] rfl rfl ⟨by decide, fun _ => by decide⟩⟩
  have hfirst : Run (Guarded Alone (Step ⟨.little, false⟩)) _ [.other, .sent [1], .other, .other] _ :=
    hpart.next ⟨trivial, .write _ false _ [0, 0, 0, 0, 1, 1] rfl rfl ⟨by decide, fun _ => by decide⟩⟩
  have hspawn' : Run (Guarded Alone (Step ⟨.little, false⟩)) _ [.other, .sent [1], .other, .other, .other] _ :=
    hfirst.next ⟨trivial, .spawn _ true [2] true rfl (by decide)⟩
  have hsend' : Run (Guarded Alone (Step ⟨.little, false⟩)) _
      [.other, .sent [1], .other, .other, .other, .sent [2]] _ :=
    hspawn'.next ⟨fun c => by cases c <;> rfl, .send _ true [2] [] true rfl fun _ => rfl⟩
  have hrun : Run (Guarded Alone (Step ⟨.little, false⟩)) _
      [.other, .sent [1], .other, .other, .other, .sent [2], .other] _ :=
    hsend'.next ⟨trivial, .write _ true _ (frame [2]) rfl rfl ⟨by decide, fun _ => by decide⟩⟩
  exact ⟨_, rfl, stream_intact hrun⟩

/-- Two calls in one iteration of the loop: the second message takes the place of the first. -/
theorem overlapping_sends : ∃ s : RpcChannel Bool,
    Run (Step ⟨.little, false⟩) {} [.other, .other, .sent [1], .sent [2], .other, .other] s ∧
      s.stream = frame [2] ++ frame [2] ∧ ¬ Intact [.other, .other, .sent [1], .sent [2], .other, .other] s := by
  have hspawn : Run (Step ⟨.little, false⟩) ({} : RpcChannel Bool) [.other, .other] _ :=
    (Run.stop.next (.spawn _ false [1] true rfl (by decide))).next (.spawn _ true [2] true rfl (by decide))
  have hsend := (hspawn.next (.send _ false [1] [] true rfl fun _ => rfl)).next
    (.send _ true [2] [] true rfl fun _ => rfl)
  have hrun := (hsend.next (.write _ false _ (frame [2]) rfl rfl ⟨by decide, fun _ => by decide⟩)).next
    (.write _ true _ (frame [2]) rfl rfl ⟨by decide, fun _ => by decide⟩)
  refine ⟨_, hrun, rfl, fun h => ?_⟩
  obtain ⟨order, hperm, -, hall⟩ := h
  have hstream := hall fun c => by cases c <;> rfl
  have hcount := (hperm.flatMap_right frame).count_eq 1
  rw [← hstream] at hcount
  revert hcount
  decide

end RpcChannel

end Libcold
