import Libcold.Platform

namespace Libcold

open ByteOrder

structure WebSocketFrame where
  fin : Bool := false
  mask : Bool := false
  opcode : UInt8 := 0
  payloadLen : Nat := 0
  maskingKey : Vector UInt8 4 := Vector.replicate 4 0
  payload : List UInt8 := []
  payloadView : List UInt8 := []
  deriving DecidableEq

inductive ParseState
  | kSuccess
  | kError
  | kNeedMore
  deriving DecidableEq

structure WebSocketParser where
  buffer : List UInt8 := []
  completeFrames : List WebSocketFrame := []
  frames : List WebSocketFrame := []
  newFrame : Bool := true
  deriving DecidableEq

namespace WebSocketParser

/-- The frames before the last one, and the last one. A new frame is pushed
when the last one was finished. -/
def openFrame (p : WebSocketParser) : List WebSocketFrame × WebSocketFrame :=
  if p.newFrame then (p.frames, {}) else (p.frames.dropLast, p.frames.getLastD {})

def reservedOpcode (opcode : UInt8) : Bool := (3 ≤ opcode && opcode ≤ 7) || opcode == 0xb

def moreOf (payloadLen : Nat) : Nat :=
  if payloadLen = 126 then 2 else if payloadLen = 127 then 8 else 0

/-- The extended payload length copied over an integer of its width. -/
def extendedLen (P : Platform) (more : Nat) (bytes : List UInt8) : Nat :=
  if more = 2 then host16ToNetwork16 P (load P.hostOrder bytes)
  else host64ToNetwork64 P (load P.hostOrder bytes)

def unmask (key : Vector UInt8 4) (payload : List UInt8) : List UInt8 :=
  payload.mapIdx fun i b => b ^^^ key[i % 4]

/-- The end of a frame. The last fragment merges the ones before it into the
first and moves the result to the complete frames. -/
def finishFrame (P : Platform) (p : WebSocketParser) (earlier : List WebSocketFrame)
    (frame : WebSocketFrame) : Except Failure (ParseState × WebSocketParser) :=
  if frame.fin then
    match earlier ++ [frame] with
    | beginFrame :: next :: rest =>
        if !P.ndebug && (next :: rest).any (·.opcode != 0) then .error .assertion
        else
          let payload := beginFrame.payload ++ (next :: rest).flatMap (·.payload)
          let merged := { beginFrame with payload, payloadLen := payload.length, fin := true }
          .ok (.kSuccess, { p with
            completeFrames := p.completeFrames ++ [merged], frames := [], newFrame := true })
    | single => .ok (.kSuccess, { p with
        completeFrames := p.completeFrames ++ single, frames := [], newFrame := true })
  else .ok (.kSuccess, { p with frames := earlier ++ [frame], newFrame := true })

def stop (p : WebSocketParser) (state : ParseState) (frame : WebSocketFrame) :
    Except Failure (ParseState × WebSocketParser) :=
  .ok (state, { p with frames := p.openFrame.1 ++ [frame], newFrame := false })

def maskLen (mask : Bool) : Nat := if mask then 4 else 0

/-- The part of a parse step behind the two bytes that every frame has. The
length is added in its unsigned 64-bit type. -/
def parsePayload (P : Platform) (p : WebSocketParser) (frame : WebSocketFrame) (more expectLen : Nat) :
    Except Failure (ParseState × WebSocketParser) :=
  let payloadLen :=
    if more = 0 then frame.payloadLen else extendedLen P more ((p.buffer.drop 2).take more)
  let expectLen := (expectLen + payloadLen) % wordModulus
  if p.buffer.length < expectLen then p.stop .kNeedMore { frame with payloadLen }
  else
    let key := Vector.ofFn fun i : Fin 4 => p.buffer.getD (2 + more + i) 0
    -- reserving the payload refuses a length that no object can have
    if maxSize < payloadLen then .error .lengthError
    else
      let payload := (p.buffer.drop (2 + more + maskLen frame.mask)).take payloadLen
      finishFrame P { p with buffer := p.buffer.drop expectLen } p.openFrame.1
        { frame with
          payloadLen
          maskingKey := if frame.mask then key else frame.maskingKey
          payload := frame.payload ++ if frame.mask then unmask key payload else payload }

def doParse (P : Platform) (p : WebSocketParser) : Except Failure (ParseState × WebSocketParser) :=
  let frame := p.openFrame.2
  let expectLen := 2
  if p.buffer.length < expectLen then p.stop .kNeedMore frame
  else
    let first := p.buffer.getD 0 0
    let second := p.buffer.getD 1 0
    let frame := { frame with fin := first &&& 0x80 != 0, opcode := first &&& 0x0f }
    if reservedOpcode frame.opcode then p.stop .kError frame
    else
      let frame := { frame with mask := second &&& 0x80 != 0, payloadLen := (second &&& 0x7f).toNat }
      let more := moreOf frame.payloadLen
      let expectLen := expectLen + maskLen frame.mask + more
      if p.buffer.length < expectLen then p.stop .kNeedMore frame
      else p.parsePayload P frame more expectLen

/-- One frame as it stands on the wire, with its payload unmasked. -/
structure WireFrame where
  fin : Bool
  opcode : UInt8
  key : Option (Vector UInt8 4)
  payload : List UInt8
  deriving DecidableEq

/-- What the head of the buffer holds, read without the state of the parser. -/
inductive Scan
  | short
  | reserved (fin : Bool) (opcode : UInt8)
  | incomplete (fin : Bool) (opcode : UInt8) (mask : Bool) (payloadLen : Nat)
  | tooLong
  | full (frame : WireFrame) (rest : List UInt8)

def scanBody (P : Platform) (fin : Bool) (opcode : UInt8) (mask : Bool) (len7 : Nat)
    (body : List UInt8) : Scan :=
  let more := moreOf len7
  if body.length < maskLen mask + more then .incomplete fin opcode mask len7
  else
    let payloadLen := if more = 0 then len7 else extendedLen P more (body.take more)
    if wordModulus ≤ 2 + maskLen mask + more + payloadLen then .tooLong
    else if body.length < maskLen mask + more + payloadLen then .incomplete fin opcode mask payloadLen
    else if maxSize < payloadLen then .tooLong
    else
      let payload := (body.drop (more + maskLen mask)).take payloadLen
      let key := Vector.ofFn fun i : Fin 4 => body.getD (more + i) 0
      .full ⟨fin, opcode, if mask then some key else none, if mask then unmask key payload else payload⟩
        (body.drop (maskLen mask + more + payloadLen))

def scan (P : Platform) : List UInt8 → Scan
  | b :: b' :: body =>
      if reservedOpcode (b &&& 0x0f) then .reserved (b &&& 0x80 != 0) (b &&& 0x0f)
      else scanBody P (b &&& 0x80 != 0) (b &&& 0x0f) (b' &&& 0x80 != 0) (b' &&& 0x7f).toNat body
  | _ => .short

/-- The frame of the parser once a frame of the wire was copied into it. -/
def receive (frame : WebSocketFrame) (w : WireFrame) : WebSocketFrame :=
  { frame with
    fin := w.fin, opcode := w.opcode, mask := w.key.isSome, payloadLen := w.payload.length,
    maskingKey := w.key.getD frame.maskingKey, payload := frame.payload ++ w.payload }

/-- The continuation of a parse step, once the head of the buffer is known. -/
def resume (P : Platform) (p : WebSocketParser) : Scan → Except Failure (ParseState × WebSocketParser)
  | .short => p.stop .kNeedMore p.openFrame.2
  | .reserved fin opcode => p.stop .kError { p.openFrame.2 with fin, opcode }
  | .incomplete fin opcode mask payloadLen =>
      p.stop .kNeedMore { p.openFrame.2 with fin, opcode, mask, payloadLen }
  | .tooLong => .error .lengthError
  | .full w rest => finishFrame P { p with buffer := rest } p.openFrame.1 (receive p.openFrame.2 w)

theorem extendedLen_lt (P : Platform) (more : Nat) (bs : List UInt8) (h : bs.length = more)
    (hm : more = 2 ∨ more = 8) : extendedLen P more bs < wordModulus := by
  have hle : bs.length ≤ 8 := by omega
  have hlt : bigValue bs < wordModulus :=
    Nat.lt_of_lt_of_le (bigValue_lt bs) (Nat.pow_le_pow_right (by decide) hle)
  rcases hm with rfl | rfl
  · simpa [extendedLen, host16_load P bs h] using hlt
  · simpa [extendedLen, host64_load P bs h] using hlt

theorem moreOf_cases (n : Nat) : moreOf n = 0 ∨ moreOf n = 2 ∨ moreOf n = 8 := by
  rw [moreOf]
  split_ifs <;> simp

theorem maskLen_le (mask : Bool) : maskLen mask ≤ 4 := by
  cases mask <;> simp [maskLen]

theorem length_unmask (key : Vector UInt8 4) (payload : List UInt8) :
    (unmask key payload).length = payload.length := by
  simp [unmask]

/-- A length that wraps makes the sum smaller than the header that carries it,
so the comparison with the buffer passes and the reservation refuses it. -/
theorem parsePayload_eq (P : Platform) (p : WebSocketParser) (b b' : UInt8) (body : List UInt8)
    (hb : p.buffer = b :: b' :: body) (fin : Bool) (opcode : UInt8) (mask : Bool) (len7 : Nat)
    (hl : len7 < 128) (hlen : ¬ body.length < maskLen mask + moreOf len7) :
    p.parsePayload P { p.openFrame.2 with fin, opcode, mask, payloadLen := len7 } (moreOf len7)
        (2 + maskLen mask + moreOf len7) =
      p.resume P (scanBody P fin opcode mask len7 body) := by
  have hmask := maskLen_le mask
  have hmore := moreOf_cases len7
  rw [parsePayload, scanBody]
  generalize moreOf len7 = more at *
  simp only [hb, List.drop_succ_cons, List.drop_zero, List.length_cons]
  have hlt : (if more = 0 then len7 else extendedLen P more (body.take more)) < wordModulus := by
    split
    · exact Nat.lt_trans hl (by decide)
    · exact extendedLen_lt P more _ (by rw [List.length_take]; omega) (by omega)
  generalize (if more = 0 then len7 else extendedLen P more (body.take more)) = payloadLen at *
  rw [if_neg hlen]
  by_cases hwrap : wordModulus ≤ 2 + maskLen mask + more + payloadLen
  · have hmod : (2 + maskLen mask + more + payloadLen) % wordModulus < 2 + maskLen mask + more := by
      rw [wordModulus] at *; omega
    have hmax : maxSize < payloadLen := by unfold wordModulus maxSize at *; omega
    rw [if_pos hwrap, if_neg (by omega), if_pos hmax]
    rfl
  · rw [if_neg hwrap, Nat.mod_eq_of_lt (by omega)]
    by_cases h2 : body.length < maskLen mask + more + payloadLen
    · rw [if_pos (by omega), if_pos h2]
      rfl
    · rw [if_neg (by omega), if_neg h2]
      by_cases h3 : maxSize < payloadLen
      · rw [if_pos h3, if_pos h3]
        rfl
      · rw [if_neg h3, if_neg h3]
        have hdrop (n : Nat) : (b :: b' :: body).drop (2 + n) = body.drop n := by
          rw [Nat.add_comm 2 n]; rfl
        have hget (n : Nat) : (b :: b' :: body).getD (2 + n) 0 = body.getD n 0 := by
          rw [Nat.add_comm 2 n]; rfl
        have hpayload : ((body.drop (more + maskLen mask)).take payloadLen).length = payloadLen := by
          rw [List.length_take, List.length_drop]; omega
        simp only [resume, receive, Nat.add_assoc, hdrop, hget]
        cases mask <;> simp [length_unmask, hpayload]

theorem doParse_eq (P : Platform) (p : WebSocketParser) :
    p.doParse P = p.resume P (scan P p.buffer) := by
  match hb : p.buffer with
  | [] | [b] => simp [doParse, hb, scan, resume]
  | b :: b' :: body =>
      simp only [doParse, scan, hb, List.length_cons, List.getD_cons_zero, List.getD_cons_succ]
      rw [if_neg (by omega)]
      by_cases hr : reservedOpcode (b &&& 0x0f) = true
      · rw [if_pos hr, if_pos hr]
        rfl
      · rw [if_neg hr, if_neg hr]
        have hl : (b' &&& 0x7f).toNat < 128 := by
          rw [UInt8.toNat_and]
          exact Nat.lt_of_le_of_lt Nat.and_le_right (by decide)
        by_cases h1 : body.length < maskLen (b' &&& 0x80 != 0) + moreOf (b' &&& 0x7f).toNat
        · rw [if_pos (by omega), scanBody, if_pos h1]
          rfl
        · rw [if_neg (by omega)]
          exact parsePayload_eq P p b b' body hb _ _ _ _ hl h1

theorem scan_full_length {P : Platform} {bs rest : List UInt8} {w : WireFrame}
    (h : scan P bs = .full w rest) : rest.length < bs.length := by
  match bs with
  | [] | [b] => cases h
  | b :: b' :: body =>
      simp only [scan, scanBody] at h
      split_ifs at h <;> cases h <;> simp only [List.length_drop, List.length_cons] <;> omega

theorem finishFrame_buffer {P : Platform} {p p' : WebSocketParser} {earlier : List WebSocketFrame}
    {frame : WebSocketFrame} {state : ParseState}
    (h : finishFrame P p earlier frame = .ok (state, p')) : p'.buffer = p.buffer := by
  rw [finishFrame] at h
  split at h
  · split at h
    · split at h
      · cases h
      · cases h; rfl
    · cases h; rfl
  · cases h; rfl

theorem doParse_success_length {P : Platform} {p p' : WebSocketParser}
    (h : p.doParse P = .ok (.kSuccess, p')) : p'.buffer.length < p.buffer.length := by
  rw [doParse_eq] at h
  cases hs : scan P p.buffer with
  | full w rest =>
      rw [hs] at h
      rw [finishFrame_buffer h]
      exact scan_full_length hs
  | short | reserved | incomplete | tooLong => rw [hs] at h; cases h

/-- The loop of a call: parse steps as long as they complete a frame. -/
def parseLoop (P : Platform) (p : WebSocketParser) : Except Failure (ParseState × WebSocketParser) :=
  match _h : p.doParse P with
  | .ok (.kSuccess, p') => p'.parseLoop P
  | .ok (state, p') => .ok (state, p')
  | .error e => .error e
termination_by p.buffer.length
decreasing_by exact doParse_success_length ‹_›

def parse (P : Platform) (p : WebSocketParser) (data : List UInt8) :
    Except Failure (Bool × WebSocketParser) := do
  let (state, p) ← parseLoop P { p with buffer := p.buffer ++ data }
  return (state != .kError, p)

def hasFrame (p : WebSocketParser) : Bool := !p.completeFrames.isEmpty

/-- Taking a frame is for a parser that has one. -/
def takeFrame (p : WebSocketParser) : WebSocketFrame × WebSocketParser :=
  (p.completeFrames.headD {}, { p with completeFrames := p.completeFrames.tail })

/-- The encoder for outgoing frames. The four results of the random number
generator are used for a masked frame only. -/
def makeFrameToBuffer (P : Platform) (frame : WebSocketFrame) (rand : Vector Nat 4)
    (writeBuffer : List UInt8) : Except Failure (List UInt8) :=
  if !P.ndebug && !frame.fin then .error .assertion
  else
    let writeBuffer := writeBuffer ++ [0x80 ||| frame.opcode]
    let maskAndLen : UInt8 := if frame.mask then 0x80 else 0
    let size := frame.payloadView.length
    let writeBuffer :=
      if size < 126 then writeBuffer ++ [maskAndLen ||| UInt8.ofNat size]
      else if size < 65536 then
        writeBuffer ++ [maskAndLen ||| 126] ++
          store P.hostOrder 2 (host16ToNetwork16 P (size % 2 ^ 16))
      else
        writeBuffer ++ [maskAndLen ||| 127] ++
          store P.hostOrder 8 (host64ToNetwork64 P (size % 2 ^ 64))
    if frame.mask then
      let maskingKey := rand.map fun r => UInt8.ofNat (r &&& 0xff)
      .ok (writeBuffer ++ maskingKey.toList ++ unmask maskingKey frame.payloadView)
    else .ok (writeBuffer ++ frame.payloadView)

end WebSocketParser

end Libcold
