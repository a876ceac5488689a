import Libcold.WebSocketChunks

namespace Libcold.WebSocketParser

open ByteOrder

inductive LengthForm
  | seven
  | sixteen
  | sixtyFour

namespace LengthForm

def Fits : LengthForm → Nat → Prop
  | seven, n => n < 126
  | sixteen, n => n < 2 ^ 16
  | sixtyFour, n => n < 2 ^ 63

def code : LengthForm → Nat → Nat
  | seven, n => n
  | sixteen, _ => 126
  | sixtyFour, _ => 127

def extended : LengthForm → Nat → List UInt8
  | seven, _ => []
  | sixteen, n => bigBytes 2 n
  | sixtyFour, n => bigBytes 8 n

theorem code_lt {form : LengthForm} {n : Nat} (h : form.Fits n) : form.code n < 128 := by
  cases form <;> simp only [code, Fits] at * <;> omega

theorem extended_length {form : LengthForm} {n : Nat} (h : form.Fits n) :
    (form.extended n).length = moreOf (form.code n) := by
  cases form with
  | seven =>
      have hn : n < 126 := h
      change 0 = moreOf n
      rw [moreOf, if_neg (by omega), if_neg (by omega)]
  | sixteen | sixtyFour => simp [extended, code, moreOf]

theorem extendedLen_extended (P : Platform) {form : LengthForm} {n : Nat} (h : form.Fits n) :
    (if moreOf (form.code n) = 0 then form.code n
      else extendedLen P (moreOf (form.code n)) (form.extended n)) = n := by
  have hlen := extended_length h
  cases form with
  | seven =>
      rw [← hlen]
      rfl
  | sixteen =>
      change host16ToNetwork16 P (load P.hostOrder (bigBytes 2 n)) = n
      rw [host16_load P _ (bigBytes_length 2 n), bigValue_bigBytes]
      exact h
  | sixtyFour =>
      change host64ToNetwork64 P (load P.hostOrder (bigBytes 8 n)) = n
      rw [host64_load P _ (bigBytes_length 8 n), bigValue_bigBytes]
      simp only [Fits] at h
      omega

end LengthForm

structure Fragment where
  payload : List UInt8
  key : Option (Vector UInt8 4)
  form : LengthForm
  fits : form.Fits payload.length

def maskWith (key : Option (Vector UInt8 4)) (payload : List UInt8) : List UInt8 :=
  match key with
  | some key => unmask key payload
  | none => payload

def keyBytes : Option (Vector UInt8 4) → List UInt8
  | some key => key.toList
  | none => []

/-- A frame as the protocol prescribes it, without extension bits. -/
def encodeFrame (fin : Bool) (opcode : UInt8) (f : Fragment) : List UInt8 :=
  ((if fin then 0x80 else 0) ||| opcode) ::
    ((if f.key.isSome then 0x80 else 0) ||| UInt8.ofNat (f.form.code f.payload.length)) ::
      (f.form.extended f.payload.length ++ keyBytes f.key ++ maskWith f.key f.payload)

theorem unmask_unmask (key : Vector UInt8 4) (payload : List UInt8) :
    unmask key (unmask key payload) = payload := by
  apply List.ext_getElem
  · simp [unmask]
  · intro i h h'
    simp only [unmask, List.getElem_mapIdx]
    rw [UInt8.xor_assoc, UInt8.xor_self, UInt8.xor_zero]

theorem maskWith_length (key : Option (Vector UInt8 4)) (payload : List UInt8) :
    (maskWith key payload).length = payload.length := by
  cases key with
  | none => rfl
  | some key => exact length_unmask key payload

theorem keyBytes_length (key : Option (Vector UInt8 4)) :
    (keyBytes key).length = maskLen key.isSome := by
  cases key <;> simp [keyBytes, maskLen]

theorem first_byte (fin : Bool) {opcode : UInt8} (h : opcode.toNat < 16) :
    (((if fin then 0x80 else 0) ||| opcode) &&& 0x80 != 0) = fin ∧
      ((if fin then 0x80 else 0) ||| opcode) &&& 0x0f = opcode := by
  have hall : ∀ n < 16, ∀ fin : Bool,
      (((if fin then 0x80 else 0) ||| UInt8.ofNat n) &&& 0x80 != 0) = fin ∧
        ((if fin then 0x80 else 0) ||| UInt8.ofNat n) &&& 0x0f = UInt8.ofNat n := by decide
  simpa using hall opcode.toNat h fin

theorem second_byte (mask : Bool) {n : Nat} (h : n < 128) :
    (((if mask then 0x80 else 0) ||| UInt8.ofNat n) &&& 0x80 != 0) = mask ∧
      (((if mask then 0x80 else 0) ||| UInt8.ofNat n) &&& 0x7f).toNat = n := by
  have hall : ∀ n < 128, ∀ mask : Bool,
      (((if mask then 0x80 else 0) ||| UInt8.ofNat n) &&& 0x80 != 0) = mask ∧
        (((if mask then 0x80 else 0) ||| UInt8.ofNat n) &&& 0x7f).toNat = n := by decide
  exact hall n h mask

/-- The parser reads back every frame that the protocol prescribes. -/
theorem scan_encodeFrame (P : Platform) (fin : Bool) {opcode : UInt8} (h : opcode.toNat < 16)
    (hr : reservedOpcode opcode = false) (f : Fragment) (rest : List UInt8) :
    scan P (encodeFrame fin opcode f ++ rest) = .full ⟨fin, opcode, f.key, f.payload⟩ rest := by
  obtain ⟨hfin, hop⟩ := first_byte fin h
  obtain ⟨hmask, hlen⟩ := second_byte f.key.isSome (LengthForm.code_lt f.fits)
  have hext := LengthForm.extended_length f.fits
  have hval := LengthForm.extendedLen_extended P f.fits
  have hkey := keyBytes_length f.key
  have hmasked := maskWith_length f.key f.payload
  simp only [encodeFrame, List.cons_append, scan, hfin, hop, hr, hmask, hlen, Bool.false_eq_true,
    if_false, scanBody]
  generalize f.form.extended f.payload.length = ext at *
  have hmore : moreOf (f.form.code f.payload.length) ≤ 8 := by
    rcases moreOf_cases (f.form.code f.payload.length) with h' | h' | h' <;> omega
  generalize moreOf (f.form.code f.payload.length) = more at *
  have htake : (ext ++ keyBytes f.key ++ maskWith f.key f.payload ++ rest).take more = ext := by
    rw [List.append_assoc, List.append_assoc, List.take_left' hext]
  have hdrop : (ext ++ keyBytes f.key ++ maskWith f.key f.payload ++ rest).drop
      (more + maskLen f.key.isSome) = maskWith f.key f.payload ++ rest := by
    rw [List.append_assoc, List.drop_left' (by rw [List.length_append]; omega)]
  have hrest : (ext ++ keyBytes f.key ++ maskWith f.key f.payload ++ rest).drop
      (maskLen f.key.isSome + more + f.payload.length) = rest := by
    rw [List.drop_left' (by simp only [List.length_append]; omega)]
  have hbound : f.payload.length < 2 ^ 63 := by
    have hfits := f.fits
    cases hf : f.form <;> simp only [hf, LengthForm.Fits] at hfits <;> omega
  have hml := maskLen_le f.key.isSome
  have hbody : (ext ++ keyBytes f.key ++ maskWith f.key f.payload ++ rest).length =
      maskLen f.key.isSome + more + f.payload.length + rest.length := by
    simp only [List.length_append]; omega
  rw [htake, hval, hdrop, hrest, if_neg (by omega), if_neg (by unfold wordModulus; omega), if_neg (by omega),
    if_neg (by unfold maxSize; omega), List.take_left' hmasked]
  cases hk : f.key with
  | none => rfl
  | some key =>
      have hread : (Vector.ofFn fun i : Fin 4 =>
          (ext ++ keyBytes (some key) ++ maskWith (some key) f.payload ++ rest).getD (more + i) 0) = key := by
        apply Vector.ext
        intro i hi
        rw [Vector.getElem_ofFn, List.getD_eq_getElem?_getD, List.append_assoc, List.append_assoc,
          ← hext, List.getElem?_append_right (by omega), Nat.add_sub_cancel_left,
          List.getElem?_append_left (by simp [keyBytes, hi])]
        simp [keyBytes, hi]
      simp only [Option.isSome_some, if_true, hread]
      simp only [maskWith, unmask_unmask]

theorem doParse_encodeFrame (P : Platform) (p : WebSocketParser) (fin : Bool) {opcode : UInt8}
    (h : opcode.toNat < 16) (hr : reservedOpcode opcode = false) (f : Fragment) (rest : List UInt8)
    (hb : p.buffer = encodeFrame fin opcode f ++ rest) :
    p.doParse P = finishFrame P { p with buffer := rest } p.openFrame.1
      (receive p.openFrame.2 ⟨fin, opcode, f.key, f.payload⟩) := by
  rw [doParse_eq, hb, scan_encodeFrame P fin h hr f rest]
  rfl

structure Delivery where
  fin : Bool
  opcode : UInt8
  payload : List UInt8
  payloadLen : Nat
  deriving DecidableEq

def delivered (frame : WebSocketFrame) : Delivery :=
  ⟨frame.fin, frame.opcode, frame.payload, frame.payloadLen⟩

inductive DataOpcode
  | text
  | binary

def DataOpcode.code : DataOpcode → UInt8
  | text => 1
  | binary => 2

theorem DataOpcode.code_spec (opcode : DataOpcode) :
    opcode.code.toNat < 16 ∧ reservedOpcode opcode.code = false := by
  cases opcode <;> decide

inductive ControlOpcode
  | close
  | ping
  | pong

def ControlOpcode.code : ControlOpcode → UInt8
  | close => 8
  | ping => 9
  | pong => 10

theorem ControlOpcode.code_spec (opcode : ControlOpcode) :
    opcode.code.toNat < 16 ∧ reservedOpcode opcode.code = false := by
  cases opcode <;> decide

/-- A data message in one or more fragments, or a control frame. -/
inductive Message
  | data (opcode : DataOpcode) (first : Fragment) (others : List Fragment)
  | control (opcode : ControlOpcode) (frame : Fragment)

def encodeContinuation : List Fragment → List UInt8
  | [] => []
  | f :: fs => encodeFrame fs.isEmpty 0 f ++ encodeContinuation fs

namespace Message

def encode : Message → List UInt8
  | data opcode first others =>
      encodeFrame others.isEmpty opcode.code first ++ encodeContinuation others
  | control opcode frame => encodeFrame true opcode.code frame

def opcode : Message → UInt8
  | data opcode _ _ => opcode.code
  | control opcode _ => opcode.code

def payload : Message → List UInt8
  | data _ first others => first.payload ++ others.flatMap (·.payload)
  | control _ frame => frame.payload

def delivery (m : Message) : Delivery := ⟨true, m.opcode, m.payload, m.payload.length⟩

end Message

structure BetweenMessages (p : WebSocketParser) : Prop where
  newFrame : p.newFrame = true
  frames : p.frames = []

/-- A parser that has completed a fragment of a message that goes on. -/
structure InMessage (p : WebSocketParser) (begin : WebSocketFrame) (later : List WebSocketFrame) :
    Prop where
  newFrame : p.newFrame = true
  frames : p.frames = begin :: later
  continuations : ∀ f ∈ later, f.opcode = 0

def completed (p : WebSocketParser) (rest : List UInt8) (frame : WebSocketFrame) : WebSocketParser :=
  ⟨rest, p.completeFrames ++ [frame], [], true⟩

theorem openFrame_new {p : WebSocketParser} (h : p.newFrame = true) : p.openFrame = (p.frames, {}) := by
  simp [openFrame, h]

theorem parseLoop_single (P : Platform) {p : WebSocketParser} (h : BetweenMessages p) {opcode : UInt8}
    (hop : opcode.toNat < 16) (hr : reservedOpcode opcode = false) (f : Fragment) (rest : List UInt8)
    (hb : p.buffer = encodeFrame true opcode f ++ rest) :
    ∃ frame, delivered frame = ⟨true, opcode, f.payload, f.payload.length⟩ ∧
      p.parseLoop P = (p.completed rest frame).parseLoop P := by
  refine ⟨receive {} ⟨true, opcode, f.key, f.payload⟩, rfl, ?_⟩
  apply parseLoop_success
  rw [doParse_encodeFrame P p true hop hr f rest hb, openFrame_new h.newFrame, h.frames]
  rfl

def merge (begin : WebSocketFrame) (others : List WebSocketFrame) : WebSocketFrame :=
  { begin with
    payload := begin.payload ++ others.flatMap (·.payload)
    payloadLen := (begin.payload ++ others.flatMap (·.payload)).length
    fin := true }

theorem finishFrame_merge (P : Platform) (p : WebSocketParser) (begin : WebSocketFrame)
    {later : List WebSocketFrame} {frame : WebSocketFrame} (hfin : frame.fin = true)
    (h : ∀ f ∈ later, f.opcode = 0) (hop : frame.opcode = 0) :
    finishFrame P p (begin :: later) frame =
      .ok (.kSuccess, p.completed p.buffer (merge begin (later ++ [frame]))) := by
  obtain ⟨next, rest, hn⟩ : ∃ next rest, later ++ [frame] = next :: rest := by
    cases later <;> simp
  have hzero : (next :: rest).any (·.opcode != 0) = false := by
    rw [← hn, List.any_eq_false]
    intro f hf
    rcases List.mem_append.mp hf with hf | hf
    · simp [h f hf]
    · rw [List.mem_singleton.mp hf, hop]
      decide
  rw [finishFrame, if_pos hfin, List.cons_append, hn]
  dsimp only
  rw [hzero, Bool.and_false, if_neg (by decide)]
  rfl

theorem parseLoop_continuation (P : Platform) {p : WebSocketParser} {begin : WebSocketFrame}
    {later : List WebSocketFrame} (h : InMessage p begin later) (f : Fragment) (fs : List Fragment)
    (rest : List UInt8) (hb : p.buffer = encodeContinuation (f :: fs) ++ rest) :
    ∃ frame, delivered frame = ⟨true, begin.opcode,
        begin.payload ++ (later.flatMap (·.payload) ++ (f :: fs).flatMap (·.payload)),
        (begin.payload ++ (later.flatMap (·.payload) ++ (f :: fs).flatMap (·.payload))).length⟩ ∧
      p.parseLoop P = (p.completed rest frame).parseLoop P := by
  induction fs generalizing p later f with
  | nil =>
      have hb' : p.buffer = encodeFrame true 0 f ++ rest := by simpa [encodeContinuation] using hb
      have hstep := doParse_encodeFrame P p true (by decide) (by decide) f rest hb'
      rw [openFrame_new h.newFrame, h.frames, finishFrame_merge P _ _ rfl h.continuations rfl] at hstep
      refine ⟨_, ?_, parseLoop_success hstep⟩
      simp [delivered, merge, receive]
  | cons g gs ih =>
      have hb' : p.buffer = encodeFrame false 0 f ++ (encodeContinuation (g :: gs) ++ rest) := by
        simpa [encodeContinuation] using hb
      have hstep := doParse_encodeFrame P p false (by decide) (by decide) f _ hb'
      rw [openFrame_new h.newFrame, h.frames] at hstep
      have hmsg : InMessage ⟨encodeContinuation (g :: gs) ++ rest, p.completeFrames,
          begin :: later ++ [receive {} ⟨false, 0, f.key, f.payload⟩], true⟩ begin
          (later ++ [receive {} ⟨false, 0, f.key, f.payload⟩]) :=
        ⟨rfl, rfl, by simpa [or_imp, forall_and, receive] using h.continuations⟩
      have hnext := ih hmsg g rfl
      obtain ⟨frame, hd, hl⟩ := hnext
      refine ⟨frame, ?_, (parseLoop_success hstep).trans hl⟩
      rw [hd]
      simp [receive]

theorem parseLoop_message (P : Platform) {p : WebSocketParser} (h : BetweenMessages p) (m : Message)
    (rest : List UInt8) (hb : p.buffer = m.encode ++ rest) :
    ∃ frame, delivered frame = m.delivery ∧ p.parseLoop P = (p.completed rest frame).parseLoop P := by
  cases m with
  | control opcode frame =>
      exact parseLoop_single P h opcode.code_spec.1 opcode.code_spec.2 frame rest hb
  | data opcode first others =>
      obtain ⟨hop, hr⟩ := opcode.code_spec
      cases others with
      | nil =>
          have hb' : p.buffer = encodeFrame true opcode.code first ++ rest := by
            simpa [Message.encode, encodeContinuation] using hb
          simpa [Message.delivery, Message.opcode, Message.payload] using
            parseLoop_single P h hop hr first rest hb'
      | cons f fs =>
          have hb' : p.buffer = encodeFrame false opcode.code first ++
              (encodeContinuation (f :: fs) ++ rest) := by
            simpa [Message.encode] using hb
          have hstep := doParse_encodeFrame P p false hop hr first _ hb'
          rw [openFrame_new h.newFrame, h.frames] at hstep
          obtain ⟨frame, hd, hl⟩ := parseLoop_continuation P
            (p := ⟨encodeContinuation (f :: fs) ++ rest, p.completeFrames,
              [receive {} ⟨false, opcode.code, first.key, first.payload⟩], true⟩)
            ⟨rfl, rfl, by simp⟩ f fs rest rfl
          refine ⟨frame, ?_, (parseLoop_success hstep).trans hl⟩
          rw [hd]
          simp [Message.delivery, Message.opcode, Message.payload, receive]

theorem parseLoop_messages (P : Platform) (messages : List Message) {p : WebSocketParser}
    (h : BetweenMessages p) (hb : p.buffer = messages.flatMap Message.encode) :
    ∃ frames, frames.map delivered = messages.map Message.delivery ∧
      p.parseLoop P = .ok (.kNeedMore, ⟨[], p.completeFrames ++ frames, [{}], false⟩) := by
  induction messages generalizing p with
  | nil =>
      refine ⟨[], rfl, ?_⟩
      apply parseLoop_stop _ (by decide)
      have hnil : p.buffer = [] := hb
      rw [doParse_eq, hnil]
      simp [scan, resume, stop, openFrame_new h.newFrame, h.frames, hnil]
  | cons m messages ih =>
      obtain ⟨frame, hd, hl⟩ := parseLoop_message P h m (messages.flatMap Message.encode) (by simpa using hb)
      obtain ⟨frames, hds, hls⟩ := ih
        (p := p.completed (messages.flatMap Message.encode) frame) ⟨rfl, rfl⟩ rfl
      refine ⟨frame :: frames, by simp [hd, hds], ?_⟩
      rw [hl, hls]
      simp [completed]

def takeFrames : Nat → WebSocketParser → List WebSocketFrame × WebSocketParser
  | 0, p => ([], p)
  | n + 1, p => (p.takeFrame.1 :: (takeFrames n p.takeFrame.2).1, (takeFrames n p.takeFrame.2).2)

theorem takeFrames_all (frames : List WebSocketFrame) {p : WebSocketParser}
    (h : p.completeFrames = frames) :
    takeFrames frames.length p = (frames, { p with completeFrames := [] }) := by
  induction frames generalizing p with
  | nil => cases p; cases h; rfl
  | cons frame frames ih =>
      have hnext : p.takeFrame = (frame, { p with completeFrames := frames }) := by
        simp [takeFrame, h]
      simp only [List.length_cons, takeFrames, hnext]
      rw [ih (p := { p with completeFrames := frames }) rfl]

theorem parse_messages (P : Platform) (messages : List Message) :
    ∃ frames, frames.map delivered = messages.map Message.delivery ∧
      parse P {} (messages.flatMap Message.encode) = .ok (true, ⟨[], frames, [{}], false⟩) := by
  obtain ⟨frames, hd, hl⟩ := parseLoop_messages P messages
    (p := feed {} (messages.flatMap Message.encode)) ⟨rfl, rfl⟩ rfl
  refine ⟨frames, hd, ?_⟩
  rw [parse_eq, hl]
  rfl

/-- Every stream of legally fragmented messages is accepted, and each message
is delivered once, in order and in one piece. -/
theorem parse_reassembles (P : Platform) (messages : List Message) :
    ∃ p, parse P {} (messages.flatMap Message.encode) = .ok (true, p) ∧
      (takeFrames messages.length p).1.map delivered = messages.map Message.delivery ∧
      (takeFrames messages.length p).2.hasFrame = false := by
  obtain ⟨frames, hd, hp⟩ := parse_messages P messages
  have hlen : messages.length = frames.length := by simpa using (congrArg List.length hd).symm
  refine ⟨_, hp, ?_⟩
  rw [hlen, takeFrames_all frames rfl]
  exact ⟨hd, rfl⟩

/-- A frame that the encoder is given, with the random numbers it draws. -/
structure Outgoing where
  frame : WebSocketFrame
  rand : Vector Nat 4
  fin : frame.fin = true
  opcode : frame.opcode ∈ [1, 2, 8, 9, 10]
  size : frame.payloadView.length < 2 ^ 63

namespace Outgoing

def key (o : Outgoing) : Option (Vector UInt8 4) :=
  if o.frame.mask then some (o.rand.map fun r => UInt8.ofNat (r &&& 0xff)) else none

def form (o : Outgoing) : LengthForm :=
  if o.frame.payloadView.length < 126 then .seven
  else if o.frame.payloadView.length < 65536 then .sixteen
  else .sixtyFour

def fragment (o : Outgoing) : Fragment where
  payload := o.frame.payloadView
  key := o.key
  form := o.form
  fits := by
    have := o.size
    rw [form]
    split_ifs <;> simp only [LengthForm.Fits] <;> omega

def delivery (o : Outgoing) : Delivery :=
  ⟨true, o.frame.opcode, o.frame.payloadView, o.frame.payloadView.length⟩

/-- The encoder writes the frame that the protocol prescribes, in the
shortest form of its length. -/
theorem makeFrameToBuffer_eq (P : Platform) (o : Outgoing) (writeBuffer : List UInt8) :
    makeFrameToBuffer P o.frame o.rand writeBuffer =
      .ok (writeBuffer ++ encodeFrame true o.frame.opcode o.fragment) := by
  have hsize := o.size
  have hfin : ¬ (!P.ndebug && !o.frame.fin) = true := by simp [o.fin]
  have hpay : o.fragment.payload = o.frame.payloadView := rfl
  have hkey : o.fragment.key = o.key := rfl
  have hform : o.fragment.form = o.form := rfl
  rw [makeFrameToBuffer, encodeFrame]
  rw [if_neg hfin, hpay, hkey, hform]
  rw [form, key]
  by_cases h1 : o.frame.payloadView.length < 126
  · cases hm : o.frame.mask <;>
      simp [h1, LengthForm.code, LengthForm.extended, keyBytes, maskWith]
  · by_cases h2 : o.frame.payloadView.length < 65536
    · cases hm : o.frame.mask <;>
        simp (disch := omega) [h1, h2, Nat.mod_eq_of_lt, store_host16, LengthForm.code, LengthForm.extended,
          keyBytes, maskWith]
    · cases hm : o.frame.mask <;>
        simp (disch := omega) [h1, h2, Nat.mod_eq_of_lt, store_host64, LengthForm.code, LengthForm.extended,
          keyBytes, maskWith]

theorem exists_message (o : Outgoing) :
    ∃ m : Message, m.encode = encodeFrame true o.frame.opcode o.fragment ∧ m.delivery = o.delivery := by
  have hdata (opcode : DataOpcode) (h : o.frame.opcode = opcode.code) :
      ∃ m : Message, m.encode = encodeFrame true o.frame.opcode o.fragment ∧ m.delivery = o.delivery :=
    ⟨.data opcode o.fragment [], by simp [Message.encode, encodeContinuation, h],
      by simp [Message.delivery, Message.opcode, Message.payload, delivery, fragment, h]⟩
  have hcontrol (opcode : ControlOpcode) (h : o.frame.opcode = opcode.code) :
      ∃ m : Message, m.encode = encodeFrame true o.frame.opcode o.fragment ∧ m.delivery = o.delivery :=
    ⟨.control opcode o.fragment, by simp [Message.encode, h],
      by simp [Message.delivery, Message.opcode, Message.payload, delivery, fragment, h]⟩
  have hop := o.opcode
  simp only [List.mem_cons, List.not_mem_nil, or_false] at hop
  rcases hop with h | h | h | h | h
  · exact hdata .text h
  · exact hdata .binary h
  · exact hcontrol .close h
  · exact hcontrol .ping h
  · exact hcontrol .pong h

end Outgoing

def makeFramesToBuffer (P : Platform) (frames : List Outgoing) : Except Failure (List UInt8) :=
  frames.foldlM (fun writeBuffer o => makeFrameToBuffer P o.frame o.rand writeBuffer) []

theorem makeFrames_eq_messages (P : Platform) (frames : List Outgoing) (writeBuffer : List UInt8) :
    ∃ messages : List Message, messages.map Message.delivery = frames.map Outgoing.delivery ∧
      frames.foldlM (fun writeBuffer o => makeFrameToBuffer P o.frame o.rand writeBuffer) writeBuffer =
        .ok (writeBuffer ++ messages.flatMap Message.encode) := by
  induction frames generalizing writeBuffer with
  | nil => exact ⟨[], rfl, by simp; rfl⟩
  | cons o frames ih =>
      obtain ⟨m, hm, hd⟩ := o.exists_message
      obtain ⟨messages, hds, hms⟩ := ih (writeBuffer ++ m.encode)
      refine ⟨m :: messages, by simp [hd, hds], ?_⟩
      rw [List.foldlM_cons, o.makeFrameToBuffer_eq, ← hm]
      change List.foldlM _ (writeBuffer ++ m.encode) frames = _
      simpa using hms

/-- The parser accepts what the encoder writes and delivers the same frames in
order, with nothing left in its buffer. -/
theorem parse_makeFrames (P : Platform) (frames : List Outgoing) :
    ∃ writeBuffer p, makeFramesToBuffer P frames = .ok writeBuffer ∧
      parse P {} writeBuffer = .ok (true, p) ∧ p.buffer = [] ∧
      (takeFrames frames.length p).1.map delivered = frames.map Outgoing.delivery ∧
      (takeFrames frames.length p).2.hasFrame = false := by
  obtain ⟨messages, hd, hm⟩ := makeFrames_eq_messages P frames []
  obtain ⟨received, hr, hp⟩ := parse_messages P messages
  have hlen : frames.length = received.length := by
    simpa using (congrArg List.length (hr.trans hd)).symm
  refine ⟨_, _, hm, hp, rfl, ?_⟩
  rw [hlen, takeFrames_all received rfl]
  exact ⟨hr.trans hd, rfl⟩

end Libcold.WebSocketParser
