import Libcold.Backlog
import Libcold.WebSocketWire

namespace Libcold.WebSocketParser

/-- The messages of which the last byte has come. -/
def received (messages : List Message) (bytes : List UInt8) : List Message :=
  Backlog.completed Message.encode messages bytes.length

/-- A parser of which more complete frames wait to be taken. -/
def behind (front : List WebSocketFrame) (p : WebSocketParser) : WebSocketParser :=
  { p with completeFrames := front ++ p.completeFrames }

section

variable {P : Platform} {p : WebSocketParser} {part rest : List UInt8} {opcode : UInt8} {f : Fragment}

theorem finishFrame_behind (P : Platform) (front : List WebSocketFrame) (p : WebSocketParser)
    (earlier : List WebSocketFrame) (frame : WebSocketFrame) :
    finishFrame P (p.behind front) earlier frame =
      (finishFrame P p earlier frame).map fun r => (r.1, r.2.behind front) := by
  unfold finishFrame
  split
  · split
    · split
      · rfl
      · simp [Except.map, behind]
    · simp [Except.map, behind]
  · rfl

theorem doParse_behind (P : Platform) (front : List WebSocketFrame) (p : WebSocketParser) :
    (p.behind front).doParse P = (p.doParse P).map fun r => (r.1, r.2.behind front) := by
  rw [doParse_eq, doParse_eq]
  change (p.behind front).resume P (scan P p.buffer) = _
  cases scan P p.buffer with
  | full w rest => exact finishFrame_behind P front { p with buffer := rest } _ _
  | short | reserved | incomplete | tooLong => rfl

theorem parseLoop_behind (P : Platform) (front : List WebSocketFrame) (p : WebSocketParser) :
    (p.behind front).parseLoop P = (p.parseLoop P).map fun r => (r.1, r.2.behind front) := by
  fun_induction p.parseLoop P with
  | case1 p q hq ih =>
      have hstep := doParse_behind P front p
      rw [hq] at hstep
      exact (parseLoop_success hstep).trans ih
  | case2 p state q hne hq =>
      have hstep := doParse_behind P front p
      rw [hq] at hstep
      exact parseLoop_stop hstep hne
  | case3 p e he =>
      have hstep := doParse_behind P front p
      rw [he] at hstep
      exact parseLoop_error hstep

theorem parse_behind (P : Platform) (front : List WebSocketFrame) (p : WebSocketParser) (data : List UInt8) :
    (p.behind front).parse P data = (p.parse P data).map fun r => (r.1, r.2.behind front) := by
  rw [parse_eq, parse_eq]
  have hfeed : (p.behind front).feed data = (p.feed data).behind front := rfl
  rw [hfeed, parseLoop_behind]
  cases (p.feed data).parseLoop P <;> rfl

/-- A frame of which bytes are missing completes nothing. -/
theorem parseLoop_part_frame (P : Platform) {fin : Bool} (hop : opcode.toNat < 16) (hr : reservedOpcode opcode = false)
    (hpart : part ++ rest = encodeFrame fin opcode f) (hrest : rest ≠ []) (hb : p.buffer = part) :
    ∃ q, p.parseLoop P = .ok (.kNeedMore, q) ∧ q.completeFrames = p.completeFrames := by
  have hwhole : scan P (part ++ rest) = .full ⟨fin, opcode, f.key, f.payload⟩ [] := by
    rw [hpart, ← scan_encodeFrame P fin hop hr f [], List.append_nil]
  have hext := scan_extends P part rest
  rw [hwhole] at hext
  have hstep := doParse_eq P p
  rw [hb] at hstep
  cases hs : scan P part with
  | short | incomplete =>
      rw [hs] at hstep
      exact ⟨_, parseLoop_stop hstep (by decide), rfl⟩
  | reserved | tooLong =>
      rw [hs] at hext
      cases hext
  | full w left =>
      rw [hs] at hext
      obtain ⟨-, hnil⟩ := Scan.full.inj hext
      exact absurd (List.append_eq_nil_iff.mp hnil.symm).2 hrest

/-- A fragment with more to follow completes nothing. -/
theorem parseLoop_open_frame (P : Platform) (hop : opcode.toNat < 16) (hr : reservedOpcode opcode = false)
    (hb : p.buffer = encodeFrame false opcode f ++ rest) :
    ∃ q : WebSocketParser, q.buffer = rest ∧ q.completeFrames = p.completeFrames ∧ p.parseLoop P = q.parseLoop P := by
  have hstep := doParse_encodeFrame P p false hop hr f rest hb
  have hopen : ¬ (receive p.openFrame.2 ⟨false, opcode, f.key, f.payload⟩).fin = true := Bool.eq_false_iff.mp rfl
  rw [finishFrame, if_neg hopen] at hstep
  refine ⟨_, ?_, ?_, parseLoop_success hstep⟩
  · rfl
  · rfl

/-- A part of a frame and what follows it, short of the end. -/
theorem part_cases {frame later : List UInt8} (hpart : part <+: frame ++ later)
    (hshort : part.length < (frame ++ later).length) :
    (∃ rest, part ++ rest = frame ∧ rest ≠ []) ∨
      ∃ part', part = frame ++ part' ∧ part' <+: later ∧ part'.length < later.length := by
  by_cases hlength : frame.length ≤ part.length
  · obtain ⟨part', rfl⟩ := List.prefix_of_prefix_length_le (List.prefix_append frame later) hpart hlength
    rw [List.length_append, List.length_append] at hshort
    exact .inr ⟨part', rfl, (List.prefix_append_right_inj frame).mp hpart, by omega⟩
  · obtain ⟨rest, hrest⟩ := List.prefix_of_prefix_length_le hpart (List.prefix_append frame later)
      (Nat.le_of_not_le hlength)
    refine .inl ⟨rest, hrest, ?_⟩
    rintro rfl
    rw [List.append_nil] at hrest
    exact hlength (Nat.le_of_eq (congrArg List.length hrest).symm)

theorem parseLoop_part_continuation (P : Platform) (fs : List Fragment) {p : WebSocketParser} {part : List UInt8}
    (hpart : part <+: encodeContinuation fs) (hshort : part.length < (encodeContinuation fs).length)
    (hb : p.buffer = part) :
    ∃ q, p.parseLoop P = .ok (.kNeedMore, q) ∧ q.completeFrames = p.completeFrames := by
  induction fs generalizing p part with
  | nil => exact absurd hshort (Nat.not_lt_zero _)
  | cons f fs ih =>
      rcases part_cases hpart hshort with ⟨rest, hframe, hrest⟩ | ⟨part', rfl, hpart', hshort'⟩
      · exact parseLoop_part_frame P (by decide) rfl hframe hrest hb
      · cases fs with
        | nil => exact absurd hshort' (Nat.not_lt_zero _)
        | cons g gs =>
            obtain ⟨q, hbuf, hcomplete, hloop⟩ := parseLoop_open_frame P (by decide) rfl hb
            obtain ⟨r, hr, hsame⟩ := ih hpart' hshort' hbuf
            exact ⟨r, hloop.trans hr, hsame.trans hcomplete⟩

theorem parseLoop_part_message (P : Platform) (m : Message) (hpart : part <+: m.encode)
    (hshort : part.length < m.encode.length) (hb : p.buffer = part) :
    ∃ q, p.parseLoop P = .ok (.kNeedMore, q) ∧ q.completeFrames = p.completeFrames := by
  cases m with
  | control opcode f =>
      obtain ⟨rest, hrest⟩ := hpart
      refine parseLoop_part_frame P opcode.code_spec.1 opcode.code_spec.2 hrest ?_ hb
      rintro rfl
      rw [List.append_nil] at hrest
      exact Nat.lt_irrefl _ (hrest ▸ hshort)
  | data opcode first others =>
      obtain ⟨hop, hr⟩ := opcode.code_spec
      rcases part_cases hpart hshort with ⟨rest, hframe, hrest⟩ | ⟨part', rfl, hpart', hshort'⟩
      · exact parseLoop_part_frame P hop hr hframe hrest hb
      · cases others with
        | nil => exact absurd hshort' (Nat.not_lt_zero _)
        | cons g gs =>
            obtain ⟨q, hbuf, hcomplete, hloop⟩ := parseLoop_open_frame P hop hr hb
            obtain ⟨r, hr, hsame⟩ := parseLoop_part_continuation P (g :: gs) hpart' hshort' hbuf
            exact ⟨r, hloop.trans hr, hsame.trans hcomplete⟩

theorem encode_length_pos (m : Message) : 0 < m.encode.length := by
  cases m <;> simp [Message.encode, encodeFrame]

theorem parseLoop_done (P : Platform) (done : List Message) {p : WebSocketParser} (h : BetweenMessages p)
    (hb : p.buffer = done.flatMap Message.encode ++ part) {m : Message} (hpart : part <+: m.encode)
    (hshort : part.length < m.encode.length) :
    ∃ frames q, frames.map delivered = done.map Message.delivery ∧ p.parseLoop P = .ok (.kNeedMore, q) ∧
      q.completeFrames = p.completeFrames ++ frames := by
  induction done generalizing p with
  | nil =>
      obtain ⟨q, hq, hcomplete⟩ := parseLoop_part_message P m hpart hshort hb
      exact ⟨[], q, rfl, hq, by rw [hcomplete, List.append_nil]⟩
  | cons d done ih =>
      rw [List.flatMap_cons, List.append_assoc] at hb
      obtain ⟨frame, hd, hl⟩ := parseLoop_message P h d _ hb
      obtain ⟨frames, q, hds, hq, hcomplete⟩ := ih (p := p.completed _ frame) ⟨rfl, rfl⟩ rfl
      refine ⟨frame :: frames, q, by simp [hd, hds], hl.trans hq, ?_⟩
      rw [hcomplete, completed, List.append_assoc]
      rfl

/-- A part of a stream of messages is accepted, and gives the messages in it that are complete. -/
theorem parse_received (P : Platform) (messages : List Message) {bytes : List UInt8}
    (h : bytes <+: messages.flatMap Message.encode) :
    ∃ q, parse P {} bytes = .ok (true, q) ∧
      q.completeFrames.map delivered = (received messages bytes).map Message.delivery := by
  obtain ⟨done, later, part, rfl, hbytes, hend, hpart⟩ := Backlog.exists_split h
  obtain ⟨m, hprefix, hshort⟩ : ∃ m : Message, part <+: m.encode ∧ part.length < m.encode.length := by
    cases later with
    | nil =>
        let m : Message := .control .pong ⟨[], none, .seven, by simp [LengthForm.Fits]⟩
        exact ⟨m, hend rfl ▸ List.nil_prefix, hend rfl ▸ encode_length_pos m⟩
    | cons m later => exact ⟨m, hpart m later rfl⟩
  obtain ⟨frames, q, hframes, hq, hcomplete⟩ :=
    parseLoop_done P done (p := feed {} bytes) ⟨rfl, rfl⟩ hbytes hprefix hshort
  refine ⟨q, ?_, ?_⟩
  · rw [parse_eq, hq]
    rfl
  · rw [received, Backlog.completed_eq rfl hbytes fun m later heq => (hpart m later heq).2, hcomplete]
    exact hframes

end

end Libcold.WebSocketParser
