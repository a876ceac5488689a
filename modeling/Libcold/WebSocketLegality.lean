import Libcold.WebSocketRuns

namespace Libcold

open Runs WebSocketParser

/-- Where a stream of frames stands: whether a fragmented message is open, and the
frames behind the last one with the final bit. -/
structure Position where
  inMessage : Bool := false
  fragments : List WireFrame := []

def isControl (opcode : UInt8) : Bool := opcode == 8 || opcode == 9 || opcode == 10

namespace Position

/-- The opcodes that the protocol allows here. -/
def allows (p : Position) (opcode : UInt8) : Bool :=
  if isControl opcode then true
  else if opcode = 0 then p.inMessage
  else (opcode == 1 || opcode == 2) && !p.inMessage

def advance (p : Position) (w : WireFrame) : Position where
  inMessage := if isControl w.opcode then p.inMessage else !w.fin
  fragments := if w.fin then [] else p.fragments ++ [w]

def Legal (p : Position) : List WireFrame → Prop
  | [] => True
  | w :: ws => p.allows w.opcode = true ∧ (p.advance w).Legal ws

/-- What is known of the fragments while every message that was finished came
without a control frame among its fragments. -/
inductive Shape : Position → Prop
  | between : Shape ⟨false, []⟩
  | message (data : WireFrame) (later) (hdata : data.opcode = 1 ∨ data.opcode = 2) (hlater : ∀ w ∈ later, w.opcode = 0) :
      Shape ⟨true, data :: later⟩
  | spoiled (inMessage first later) (hcontrol : ∃ w ∈ first :: later, isControl w.opcode = true)
      (hspoiled : inMessage = true → ∃ w ∈ later, w.opcode ≠ 0) : Shape ⟨inMessage, first :: later⟩

/-- A final frame that finds no fragments before it, or that makes no message with a
control frame in it. -/
def Finishes (p : Position) (w : WireFrame) : Prop :=
  p.fragments = [] ∨ ∀ f ∈ p.fragments ++ [w], isControl f.opcode = false

variable {p : Position} {w : WireFrame}

theorem legal_append (p : Position) (ws : List WireFrame) (w : WireFrame) :
    p.Legal (ws ++ [w]) ↔ p.Legal ws ∧ (ws.foldl advance p).allows w.opcode = true := by
  induction ws generalizing p with
  | nil => simp [Legal]
  | cons v ws ih => simp [Legal, ih, and_assoc]

theorem allows_cases {opcode : UInt8} (h : p.allows opcode = true) :
    isControl opcode = true ∨ (isControl opcode = false ∧ opcode = 0 ∧ p.inMessage = true) ∨
      (isControl opcode = false ∧ (opcode = 1 ∨ opcode = 2) ∧ p.inMessage = false) := by
  simp only [allows] at h
  split_ifs at h with hcontrol hzero
  · exact .inl hcontrol
  · exact .inr (.inl ⟨by simpa using hcontrol, hzero, h⟩)
  · simp only [Bool.and_eq_true, Bool.or_eq_true, beq_iff_eq, Bool.not_eq_true'] at h
    exact .inr (.inr ⟨by simpa using hcontrol, h.1, h.2⟩)

theorem control_ne_zero {opcode : UInt8} (h : isControl opcode = true) : opcode ≠ 0 := by
  rintro rfl
  cases h

theorem data_ne_zero {opcode : UInt8} (h : opcode = 1 ∨ opcode = 2) : opcode ≠ 0 := by
  rcases h with rfl | rfl <;> decide

/-- The frames that are merged into the first are continuations exactly when the
message has no control frame in it. -/
theorem merged_iff (h : p.Shape) (hallows : p.allows w.opcode = true) :
    (∀ f ∈ (p.fragments ++ [w]).tail, f.opcode = 0) ↔ p.Finishes w := by
  cases h with
  | between => simp [Finishes]
  | message data later hdata hlater =>
      rcases allows_cases hallows with hcontrol | ⟨hcontrol, hzero, -⟩ | ⟨-, -, hopen⟩
      · refine ⟨fun hall => absurd (hall w (by simp)) (control_ne_zero hcontrol), ?_⟩
        rintro (hnil | hall)
        · cases hnil
        · have hfalse := hall w (by simp)
          rw [hcontrol] at hfalse
          cases hfalse
      · have hd : isControl data.opcode = false := by rcases hdata with h | h <;> rw [h] <;> rfl
        have hl : ∀ f ∈ later, isControl f.opcode = false := fun f hf => by rw [hlater f hf]; rfl
        have hmerged : ∀ f ∈ later ++ [w], f.opcode = 0 :=
          List.forall_mem_append.mpr ⟨hlater, by simpa using hzero⟩
        have hplain : ∀ f ∈ data :: (later ++ [w]), isControl f.opcode = false :=
          List.forall_mem_cons.mpr ⟨hd, List.forall_mem_append.mpr ⟨hl, by simpa using hcontrol⟩⟩
        exact ⟨fun _ => .inr hplain, fun _ => hmerged⟩
      · cases hopen
  | spoiled inMessage first later hcontrol hspoiled =>
      obtain ⟨c, hc, hcontrol⟩ := hcontrol
      have hfinishes : ¬ Finishes ⟨inMessage, first :: later⟩ w := by
        rintro (hnil | hall)
        · cases hnil
        · have hfalse := hall c (List.mem_append_left _ hc)
          rw [hcontrol] at hfalse
          cases hfalse
      have hmerged : ¬ ∀ f ∈ later ++ [w], f.opcode = 0 := by
        intro hall
        rcases allows_cases hallows with hw | ⟨-, -, hopen⟩ | ⟨-, hw, -⟩
        · exact control_ne_zero hw (hall w (by simp))
        · obtain ⟨f, hf, hne⟩ := hspoiled hopen
          exact hne (hall f (List.mem_append_left _ hf))
        · exact data_ne_zero hw (hall w (by simp))
      exact ⟨fun hall => absurd hall hmerged, fun h => absurd h hfinishes⟩

/-- What a fragment that is not the last one makes of the fragments before it. -/
theorem shape_fragment (h : p.Shape) (hallows : p.allows w.opcode = true) (hfin : w.fin = false) :
    (p.advance w).Shape := by
  have hadvance : p.advance w = ⟨if isControl w.opcode then p.inMessage else true, p.fragments ++ [w]⟩ := by
    simp [advance, hfin]
  rw [hadvance]
  cases h with
  | between =>
      rcases allows_cases hallows with hcontrol | ⟨-, -, hfalse⟩ | ⟨hcontrol, hdata, -⟩
      · rw [if_pos hcontrol]
        exact .spoiled false w [] ⟨w, by simp, hcontrol⟩ (fun hfalse => by cases hfalse)
      · cases hfalse
      · rw [hcontrol]
        exact .message w [] hdata (by simp)
  | message data later hdata hlater =>
      rcases allows_cases hallows with hcontrol | ⟨hcontrol, hzero, -⟩ | ⟨-, -, hfalse⟩
      · rw [if_pos hcontrol]
        exact .spoiled true data (later ++ [w]) ⟨w, by simp, hcontrol⟩
          (fun _ => ⟨w, by simp, control_ne_zero hcontrol⟩)
      · rw [hcontrol]
        exact .message data (later ++ [w]) hdata (List.forall_mem_append.mpr ⟨hlater, by simpa using hzero⟩)
      · cases hfalse
  | spoiled inMessage first later hcontrol hspoiled =>
      obtain ⟨c, hc, hcontrol⟩ := hcontrol
      refine .spoiled _ first (later ++ [w]) ⟨c, List.mem_append_left [w] hc, hcontrol⟩ (fun _ => ?_)
      rcases allows_cases hallows with hw | ⟨-, -, hopen⟩ | ⟨-, hw, -⟩
      · exact ⟨w, by simp, control_ne_zero hw⟩
      · obtain ⟨f, hf, hne⟩ := hspoiled hopen
        exact ⟨f, List.mem_append_left _ hf, hne⟩
      · exact ⟨w, by simp, data_ne_zero hw⟩

theorem shape_advance (h : p.Shape) (hallows : p.allows w.opcode = true) (hfinishes : w.fin = true → p.Finishes w) :
    (p.advance w).Shape := by
  cases hfin : w.fin with
  | false => exact shape_fragment h hallows hfin
  | true =>
      have hadvance : p.advance w = ⟨if isControl w.opcode then p.inMessage else false, []⟩ := by
        simp [advance, hfin]
      have hmerged := (merged_iff h hallows).mpr (hfinishes hfin)
      rw [hadvance]
      cases h with
      | between =>
          rw [ite_self]
          exact .between
      | message data later hdata hlater =>
          have hzero : w.opcode = 0 := hmerged w (by simp)
          rw [hzero]
          exact .between
      | spoiled inMessage first later hcontrol hspoiled =>
          have hopen : inMessage = false := by
            by_contra hopen
            obtain ⟨f, hf, hne⟩ := hspoiled (by simpa using hopen)
            exact hne (hmerged f (List.mem_append_left _ hf))
          rw [hopen, ite_self]
          exact .between

end Position

namespace WebSocketRun

/-- The opcode of the frame whose header is at the head of the buffer. -/
def headOpcode : List UInt8 → Option UInt8
  | b :: _ :: _ => some (b &&& 0x0f)
  | _ => none

def position (s : WebSocketRun) : Position := s.passed.foldl Position.advance {}

/-- No illegal frame was read, one whose header is seen makes the call return false, and
in a build with assertions none of them fails. -/
structure Rejecting (P : Platform) (s : WebSocketRun) : Prop where
  legal : Position.Legal {} s.passed
  rejects : s.running = true → ∀ opcode, headOpcode s.parser.buffer = some opcode →
    s.position.allows opcode = false → ∃ p, s.parser.doParse P = .ok (.kError, p)
  merges : s.running = true → s.parser.doParse { P with ndebug := false } ≠ .error .assertion

/-- An illegal frame at the head of the buffer has one of the opcodes that the parser
knows as reserved, and a final frame finishes no message with a control frame in it. -/
structure Expected (P : Platform) (s : WebSocketRun) : Prop where
  reserved : s.running = true → ∀ opcode, headOpcode s.parser.buffer = some opcode →
    s.position.allows opcode = false → reservedOpcode opcode = true
  finishes : s.running = true → ∀ w rest, scan P s.parser.buffer = .full w rest → w.fin = true →
    s.position.Finishes w

/-- The parser holds the fragments behind the last final frame, and nothing illegal
was read. -/
structure Tracked (s : WebSocketRun) : Prop where
  fragments : s.parser.openFrame.1.map (·.opcode) = s.position.fragments.map (·.opcode)
  legal : Position.Legal {} s.passed
  shape : s.position.Shape

variable {P : Platform} {s t : WebSocketRun} {event : ParseEvent} {p p' : WebSocketParser}

theorem scan_ndebug (P : Platform) (bytes : List UInt8) : scan { P with ndebug := false } bytes = scan P bytes := rfl

theorem headOpcode_of_full {bytes rest : List UInt8} {w : WireFrame} (h : scan P bytes = .full w rest) :
    headOpcode bytes = some w.opcode ∧ reservedOpcode w.opcode = false := by
  match bytes with
  | [] | [b] => cases h
  | b :: b' :: body =>
      simp only [scan, scanBody] at h
      split_ifs at h with hreserved <;> cases h <;> exact ⟨rfl, by simpa using hreserved⟩

theorem scan_of_reserved {bytes : List UInt8} {opcode : UInt8} (hhead : headOpcode bytes = some opcode)
    (hreserved : reservedOpcode opcode = true) : ∃ fin, scan P bytes = .reserved fin opcode := by
  match bytes with
  | [] | [b] => cases hhead
  | b :: b' :: body =>
      cases hhead
      exact ⟨_, by rw [scan, if_pos hreserved]⟩

theorem reserved_of_error {opcode : UInt8} (hhead : headOpcode p.buffer = some opcode)
    (h : p.doParse P = .ok (.kError, p')) : reservedOpcode opcode = true := by
  rw [doParse_eq] at h
  match hb : p.buffer with
  | [] | [b] => rw [hb] at hhead; cases hhead
  | b :: b' :: body =>
      rw [hb] at hhead h
      cases hhead
      by_contra hreserved
      rw [scan, if_neg hreserved] at h
      cases hs : scanBody P (b &&& 0x80 != 0) (b &&& 0x0f) (b' &&& 0x80 != 0) (b' &&& 0x7f).toNat body with
      | full w rest =>
          rw [hs] at h
          cases finishFrame_state h
      | reserved fin opcode =>
          have hpast := scanBody_pastOpcode P (b &&& 0x80 != 0) (b &&& 0x0f) (b' &&& 0x80 != 0) (b' &&& 0x7f).toNat body
          rw [hs] at hpast
          cases hpast
      | short | incomplete | tooLong => rw [hs] at h; cases h

theorem finishFrame_assertion_iff (P : Platform) (p : WebSocketParser) (earlier : List WebSocketFrame)
    (frame : WebSocketFrame) : finishFrame P p earlier frame = .error .assertion ↔
      frame.fin = true ∧ P.ndebug = false ∧ ∃ f ∈ (earlier ++ [frame]).tail, f.opcode ≠ 0 := by
  rw [finishFrame]
  by_cases hfin : frame.fin = true
  · rw [if_pos hfin]
    cases earlier with
    | nil => simp
    | cons first later =>
        obtain ⟨next, rest, hn⟩ : ∃ next rest, later ++ [frame] = next :: rest := by cases later <;> simp
        simp only [List.cons_append, hn, List.tail_cons]
        by_cases hany : (!P.ndebug && (next :: rest).any (·.opcode != 0)) = true
        · rw [if_pos hany]
          rw [Bool.and_eq_true, Bool.not_eq_true', List.any_eq_true] at hany
          exact ⟨fun _ => ⟨hfin, hany.1, by simpa only [bne_iff_ne] using hany.2⟩, fun _ => rfl⟩
        · rw [if_neg hany]
          constructor
          · intro herror
            cases herror
          · rintro ⟨-, hdebug, hmerged⟩
            refine absurd ?_ hany
            rw [Bool.and_eq_true, Bool.not_eq_true', List.any_eq_true]
            exact ⟨hdebug, by simpa only [bne_iff_ne] using hmerged⟩
  · rw [if_neg hfin]
    simp [hfin]

theorem exists_tail_map {α : Type} (f : α → UInt8) (xs : List α) (x : α) :
    (∃ n ∈ (xs.map f ++ [f x]).tail, n ≠ 0) ↔ ∃ a ∈ (xs ++ [x]).tail, f a ≠ 0 := by
  have htail : (xs.map f ++ [f x]).tail = (xs ++ [x]).tail.map f := by
    rw [List.map_tail, List.map_append]
    rfl
  rw [htail]
  constructor
  · rintro ⟨n, hn, hne⟩
    obtain ⟨a, ha, rfl⟩ := List.mem_map.mp hn
    exact ⟨a, ha, hne⟩
  · rintro ⟨a, ha, hne⟩
    exact ⟨f a, List.mem_map_of_mem ha, hne⟩

/-- The assertion fails on a final frame that is merged with something else than
continuations. -/
theorem doParse_assertion_iff (P : Platform) (p : WebSocketParser) :
    p.doParse { P with ndebug := false } = .error .assertion ↔ ∃ w rest, scan P p.buffer = .full w rest ∧
      w.fin = true ∧ ∃ n ∈ (p.openFrame.1.map (·.opcode) ++ [w.opcode]).tail, n ≠ 0 := by
  rw [doParse_eq, scan_ndebug]
  cases hs : scan P p.buffer with
  | short | reserved | incomplete | tooLong => simp [resume, stop]
  | full w rest =>
      have hmerged := exists_tail_map (·.opcode) p.openFrame.1 (receive p.openFrame.2 w)
      simp only [resume, finishFrame_assertion_iff]
      constructor
      · rintro ⟨hfin, -, hexists⟩
        exact ⟨w, rest, rfl, hfin, hmerged.mpr hexists⟩
      · rintro ⟨w', rest', heq, hfin, hexists⟩
        cases heq
        exact ⟨hfin, trivial, hmerged.mp hexists⟩

theorem openFrame_stop (p : WebSocketParser) (frame : WebSocketFrame) :
    ({ p with frames := p.openFrame.1 ++ [frame], newFrame := false } : WebSocketParser).openFrame.1 = p.openFrame.1 := by
  simp [openFrame]

theorem openFrame_of_last {state : ParseState} (h : p.doParse P = .ok (state, p')) (hlast : state ≠ .kSuccess) :
    p'.openFrame.1 = p.openFrame.1 := by
  rw [doParse_eq] at h
  cases hs : scan P p.buffer with
  | full w rest =>
      rw [hs] at h
      exact absurd (finishFrame_state h) hlast
  | short | reserved | incomplete =>
      rw [hs] at h
      cases h
      exact openFrame_stop p _
  | tooLong => rw [hs] at h; cases h

theorem finishFrame_open {earlier : List WebSocketFrame} {frame : WebSocketFrame} {state : ParseState}
    (h : finishFrame P p earlier frame = .ok (state, p')) :
    p'.openFrame.1 = if frame.fin then [] else earlier ++ [frame] := by
  rw [finishFrame] at h
  split at h
  next hfin =>
      rw [if_pos hfin]
      split at h
      · split at h
        · cases h
        · cases h; rfl
      · cases h; rfl
  next hfin =>
      rw [if_neg hfin]
      cases h; rfl

theorem openFrame_of_frame {w : WireFrame} {rest : List UInt8} (hscan : scan P p.buffer = .full w rest)
    (h : p.doParse P = .ok (.kSuccess, p')) :
    p'.openFrame.1.map (·.opcode) = if w.fin then [] else p.openFrame.1.map (·.opcode) ++ [w.opcode] := by
  rw [doParse_eq, hscan] at h
  rw [finishFrame_open h]
  cases hfin : w.fin with
  | true => simp [receive, hfin]
  | false => simp [receive, hfin]

/-- A frame that is read is legal in its position. -/
theorem allows_of_full (h : s.Expected P) (hrunning : s.running = true) {w : WireFrame} {rest : List UInt8}
    (hscan : scan P s.parser.buffer = .full w rest) : s.position.allows w.opcode = true := by
  obtain ⟨hhead, hreserved⟩ := headOpcode_of_full hscan
  by_contra hillegal
  have htrue := h.reserved hrunning w.opcode hhead (by simpa using hillegal)
  rw [hreserved] at htrue
  cases htrue

theorem position_snoc (p : WebSocketParser) (running : Bool) (passed : List WireFrame) (w : WireFrame) :
    position ⟨p, running, passed ++ [w]⟩ = (passed.foldl Position.advance {}).advance w := by
  simp [position, List.foldl_append]

theorem step_tracked (h : s.Tracked) (hexpected : s.Expected P) (hstep : Step P s event t) : t.Tracked := by
  cases hstep with
  | insert chunk hidle hroom => exact ⟨h.fragments, h.legal, h.shape⟩
  | returned state p hrunning hparse hlast =>
      exact ⟨by rw [openFrame_of_last hparse hlast]; exact h.fragments, h.legal, h.shape⟩
  | frame w rest p hrunning hscan hparse =>
      have hallows := allows_of_full hexpected hrunning hscan
      have hfinishes := hexpected.finishes hrunning w rest hscan
      have hposition := position_snoc p s.running s.passed w
      constructor
      · rw [hposition, openFrame_of_frame hscan hparse, h.fragments]
        cases hfin : w.fin <;> simp [Position.advance, hfin, position]
      · exact (Position.legal_append _ _ _).mpr ⟨h.legal, hallows⟩
      · rw [hposition]
        exact Position.shape_advance h.shape hallows hfinishes

theorem start_tracked : Tracked {} := ⟨rfl, trivial, .between⟩

theorem merged_opcodes (h : s.Tracked) (w : WireFrame) :
    (∃ n ∈ (s.parser.openFrame.1.map (·.opcode) ++ [w.opcode]).tail, n ≠ 0) ↔
      ¬ ∀ f ∈ (s.position.fragments ++ [w]).tail, f.opcode = 0 := by
  rw [h.fragments, exists_tail_map]
  push Not
  rfl

theorem expected_iff_rejecting (h : s.Tracked) : s.Expected P ↔ s.Rejecting P := by
  constructor
  · intro he
    refine ⟨h.legal, fun hrunning opcode hhead hillegal => ?_, fun hrunning hassert => ?_⟩
    · obtain ⟨fin, hscan⟩ := scan_of_reserved hhead (he.reserved hrunning opcode hhead hillegal)
      exact ⟨_, by rw [doParse_eq, hscan]; rfl⟩
    · obtain ⟨w, rest, hscan, hfin, hmerged⟩ := (doParse_assertion_iff P s.parser).mp hassert
      have hfinishes := he.finishes hrunning w rest hscan hfin
      have hallows := allows_of_full he hrunning hscan
      exact (merged_opcodes h w).mp hmerged ((Position.merged_iff h.shape hallows).mpr hfinishes)
  · intro hr
    refine ⟨fun hrunning opcode hhead hillegal => ?_, fun hrunning w rest hscan hfin => ?_⟩
    · obtain ⟨p, hparse⟩ := hr.rejects hrunning opcode hhead hillegal
      exact reserved_of_error hhead hparse
    · obtain ⟨hhead, hreserved⟩ := headOpcode_of_full hscan
      by_contra hfinishes
      have hallows : s.position.allows w.opcode = true := by
        by_contra hillegal
        obtain ⟨p, hparse⟩ := hr.rejects hrunning w.opcode hhead (by simpa using hillegal)
        have htrue := reserved_of_error hhead hparse
        rw [hreserved] at htrue
        cases htrue
      have hmerged := (merged_opcodes h w).mpr (fun hall => hfinishes ((Position.merged_iff h.shape hallows).mp hall))
      exact hr.merges hrunning ((doParse_assertion_iff P s.parser).mpr ⟨w, rest, hscan, hfin, hmerged⟩)

/-- The runs in which every illegal frame is rejected are those in which an illegal frame
has an opcode that the parser knows as reserved, and no control frame stands among the
fragments of a message that is finished. -/
theorem illegal_rejected_iff (P : Platform) (events : List ParseEvent) (s : WebSocketRun) :
    Run (Within (Expected P) (Step P)) {} events s ↔ Run (Within (Rejecting P) (Step P)) {} events s :=
  run_within_iff start_tracked (fun _ _ _ => step_tracked) (fun _ => expected_iff_rejecting) events s

/-- A final frame with an opcode that the protocol reserves for control frames. -/
theorem opcode_twelve_accepted :
    ¬ ∀ (P : Platform) (events : List ParseEvent) (s : WebSocketRun), Run (Step P) {} events s → Rejecting P s := by
  intro h
  obtain ⟨p, hparse⟩ := (h ⟨.little, false⟩ _ _ (Run.single (Step.insert {} [0x8c, 0x00] rfl (by decide)))).rejects
    rfl 12 rfl rfl
  cases hparse

end WebSocketRun

end Libcold
