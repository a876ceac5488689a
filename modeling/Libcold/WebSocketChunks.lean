import Libcold.WebSocketParser

namespace Libcold.WebSocketParser

def feed (p : WebSocketParser) (c : List UInt8) : WebSocketParser := { p with buffer := p.buffer ++ c }

/-- The scans that are past the opcode, where a parse step writes every field
of the header. -/
def Scan.PastOpcode : Scan → Prop
  | .short | .reserved _ _ => False
  | .incomplete _ _ _ _ | .tooLong | .full _ _ => True

theorem scanBody_pastOpcode (P : Platform) (fin : Bool) (opcode : UInt8) (mask : Bool) (len7 : Nat)
    (body : List UInt8) : (scanBody P fin opcode mask len7 body).PastOpcode := by
  simp only [scanBody]
  split_ifs <;> trivial

def Scan.ExtendsTo (c : List UInt8) : Scan → Scan → Prop
  | .short, _ => True
  | .incomplete _ _ _ _, s => s.PastOpcode
  | .reserved fin opcode, s => s = .reserved fin opcode
  | .tooLong, s => s = .tooLong
  | .full w rest, s => s = .full w (rest ++ c)

theorem scanBody_extends (P : Platform) (fin : Bool) (opcode : UInt8) (mask : Bool) (len7 : Nat)
    (body c : List UInt8) : (scanBody P fin opcode mask len7 body).ExtendsTo c
      (scanBody P fin opcode mask len7 (body ++ c)) := by
  have hpast := scanBody_pastOpcode P fin opcode mask len7 (body ++ c)
  simp only [scanBody, List.length_append] at hpast ⊢
  by_cases h1 : body.length < maskLen mask + moreOf len7
  · rw [if_pos h1]
    exact hpast
  · have htake : (body ++ c).take (moreOf len7) = body.take (moreOf len7) :=
      List.take_append_of_le_length (by omega)
    have h1' : ¬ body.length + c.length < maskLen mask + moreOf len7 := by omega
    rw [htake, if_neg h1'] at hpast
    rw [if_neg h1, if_neg h1', htake]
    generalize (if moreOf len7 = 0 then len7 else extendedLen P (moreOf len7) (body.take (moreOf len7)))
      = payloadLen at hpast ⊢
    by_cases h2 : wordModulus ≤ 2 + maskLen mask + moreOf len7 + payloadLen
    · rw [if_pos h2, if_pos h2]
      rfl
    · rw [if_neg h2] at hpast
      rw [if_neg h2, if_neg h2]
      by_cases h3 : body.length < maskLen mask + moreOf len7 + payloadLen
      · rw [if_pos h3]
        exact hpast
      · have h3' : ¬ body.length + c.length < maskLen mask + moreOf len7 + payloadLen := by omega
        rw [if_neg h3, if_neg h3']
        by_cases h4 : maxSize < payloadLen
        · rw [if_pos h4, if_pos h4]
          rfl
        · have hpayload : ((body ++ c).drop (moreOf len7 + maskLen mask)).take payloadLen =
              (body.drop (moreOf len7 + maskLen mask)).take payloadLen := by
            rw [List.drop_append_of_le_length (by omega),
              List.take_append_of_le_length (by rw [List.length_drop]; omega)]
          have hkey (hm : mask = true) (i : Fin 4) :
              (body ++ c).getD (moreOf len7 + i) 0 = body.getD (moreOf len7 + i) 0 := by
            have hfour : maskLen mask = 4 := by rw [hm]; rfl
            rw [List.getD_eq_getElem?_getD, List.getElem?_append_left (by omega),
              ← List.getD_eq_getElem?_getD]
          rw [if_neg h4, if_neg h4, hpayload, List.drop_append_of_le_length (by omega)]
          cases mask with
          | false => rfl
          | true => simp only [Scan.ExtendsTo, hkey rfl]

theorem scan_extends (P : Platform) (bs c : List UInt8) :
    (scan P bs).ExtendsTo c (scan P (bs ++ c)) := by
  match bs with
  | [] | [b] => trivial
  | b :: b' :: body =>
      simp only [scan, List.cons_append]
      by_cases hr : reservedOpcode (b &&& 0x0f) = true
      · rw [if_pos hr, if_pos hr]
        rfl
      · rw [if_neg hr, if_neg hr]
        exact scanBody_extends P _ _ _ _ body c

theorem finishFrame_feed {P : Platform} {p : WebSocketParser} {earlier : List WebSocketFrame}
    {frame : WebSocketFrame} (c : List UInt8) :
    finishFrame P (p.feed c) earlier frame =
      (finishFrame P p earlier frame).map fun r => (r.1, r.2.feed c) := by
  unfold finishFrame
  split
  · split
    · split <;> rfl
    · rfl
  · rfl

/-- A parser left by a step with its frame open, when more bytes arrive. -/
def reopened (p : WebSocketParser) (frame : WebSocketFrame) (c : List UInt8) : WebSocketParser :=
  feed { p with frames := p.openFrame.1 ++ [frame], newFrame := false } c

theorem openFrame_reopened (p : WebSocketParser) (frame : WebSocketFrame) (c : List UInt8) :
    (p.reopened frame c).openFrame = (p.openFrame.1, frame) := by
  simp [reopened, feed, openFrame]

theorem finishFrame_reopened (P : Platform) (p : WebSocketParser) (frame frame' : WebSocketFrame)
    (c buffer : List UInt8) (earlier : List WebSocketFrame) :
    finishFrame P { p.reopened frame c with buffer } earlier frame' =
      finishFrame P { p with buffer } earlier frame' := rfl

/-- Reading a frame again from its first byte forgets what an interrupted step
wrote into it. -/
theorem resume_reopened (P : Platform) (p : WebSocketParser) (c : List UInt8) {s : Scan}
    (hs : s.PastOpcode) (fin : Bool) (opcode : UInt8) (mask : Bool) (payloadLen : Nat) :
    (p.reopened { p.openFrame.2 with fin, opcode, mask, payloadLen } c).resume P s =
      (p.feed c).resume P s := by
  have ho := openFrame_reopened p { p.openFrame.2 with fin, opcode, mask, payloadLen } c
  cases s with
  | short | reserved => cases hs
  | tooLong => rfl
  | incomplete f o m l =>
      simp only [resume, stop, ho]
      rfl
  | full w rest =>
      simp only [resume, ho, finishFrame_reopened]
      rfl

/-- What a parse step does when more bytes arrive before it: a step that ended
keeps its result, and a step that asked for more can be repeated. -/
def StepExtends (P : Platform) (p : WebSocketParser) (c : List UInt8) :
    Except Failure (ParseState × WebSocketParser) → Prop
  | .error e => (p.feed c).doParse P = .error e
  | .ok (.kSuccess, p') => (p.feed c).doParse P = .ok (.kSuccess, p'.feed c)
  | .ok (.kError, p') => (p.feed c).doParse P = .ok (.kError, p'.feed c) ∧
      (p'.feed c).doParse P = .ok (.kError, p'.feed c)
  | .ok (.kNeedMore, p') => (p'.feed c).doParse P = (p.feed c).doParse P

theorem finishFrame_state {P : Platform} {p : WebSocketParser} {earlier : List WebSocketFrame}
    {frame : WebSocketFrame} {r : ParseState × WebSocketParser}
    (h : finishFrame P p earlier frame = .ok r) : r.1 = .kSuccess := by
  rw [finishFrame] at h
  split at h
  · split at h
    · split at h <;> cases h
      rfl
    · cases h; rfl
  · cases h; rfl

theorem doParse_extends (P : Platform) (p : WebSocketParser) (c : List UInt8) :
    StepExtends P p c (p.doParse P) := by
  have ha := scan_extends P p.buffer c
  have hfeed : (p.feed c).doParse P = (p.feed c).resume P (scan P (p.buffer ++ c)) := doParse_eq P _
  have hopen (frame : WebSocketFrame) : (p.reopened frame c).doParse P =
      (p.reopened frame c).resume P (scan P (p.buffer ++ c)) := doParse_eq P _
  rw [doParse_eq]
  cases hs : scan P p.buffer with
  | short =>
      change (p.reopened p.openFrame.2 c).doParse P = (p.feed c).doParse P
      have ho := openFrame_reopened p p.openFrame.2 c
      rw [hopen, hfeed]
      cases scan P (p.buffer ++ c) with
      | full w rest =>
          simp only [resume, ho, finishFrame_reopened]
          rfl
      | short | reserved | incomplete =>
          simp only [resume, stop, ho]
          rfl
      | tooLong => rfl
  | reserved fin opcode =>
      rw [hs] at ha
      have ho := openFrame_reopened p { p.openFrame.2 with fin, opcode } c
      constructor
      · rw [hfeed, ha]
        rfl
      · change (p.reopened { p.openFrame.2 with fin, opcode } c).doParse P = _
        rw [hopen, ha]
        simp only [resume, stop, ho]
        rfl
  | incomplete fin opcode mask payloadLen =>
      rw [hs] at ha
      change (p.reopened { p.openFrame.2 with fin, opcode, mask, payloadLen } c).doParse P = _
      rw [hopen, hfeed]
      exact resume_reopened P p c ha fin opcode mask payloadLen
  | tooLong =>
      rw [hs] at ha
      change (p.feed c).doParse P = _
      rw [hfeed, ha]
      rfl
  | full w rest =>
      rw [hs] at ha
      have happ : (p.feed c).doParse P =
          ((p.resume P (.full w rest)).map fun r => (r.1, r.2.feed c)) := by
        rw [hfeed, ha]
        exact finishFrame_feed (p := { p with buffer := rest }) c
      cases hr : p.resume P (.full w rest) with
      | error e => rw [hr] at happ; exact happ
      | ok r =>
          have hstate : r.1 = .kSuccess := finishFrame_state hr
          obtain ⟨state, p'⟩ := r
          subst hstate
          rw [hr] at happ
          exact happ

theorem parseLoop_success {P : Platform} {p p' : WebSocketParser}
    (h : p.doParse P = .ok (.kSuccess, p')) : p.parseLoop P = p'.parseLoop P := by
  rw [parseLoop]
  split
  next q hq => rw [h] at hq; cases hq; rfl
  next state q hne hq => rw [h] at hq; cases hq; exact absurd rfl hne
  next e hq => rw [h] at hq; cases hq

theorem parseLoop_stop {P : Platform} {p p' : WebSocketParser} {state : ParseState}
    (h : p.doParse P = .ok (state, p')) (hs : state ≠ .kSuccess) :
    p.parseLoop P = .ok (state, p') := by
  rw [parseLoop]
  split
  next q hq => rw [h] at hq; cases hq; exact absurd rfl hs
  next state' q hne hq => rw [h] at hq; cases hq; rfl
  next e hq => rw [h] at hq; cases hq

theorem parseLoop_error {P : Platform} {p : WebSocketParser} {e : Failure}
    (h : p.doParse P = .error e) : p.parseLoop P = .error e := by
  rw [parseLoop]
  split
  next q hq => rw [h] at hq; cases hq
  next state' q hne hq => rw [h] at hq; cases hq
  next e' hq => rw [h] at hq; cases hq; rfl

def LoopExtends (P : Platform) (p : WebSocketParser) (c : List UInt8) :
    Except Failure (ParseState × WebSocketParser) → Prop
  | .error e => (p.feed c).parseLoop P = .error e
  | .ok (.kError, p') => (p.feed c).parseLoop P = .ok (.kError, p'.feed c) ∧
      (p'.feed c).parseLoop P = .ok (.kError, p'.feed c)
  | .ok (_, p') => (p'.feed c).parseLoop P = (p.feed c).parseLoop P

theorem LoopExtends.of_eq {P : Platform} {p q : WebSocketParser} {c : List UInt8}
    {r : Except Failure (ParseState × WebSocketParser)} (h : LoopExtends P q c r)
    (he : (p.feed c).parseLoop P = (q.feed c).parseLoop P) : LoopExtends P p c r := by
  match r with
  | .error e => exact he.trans h
  | .ok (.kError, p') => exact ⟨he.trans h.1, h.2⟩
  | .ok (.kSuccess, p') | .ok (.kNeedMore, p') => exact h.trans he.symm

theorem parseLoop_extends (P : Platform) (p : WebSocketParser) (c : List UInt8) :
    LoopExtends P p c (p.parseLoop P) := by
  fun_induction p.parseLoop P with
  | case1 p q hq ih =>
      have hstep := doParse_extends P p c
      rw [hq] at hstep
      exact ih.of_eq (parseLoop_success hstep)
  | case2 p state q hne hq =>
      have hstep := doParse_extends P p c
      rw [hq] at hstep
      cases state with
      | kSuccess => exact absurd rfl hne
      | kError =>
          exact ⟨parseLoop_stop hstep.1 (by decide), parseLoop_stop hstep.2 (by decide)⟩
      | kNeedMore =>
          change (q.feed c).parseLoop P = (p.feed c).parseLoop P
          rw [parseLoop, parseLoop, hstep]
  | case3 p e he =>
      have hstep := doParse_extends P p c
      rw [he] at hstep
      exact parseLoop_error hstep

theorem parse_eq (P : Platform) (p : WebSocketParser) (data : List UInt8) :
    p.parse P data =
      ((p.feed data).parseLoop P).map fun r => (r.1 != .kError, r.2) := by
  change ((p.feed data).parseLoop P >>= fun r => pure (r.1 != .kError, r.2)) = _
  cases (p.feed data).parseLoop P <;> rfl

theorem parse_append (P : Platform) (p : WebSocketParser) (a b : List UInt8) :
    p.parse P (a ++ b) = p.parse P a >>= fun r => r.2.parse P b := by
  have hfeed : p.feed (a ++ b) = (p.feed a).feed b := by simp [feed]
  have hloop := parseLoop_extends P (p.feed a) b
  rw [parse_eq, hfeed, parse_eq]
  cases hr : (p.feed a).parseLoop P with
  | error e =>
      rw [hr] at hloop
      rw [hloop]
      rfl
  | ok r =>
      obtain ⟨state, q⟩ := r
      rw [hr] at hloop
      change _ = q.parse P b
      rw [parse_eq]
      cases state with
      | kError => rw [hloop.1, hloop.2]
      | kSuccess | kNeedMore => rw [← hloop]

/-- A call after one that returned false returns false and completes nothing. -/
theorem parse_after_false {P : Platform} {p p' : WebSocketParser} {a : List UInt8}
    (h : p.parse P a = .ok (false, p')) (b : List UInt8) :
    p'.parse P b = .ok (false, p'.feed b) := by
  have hloop := parseLoop_extends P (p.feed a) b
  rw [parse_eq] at h
  cases hr : (p.feed a).parseLoop P with
  | error e => rw [hr] at h; cases h
  | ok r =>
      obtain ⟨state, q⟩ := r
      rw [hr] at h hloop
      cases state with
      | kError =>
          cases h
          rw [parse_eq, hloop.2]
          rfl
      | kSuccess | kNeedMore => cases h

/-- Successive calls, with the verdict and the parser that each leaves. -/
def parseCalls (P : Platform) (p : WebSocketParser) :
    List (List UInt8) → Except Failure (List (Bool × WebSocketParser))
  | [] => .ok []
  | chunk :: chunks => do
      let r ← p.parse P chunk
      let rs ← r.2.parseCalls P chunks
      return r :: rs

/-- A call refused: the parser keeps no further frame and refuses on. -/
def RefusesAfter (a b : Bool × WebSocketParser) : Prop :=
  a.1 = false → b.1 = false ∧ b.2.completeFrames = a.2.completeFrames

theorem parseCalls_refused {P : Platform} {p q : WebSocketParser} {a : List UInt8}
    (h : p.parse P a = .ok (false, q)) (chunks : List (List UInt8))
    {calls : List (Bool × WebSocketParser)} (hc : q.parseCalls P chunks = .ok calls) :
    ∀ r ∈ calls, r.1 = false ∧ r.2.completeFrames = q.completeFrames := by
  induction chunks generalizing p q a calls with
  | nil => cases hc; simp
  | cons chunk chunks ih =>
      have hnext := parse_after_false h chunk
      rw [parseCalls, hnext] at hc
      cases hrs : (q.feed chunk).parseCalls P chunks with
      | error e => simp [hrs, bind, Except.bind] at hc
      | ok rs =>
          simp only [hrs, bind, Except.bind, pure, Except.pure, Except.ok.injEq] at hc
          subst hc
          intro r hr
          rcases List.mem_cons.mp hr with rfl | hr
          · exact ⟨rfl, rfl⟩
          · exact ih hnext hrs r hr

theorem parseCalls_last (P : Platform) (p : WebSocketParser) (chunk : List UInt8)
    (chunks : List (List UInt8)) :
    (p.parseCalls P (chunk :: chunks)).map List.getLast? =
      (p.parse P (chunk :: chunks).flatten).map some := by
  induction chunks generalizing p chunk with
  | nil =>
      rw [parseCalls, List.flatten_singleton]
      cases p.parse P chunk <;> rfl
  | cons next chunks ih =>
      rw [List.flatten_cons, parse_append, parseCalls]
      cases p.parse P chunk with
      | error e => rfl
      | ok r =>
          have hlast := ih r.2 next
          change _ = (r.2.parse P (next :: chunks).flatten).map some
          simp only [bind, Except.bind, pure, Except.pure]
          cases hrs : r.2.parseCalls P (next :: chunks) with
          | error e =>
              rw [hrs] at hlast
              rw [← hlast]
          | ok rs =>
              rw [hrs] at hlast
              cases hv : r.2.parse P (next :: chunks).flatten with
              | error e => rw [hv] at hlast; cases hlast
              | ok v =>
                  rw [hv] at hlast
                  have hrs' : rs.getLast? = some v := by simpa [Except.map] using hlast
                  simp [Except.map, List.getLast?_cons, hrs']

theorem parseCalls_refuse (P : Platform) (p : WebSocketParser) (chunks : List (List UInt8))
    {calls : List (Bool × WebSocketParser)} (h : p.parseCalls P chunks = .ok calls) :
    calls.Pairwise RefusesAfter := by
  induction chunks generalizing p calls with
  | nil => cases h; exact List.Pairwise.nil
  | cons chunk chunks ih =>
      rw [parseCalls] at h
      cases hr : p.parse P chunk with
      | error e => simp [hr, bind, Except.bind] at h
      | ok r =>
          cases hrs : r.2.parseCalls P chunks with
          | error e => simp [hr, hrs, bind, Except.bind] at h
          | ok rs =>
              simp only [hr, hrs, bind, Except.bind, pure, Except.pure, Except.ok.injEq] at h
              subst h
              refine List.pairwise_cons.mpr ⟨?_, ih r.2 hrs⟩
              intro b hb hfalse
              obtain ⟨verdict, q⟩ := r
              subst hfalse
              exact parseCalls_refused hr chunks hrs b hb

/-- However a byte string is cut, the calls on its pieces end in the parser
and the verdict of a single call, and no call after a refusal completes a
frame. This includes strings whose lengths wrap: every way of cutting them ends
in the same exception. -/
theorem parse_independent_of_chunks (P : Platform) (chunk : List UInt8) (chunks : List (List UInt8)) :
    (parseCalls P {} (chunk :: chunks)).map List.getLast? =
        (parse P {} (chunk :: chunks).flatten).map some ∧
      ∀ calls, parseCalls P {} (chunk :: chunks) = .ok calls → calls.Pairwise RefusesAfter :=
  ⟨parseCalls_last P {} chunk chunks, fun _ h => parseCalls_refuse P {} _ h⟩

end Libcold.WebSocketParser
