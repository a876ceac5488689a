import Libcold.WebSocketWire

namespace Libcold.WebSocketParser

/-- A frame of a stream: the first fragment of a data message, a further one, or a
control frame, which is in one piece. -/
inductive StreamFrame
  | first (fin : Bool) (opcode : DataOpcode) (f : Fragment)
  | continuation (fin : Bool) (f : Fragment)
  | control (opcode : ControlOpcode) (f : Fragment)

namespace StreamFrame

def fin : StreamFrame → Bool
  | first fin _ _ | continuation fin _ => fin
  | control _ _ => true

def opcode : StreamFrame → UInt8
  | first _ opcode _ => opcode.code
  | continuation _ _ => 0
  | control opcode _ => opcode.code

def fragment : StreamFrame → Fragment
  | first _ _ f | continuation _ f | control _ f => f

def encode (frame : StreamFrame) : List UInt8 := encodeFrame frame.fin frame.opcode frame.fragment

def isControl : StreamFrame → Bool
  | first _ _ _ | continuation _ _ => false
  | control _ _ => true

/-- The frame of the parser that this one becomes. -/
def received (frame : StreamFrame) : WebSocketFrame :=
  receive {} ⟨frame.fin, frame.opcode, frame.fragment.key, frame.fragment.payload⟩

def controlDelivery : StreamFrame → Option Delivery
  | first _ _ _ | continuation _ _ => none
  | control opcode f => some ⟨true, opcode.code, f.payload, f.payload.length⟩

theorem opcode_spec (frame : StreamFrame) : frame.opcode.toNat < 16 ∧ reservedOpcode frame.opcode = false := by
  cases frame with
  | first _ opcode _ => exact opcode.code_spec
  | continuation _ _ => exact ⟨Nat.zero_lt_succ _, rfl⟩
  | control opcode _ => exact opcode.code_spec

end StreamFrame

/-- Data messages do not overlap; control frames may stand anywhere. -/
def Legal : Bool → List StreamFrame → Prop
  | _, [] => True
  | inMessage, .first fin _ _ :: frames => inMessage = false ∧ Legal (!fin) frames
  | inMessage, .continuation fin _ :: frames => inMessage = true ∧ Legal (!fin) frames
  | inMessage, .control _ _ :: frames => Legal inMessage frames

/-- Every control frame stands between messages. -/
def BetweenOnly : Bool → List StreamFrame → Prop
  | _, [] => True
  | _, .first fin _ _ :: frames | _, .continuation fin _ :: frames => BetweenOnly (!fin) frames
  | inMessage, .control _ _ :: frames => inMessage = false ∧ BetweenOnly inMessage frames

structure LegalStream where
  frames : List StreamFrame
  legal : Legal false frames

/-- What a stream has to deliver, after the opcode and the payload so far of the
message that is open. -/
def deliveries : Option (UInt8 × List UInt8) → List StreamFrame → List Delivery
  | _, [] => []
  | _, .first fin opcode f :: frames =>
      if fin then ⟨true, opcode.code, f.payload, f.payload.length⟩ :: deliveries none frames
      else deliveries (some (opcode.code, f.payload)) frames
  | message, .continuation fin f :: frames =>
      let (opcode, begun) := message.getD (0, [])
      if fin then ⟨true, opcode, begun ++ f.payload, (begun ++ f.payload).length⟩ :: deliveries none frames
      else deliveries (some (opcode, begun ++ f.payload)) frames
  | message, .control opcode f :: frames =>
      ⟨true, opcode.code, f.payload, f.payload.length⟩ :: deliveries message frames

def Delivery.isControl (d : Delivery) : Bool := 8 ≤ d.opcode

/-- What `TakeFrame` gives after a `Parse` of the frames, when that succeeds. -/
def delivers (P : Platform) (frames : List StreamFrame) : Option (List Delivery) :=
  match parse P {} (frames.flatMap StreamFrame.encode) with
  | .ok (true, p) => some ((takeFrames p.completeFrames.length p).1.map delivered)
  | _ => none

/-- The data messages are those of the stream without control frames, and every
control frame is delivered as it is. -/
def Undisturbed (P : Platform) (frames : List StreamFrame) : Prop :=
  ∃ without whole, delivers P (frames.filter (!·.isControl)) = some without ∧ delivers P frames = some whole ∧
    whole.filter (!·.isControl) = without ∧ whole.filter (·.isControl) = frames.filterMap StreamFrame.controlDelivery

theorem DataOpcode.code_lt (opcode : DataOpcode) : ¬ (8 : UInt8) ≤ opcode.code := by
  cases opcode <;> decide

theorem ControlOpcode.le_code (opcode : ControlOpcode) : (8 : UInt8) ≤ opcode.code := by
  cases opcode <;> decide

/-- A parser that has read whole frames, of which some form the begin of a message. -/
structure Holds (p : WebSocketParser) (message : Option (UInt8 × List UInt8)) : Prop where
  newFrame : p.newFrame = true
  begun : match message with
    | none => p.frames = []
    | some (opcode, payload) => ∃ begin later, p.frames = begin :: later ∧ (∀ f ∈ later, f.opcode = 0) ∧
        begin.opcode = opcode ∧ begin.payload ++ later.flatMap (·.payload) = payload ∧ ¬ (8 : UInt8) ≤ opcode

section

variable {P : Platform} {p q : WebSocketParser} {message : Option (UInt8 × List UInt8)} {frame : StreamFrame}
  {frames : List StreamFrame} {rest : List UInt8}

theorem doParse_frame (P : Platform) (hnew : p.newFrame = true) (hb : p.buffer = frame.encode ++ rest) :
    p.doParse P = finishFrame P { p with buffer := rest } p.frames frame.received := by
  obtain ⟨hop, hr⟩ := frame.opcode_spec
  rw [doParse_encodeFrame P p frame.fin hop hr frame.fragment rest hb, openFrame_new hnew]
  rfl

theorem parseLoop_fragment (P : Platform) (hnew : p.newFrame = true) (hb : p.buffer = frame.encode ++ rest)
    (hfin : frame.fin = false) :
    p.parseLoop P = parseLoop P ⟨rest, p.completeFrames, p.frames ++ [frame.received], true⟩ := by
  apply parseLoop_success
  have hopen : ¬ frame.received.fin = true := Bool.eq_false_iff.mp hfin
  rw [doParse_frame P hnew hb, finishFrame, if_neg hopen]

theorem parseLoop_alone (P : Platform) (hnew : p.newFrame = true) (hb : p.buffer = frame.encode ++ rest)
    (hfin : frame.fin = true) (hframes : p.frames = []) :
    p.parseLoop P = (p.completed rest frame.received).parseLoop P := by
  apply parseLoop_success
  have hlast : frame.received.fin = true := hfin
  rw [doParse_frame P hnew hb, finishFrame, if_pos hlast, hframes]
  rfl

/-- The rest of a stream, from a parser that has completed a frame. -/
theorem deliver_completed {complete : WebSocketFrame} {wanted : List Delivery} (later : List Delivery)
    (hloop : p.parseLoop P = (p.completed rest complete).parseLoop P)
    (hrest : ∃ new q, (p.completed rest complete).parseLoop P = .ok (.kNeedMore, q) ∧
      q.completeFrames = (p.completed rest complete).completeFrames ++ new ∧ new.map delivered = later)
    (hwanted : wanted = delivered complete :: later) :
    ∃ new q, p.parseLoop P = .ok (.kNeedMore, q) ∧ q.completeFrames = p.completeFrames ++ new ∧
      new.map delivered = wanted := by
  obtain ⟨new, q, hq, hcomplete, hnew⟩ := hrest
  refine ⟨complete :: new, q, hloop.trans hq, ?_, ?_⟩
  · rw [hcomplete, completed, List.append_assoc]
    rfl
  · rw [hwanted, List.map_cons, hnew]

/-- Control frames between messages are delivered, and messages as they go on. -/
theorem parseLoop_deliveries (P : Platform) (frames : List StreamFrame) {p : WebSocketParser}
    {message : Option (UInt8 × List UInt8)} (h : Holds p message) (hlegal : Legal message.isSome frames)
    (hbetween : BetweenOnly message.isSome frames) (hb : p.buffer = frames.flatMap StreamFrame.encode) :
    ∃ new q, p.parseLoop P = .ok (.kNeedMore, q) ∧ q.completeFrames = p.completeFrames ++ new ∧
      new.map delivered = deliveries message frames := by
  induction frames generalizing p message with
  | nil =>
      refine ⟨[], ⟨[], p.completeFrames, p.frames ++ [({} : WebSocketFrame)], false⟩, ?_, by simp, rfl⟩
      apply parseLoop_stop _ (by decide)
      have hnil : p.buffer = [] := hb
      rw [doParse_eq, hnil]
      simp [scan, resume, stop, openFrame_new h.newFrame, hnil]
  | cons frame frames ih =>
      rw [List.flatMap_cons] at hb
      cases frame with
      | first fin opcode f =>
          obtain ⟨hnone, hrest⟩ := hlegal
          obtain rfl : message = none := by simpa using hnone
          cases fin with
          | true =>
              refine deliver_completed (deliveries none frames) (parseLoop_alone P h.newFrame hb rfl h.begun)
                (ih ⟨rfl, rfl⟩ hrest hbetween rfl) ?_
              simp [deliveries, delivered, StreamFrame.received, receive, StreamFrame.fin, StreamFrame.opcode,
                StreamFrame.fragment]
          | false =>
              rw [parseLoop_fragment P h.newFrame hb rfl, deliveries, if_neg (by decide)]
              refine ih (p := ⟨_, p.completeFrames, _, true⟩) (show Holds _ (some _) from ⟨rfl, ?_⟩) hrest hbetween rfl
              refine ⟨StreamFrame.received (.first false opcode f), [], ?_, by simp, rfl, ?_, opcode.code_lt⟩
              · rw [h.begun]
                rfl
              · simp [StreamFrame.received, receive, StreamFrame.fragment]
      | continuation fin f =>
          obtain ⟨hsome, hrest⟩ := hlegal
          obtain ⟨⟨opcode, begun⟩, rfl⟩ := Option.isSome_iff_exists.mp hsome
          obtain ⟨begin, later, hframes, hzero, hopcode, hpayload, hdata⟩ := h.begun
          cases fin with
          | true =>
              have hstep := doParse_frame P h.newFrame hb
              rw [hframes, finishFrame_merge P _ _ rfl hzero rfl] at hstep
              refine deliver_completed (deliveries none frames) (parseLoop_success hstep)
                (ih ⟨rfl, rfl⟩ hrest hbetween rfl) ?_
              simp only [deliveries, Option.getD_some, if_true, delivered, merge, List.flatMap_append]
              rw [← hpayload, ← hopcode]
              simp [StreamFrame.received, receive, StreamFrame.fragment]
          | false =>
              rw [parseLoop_fragment P h.newFrame hb rfl]
              simp only [deliveries, Option.getD_some]
              rw [if_neg (by decide)]
              refine ih (p := ⟨_, p.completeFrames, _, true⟩) (show Holds _ (some _) from ⟨rfl, ?_⟩) hrest hbetween rfl
              refine ⟨begin, later ++ [StreamFrame.received (.continuation false f)], ?_, ?_, hopcode, ?_, hdata⟩
              · rw [hframes]
                rfl
              · simpa [or_imp, forall_and, StreamFrame.received, receive] using ⟨hzero, rfl⟩
              · rw [List.flatMap_append, ← List.append_assoc, hpayload]
                simp [StreamFrame.received, receive, StreamFrame.fragment]
      | control opcode f =>
          obtain ⟨hnone, hrest⟩ := hbetween
          obtain rfl : message = none := by simpa using hnone
          refine deliver_completed (deliveries none frames) (parseLoop_alone P h.newFrame hb rfl h.begun)
            (ih ⟨rfl, rfl⟩ hlegal hrest rfl) ?_
          simp [deliveries, delivered, StreamFrame.received, receive, StreamFrame.fin, StreamFrame.opcode,
            StreamFrame.fragment]

/-- What one frame delivers at once is of its own kind, and a control frame leaves the
open message alone. -/
theorem deliveries_cons (frame : StreamFrame) (h : ∀ m ∈ message, ¬ (8 : UInt8) ≤ m.1) :
    ∃ now next, (∀ frames, deliveries message (frame :: frames) = now ++ deliveries next frames) ∧
      (∀ m ∈ next, ¬ (8 : UInt8) ≤ m.1) ∧ (∀ d ∈ now, d.isControl = frame.isControl) ∧
      (frame.isControl = true → next = message ∧ now = frame.controlDelivery.toList) := by
  cases frame with
  | first fin opcode f =>
      have hopcode := opcode.code_lt
      cases fin with
      | true =>
          refine ⟨[⟨true, opcode.code, f.payload, f.payload.length⟩], none, fun _ => rfl, by simp, ?_, nofun⟩
          simpa [Delivery.isControl, StreamFrame.isControl] using hopcode
      | false => exact ⟨[], some (opcode.code, f.payload), fun _ => rfl, by simpa using hopcode, by simp, nofun⟩
  | continuation fin f =>
      obtain ⟨opcode, begun, hmessage, hopcode⟩ :
          ∃ opcode begun, message.getD (0, []) = (opcode, begun) ∧ ¬ (8 : UInt8) ≤ opcode := by
        cases message with
        | none => exact ⟨0, [], rfl, by decide⟩
        | some m => exact ⟨m.1, m.2, rfl, h m rfl⟩
      cases fin with
      | true =>
          refine ⟨[⟨true, opcode, begun ++ f.payload, (begun ++ f.payload).length⟩], none, fun frames => ?_, by simp,
            ?_, nofun⟩
          · rw [deliveries, hmessage]
            rfl
          · simpa [Delivery.isControl, StreamFrame.isControl] using hopcode
      | false =>
          refine ⟨[], some (opcode, begun ++ f.payload), fun frames => ?_, by simpa using hopcode, by simp, nofun⟩
          rw [deliveries, hmessage]
          rfl
  | control opcode f =>
      refine ⟨[⟨true, opcode.code, f.payload, f.payload.length⟩], message, fun _ => rfl, h, ?_, fun _ => ⟨rfl, rfl⟩⟩
      simpa [Delivery.isControl, StreamFrame.isControl] using opcode.le_code

theorem deliveries_data (frames : List StreamFrame) (h : ∀ m ∈ message, ¬ (8 : UInt8) ≤ m.1) :
    (deliveries message frames).filter (!·.isControl) = deliveries message (frames.filter (!·.isControl)) := by
  induction frames generalizing message with
  | nil => rfl
  | cons frame frames ih =>
      obtain ⟨now, next, hdeliveries, hnext, hkind, hcontrol⟩ := deliveries_cons frame h
      rw [hdeliveries, List.filter_append, ih hnext]
      cases hframe : frame.isControl with
      | true =>
          obtain ⟨rfl, -⟩ := hcontrol hframe
          have hnone : now.filter (!·.isControl) = [] :=
            List.filter_eq_nil_iff.mpr fun d hd => by simp [hkind d hd, hframe]
          rw [hnone, List.filter_cons_of_neg (by simp [hframe]), List.nil_append]
      | false =>
          have hall : now.filter (!·.isControl) = now :=
            List.filter_eq_self.mpr fun d hd => by simp [hkind d hd, hframe]
          rw [hall, List.filter_cons_of_pos (by simp [hframe]), hdeliveries]

theorem deliveries_control (frames : List StreamFrame) (h : ∀ m ∈ message, ¬ (8 : UInt8) ≤ m.1) :
    (deliveries message frames).filter (·.isControl) = frames.filterMap StreamFrame.controlDelivery := by
  induction frames generalizing message with
  | nil => rfl
  | cons frame frames ih =>
      obtain ⟨now, next, hdeliveries, hnext, hkind, hcontrol⟩ := deliveries_cons frame h
      rw [hdeliveries, List.filter_append, ih hnext]
      cases frame with
      | first | continuation =>
          have hnone : now.filter (·.isControl) = [] :=
            List.filter_eq_nil_iff.mpr fun d hd => by simp [hkind d hd, StreamFrame.isControl]
          rw [hnone, List.filterMap_cons_none rfl, List.nil_append]
      | control opcode f =>
          obtain ⟨-, rfl⟩ := hcontrol rfl
          rw [List.filter_eq_self.mpr hkind]
          rfl

theorem legal_without (frames : List StreamFrame) {inMessage : Bool} (h : Legal inMessage frames) :
    Legal inMessage (frames.filter (!·.isControl)) := by
  induction frames generalizing inMessage with
  | nil => trivial
  | cons frame frames ih =>
      cases frame with
      | first fin opcode f => exact ⟨h.1, ih h.2⟩
      | continuation fin f => exact ⟨h.1, ih h.2⟩
      | control opcode f => exact ih h

theorem between_without (frames : List StreamFrame) (inMessage : Bool) :
    BetweenOnly inMessage (frames.filter (!·.isControl)) := by
  induction frames generalizing inMessage with
  | nil => trivial
  | cons frame frames ih =>
      cases frame with
      | first fin opcode f => exact ih (!fin)
      | continuation fin f => exact ih (!fin)
      | control opcode f => exact ih inMessage

theorem takeFrames_completed (p : WebSocketParser) :
    (takeFrames p.completeFrames.length p).1 = p.completeFrames := by
  rw [takeFrames_all p.completeFrames rfl]

theorem delivers_eq_some_iff (P : Platform) (frames : List StreamFrame) (ds : List Delivery) :
    delivers P frames = some ds ↔ ∃ state q,
      parseLoop P (feed {} (frames.flatMap StreamFrame.encode)) = .ok (state, q) ∧ state ≠ .kError ∧
        q.completeFrames.map delivered = ds := by
  rw [delivers, parse_eq]
  cases hloop : parseLoop P (feed {} (frames.flatMap StreamFrame.encode)) with
  | error e => simp [Except.map]
  | ok r =>
      obtain ⟨state, q⟩ := r
      simp only [takeFrames_completed, Except.ok.injEq, Prod.mk.injEq]
      cases state with
      | kSuccess | kNeedMore =>
          constructor
          · intro h
            exact ⟨_, q, ⟨rfl, rfl⟩, by decide, Option.some.inj h⟩
          · rintro ⟨_, _, ⟨rfl, rfl⟩, _, rfl⟩
            rfl
      | kError =>
          constructor
          · intro h
            cases h
          · rintro ⟨_, _, ⟨rfl, rfl⟩, hne, _⟩
            exact absurd rfl hne

theorem delivers_of_between (P : Platform) {frames : List StreamFrame} (hlegal : Legal false frames)
    (h : BetweenOnly false frames) : delivers P frames = some (deliveries none frames) := by
  obtain ⟨new, q, hq, hcomplete, hnew⟩ := parseLoop_deliveries P frames
    (show Holds (feed {} (frames.flatMap StreamFrame.encode)) none from ⟨rfl, rfl⟩) hlegal h rfl
  rw [delivers_eq_some_iff]
  exact ⟨_, q, hq, by decide, by rw [hcomplete, ← hnew]; rfl⟩

theorem undisturbed_of_between (P : Platform) {frames : List StreamFrame} (hlegal : Legal false frames)
    (h : BetweenOnly false frames) : Undisturbed P frames := by
  refine ⟨_, _, delivers_of_between P (legal_without frames hlegal) (between_without frames false),
    delivers_of_between P hlegal h, ?_, ?_⟩
  · exact deliveries_data frames (by simp)
  · exact deliveries_control frames (by simp)

/-- The open message, when there is one, does not start with a control frame. -/
def DataFirst (p : WebSocketParser) : Prop :=
  ∀ begin later, p.frames = begin :: later → ¬ (8 : UInt8) ≤ begin.opcode

def controls (frames : List WebSocketFrame) : Nat := ((frames.map delivered).filter (·.isControl)).length

/-- Where a frame was read without an error, what it has added and left. -/
theorem parseLoop_frame_cases {r : ParseState × WebSocketParser} (hnew : p.newFrame = true) (hfirst : DataFirst p)
    (hb : p.buffer = frame.encode ++ rest) (hloop : p.parseLoop P = .ok r) :
    ∃ p' added, p'.parseLoop P = .ok r ∧ p'.buffer = rest ∧ p'.newFrame = true ∧ DataFirst p' ∧
      p'.completeFrames = p.completeFrames ++ added ∧ (p'.frames = [] ↔ frame.fin = true) ∧
      controls added ≤ frame.controlDelivery.toList.length ∧ (p.frames ≠ [] → controls added = 0) := by
  have hstep := doParse_frame P hnew hb
  cases hfin : frame.fin with
  | false =>
      rw [parseLoop_fragment P hnew hb hfin] at hloop
      refine ⟨_, [], hloop, rfl, rfl, ?_, by simp, by simp, Nat.zero_le _, fun _ => rfl⟩
      intro begin later hframes
      cases hbegun : p.frames with
      | cons first others =>
          rw [hbegun] at hframes
          obtain rfl : first = begin := (List.cons.inj hframes).1
          exact hfirst first others hbegun
      | nil =>
          rw [hbegun] at hframes
          obtain rfl : frame.received = begin := (List.cons.inj hframes).1
          cases frame with
          | first fin opcode f => exact opcode.code_lt
          | continuation fin f => exact (by decide : ¬ (8 : UInt8) ≤ 0)
          | control opcode f => cases hfin
  | true =>
      have hlast : frame.received.fin = true := hfin
      cases hbegun : p.frames with
      | nil =>
          rw [parseLoop_alone P hnew hb hfin hbegun] at hloop
          refine ⟨_, [frame.received], hloop, rfl, rfl, ?_, rfl, by simp [completed], ?_, fun h => absurd rfl h⟩
          · intro begin later hframes
            cases hframes
          · cases frame with
            | control opcode f => exact List.length_filter_le _ _
            | first fin opcode f =>
                have hopcode := opcode.code_lt
                simp [controls, delivered, Delivery.isControl, StreamFrame.received, receive, StreamFrame.opcode,
                  hopcode]
            | continuation fin f =>
                simp [controls, delivered, Delivery.isControl, StreamFrame.received, receive, StreamFrame.opcode]
      | cons begin later =>
          obtain ⟨next, others, hn⟩ : ∃ next others, later ++ [frame.received] = next :: others := by
            cases later <;> simp
          rw [hbegun, finishFrame, if_pos hlast, List.cons_append, hn] at hstep
          dsimp only at hstep
          split at hstep
          · rw [parseLoop, hstep] at hloop
            cases hloop
          · rw [parseLoop_success hstep] at hloop
            have hdata := hfirst begin later hbegun
            have hzero : controls [merge begin (next :: others)] = 0 := by
              simp [controls, delivered, Delivery.isControl, merge, hdata]
            refine ⟨_, [merge begin (next :: others)], hloop, rfl, rfl, ?_, rfl, by simp, ?_, fun _ => hzero⟩
            · intro begin later hframes
              cases hframes
            · rw [hzero]
              exact Nat.zero_le _

/-- No more control frames are delivered than there are, and fewer where one of them
falls into an open message. -/
theorem parseLoop_controls (P : Platform) (frames : List StreamFrame) {p : WebSocketParser} {inMessage : Bool}
    {r : ParseState × WebSocketParser} (hnew : p.newFrame = true) (hfirst : DataFirst p)
    (hb : p.buffer = frames.flatMap StreamFrame.encode) (hloop : p.parseLoop P = .ok r) :
    ∃ added, r.2.completeFrames = p.completeFrames ++ added ∧
      controls added ≤ (frames.filterMap StreamFrame.controlDelivery).length ∧
      (Legal inMessage frames → ¬ BetweenOnly inMessage frames → (p.frames = [] ↔ inMessage = false) →
        controls added < (frames.filterMap StreamFrame.controlDelivery).length) := by
  induction frames generalizing p inMessage with
  | nil =>
      have hnil : p.buffer = [] := hb
      have hstop : p.parseLoop P =
          .ok (.kNeedMore, ⟨[], p.completeFrames, p.frames ++ [({} : WebSocketFrame)], false⟩) := by
        apply parseLoop_stop _ (by decide)
        rw [doParse_eq, hnil]
        simp [scan, resume, stop, openFrame_new hnew, hnil]
      obtain rfl := Except.ok.inj (hstop.symm.trans hloop)
      exact ⟨[], by simp, Nat.zero_le _, fun _ hbetween _ => absurd trivial hbetween⟩
  | cons frame frames ih =>
      rw [List.flatMap_cons] at hb
      obtain ⟨p', done, hloop', hb', hnew', hfirst', hcomplete, hopen, hadded, hswallowed⟩ :=
        parseLoop_frame_cases hnew hfirst hb hloop
      have hrest (inMessage : Bool) := @ih p' inMessage hnew' hfirst' hb' hloop'
      have hcons : ((frame :: frames).filterMap StreamFrame.controlDelivery).length =
          frame.controlDelivery.toList.length + (frames.filterMap StreamFrame.controlDelivery).length := by
        rw [List.filterMap_cons]
        cases frame.controlDelivery with
        | none => simp
        | some d => simp [Nat.add_comm]
      obtain ⟨added, hall, hle, hlt⟩ := hrest (!frame.fin)
      have happend : controls (done ++ added) = controls done + controls added := by simp [controls]
      have hopen' : p'.frames = [] ↔ (!frame.fin) = false := by simpa using hopen
      refine ⟨done ++ added, by rw [hall, hcomplete, List.append_assoc], by omega, ?_⟩
      intro hlegal hbetween hmatch
      cases frame with
      | first fin opcode f =>
          have hless := hlt hlegal.2 hbetween hopen'
          omega
      | continuation fin f =>
          have hless := hlt hlegal.2 hbetween hopen'
          omega
      | control opcode f =>
          cases inMessage with
          | false =>
              have hless := hlt hlegal (fun h => hbetween ⟨rfl, h⟩) hopen'
              omega
          | true =>
              have hnone := hswallowed fun h => by simpa using hmatch.mp h
              have hone : (StreamFrame.control opcode f).controlDelivery.toList.length = 1 := rfl
              omega

theorem between_of_undisturbed (P : Platform) {frames : List StreamFrame} (hlegal : Legal false frames)
    (h : Undisturbed P frames) : BetweenOnly false frames := by
  obtain ⟨without, whole, -, hwhole, -, hcontrols⟩ := h
  obtain ⟨state, q, hloop, -, hq⟩ := (delivers_eq_some_iff P frames whole).mp hwhole
  obtain ⟨added, hcomplete, -, hless⟩ := @parseLoop_controls P frames (feed {} (frames.flatMap StreamFrame.encode))
    false _ rfl (by intro _ _ h; cases h) rfl hloop
  by_contra hbetween
  have hall : q.completeFrames = added := hcomplete
  have hlt := hless hlegal hbetween (by simp [feed])
  rw [← hcontrols, ← hq, hall] at hlt
  exact Nat.lt_irrefl _ hlt

end

/-- Control frames leave the data messages alone, and are delivered, exactly where
they stand between messages. -/
theorem control_frames_undisturbing_iff (P : Platform) (stream : LegalStream) :
    Undisturbed P stream.frames ↔ BetweenOnly false stream.frames :=
  ⟨between_of_undisturbed P stream.legal, undisturbed_of_between P stream.legal⟩

/-- A ping between the two fragments of a message. -/
theorem control_frame_disturbs : ¬ ∀ (P : Platform) (stream : LegalStream), Undisturbed P stream.frames := by
  intro h
  let stream : LegalStream := ⟨[.first false .text ⟨[72], none, .seven, by simp [LengthForm.Fits]⟩,
    .control .ping ⟨[120], none, .seven, by simp [LengthForm.Fits]⟩,
    .continuation true ⟨[105], none, .seven, by simp [LengthForm.Fits]⟩], ⟨rfl, rfl, trivial⟩⟩
  obtain ⟨hnone, -⟩ := between_of_undisturbed ⟨.little, true⟩ stream.legal (h _ stream)
  cases hnone

end Libcold.WebSocketParser
