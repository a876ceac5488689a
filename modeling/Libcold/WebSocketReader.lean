import Libcold.WebSocketPrefix
import Libcold.WebSocketWriter

namespace Libcold

open Runs WebSocketParser

/-- What `DoRead` does that can be seen: a call of `onRecv_`, a pong frame made, a
call of `onClose_`. -/
inductive ReadEffect
  | onRecv (payload : List UInt8)
  | pong (payload : List UInt8)
  | onClose

/-- A `WebSocket` in `DoRead`: its socket, whether it waits for input, its parser, and
what it has read and done. -/
structure WebSocketReader where
  connected : Bool := true
  waiting : Bool := true
  parser : WebSocketParser := {}
  fed : List UInt8 := []
  effects : List ReadEffect := []

inductive ReadEvent
  | read (chunk : List UInt8) (goesOn : Bool)
  | other

namespace WebSocketReader

def act (s : WebSocketReader) (effect : ReadEffect) : WebSocketReader := { s with effects := s.effects ++ [effect] }

def close (s : WebSocketReader) : WebSocketReader := { s with connected := false }

def onError (s : WebSocketReader) : WebSocketReader := (s.act .onClose).close

/-- The frame of `SendPong` carries no payload. -/
def sendPong (s : WebSocketReader) : WebSocketReader :=
  if s.connected then s.act (.pong (controlFrame 0xa).payloadView) else s

def handle (s : WebSocketReader) (frame : WebSocketFrame) : WebSocketReader :=
  if frame.opcode = 0x1 ∨ frame.opcode = 0x2 then s.act (.onRecv frame.payload)
  else if frame.opcode = 0x8 then (s.act .onClose).close
  else if frame.opcode = 0x9 then s.sendPong
  else if frame.opcode = 0xa then s
  else s.onError

/-- After a `Parse`: one frame is taken, where there is one. -/
def parsed (P : Platform) (s : WebSocketReader) (ok : Bool) (parser : WebSocketParser) :
    Except Failure WebSocketReader :=
  if ok then
    if parser.hasFrame then
      let (frame, parser) := parser.takeFrame
      if !P.ndebug && !frame.fin then .error .assertion else .ok ({ s with parser }.handle frame)
    else .ok { s with parser }
  else .ok { s with parser }.onError

/-- The head of the loop; a peer that has been silent for too long is dropped. -/
def loopHead (s : WebSocketReader) (silent : Bool) : WebSocketReader :=
  if s.connected then if silent then { s.onError with waiting := false } else s
  else { s with waiting := false }

/-- `DoRead` from one read to the next, on the bytes of the messages. The socket may
be closed by a coroutine that writes. -/
inductive Step (P : Platform) (messages : List Message) : WebSocketReader → ReadEvent → WebSocketReader → Prop
  | read (s) (chunk ok parser t) (silent : Bool) (hwaiting : s.waiting = true) (hconnected : s.connected = true)
      (hsize : 0 < chunk.length ∧ chunk.length ≤ 65536)
      (hbytes : s.fed ++ chunk <+: messages.flatMap Message.encode)
      (hparse : parse P s.parser chunk = .ok (ok, parser))
      (hparsed : parsed P { s with fed := s.fed ++ chunk } ok parser = .ok t) :
      Step P messages s (.read chunk (t.loopHead silent).waiting) (t.loopHead silent)
  | readFails (s) (hwaiting : s.waiting = true) : Step P messages s .other { s.close with waiting := false }
  | closeByWrite (s) : Step P messages s .other s.close

/-- What the messages call for; nothing after a close message. -/
def effectsOf : List Message → List ReadEffect
  | [] => []
  | .data opcode first others :: messages => .onRecv (Message.data opcode first others).payload :: effectsOf messages
  | .control .ping f :: messages => .pong f.payload :: effectsOf messages
  | .control .pong _ :: messages => effectsOf messages
  | .control .close _ :: _ => [.onClose]

/-- When `DoRead` waits, it has done what the messages that have come call for; it
does nothing after `onClose_`. -/
structure Dispatched (messages : List Message) (s : WebSocketReader) : Prop where
  effects : s.waiting = true → s.effects = effectsOf (received messages s.fed)
  closed : ∀ before after, s.effects = before ++ .onClose :: after → after = []

def IsPong : Message → Prop
  | .control .pong _ => True
  | _ => False

/-- The pong is the answer to the message, if one is due. -/
def Answered : Message → Prop
  | .control .ping f => f.payload = []
  | _ => True

/-- Of the messages that the parser holds and those that a read completes all but the
first are pongs, and the first is no ping with a payload. -/
def OneAnswered (messages : List Message) (s : WebSocketReader) : ReadEvent → Prop
  | .read chunk true =>
      let arrived := (received messages (s.fed ++ chunk)).drop (received messages s.fed).length
      if s.parser.hasFrame then ∀ m ∈ arrived, IsPong m
      else (∀ m ∈ arrived.take 1, Answered m) ∧ ∀ m ∈ arrived.drop 1, IsPong m
  | _ => True

def isClose : Message → Bool
  | .control .close _ => true
  | _ => false

/-- What is done about a message that was taken. -/
def answer : Message → List ReadEffect
  | .data opcode first others => [.onRecv (Message.data opcode first others).payload]
  | .control .ping _ => [.pong []]
  | .control .pong _ => []
  | .control .close _ => [.onClose]

/-- The reader as a consumer of messages. -/
structure Tracks (P : Platform) (messages : List Message) (s : WebSocketReader) (b : Backlog Message) : Prop where
  effects : s.effects = b.handled.flatMap answer
  arrived : received messages s.fed = b.handled ++ b.waiting
  opened : ∀ m ∈ b.handled, isClose m = false
  bytes : s.fed <+: messages.flatMap Message.encode
  queue : s.parser.completeFrames.map delivered = b.waiting.map Message.delivery
  parser : ∃ front, front.length = b.handled.length ∧
    ∀ data, parse P {} (s.fed ++ data) = (s.parser.behind front).parse P data

/-- Nothing is left to do, and what was done was right. -/
structure Settled (b : Backlog Message) : Prop where
  answered : ∀ m ∈ b.handled, Answered m
  pongs : ∀ m ∈ b.waiting, IsPong m

def LastClose (effects : List ReadEffect) : Prop :=
  ∀ before after, effects = before ++ .onClose :: after → after = []

section

variable {P : Platform} {messages : List Message} {s t : WebSocketReader} {b : Backlog Message}

theorem effects_eq_iff {handled waiting : List Message} (h : ∀ m ∈ handled, isClose m = false) :
    handled.flatMap answer = effectsOf (handled ++ waiting) ↔ Settled ⟨handled, waiting⟩ := by
  induction handled with
  | nil =>
      rw [List.flatMap_nil, List.nil_append]
      constructor
      · intro heffects
        refine ⟨fun m hm => absurd hm List.not_mem_nil, ?_⟩
        induction waiting with
        | nil => exact fun m hm => absurd hm List.not_mem_nil
        | cons w waiting ih =>
            match w with
            | .data _ _ _ | .control .ping _ | .control .close _ => cases heffects
            | .control .pong f => exact List.forall_mem_cons.mpr ⟨trivial, ih heffects⟩
      · rintro ⟨-, hpongs⟩
        induction waiting with
        | nil => rfl
        | cons w waiting ih =>
            obtain ⟨hw, hrest⟩ := List.forall_mem_cons.mp hpongs
            match w with
            | .data _ _ _ | .control .ping _ | .control .close _ => cases hw
            | .control .pong f => exact ih hrest
  | cons m handled ih =>
      obtain ⟨hm, hrest⟩ := List.forall_mem_cons.mp h
      have hsettled : Settled ⟨m :: handled, waiting⟩ ↔ Answered m ∧ Settled ⟨handled, waiting⟩ := by
        constructor
        · rintro ⟨hanswered, hpongs⟩
          obtain ⟨hfirst, hothers⟩ := List.forall_mem_cons.mp hanswered
          exact ⟨hfirst, hothers, hpongs⟩
        · rintro ⟨hfirst, hothers, hpongs⟩
          exact ⟨List.forall_mem_cons.mpr ⟨hfirst, hothers⟩, hpongs⟩
      rw [hsettled, ← ih hrest]
      match m with
      | .data opcode first others => simp [answer, effectsOf, Answered]
      | .control .ping f => simp [answer, effectsOf, Answered, eq_comm]
      | .control .pong f => simp [answer, effectsOf, Answered]
      | .control .close f => cases hm

theorem Settled.round_iff (h : Settled b) (arrived : List Message) :
    Settled (b.round arrived) ↔
      if b.waiting = [] then (∀ m ∈ arrived.take 1, Answered m) ∧ ∀ m ∈ arrived.drop 1, IsPong m
      else ∀ m ∈ arrived, IsPong m := by
  obtain ⟨hanswered, hpongs⟩ := h
  cases hwaiting : b.waiting with
  | nil =>
      rw [if_pos rfl, Backlog.round, hwaiting, List.nil_append]
      cases arrived with
      | nil => simpa using ⟨hanswered, hpongs⟩
      | cons m rest =>
          constructor
          · rintro ⟨hall, hrest⟩
            exact ⟨fun d hd => hall d (List.mem_append_right _ (by simpa using hd)), hrest⟩
          · rintro ⟨hfirst, hrest⟩
            refine ⟨fun d hd => ?_, hrest⟩
            rcases List.mem_append.mp hd with hd | hd
            · exact hanswered d hd
            · exact hfirst d hd
  | cons w waiting =>
      rw [if_neg (List.cons_ne_nil w waiting), Backlog.round, hwaiting, List.cons_append]
      rw [hwaiting] at hpongs
      obtain ⟨hw, hrest⟩ := List.forall_mem_cons.mp hpongs
      constructor
      · rintro ⟨-, hall⟩ m hm
        exact hall m (List.mem_append_right _ hm)
      · intro harrived
        refine ⟨fun d hd => ?_, fun d hd => ?_⟩
        · rcases List.mem_append.mp hd with hd | hd
          · exact hanswered d hd
          · obtain rfl := List.mem_singleton.mp hd
            cases d with
            | data => cases hw
            | control kind f =>
                cases kind with
                | pong => trivial
                | ping | close => cases hw
        · rcases List.mem_append.mp hd with hd | hd
          · exact hrest d hd
          · exact harrived d hd

theorem handle_eq (s : WebSocketReader) {frame : WebSocketFrame} {m : Message} (h : delivered frame = m.delivery)
    (hconnected : s.connected = true) :
    s.handle frame = { s with effects := s.effects ++ answer m, connected := !isClose m } := by
  obtain ⟨-, hopcode, hpayload, -⟩ := Delivery.mk.inj h
  rw [handle, hopcode, hpayload]
  match m with
  | .data .text first others => simp [Message.opcode, DataOpcode.code, act, answer, isClose, hconnected]
  | .data .binary first others => simp [Message.opcode, DataOpcode.code, act, answer, isClose, hconnected]
  | .control .ping f =>
      simp [Message.opcode, ControlOpcode.code, sendPong, act, answer, isClose, hconnected, controlFrame]
  | .control .pong f => simp [Message.opcode, ControlOpcode.code, answer, isClose, ← hconnected]
  | .control .close f => simp [Message.opcode, ControlOpcode.code, act, close, answer, isClose]

theorem quiet_answers {handled : List Message} (h : ∀ m ∈ handled, isClose m = false) :
    .onClose ∉ handled.flatMap answer := by
  intro hmem
  obtain ⟨m, hm, hanswer⟩ := List.mem_flatMap.mp hmem
  have hopen := h m hm
  match m with
  | .data _ _ _ | .control .ping _ | .control .pong _ => simp [answer] at hanswer
  | .control .close _ => cases hopen

theorem lastClose_snoc {effects : List ReadEffect} (h : .onClose ∉ effects) (e : ReadEffect) :
    LastClose (effects ++ [e]) := by
  intro before after heq
  cases after using List.reverseRecOn with
  | nil => rfl
  | append_singleton after last =>
      rw [← List.cons_append, ← List.append_assoc] at heq
      obtain ⟨hbefore, -⟩ := List.append_inj' heq rfl
      exact absurd (hbefore ▸ List.mem_append_right _ List.mem_cons_self) h

theorem lastClose_of_quiet {effects : List ReadEffect} (h : .onClose ∉ effects) : LastClose effects := by
  rintro before after rfl
  exact absurd (List.mem_append_right _ List.mem_cons_self) h

theorem loopHead_waiting {silent : Bool} (h : (s.loopHead silent).waiting = true) :
    s.loopHead silent = s ∧ s.connected = true := by
  rw [loopHead] at *
  split_ifs at * with hconnected hsilent
  exact ⟨rfl, hconnected⟩

theorem loopHead_lastClose (silent : Bool) (hconnected : s.connected = true → .onClose ∉ s.effects)
    (hclosed : LastClose s.effects) : LastClose (s.loopHead silent).effects := by
  rw [loopHead]
  split_ifs with hopen hsilent
  · exact lastClose_snoc (hconnected hopen) _
  · exact hclosed
  · exact hclosed

theorem parsed_first (P : Platform) (s : WebSocketReader) {parser : WebSocketParser} {frame : WebSocketFrame}
    {frames : List WebSocketFrame} {m : Message} (hframes : parser.completeFrames = frame :: frames)
    (hframe : delivered frame = m.delivery) (hconnected : s.connected = true) :
    parsed P s true parser = .ok { s with
      parser := { parser with completeFrames := frames }
      effects := s.effects ++ answer m
      connected := !isClose m } := by
  have htake : parser.takeFrame = (frame, { parser with completeFrames := frames }) := by
    rw [takeFrame, hframes]
    rfl
  have hfin : frame.fin = true := (Delivery.mk.inj hframe).1
  have hsome : parser.hasFrame = true := by
    rw [hasFrame, hframes]
    rfl
  have hhandle := handle_eq { s with parser := { parser with completeFrames := frames } } hframe hconnected
  rw [parsed, if_pos rfl, hsome, if_pos rfl, htake]
  dsimp only
  rw [hfin, Bool.not_true, Bool.and_false, if_neg (by decide), hhandle]

/-- What the parser finds after a read: the messages that wait and those that the read completes. -/
theorem Tracks.parse (h : Tracks P messages s b) {chunk : List UInt8} {ok : Bool} {parser : WebSocketParser}
    {arrived : List Message} (hbytes : s.fed ++ chunk <+: messages.flatMap Message.encode)
    (harrived : received messages (s.fed ++ chunk) = received messages s.fed ++ arrived)
    (hparse : WebSocketParser.parse P s.parser chunk = .ok (ok, parser)) :
    ok = true ∧ ∃ front, front.length = b.handled.length ∧
      WebSocketParser.parse P {} (s.fed ++ chunk) = .ok (true, parser.behind front) ∧
      parser.completeFrames.map delivered = (b.waiting ++ arrived).map Message.delivery := by
  obtain ⟨front, hlength, hfed⟩ := h.parser
  obtain ⟨q, hq, hcomplete⟩ := parse_received P messages hbytes
  have hwhole : WebSocketParser.parse P {} (s.fed ++ chunk) = .ok (ok, parser.behind front) := by
    rw [hfed, parse_behind, hparse]
    rfl
  obtain ⟨rfl, rfl⟩ := Prod.mk.inj (Except.ok.inj (hwhole.symm.trans hq))
  refine ⟨rfl, front, hlength, hwhole, ?_⟩
  rw [harrived, h.arrived, List.append_assoc, List.map_append] at hcomplete
  change (front ++ parser.completeFrames).map delivered = _ at hcomplete
  rw [List.map_append] at hcomplete
  exact (List.append_inj hcomplete (by simpa using hlength)).2

/-- A read is a round of the consumer, but a close message ends the reading. -/
theorem Tracks.parsed (h : Tracks P messages s b) {chunk : List UInt8} {ok : Bool} {parser : WebSocketParser}
    {arrived : List Message} (hconnected : s.connected = true)
    (hbytes : s.fed ++ chunk <+: messages.flatMap Message.encode)
    (harrived : received messages (s.fed ++ chunk) = received messages s.fed ++ arrived)
    (hparse : WebSocketParser.parse P s.parser chunk = .ok (ok, parser))
    (hparsed : parsed P { s with fed := s.fed ++ chunk } ok parser = .ok t) :
    t.fed = s.fed ++ chunk ∧ t.waiting = s.waiting ∧ t.effects = (b.round arrived).handled.flatMap answer ∧
      (t.connected = true → Tracks P messages t (b.round arrived)) ∧
      LastClose t.effects := by
  obtain ⟨rfl, front, hlength, hwhole, hqueue⟩ := h.parse hbytes harrived hparse
  have hquiet := quiet_answers h.opened
  cases hnext : b.waiting ++ arrived with
  | nil =>
      have hround : b.round arrived = b := by rw [Backlog.round, hnext]
      rw [hnext, List.map_nil, List.map_eq_nil_iff] at hqueue
      have hnone : parser.hasFrame = false := by rw [hasFrame, hqueue]; rfl
      rw [WebSocketReader.parsed, if_pos rfl, hnone, if_neg (by decide)] at hparsed
      obtain rfl := Except.ok.inj hparsed
      rw [hround]
      refine ⟨rfl, rfl, h.effects, fun _ => ⟨h.effects, ?_, h.opened, hbytes, ?_, front, hlength, ?_⟩, ?_⟩
      · rw [harrived, h.arrived, List.append_assoc, hnext, (List.append_eq_nil_iff.mp hnext).1]
      · rw [hqueue, (List.append_eq_nil_iff.mp hnext).1]
        rfl
      · intro data
        rw [parse_append, hwhole]
        rfl
      · exact lastClose_of_quiet (h.effects ▸ hquiet)
  | cons m rest =>
      have hround : b.round arrived = ⟨b.handled ++ [m], rest⟩ := by rw [Backlog.round, hnext]
      rw [hnext, List.map_cons] at hqueue
      obtain ⟨frame, frames, hframes, hframe, hrest⟩ := List.map_eq_cons_iff.mp hqueue
      have hfirst := parsed_first P { s with fed := s.fed ++ chunk } hframes hframe hconnected
      obtain rfl := Except.ok.inj (hparsed.symm.trans hfirst)
      have heffects : s.effects ++ answer m = (b.handled ++ [m]).flatMap answer := by
        rw [List.flatMap_append, ← h.effects]
        simp
      rw [hround]
      refine ⟨rfl, rfl, heffects, fun hopen => ?_, ?_⟩
      · have hm : isClose m = false := by simpa using hopen
        refine ⟨heffects, ?_, ?_, hbytes, hrest, front ++ [frame], by simp [hlength], ?_⟩
        · change received messages (s.fed ++ chunk) = _
          rw [harrived, h.arrived, List.append_assoc, hnext, List.append_assoc]
          rfl
        · intro d hd
          rcases List.mem_append.mp hd with hd | hd
          · exact h.opened d hd
          · obtain rfl := List.mem_singleton.mp hd
            exact hm
        · intro data
          have hbehind : parser.behind front = { parser with completeFrames := frames }.behind (front ++ [frame]) := by
            simp [behind, hframes]
          rw [parse_append, hwhole, hbehind]
          rfl
      · rw [← h.effects] at hquiet
        cases m with
        | data opcode first others => exact lastClose_snoc hquiet _
        | control kind f =>
            cases kind with
            | ping | close => exact lastClose_snoc hquiet _
            | pong =>
                change LastClose (s.effects ++ [])
                rw [List.append_nil]
                exact lastClose_of_quiet hquiet

/-- While the reader waits, it tracks a consumer that has nothing left to do. -/
def Inv (P : Platform) (messages : List Message) (s : WebSocketReader) : Prop :=
  LastClose s.effects ∧ (s.waiting = true → ∃ b, Tracks P messages s b ∧ Settled b)

theorem Inv.dispatched (h : Inv P messages s) : Dispatched messages s := by
  refine ⟨fun hwaiting => ?_, h.1⟩
  obtain ⟨b, htracks, hsettled⟩ := h.2 hwaiting
  rw [htracks.effects, htracks.arrived]
  exact (effects_eq_iff htracks.opened).mpr hsettled

theorem Tracks.oneAnswered_iff (h : Tracks P messages s b) (hsettled : Settled b) {chunk : List UInt8}
    {arrived : List Message} (harrived : received messages (s.fed ++ chunk) = received messages s.fed ++ arrived) :
    OneAnswered messages s (.read chunk true) ↔ Settled (b.round arrived) := by
  have hqueue : s.parser.completeFrames.length = b.waiting.length := by
    simpa using congrArg List.length h.queue
  rw [OneAnswered, harrived, List.drop_left, hsettled.round_iff, hasFrame]
  cases hwaiting : b.waiting with
  | nil =>
      rw [hwaiting] at hqueue
      rw [List.eq_nil_of_length_eq_zero hqueue, if_pos rfl]
      rfl
  | cons w waiting =>
      rw [hwaiting] at hqueue
      rw [if_neg (List.cons_ne_nil w waiting)]
      cases hframes : s.parser.completeFrames with
      | nil =>
          rw [hframes] at hqueue
          cases hqueue
      | cons frame frames => rfl

theorem start_tracks (P : Platform) (messages : List Message) : Tracks P messages {} {} := by
  refine ⟨rfl, ?_, by simp, List.nil_prefix, rfl, [], rfl, fun _ => rfl⟩
  exact Backlog.completed_zero fun m _ => encode_length_pos m

theorem Step.waits {e : ReadEvent} (hstep : Step P messages s e t) (h : t.waiting = true) : s.waiting = true := by
  cases hstep with
  | read => assumption
  | readFails => cases h
  | closeByWrite => exact h

theorem start_inv (P : Platform) (messages : List Message) : Inv P messages {} :=
  ⟨lastClose_of_quiet List.not_mem_nil, fun _ => ⟨{}, start_tracks P messages, by simp, by simp⟩⟩

/-- A step keeps what holds of every run when one message in a read is all that calls for anything. -/
theorem step_inv {e : ReadEvent} (hinv : Inv P messages s) (hguard : OneAnswered messages s e)
    (hstep : Step P messages s e t) : Inv P messages t := by
  cases hstep with
  | readFails hwaiting => exact ⟨hinv.1, fun h => by cases h⟩
  | closeByWrite =>
      refine ⟨hinv.1, fun hwaiting => ?_⟩
      obtain ⟨b, htracks, hsettled⟩ := hinv.2 hwaiting
      refine ⟨b, ?_, hsettled⟩
      exact ⟨htracks.effects, htracks.arrived, htracks.opened, htracks.bytes, htracks.queue, htracks.parser⟩
  | read chunk ok parser t silent hwaiting hconnected hsize hbytes hparse hparsed =>
      obtain ⟨b, htracks, hsettled⟩ := hinv.2 hwaiting
      obtain ⟨arrived, harrived⟩ := Backlog.completed_grows Message.encode messages s.fed chunk
      obtain ⟨hfed, hwaits, heffects, hnext, hclosed⟩ := htracks.parsed hconnected hbytes harrived hparse hparsed
      refine ⟨loopHead_lastClose silent (fun hopen => ?_) hclosed, fun hgoes => ?_⟩
      · rw [heffects]
        exact quiet_answers (hnext hopen).opened
      · obtain ⟨hsame, hopen⟩ := loopHead_waiting hgoes
        rw [hgoes] at hguard
        rw [hsame]
        exact ⟨_, hnext hopen, (htracks.oneAnswered_iff hsettled harrived).mp hguard⟩

theorem step_guarded {e : ReadEvent} (hinv : Inv P messages s) (hstep : Step P messages s e t)
    (hdispatched : Dispatched messages t) : OneAnswered messages s e := by
  cases hstep with
  | readFails => trivial
  | closeByWrite => trivial
  | read chunk ok parser t silent hwaiting hconnected hsize hbytes hparse hparsed =>
      cases hgoes : (t.loopHead silent).waiting with
      | false => trivial
      | true =>
          obtain ⟨b, htracks, hsettled⟩ := hinv.2 hwaiting
          obtain ⟨arrived, harrived⟩ := Backlog.completed_grows Message.encode messages s.fed chunk
          obtain ⟨-, -, heffects, hnext, -⟩ := htracks.parsed hconnected hbytes harrived hparse hparsed
          obtain ⟨hsame, hopen⟩ := loopHead_waiting hgoes
          rw [htracks.oneAnswered_iff hsettled harrived]
          have hdone := hdispatched.effects hgoes
          rw [hsame, heffects, (hnext hopen).arrived] at hdone
          exact (effects_eq_iff (hnext hopen).opened).mp hdone

/-- `DoRead` has done what the messages that have come call for, whenever it waits,
exactly where one message in a read is all that calls for anything, and no ping has
a payload. -/
theorem doRead_dispatches_iff (P : Platform) (messages : List Message) (trace : List ReadEvent) (s : WebSocketReader) :
    Run (Guarded (OneAnswered messages) (Step P messages)) {} trace s ↔
      Run (Within (Dispatched messages) (Step P messages)) {} trace s := by
  refine run_guarded_iff_within (start_inv P messages) (fun _ hinv => hinv.dispatched) ?_ ?_ trace s
  · intro s e t hinv hguard hstep
    exact step_inv hinv hguard hstep
  · intro s e t hinv hstep hdispatched
    exact step_guarded hinv hstep hdispatched

/-- Two text messages in one read: the second is not passed on. -/
theorem doRead_leaves_message : ¬ ∀ (P : Platform) (messages : List Message) (trace : List ReadEvent)
    (s : WebSocketReader), Run (Step P messages) {} trace s → Dispatched messages s := by
  intro h
  let m : Message := .data .text ⟨[65], none, .seven, by simp [LengthForm.Fits]⟩ []
  have hbytes : ([] : List UInt8) ++ [m, m].flatMap Message.encode <+: [m, m].flatMap Message.encode := List.prefix_rfl
  obtain ⟨q, hq, hcomplete⟩ := parse_received ⟨.little, true⟩ [m, m] hbytes
  have hreceived : received [m, m] ([m, m].flatMap Message.encode) = [m, m] := by
    simp [received, Backlog.completed]
  rw [List.nil_append, hreceived] at hcomplete
  obtain ⟨frame, frames, hframes, hframe, -⟩ := List.map_eq_cons_iff.mp hcomplete
  have hread : Step ⟨.little, true⟩ [m, m] {} _ _ := .read _ _ true q _ false rfl rfl (by decide) hbytes hq
    (parsed_first ⟨.little, true⟩ _ hframes hframe rfl)
  have hdone := (h _ _ _ _ (.single hread)).effects rfl
  change [ReadEffect.onRecv [65]] = effectsOf (received [m, m] ([m, m].flatMap Message.encode)) at hdone
  rw [hreceived] at hdone
  cases hdone

end

end WebSocketReader

end Libcold
