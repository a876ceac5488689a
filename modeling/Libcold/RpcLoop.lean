import Libcold.Backlog
import Libcold.RpcCodec

namespace Libcold

open Runs RpcCodec

/-- A serialized message that fits a read buffer with its size before it. -/
structure WireMessage where
  bytes : List UInt8
  fits : bytes.length + 8 < wordModulus

def WireMessage.frame (message : WireMessage) : List UInt8 := RpcChannel.frame message.bytes

inductive RpcHandling
  | doServerRpc (message : List UInt8)
  | doClientRpc (message : List UInt8)
  deriving DecidableEq

/-- A channel in `DoRpc`: whether it waits for input, what it has read and what it
has passed on. -/
structure RpcLoop where
  forServer : Bool
  connected : Bool := true
  waiting : Bool := true
  readBuf : List UInt8 := []
  fed : List UInt8 := []
  handled : List RpcHandling := []

inductive RpcLoopEvent
  | read (chunk : List UInt8) (goesOn : Bool)
  | other

namespace RpcLoop

def handling (forServer : Bool) (message : List UInt8) : RpcHandling :=
  if forServer then .doServerRpc message else .doClientRpc message

/-- `DoRpc` from one read to the next, on the frames of the messages. The socket
may be closed while a message is handled, or by a coroutine that sends. -/
inductive Step (P : Platform) (messages : List WireMessage) : RpcLoop → RpcLoopEvent → RpcLoop → Prop
  | readPart (s) (chunk readBuf view) (hwaiting : s.waiting = true) (hconnected : s.connected = true)
      (hsize : 0 < chunk.length ∧ chunk.length ≤ 65535)
      (hframes : s.fed ++ chunk <+: messages.flatMap WireMessage.frame)
      (hparse : parseMessage P s.readBuf chunk = (readBuf, false, view)) :
      Step P messages s (.read chunk true) { s with readBuf, fed := s.fed ++ chunk }
  | readMessage (s) (chunk readBuf view rest) (goesOn : Bool) (hwaiting : s.waiting = true)
      (hconnected : s.connected = true) (hsize : 0 < chunk.length ∧ chunk.length ≤ 65535)
      (hframes : s.fed ++ chunk <+: messages.flatMap WireMessage.frame)
      (hparse : parseMessage P s.readBuf chunk = (readBuf, true, view))
      (htake : takeMessage P readBuf view = .ok rest) :
      Step P messages s (.read chunk goesOn)
        { s with
          connected := goesOn
          waiting := goesOn
          readBuf := rest
          fed := s.fed ++ chunk
          handled := s.handled ++ [handling s.forServer (view.bytes readBuf)] }
  | readFails (s) (hwaiting : s.waiting = true) :
      Step P messages s .other { s with connected := false, waiting := false }
  | close (s) : Step P messages s .other { s with connected := false }

/-- The messages of which the whole frame has come. -/
def received (messages : List WireMessage) (bytes : List UInt8) : List WireMessage :=
  Backlog.completed WireMessage.frame messages bytes.length

/-- When the channel waits, every message that has come is passed on, once and in order. -/
def KeepsUp (messages : List WireMessage) (s : RpcLoop) : Prop :=
  s.waiting = true → s.handled = (received messages s.fed).map fun m => handling s.forServer m.bytes

/-- A read after which the channel waits again completes at most one frame. -/
def OneFrame (messages : List WireMessage) (s : RpcLoop) : RpcLoopEvent → Prop
  | .read chunk true => (received messages (s.fed ++ chunk)).length ≤ (received messages s.fed).length + 1
  | _ => True

/-- The channel as a consumer of messages. -/
structure Tracks (messages : List WireMessage) (s : RpcLoop) (b : Backlog WireMessage) : Prop where
  handled : s.handled = b.handled.map fun m => handling s.forServer m.bytes
  arrived : received messages s.fed = b.handled ++ b.waiting
  bytes : s.fed = b.handled.flatMap WireMessage.frame ++ s.readBuf
  frames : s.fed <+: messages.flatMap WireMessage.frame

section

variable {P : Platform} {messages : List WireMessage} {s t : RpcLoop} {b : Backlog WireMessage}

theorem start_tracks (forServer : Bool) : Tracks messages { forServer } {} where
  handled := rfl
  arrived := by
    refine Backlog.completed_zero fun message _ => ?_
    rw [WireMessage.frame, RpcChannel.frame_length]
    omega
  bytes := rfl
  frames := List.nil_prefix

/-- What the parser finds in its buffer is the first of the messages that wait. -/
theorem Tracks.parse (h : Tracks messages s b) {chunk : List UInt8} {arrived : List WireMessage}
    (hframes : s.fed ++ chunk <+: messages.flatMap WireMessage.frame)
    (harrived : received messages (s.fed ++ chunk) = received messages s.fed ++ arrived) :
    match b.waiting ++ arrived with
    | [] => parseMessage P s.readBuf chunk = (s.readBuf ++ chunk, false, {})
    | m :: _ => ∃ rest, s.readBuf ++ chunk = m.frame ++ rest ∧
        parseMessage P s.readBuf chunk = (m.frame ++ rest, true, ⟨8, m.bytes.length⟩) := by
  obtain ⟨done, later, part, hmessages, hfed, hend, hpart⟩ := Backlog.exists_split hframes
  have hdone : done = b.handled ++ (b.waiting ++ arrived) := by
    rw [← List.append_assoc, ← h.arrived, ← harrived]
    exact (Backlog.completed_eq hmessages hfed fun m ms heq => (hpart m ms heq).2).symm
  have hbuf : s.readBuf ++ chunk = (b.waiting ++ arrived).flatMap WireMessage.frame ++ part := by
    rw [h.bytes, hdone, List.flatMap_append, List.append_assoc, List.append_assoc] at hfed
    exact List.append_cancel_left hfed
  cases hwaiting : b.waiting ++ arrived with
  | nil =>
      rw [hwaiting, List.flatMap_nil, List.nil_append] at hbuf
      cases later with
      | nil =>
          rw [hend rfl] at hbuf
          simp [parseMessage, hbuf]
      | cons m ms =>
          obtain ⟨⟨tail, htail⟩, hshort⟩ := hpart m ms rfl
          rw [WireMessage.frame, RpcChannel.frame_length] at hshort
          refine parseMessage_short P _ _ m.bytes tail [] m.fits ?_ (by rw [hbuf]; exact hshort)
          rw [hbuf, htail, List.append_nil]
          rfl
  | cons m ms =>
      rw [hwaiting, List.flatMap_cons, List.append_assoc] at hbuf
      exact ⟨_, hbuf, parseMessage_frame P _ _ m.bytes _ m.fits hbuf⟩

/-- A read is a round of the consumer. -/
theorem Tracks.read (h : Tracks messages s b) {chunk : List UInt8} {goesOn : Bool}
    (hstep : Step P messages s (.read chunk goesOn) t) :
    ∃ arrived, received messages t.fed = received messages s.fed ++ arrived ∧ t.fed = s.fed ++ chunk ∧
      t.waiting = goesOn ∧ Tracks messages t (b.round arrived) := by
  obtain ⟨arrived, harrived⟩ : ∃ arrived, received messages (s.fed ++ chunk) = received messages s.fed ++ arrived :=
    Backlog.completed_grows WireMessage.frame messages s.fed chunk
  have hreceived : received messages (s.fed ++ chunk) = (b.round arrived).handled ++ (b.round arrived).waiting := by
    rw [Backlog.round_conserves, harrived, h.arrived]
  have hbytes := h.bytes
  cases hstep with
  | readPart _ readBuf view hwaiting hconnected hsize hframes hparse =>
      have hfound := h.parse (P := P) hframes harrived
      cases hnext : b.waiting ++ arrived with
      | nil =>
          rw [hnext, hparse] at hfound
          obtain ⟨rfl, -⟩ := Prod.mk.inj hfound
          have hround : b.round arrived = b := by rw [Backlog.round, hnext]
          refine ⟨arrived, harrived, rfl, hwaiting, ?_, hreceived, ?_, hframes⟩
          · rw [hround]
            exact h.handled
          · rw [hround, hbytes, List.append_assoc]
      | cons m later =>
          rw [hnext, hparse] at hfound
          obtain ⟨_, -, heq⟩ := hfound
          cases heq
  | readMessage _ readBuf view rest goesOn hwaiting hconnected hsize hframes hparse htake =>
      have hfound := h.parse (P := P) hframes harrived
      cases hnext : b.waiting ++ arrived with
      | nil =>
          rw [hnext, hparse] at hfound
          cases hfound
      | cons m later =>
          rw [hnext, hparse] at hfound
          obtain ⟨left, hbuf, heq⟩ := hfound
          obtain ⟨rfl, hview⟩ := Prod.mk.inj heq
          obtain ⟨-, rfl⟩ := Prod.mk.inj hview
          obtain rfl : left = rest := Except.ok.inj ((takeMessage_frame P m.bytes left m.fits).symm.trans htake)
          have hround : (b.round arrived).handled = b.handled ++ [m] := by rw [Backlog.round, hnext]
          refine ⟨arrived, harrived, rfl, rfl, ?_, hreceived, ?_, hframes⟩
          · rw [hround, List.map_append, ← h.handled]
            simp only [WireMessage.frame, bytes_frame, List.map_cons, List.map_nil]
          · simp only [hround, List.flatMap_append, List.flatMap_cons, List.flatMap_nil, List.append_nil]
            rw [List.append_assoc, ← hbuf, hbytes, List.append_assoc]

/-- A channel that waits has passed on all messages. -/
def Drained (messages : List WireMessage) (s : RpcLoop) : Prop :=
  s.waiting = true → ∃ b, Tracks messages s b ∧ b.waiting = []

theorem Drained.keepsUp (h : Drained messages s) : KeepsUp messages s := by
  intro hwaiting
  obtain ⟨b, htracks, hempty⟩ := h hwaiting
  rw [htracks.handled, htracks.arrived, hempty, List.append_nil]

theorem Step.waits {e : RpcLoopEvent} (hstep : Step P messages s e t) (h : t.waiting = true) : s.waiting = true := by
  cases hstep with
  | readPart => exact h
  | readMessage => assumption
  | readFails => cases h
  | close => exact h

theorem OneFrame.iff_round {chunk : List UInt8} {arrived : List WireMessage} (hfed : t.fed = s.fed ++ chunk)
    (h : received messages t.fed = received messages s.fed ++ arrived) :
    OneFrame messages s (.read chunk true) ↔ arrived.length ≤ 1 := by
  rw [OneFrame, ← hfed, h, List.length_append]
  omega

theorem step_drained {e : RpcLoopEvent} (hdrained : Drained messages s) (hguard : OneFrame messages s e)
    (hstep : Step P messages s e t) : Drained messages t := by
  intro hwaiting
  obtain ⟨b, htracks, hempty⟩ := hdrained (hstep.waits hwaiting)
  cases e with
  | read chunk goesOn =>
      obtain ⟨arrived, harrived, hfed, hgoes, hnext⟩ := htracks.read hstep
      obtain rfl : goesOn = true := hgoes.symm.trans hwaiting
      exact ⟨_, hnext, (Backlog.round_keeps_up_iff hempty arrived).mpr ((OneFrame.iff_round hfed harrived).mp hguard)⟩
  | other =>
      refine ⟨b, ?_, hempty⟩
      cases hstep with
      | readFails => cases hwaiting
      | close => exact ⟨htracks.handled, htracks.arrived, htracks.bytes, htracks.frames⟩

theorem step_guarded {e : RpcLoopEvent} (hdrained : Drained messages s) (hstep : Step P messages s e t)
    (hkeeps : KeepsUp messages t) : OneFrame messages s e := by
  cases e with
  | other => trivial
  | read chunk goesOn =>
      cases goesOn with
      | false => trivial
      | true =>
          have hwaits : s.waiting = true := by
            cases hstep with
            | readPart => assumption
            | readMessage => assumption
          obtain ⟨b, htracks, hempty⟩ := hdrained hwaits
          obtain ⟨arrived, harrived, hfed, hgoes, hnext⟩ := htracks.read hstep
          have hlength := congrArg List.length (hkeeps hgoes)
          rw [hnext.handled, hnext.arrived, List.length_map, List.length_map, List.length_append] at hlength
          have hleft : (b.round arrived).waiting = [] := List.eq_nil_of_length_eq_zero (by omega)
          exact (OneFrame.iff_round hfed harrived).mpr ((Backlog.round_keeps_up_iff hempty arrived).mp hleft)

/-- The channel passes on every message that has come before it waits again exactly
where no read leaves it waiting that completes two frames or more. -/
theorem doRpc_keeps_up_iff (P : Platform) (messages : List WireMessage) (forServer : Bool) (trace : List RpcLoopEvent)
    (s : RpcLoop) :
    Run (Guarded (OneFrame messages) (Step P messages)) { forServer } trace s ↔
      Run (Within (KeepsUp messages) (Step P messages)) { forServer } trace s := by
  refine run_guarded_iff_within (fun _ => ⟨{}, start_tracks forServer, rfl⟩)
    (fun _ (hdrained : Drained messages _) => hdrained.keepsUp) ?_ ?_ trace s
  · intro s e t hdrained hguard hstep
    exact step_drained hdrained hguard hstep
  · intro s e t hdrained hstep hkeeps
    exact step_guarded hdrained hstep hkeeps

/-- Two frames in one read: the second waits for the next one. -/
theorem doRpc_leaves_message : ¬ ∀ (P : Platform) (messages : List WireMessage) (forServer : Bool)
    (trace : List RpcLoopEvent) (s : RpcLoop), Run (Step P messages) { forServer } trace s → KeepsUp messages s := by
  intro h
  have hfits : ([7] : List UInt8).length + 8 < wordModulus := by decide
  have hrun : Run (Step ⟨.little, true⟩ [⟨[7], hfits⟩, ⟨[7], hfits⟩]) { forServer := true }
      [.read (RpcChannel.frame [7] ++ RpcChannel.frame [7]) true]
      ⟨true, true, true, RpcChannel.frame [7], RpcChannel.frame [7] ++ RpcChannel.frame [7], [.doServerRpc [7]]⟩ :=
    .single (.readMessage _ _ _ _ _ true rfl rfl (by decide) List.prefix_rfl
      (parseMessage_frame _ [] _ [7] _ hfits rfl) (takeMessage_frame _ [7] _ hfits))
  have hlength := congrArg List.length (h _ _ _ _ _ hrun rfl)
  have hreceived : received [⟨[7], hfits⟩, ⟨[7], hfits⟩] (RpcChannel.frame [7] ++ RpcChannel.frame [7]) =
      [⟨[7], hfits⟩, ⟨[7], hfits⟩] := by
    simp [received, Backlog.completed, WireMessage.frame, RpcChannel.frame]
  rw [hreceived] at hlength
  cases hlength

end

end RpcLoop

end Libcold
