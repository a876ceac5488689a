import Libcold.RpcChannel

namespace Libcold

open ByteOrder

/-- A `std::string_view` of bytes in the read buffer. -/
structure MessageView where
  offset : Nat := 0
  size : Nat := 0

def MessageView.bytes (view : MessageView) (buf : List UInt8) : List UInt8 := (buf.drop view.offset).take view.size

/-- What `writeBuf_` holds. -/
def WriteBuffer.contents (buf : WriteBuffer) : List UInt8 := buf.storage.take buf.size

/-- What has come in from the peer: the read buffer of the codec, all bytes fed
to it and the messages taken out of it. -/
structure RpcReader where
  readBuf : List UInt8 := []
  fed : List UInt8 := []
  messages : List (List UInt8) := []

namespace RpcCodec

/-- `RpcCodec::ParseMessage`, on a read buffer; the sum wraps around. -/
def parseMessage (P : Platform) (readBuf chunk : List UInt8) : List UInt8 × Bool × MessageView :=
  let readBuf := readBuf ++ chunk
  if readBuf.length < 8 then (readBuf, false, {})
  else
    let messageSize := network64ToHost64 P (load P.hostOrder (readBuf.take 8))
    if readBuf.length < (messageSize + 8) % wordModulus then (readBuf, false, {})
    else (readBuf, true, ⟨8, messageSize⟩)

/-- `RpcCodec::TakeMessage`; erasing beyond the end is undefined. -/
def takeMessage (P : Platform) (readBuf : List UInt8) (message : MessageView) : Except Failure (List UInt8) :=
  if P.ndebug = false ∧ readBuf.length < message.size then .error .assertion
  else
    let size := (message.size + 8) % wordModulus
    if readBuf.length < size then .error .danglingPointer else .ok (readBuf.drop size)

/-- One chunk is parsed, and then the empty one for as long as there is a message
to take. Gives the last state and all those on the way, or nothing when the fuel
runs out or a call fails. -/
def receive (P : Platform) : Nat → RpcReader → List UInt8 → Option (RpcReader × List RpcReader)
  | 0, _, _ => none
  | fuel + 1, r, chunk =>
      match parseMessage P r.readBuf chunk with
      | (readBuf, false, _) =>
          let r := { r with readBuf, fed := r.fed ++ chunk }
          some (r, [r])
      | (readBuf, true, message) =>
          match takeMessage P readBuf message with
          | .error _ => none
          | .ok rest =>
              let r := ⟨rest, r.fed ++ chunk, r.messages ++ [message.bytes readBuf]⟩
              (receive P fuel r []).map fun (last, passed) => (last, r :: passed)

def receiveAll (P : Platform) (fuel : Nat) : RpcReader → List (List UInt8) → Option (RpcReader × List RpcReader)
  | r, [] => some (r, [])
  | r, chunk :: chunks =>
      match receive P fuel r chunk with
      | none => none
      | some (r, passed) => (receiveAll P fuel r chunks).map fun (last, later) => (last, passed ++ later)

/-- What one codec writes for messages that follow each other; growing its buffer
leaves room for the spare bytes beside each message. -/
def writeMessages (P : Platform) : WriteBuffer → List (List UInt8 × List UInt8) → List UInt8
  | _, [] => []
  | buf, (message, spare) :: rest =>
      (writeMessageToBuffer P buf message spare).contents ++
        writeMessages P (writeMessageToBuffer P buf message spare) rest

/-- The buffer holds the bytes that were fed and not yet consumed. -/
def Aligned (r : RpcReader) : Prop := r.fed = r.messages.flatMap RpcChannel.frame ++ r.readBuf

theorem contents_write (P : Platform) (buf : WriteBuffer) (message spare : List UInt8) :
    (writeMessageToBuffer P buf message spare).contents = RpcChannel.frame message := by
  rw [← RpcChannel.serialized_eq P message]
  simp only [writeMessageToBuffer, WriteBuffer.contents]
  split <;> simp

theorem writeMessages_eq (P : Platform) (buf : WriteBuffer) (messages : List (List UInt8 × List UInt8)) :
    writeMessages P buf messages = (messages.map Prod.fst).flatMap RpcChannel.frame := by
  induction messages generalizing buf with
  | nil => rfl
  | cons message rest ih => simp [writeMessages, contents_write, ih]

/-- The size that stands before a message is read back. -/
theorem load_frame (P : Platform) (message rest : List UInt8) (hsize : message.length + 8 < wordModulus) :
    network64ToHost64 P (load P.hostOrder ((RpcChannel.frame message ++ rest).take 8)) = message.length := by
  have htake : (RpcChannel.frame message ++ rest).take 8 = bigBytes 8 message.length := by
    simp [RpcChannel.frame]
  rw [htake]
  calc network64ToHost64 P (load P.hostOrder (bigBytes 8 message.length))
      = bigValue (bigBytes 8 message.length) := host64_load P _ (by simp)
    _ = message.length := bigValue_bigBytes 8 _ (by unfold wordModulus at hsize; omega)

theorem parseMessage_frame (P : Platform) (readBuf chunk message rest : List UInt8)
    (hsize : message.length + 8 < wordModulus) (hbuf : readBuf ++ chunk = RpcChannel.frame message ++ rest) :
    parseMessage P readBuf chunk = (RpcChannel.frame message ++ rest, true, ⟨8, message.length⟩) := by
  have hlength : (RpcChannel.frame message ++ rest).length = message.length + 8 + rest.length := by
    simp [RpcChannel.frame]; omega
  simp only [parseMessage, hbuf, load_frame P message rest hsize, Nat.mod_eq_of_lt hsize, hlength]
  rw [if_neg (by omega), if_neg (by omega)]

theorem parseMessage_short (P : Platform) (readBuf chunk message later rest : List UInt8)
    (hsize : message.length + 8 < wordModulus) (hbuf : readBuf ++ chunk ++ later = RpcChannel.frame message ++ rest)
    (hshort : (readBuf ++ chunk).length < message.length + 8) :
    parseMessage P readBuf chunk = (readBuf ++ chunk, false, {}) := by
  by_cases h8 : (readBuf ++ chunk).length < 8
  · simp only [parseMessage, if_pos h8]
  · have htake : (readBuf ++ chunk).take 8 = (RpcChannel.frame message ++ rest).take 8 := by
      rw [← hbuf, List.take_append_of_le_length (Nat.le_of_not_lt h8)]
    simp only [parseMessage, if_neg h8, htake, load_frame P message rest hsize, Nat.mod_eq_of_lt hsize, if_pos hshort]

theorem takeMessage_frame (P : Platform) (message rest : List UInt8) (hsize : message.length + 8 < wordModulus) :
    takeMessage P (RpcChannel.frame message ++ rest) ⟨8, message.length⟩ = .ok rest := by
  have hlength : (RpcChannel.frame message).length = message.length + 8 := by
    simp [RpcChannel.frame]; omega
  simp only [takeMessage, Nat.mod_eq_of_lt hsize, List.length_append, hlength]
  rw [if_neg (by omega), if_neg (by omega), List.drop_append_of_le_length (by omega),
    List.drop_of_length_le (by omega), List.nil_append]

theorem bytes_frame (message rest : List UInt8) :
    MessageView.bytes ⟨8, message.length⟩ (RpcChannel.frame message ++ rest) = message := by
  simp [MessageView.bytes, RpcChannel.frame]

/-- The buffer does not hold the whole frame of the next message. -/
def Drained (r : RpcReader) (pending : List (List UInt8)) : Prop :=
  ∀ message rest, pending = message :: rest → r.readBuf.length < message.length + 8

/-- Where a reader stands in the frames of the messages that are still to come. -/
structure Awaits (r : RpcReader) (pending : List (List UInt8)) (later : List UInt8) : Prop where
  aligned : Aligned r
  bytes : r.readBuf ++ later = pending.flatMap RpcChannel.frame
  drained : Drained r pending

theorem receive_frames (P : Platform) (pending : List (List UInt8))
    (hsize : ∀ message ∈ pending, message.length < 2 ^ 31) (fuel : Nat) (hfuel : pending.length < fuel)
    (r : RpcReader) (chunk later : List UInt8) (haligned : Aligned r)
    (hbytes : r.readBuf ++ chunk ++ later = pending.flatMap RpcChannel.frame) :
    ∃ last passed taken left, receive P fuel r chunk = some (last, passed) ∧ pending = taken ++ left ∧
      last.messages = r.messages ++ taken ∧ Awaits last left later ∧ ∀ q ∈ passed, Aligned q := by
  induction pending generalizing fuel r chunk with
  | nil =>
      obtain ⟨fuel, rfl⟩ := Nat.exists_eq_add_of_lt hfuel
      simp only [List.flatMap_nil, List.append_eq_nil_iff] at hbytes
      obtain ⟨⟨hbuf, rfl⟩, rfl⟩ := hbytes
      have hparse : parseMessage P r.readBuf [] = ([], false, {}) := by simp [parseMessage, hbuf]
      have hquiet : Aligned { r with readBuf := [], fed := r.fed ++ [] } := by
        simpa [Aligned, hbuf] using haligned
      refine ⟨{ r with readBuf := [], fed := r.fed ++ [] }, _, [], [], by simp only [receive, hparse]; rfl, rfl,
        by simp, ⟨hquiet, by simp, by simp [Drained]⟩, ?_⟩
      intro q hq
      obtain rfl := List.mem_singleton.mp hq
      exact hquiet
  | cons message pending ih =>
      obtain ⟨fuel, rfl⟩ : ∃ n, fuel = n + 1 := ⟨fuel - 1, by simp only [List.length_cons] at hfuel; omega⟩
      have hmessage : message.length + 8 < wordModulus := by
        have hlt := hsize message (by simp)
        unfold wordModulus
        omega
      rw [List.flatMap_cons] at hbytes
      by_cases hshort : (r.readBuf ++ chunk).length < message.length + 8
      · have hparse := parseMessage_short P r.readBuf chunk message later _ hmessage hbytes hshort
        have hquiet : Aligned { r with readBuf := r.readBuf ++ chunk, fed := r.fed ++ chunk } := by
          simp only [Aligned] at haligned ⊢
          rw [haligned, List.append_assoc]
        refine ⟨{ r with readBuf := r.readBuf ++ chunk, fed := r.fed ++ chunk }, _, [], message :: pending,
          by simp only [receive, hparse]; rfl, rfl, by simp, ⟨hquiet, hbytes, ?_⟩, ?_⟩
        · rintro m rest ⟨rfl, rfl⟩
          exact hshort
        · intro q hq
          obtain rfl := List.mem_singleton.mp hq
          exact hquiet
      · obtain ⟨rest, hbuf, hrest⟩ : ∃ rest, r.readBuf ++ chunk = RpcChannel.frame message ++ rest ∧
            rest ++ later = pending.flatMap RpcChannel.frame := by
          rcases List.append_eq_append_iff.mp hbytes with ⟨rest, hframe, hlater⟩ | ⟨rest, hbuf, hpending⟩
          · have hlength := congrArg List.length hframe
            rw [RpcChannel.frame_length, List.length_append] at hlength
            obtain rfl : rest = [] := List.eq_nil_of_length_eq_zero (by omega)
            exact ⟨[], by simpa using hframe.symm, by simpa using hlater⟩
          · exact ⟨rest, hbuf, hpending.symm⟩
        have hparse := parseMessage_frame P r.readBuf chunk message rest hmessage hbuf
        have htake := takeMessage_frame P message rest hmessage
        have hnext : Aligned ⟨rest, r.fed ++ chunk, r.messages ++ [message]⟩ := by
          simp only [Aligned] at haligned ⊢
          rw [haligned, List.append_assoc, hbuf]
          simp
        obtain ⟨last, passed, taken, left, hlast, rfl, hmessages, hawaits, hpassed⟩ :=
          ih (fun m hm => hsize m (by simp [hm])) fuel (by simp only [List.length_cons] at hfuel; omega)
            ⟨rest, r.fed ++ chunk, r.messages ++ [message]⟩ [] hnext (by simpa using hrest)
        refine ⟨last, ⟨rest, r.fed ++ chunk, r.messages ++ [message]⟩ :: passed, message :: taken, left, ?_, rfl,
          by simp [hmessages], hawaits, ?_⟩
        · simp only [receive, hparse, htake, bytes_frame, hlast, Option.map_some]
        · rintro q (_ | ⟨_, hq⟩)
          · exact hnext
          · exact hpassed q hq

theorem receiveAll_frames (P : Platform) (chunks : List (List UInt8)) (pending : List (List UInt8))
    (hsize : ∀ message ∈ pending, message.length < 2 ^ 31) (fuel : Nat) (hfuel : pending.length < fuel) (r : RpcReader)
    (hawaits : Awaits r pending chunks.flatten) :
    ∃ last passed, receiveAll P fuel r chunks = some (last, passed) ∧ last.messages = r.messages ++ pending ∧
      last.readBuf = [] ∧ ∀ q ∈ passed, Aligned q := by
  induction chunks generalizing r pending with
  | nil =>
      obtain ⟨haligned, hbytes, hdrained⟩ := hawaits
      cases pending with
      | nil => exact ⟨r, [], rfl, by simp, by simpa using hbytes, by simp⟩
      | cons message pending =>
          have hlength := congrArg List.length hbytes
          have hshort := hdrained message pending rfl
          simp only [List.flatten_nil, List.append_nil, List.flatMap_cons, List.length_append,
            RpcChannel.frame_length] at hlength
          omega
  | cons chunk chunks ih =>
      obtain ⟨mid, passed, taken, left, hmid, rfl, hmessages, hnext, hpassed⟩ :=
        receive_frames P pending hsize fuel hfuel r chunk chunks.flatten hawaits.aligned
          (by simpa using hawaits.bytes)
      obtain ⟨last, later, hlast, hall, hempty, hlater⟩ :=
        ih left (fun m hm => hsize m (by simp [hm])) (by simp only [List.length_append] at hfuel; omega) mid hnext
      refine ⟨last, passed ++ later, by simp only [receiveAll, hmid, hlast, Option.map_some], ?_, hempty, ?_⟩
      · rw [hall, hmessages, List.append_assoc]
      · intro q hq
        rcases List.mem_append.mp hq with hq | hq
        · exact hpassed q hq
        · exact hlater q hq

/-- Messages come out of the chunks as they went in. -/
theorem framing_round_trip (P : Platform) (buf : WriteBuffer) (messages : List (List UInt8 × List UInt8))
    (chunks : List (List UInt8)) (hsize : ∀ message ∈ messages, message.1.length < 2 ^ 31)
    (hcut : chunks.flatten = writeMessages P buf messages) (fuel : Nat) (hfuel : messages.length < fuel) :
    ∃ last passed, receiveAll P fuel {} chunks = some (last, passed) ∧ last.messages = messages.map Prod.fst ∧
      last.readBuf = [] ∧ ∀ q ∈ passed, Aligned q := by
  have hawaits : Awaits {} (messages.map Prod.fst) chunks.flatten := by
    refine ⟨rfl, ?_, ?_⟩
    · rw [hcut, writeMessages_eq, List.nil_append]
    · intro message rest _
      exact Nat.succ_pos _
  have hsizes : ∀ message ∈ messages.map Prod.fst, message.length < 2 ^ 31 := by
    intro message hmessage
    obtain ⟨m, hm, rfl⟩ := List.mem_map.mp hmessage
    exact hsize m hm
  obtain ⟨last, passed, hlast, hmessages, hempty, hpassed⟩ :=
    receiveAll_frames P chunks _ hsizes fuel (by simpa using hfuel) {} hawaits
  exact ⟨last, passed, hlast, by simpa using hmessages, hempty, hpassed⟩

theorem framing_round_trip_two : ∃ last passed,
    receiveAll ⟨.little, false⟩ 3 {} [[0, 0, 0], [0, 0, 0, 0, 1, 65, 0, 0, 0, 0, 0, 0, 0], [0]] = some (last, passed) ∧
      last.messages = [[65], []] ∧ last.readBuf = [] ∧ ∀ q ∈ passed, Aligned q :=
  framing_round_trip ⟨.little, false⟩ {} [([65], [7]), ([], [])]
    [[0, 0, 0], [0, 0, 0, 0, 1, 65, 0, 0, 0, 0, 0, 0, 0], [0]] (by decide) (by decide) 3 (by decide)

end RpcCodec

end Libcold
