import Libcold.RpcCodec
import Libcold.Runs

namespace Libcold

open ByteOrder Runs

/-- The read buffer of a codec, and the view that `ParseMessage` has returned and
nobody has taken yet. -/
structure CodecReader where
  readBuf : List UInt8 := []
  message : Option MessageView := none

inductive CodecCall
  | parseMessage (chunk : List UInt8)
  | takeMessage

namespace CodecReader

open RpcCodec

/-- The calls that return; a vector can not grow beyond the size of an object. -/
inductive Step (P : Platform) : CodecReader → CodecCall → CodecReader → Prop
  | parsed (s chunk readBuf message) (hroom : (s.readBuf ++ chunk).length ≤ maxSize)
      (hparse : parseMessage P s.readBuf chunk = (readBuf, true, message)) :
      Step P s (.parseMessage chunk) ⟨readBuf, some message⟩
  | short (s chunk readBuf message) (hroom : (s.readBuf ++ chunk).length ≤ maxSize)
      (hparse : parseMessage P s.readBuf chunk = (readBuf, false, message)) :
      Step P s (.parseMessage chunk) ⟨readBuf, none⟩
  | taken (s message rest) (hmessage : s.message = some message) (htake : takeMessage P s.readBuf message = .ok rest) :
      Step P s .takeMessage ⟨rest, none⟩

/-- The view lies in the read buffer right behind the prefix, and taking it erases no
more than there is. -/
def Safe (P : Platform) (s : CodecReader) : Prop :=
  ∀ message, s.message = some message → message.offset = 8 ∧ message.offset + message.size ≤ s.readBuf.length ∧
    ∃ n, n ≤ s.readBuf.length ∧ takeMessage P s.readBuf message = .ok (s.readBuf.drop n)

/-- The eight bytes at the head of the buffer do not declare a length that wraps around
when the prefix is added. -/
def Guard (s : CodecReader) : CodecCall → Prop
  | .parseMessage chunk =>
      8 ≤ (s.readBuf ++ chunk).length → bigValue ((s.readBuf ++ chunk).take 8) + 8 < wordModulus
  | .takeMessage => True

variable {P : Platform} {s t : CodecReader} {call : CodecCall} {readBuf chunk : List UInt8} {message : MessageView}

theorem declared_eq (P : Platform) {buf : List UInt8} (h : 8 ≤ buf.length) :
    network64ToHost64 P (load P.hostOrder (buf.take 8)) = bigValue (buf.take 8) :=
  host64_load P _ (by rw [List.length_take, Nat.min_eq_left h])

/-- What a call that returns true has compared. -/
theorem of_parsed (h : parseMessage P s.readBuf chunk = (readBuf, true, message)) :
    readBuf = s.readBuf ++ chunk ∧ 8 ≤ readBuf.length ∧ message = ⟨8, bigValue (readBuf.take 8)⟩ ∧
      (message.size + 8) % wordModulus ≤ readBuf.length := by
  simp only [parseMessage] at h
  split_ifs at h with hshort hlong
  · cases h
  · cases h
  · cases h
    rw [declared_eq P (Nat.not_lt.mp hshort)] at hlong ⊢
    exact ⟨rfl, Nat.not_lt.mp hshort, rfl, Nat.not_lt.mp hlong⟩

theorem takeMessage_within (P : Platform) (hwrap : message.size + 8 < wordModulus)
    (hlength : message.size + 8 ≤ readBuf.length) :
    takeMessage P readBuf message = .ok (readBuf.drop (message.size + 8)) := by
  simp only [takeMessage, Nat.mod_eq_of_lt hwrap]
  rw [if_neg (by omega), if_neg (by omega)]

theorem start_safe (P : Platform) : Safe P {} := by
  intro message hnone
  cases hnone

theorem step_safe (hguard : s.Guard call) (hstep : Step P s call t) : Safe P t := by
  cases hstep with
  | parsed chunk readBuf message hroom hparse =>
      obtain ⟨rfl, height, rfl, hlength⟩ := of_parsed hparse
      have hwrap := hguard height
      rw [Nat.mod_eq_of_lt hwrap] at hlength
      intro message' hmessage
      obtain rfl := Option.some.inj hmessage
      exact ⟨rfl, by dsimp only; omega, _, hlength, takeMessage_within P hwrap hlength⟩
  | short | taken =>
      intro message' hnone
      cases hnone

/-- A length that wraps around is larger than any buffer. -/
theorem step_guarded (hstep : Step P s call t) (hsafe : Safe P t) : s.Guard call := by
  cases hstep with
  | parsed chunk readBuf message hroom hparse =>
      obtain ⟨rfl, height, rfl, hlength⟩ := of_parsed hparse
      obtain ⟨-, hwithin, -⟩ := hsafe _ rfl
      intro _
      have hsmall : maxSize + 8 < wordModulus := by decide
      dsimp only at hwithin
      omega
  | short chunk readBuf message hroom hparse =>
      intro height
      by_contra hwrap
      simp only [parseMessage, declared_eq P height] at hparse
      have hlt := bigValue_lt ((s.readBuf ++ chunk).take 8)
      rw [List.length_take, Nat.min_eq_left height] at hlt
      have hsmall : (bigValue ((s.readBuf ++ chunk).take 8) + 8) % wordModulus < 8 := by
        unfold wordModulus at hwrap ⊢
        omega
      rw [if_neg (by omega), if_neg (by omega)] at hparse
      cases hparse
  | taken => trivial

/-- The calls in which every view that is returned lies in the buffer are those in which
no declared length wraps around. -/
theorem lengths_safe_iff (P : Platform) (calls : List CodecCall) (s : CodecReader) :
    Run (Guarded Guard (Step P)) {} calls s ↔ Run (Within (Safe P) (Step P)) {} calls s :=
  run_guarded_iff_within (start_safe P) (fun _ h => h) (fun _ _ _ _ => step_safe)
    (fun _ _ _ _ => step_guarded) calls s

theorem declared_length_wraps :
    ¬ ∀ (P : Platform) (calls : List CodecCall) (s : CodecReader), Run (Step P) {} calls s → Safe P s := by
  intro h
  have hparse : parseMessage ⟨.little, false⟩ [] (List.replicate 8 255) =
      (List.replicate 8 255, true, ⟨8, 2 ^ 64 - 1⟩) := rfl
  have hrun := Run.single (Step.parsed {} (List.replicate 8 255) _ _ (by decide) hparse)
  obtain ⟨-, hwithin, -⟩ := h _ _ _ hrun _ rfl
  exact absurd hwithin (by decide)

end CodecReader

end Libcold
