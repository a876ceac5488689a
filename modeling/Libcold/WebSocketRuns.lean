import Libcold.Runs
import Libcold.WebSocketChunks

namespace Libcold

open ByteOrder Runs WebSocketParser

/-- A parser between two parse steps, with the frames that it has read so far. -/
structure WebSocketRun where
  parser : WebSocketParser := {}
  running : Bool := false
  passed : List WireFrame := []

inductive ParseEvent
  | insert (chunk : List UInt8)
  | frame
  | returned (ok : Bool)

namespace WebSocketRun

/-- A call inserts its bytes and makes parse steps until one of them reads no frame.
A vector can not grow beyond the size of an object. -/
inductive Step (P : Platform) : WebSocketRun → ParseEvent → WebSocketRun → Prop
  | insert (s chunk) (hidle : s.running = false) (hroom : (s.parser.buffer ++ chunk).length ≤ maxSize) :
      Step P s (.insert chunk) { s with parser := s.parser.feed chunk, running := true }
  | frame (s w rest p) (hrunning : s.running = true) (hscan : scan P s.parser.buffer = .full w rest)
      (hparse : s.parser.doParse P = .ok (.kSuccess, p)) :
      Step P s .frame { s with parser := p, passed := s.passed ++ [w] }
  | returned (s state p) (hrunning : s.running = true) (hparse : s.parser.doParse P = .ok (state, p))
      (hlast : state ≠ .kSuccess) :
      Step P s (.returned (state != .kError)) { s with parser := p, running := false }

variable {P : Platform} {s t : WebSocketRun} {event : ParseEvent}

theorem scan_of_success {p p' : WebSocketParser} (h : p.doParse P = .ok (.kSuccess, p')) :
    ∃ w rest, scan P p.buffer = .full w rest := by
  rw [doParse_eq] at h
  cases hs : scan P p.buffer with
  | full w rest => exact ⟨w, rest, rfl⟩
  | short | reserved | incomplete | tooLong => rw [hs] at h; cases h

theorem doParse_buffer_le {p p' : WebSocketParser} {state : ParseState} (h : p.doParse P = .ok (state, p')) :
    p'.buffer.length ≤ p.buffer.length := by
  cases state with
  | kSuccess => exact Nat.le_of_lt (doParse_success_length h)
  | kError | kNeedMore =>
      rw [doParse_eq] at h
      cases hs : scan P p.buffer with
      | full w rest =>
          rw [hs] at h
          cases finishFrame_state h
      | short | reserved | incomplete | tooLong =>
          rw [hs] at h
          cases h <;> exact Nat.le_refl _

theorem run_of_parseLoop {p p' : WebSocketParser} {state : ParseState} (h : p.parseLoop P = .ok (state, p'))
    (passed : List WireFrame) :
    ∃ frames passed', Run (Step P) ⟨p, true, passed⟩ (List.replicate frames .frame ++ [.returned (state != .kError)])
      ⟨p', false, passed'⟩ := by
  fun_induction p.parseLoop P generalizing passed with
  | case1 p q hq ih =>
      obtain ⟨w, rest, hscan⟩ := scan_of_success hq
      obtain ⟨frames, passed', hrun⟩ := ih h (passed ++ [w])
      have hstep := Run.single (Step.frame ⟨p, true, passed⟩ w rest q rfl hscan hq)
      exact ⟨frames + 1, passed', hstep.append hrun⟩
  | case2 p state' q hne hq =>
      cases h
      exact ⟨0, passed, Run.single (Step.returned ⟨p, true, passed⟩ state p' rfl hq hne)⟩
  | case3 p e he => cases h

/-- A call that returns is the insertion of its bytes, a run of the frames it reads, and
its result. -/
theorem run_of_parse {p p' : WebSocketParser} {chunk : List UInt8} {ok : Bool}
    (hroom : (p.buffer ++ chunk).length ≤ maxSize) (h : p.parse P chunk = .ok (ok, p')) (passed : List WireFrame) :
    ∃ frames passed', Run (Step P) ⟨p, false, passed⟩ (.insert chunk :: (List.replicate frames .frame ++ [.returned ok]))
      ⟨p', false, passed'⟩ := by
  rw [parse_eq] at h
  cases hloop : (p.feed chunk).parseLoop P with
  | error e => rw [hloop] at h; cases h
  | ok r =>
      rw [hloop] at h
      cases h
      obtain ⟨frames, passed', hrun⟩ := run_of_parseLoop hloop passed
      have hstep : Run (Step P) ⟨p, false, passed⟩ [.insert chunk] ⟨p.feed chunk, true, passed⟩ :=
        Run.single (Step.insert ⟨p, false, passed⟩ chunk rfl hroom)
      exact ⟨frames, passed', hstep.append hrun⟩

/-- The payload length behind the two bytes that every frame has, in network order. -/
def payloadLength (len7 : Nat) (body : List UInt8) : Nat :=
  if moreOf len7 = 0 then len7 else bigValue (body.take (moreOf len7))

/-- The length that a complete header at the head of the buffer declares for its frame,
as a number without bound. -/
def declaredLength : List UInt8 → Option Nat
  | b :: b' :: body =>
      let len7 := (b' &&& 0x7f).toNat
      let head := maskLen (b' &&& 0x80 != 0) + moreOf len7
      if reservedOpcode (b &&& 0x0f) then none
      else if body.length < head then none
      else some (2 + head + payloadLength len7 body)
  | _ => none

/-- A parse step that gets past the size checks reads the masking key and the payload,
and may throw an exception there. -/
def goesOn : Except Failure (ParseState × WebSocketParser) → Bool
  | .ok (.kSuccess, _) | .error _ => true
  | .ok (.kError, _) | .ok (.kNeedMore, _) => false

def scanGoesOn : Scan → Bool
  | .tooLong | .full _ _ => true
  | .short | .reserved _ _ | .incomplete _ _ _ _ => false

def LengthSafe (P : Platform) (s : WebSocketRun) : Prop :=
  s.running = true → goesOn (s.parser.doParse P) = true →
    ∀ n, declaredLength s.parser.buffer = some n → n ≤ s.parser.buffer.length

def NoWrap (s : WebSocketRun) : Prop :=
  s.running = true → ∀ n, declaredLength s.parser.buffer = some n → n < wordModulus

theorem extendedLen_eq (P : Platform) {more : Nat} {bytes : List UInt8} (h : bytes.length = more)
    (hmore : more = 2 ∨ more = 8) : extendedLen P more bytes = bigValue bytes := by
  rcases hmore with rfl | rfl
  · simp [extendedLen, host16_load P bytes h]
  · simp [extendedLen, host64_load P bytes h]

theorem payloadLength_eq (P : Platform) {len7 : Nat} {body : List UInt8} (h : moreOf len7 ≤ body.length) :
    (if moreOf len7 = 0 then len7 else extendedLen P (moreOf len7) (body.take (moreOf len7))) =
      payloadLength len7 body := by
  have hmore := moreOf_cases len7
  rw [payloadLength]
  split_ifs with hzero
  · rfl
  · exact extendedLen_eq P (by rw [List.length_take]; omega) (by omega)

theorem goesOn_resume (P : Platform) (p : WebSocketParser) (s : Scan) :
    goesOn (p.resume P s) = scanGoesOn s := by
  cases s with
  | short | reserved | incomplete | tooLong => rfl
  | full w rest =>
      simp only [resume]
      cases h : finishFrame P { p with buffer := rest } p.openFrame.1 (receive p.openFrame.2 w) with
      | error e => rfl
      | ok r =>
          obtain ⟨state, p'⟩ := r
          obtain rfl : state = .kSuccess := finishFrame_state h
          rfl

theorem goesOn_scanBody (P : Platform) (fin : Bool) (opcode : UInt8) (mask : Bool) {len7 : Nat} {body : List UInt8}
    (h : maskLen mask + moreOf len7 ≤ body.length) :
    scanGoesOn (scanBody P fin opcode mask len7 body) = true ↔
      wordModulus ≤ 2 + (maskLen mask + moreOf len7) + payloadLength len7 body ∨
        2 + (maskLen mask + moreOf len7) + payloadLength len7 body ≤ body.length + 2 := by
  have hsum : 2 + maskLen mask + moreOf len7 + payloadLength len7 body =
      2 + (maskLen mask + moreOf len7) + payloadLength len7 body := by omega
  simp only [scanBody, payloadLength_eq P (Nat.le_trans (Nat.le_add_left _ _) h), if_neg (Nat.not_lt.mpr h), hsum]
  by_cases hwrap : wordModulus ≤ 2 + (maskLen mask + moreOf len7) + payloadLength len7 body
  · rw [if_pos hwrap]
    exact ⟨fun _ => .inl hwrap, fun _ => rfl⟩
  · rw [if_neg hwrap]
    by_cases hmissing : body.length < maskLen mask + moreOf len7 + payloadLength len7 body
    · rw [if_pos hmissing]
      refine ⟨fun hfalse => absurd hfalse Bool.false_ne_true, fun hor => ?_⟩
      omega
    · rw [if_neg hmissing]
      refine ⟨fun _ => .inr (by omega), fun _ => ?_⟩
      split_ifs <;> rfl

/-- Once the header is complete, a step goes on if its sum wraps around or the frame
is in the buffer. -/
theorem goesOn_iff (P : Platform) {p : WebSocketParser} {n : Nat} (h : declaredLength p.buffer = some n) :
    goesOn (p.doParse P) = true ↔ wordModulus ≤ n ∨ n ≤ p.buffer.length := by
  rw [doParse_eq]
  match hb : p.buffer with
  | [] | [b] => rw [hb] at h; cases h
  | b :: b' :: body =>
      rw [hb] at h
      simp only [declaredLength] at h
      split_ifs at h with hopcode hshort
      obtain rfl := Option.some.inj h
      simp only [goesOn_resume, scan, if_neg hopcode]
      exact goesOn_scanBody P _ _ _ (Nat.not_lt.mp hshort)

def Roomy (s : WebSocketRun) : Prop := s.parser.buffer.length ≤ maxSize

theorem noWrap_iff_lengthSafe (P : Platform) (hroom : s.Roomy) :
    s.NoWrap ↔ s.LengthSafe P := by
  have hmax : maxSize < wordModulus := by decide
  rw [Roomy] at hroom
  constructor
  · intro h hrunning hgoes n hn
    have hlt := h hrunning n hn
    rcases (goesOn_iff P hn).mp hgoes with hwrap | hle
    · omega
    · exact hle
  · intro h hrunning n hn
    by_contra hwrap
    have hle := h hrunning ((goesOn_iff P hn).mpr (.inl (Nat.not_lt.mp hwrap))) n hn
    omega

theorem step_roomy (hstep : Step P s event t) (h : s.Roomy) : t.Roomy := by
  cases hstep with
  | insert chunk hidle hroom => exact hroom
  | frame w rest p hrunning hscan hparse | returned state p hrunning hparse =>
      exact Nat.le_trans (doParse_buffer_le hparse) h

/-- The runs in which every frame that is read lies in the buffer are those in which no
length wraps around when the header is added to it. -/
theorem lengths_within_buffer_iff (P : Platform) (events : List ParseEvent) (s : WebSocketRun) :
    Run (Within NoWrap (Step P)) {} events s ↔ Run (Within (LengthSafe P) (Step P)) {} events s :=
  run_within_iff (show Roomy {} from Nat.zero_le _) (fun _ _ _ hroom _ hstep => step_roomy hstep hroom)
    (fun _ => noWrap_iff_lengthSafe P) events s

/-- The header of a frame without a mask that declares the greatest length. -/
theorem greatest_length_wraps :
    ¬ ∀ (P : Platform) (events : List ParseEvent) (s : WebSocketRun), Run (Step P) {} events s → LengthSafe P s := by
  intro h
  have hle := h ⟨.little, false⟩ _ _
    (Run.single (Step.insert {} (0x82 :: 0x7f :: List.replicate 8 0xff) rfl (by decide))) rfl (by decide) _ rfl
  exact absurd hle (by decide)

end WebSocketRun

end Libcold
