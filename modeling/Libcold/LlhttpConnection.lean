import Libcold.HttpSpelling
import Mathlib.Data.Finset.Insert

namespace Libcold

open HttpCommon

/-- The tokens of a `Connection` field that llhttp has flags for. -/
inductive ConnectionToken
  | keepAlive
  | close
  | upgrade
  deriving DecidableEq

namespace ConnectionToken

def first : ConnectionToken → UInt8
  | keepAlive => 107
  | close => 99
  | upgrade => 117

/-- What llhttp matches behind the first letter. -/
def blob : ConnectionToken → List UInt8
  | keepAlive => [101, 101, 112, 45, 97, 108, 105, 118, 101]
  | close => [108, 111, 115, 101]
  | upgrade => [112, 103, 114, 97, 100, 101]

def text (w : ConnectionToken) : List UInt8 := w.first :: w.blob

end ConnectionToken

/-- `header_state`: general, of a field that names the connection, or with a token read. -/
inductive HeaderState
  | general
  | connection
  | pending (w : ConnectionToken)

inductive ConnectionState
  | connection
  | matching (w : ConnectionToken) (index : Nat)
  | ws
  | token
  deriving DecidableEq

structure LlhttpConnection where
  state : ConnectionState := .connection
  headerState : HeaderState := .connection
  flags : Finset ConnectionToken

namespace LlhttpConnection

def orFlags (r : LlhttpConnection) : LlhttpConnection :=
  match r.headerState with
  | .pending w => { r with flags := insert w r.flags, headerState := .connection }
  | _ => r

def onToken (r : LlhttpConnection) (c : UInt8) : LlhttpConnection :=
  if c = 44 then { r with state := .connection } else { r with state := .token }

/-- A byte of the value. Those that end a value are not among its bytes. -/
def step (r : LlhttpConnection) (c : UInt8) : LlhttpConnection :=
  match r.state with
  | .connection =>
      if c = 9 ∨ c = 32 then r
      else if toLower c = ConnectionToken.close.first then { r with state := .matching .close 0 }
      else if toLower c = ConnectionToken.keepAlive.first then { r with state := .matching .keepAlive 0 }
      else if toLower c = ConnectionToken.upgrade.first then { r with state := .matching .upgrade 0 }
      else r.onToken c
  | .matching w index =>
      if w.blob[index]? = some (toLower c) then
        if index + 1 = w.blob.length then { r with state := .ws, headerState := .pending w }
        else { r with state := .matching w (index + 1) }
      else r.onToken c
  | .ws =>
      if c = 32 then r
      else if c = 44 then { r.orFlags with state := .connection }
      else onToken { r with headerState := .general } c
  | .token => r.onToken c

/-- The flags behind a field with this value. -/
def readValue (flags : Finset ConnectionToken) (value : List UInt8) : Finset ConnectionToken :=
  (value.foldl step { flags }).orFlags.flags

end LlhttpConnection

/-- The text is the rest of a token in any case, with spaces behind it. -/
def Completes (rest t : List UInt8) : Prop :=
  ∃ spelled n, t = spelled ++ List.replicate n 32 ∧ spelled.map toLower = rest

/-- The token stands in this part of a list. -/
def Names (w : ConnectionToken) (s : List UInt8) : Prop := Completes w.text (s.dropWhile fun c => c = 9 ∨ c = 32)

/-- The value is a list with the token in it. -/
def Lists (w : ConnectionToken) (value : List UInt8) : Prop := ∃ s ∈ value.splitOn 44, Names w s

section Completes

variable {c a : UInt8} {rest t : List UInt8}

theorem completes_nil : Completes rest [] ↔ rest = [] := by
  constructor
  · rintro ⟨spelled, n, heq, rfl⟩
    obtain ⟨rfl, -⟩ := List.append_eq_nil_iff.mp heq.symm
    rfl
  · rintro rfl
    exact ⟨[], 0, rfl, rfl⟩

theorem completes_spaces : Completes [] (c :: t) ↔ c = 32 ∧ Completes [] t := by
  constructor
  · rintro ⟨spelled, n, heq, hnil⟩
    obtain rfl := List.map_eq_nil_iff.mp hnil
    cases n with
    | zero => cases heq
    | succ n =>
        obtain ⟨rfl, rfl⟩ := List.cons.inj heq
        exact ⟨rfl, [], n, rfl, rfl⟩
  · rintro ⟨rfl, spelled, n, rfl, hnil⟩
    obtain rfl := List.map_eq_nil_iff.mp hnil
    exact ⟨[], n + 1, rfl, rfl⟩

theorem completes_cons : Completes (a :: rest) (c :: t) ↔ toLower c = a ∧ Completes rest t := by
  constructor
  · rintro ⟨spelled, n, heq, hmap⟩
    cases spelled with
    | nil => cases hmap
    | cons b spelled =>
        obtain ⟨rfl, rfl⟩ := List.cons.inj heq
        obtain ⟨rfl, rfl⟩ := List.cons.inj hmap
        exact ⟨rfl, spelled, n, rfl, rfl⟩
  · rintro ⟨rfl, spelled, n, rfl, rfl⟩
    exact ⟨c :: spelled, n, rfl, rfl⟩

end Completes

namespace LlhttpConnection

variable {r : LlhttpConnection} {flags : Finset ConnectionToken} {w : ConnectionToken} {s : List UInt8}

/-- A token has been read, and nothing but spaces behind it. -/
structure Pending (r : LlhttpConnection) (w : ConnectionToken) : Prop where
  state : r.state = .ws
  headerState : r.headerState = .pending w

structure Idle (r : LlhttpConnection) : Prop where
  state : r.state ≠ .ws
  headerState : ∀ w, r.headerState ≠ .pending w

/-- Where the bytes up to a comma lead to: the flags are still those before, and the
token with the property is pending. -/
structure Outcome (r : LlhttpConnection) (flags : Finset ConnectionToken) (property : ConnectionToken → Prop) : Prop where
  flags : r.flags = flags
  pending : ∀ w, r.Pending w ↔ property w
  idle : r.Idle ∨ ∃ w, r.Pending w

theorem Idle.not_pending (h : r.Idle) (w : ConnectionToken) : ¬ r.Pending w := fun hpending => h.state hpending.state

theorem Idle.orFlags (h : r.Idle) : r.orFlags = r := by
  rw [LlhttpConnection.orFlags]
  cases hheader : r.headerState with
  | general | connection => rfl
  | pending w => exact absurd hheader (h.headerState w)

theorem Idle.outcome (h : r.Idle) {property : ConnectionToken → Prop} (hnone : ∀ w, ¬ property w) :
    r.Outcome r.flags property :=
  ⟨rfl, fun w => iff_of_false (h.not_pending w) (hnone w), .inl h⟩

theorem Pending.eq_iff (h : r.Pending w) (w' : ConnectionToken) : r.Pending w' ↔ w' = w := by
  constructor
  · intro h'
    have heq := h'.headerState.symm.trans h.headerState
    cases heq
    rfl
  · rintro rfl
    exact h

theorem foldl_token (hstate : r.state = .token) (hcomma : 44 ∉ s) : s.foldl step r = r := by
  induction s with
  | nil => rfl
  | cons c s ih =>
      simp only [List.mem_cons, not_or] at hcomma
      have hstep : r.step c = r := by
        obtain ⟨state, headerState, flags⟩ := r
        subst hstate
        simp [step, onToken, Ne.symm hcomma.1]
      rw [List.foldl_cons, hstep, ih hcomma.2]

theorem onToken_eq {c : UInt8} (hc : c ≠ 44) : r.onToken c = { r with state := .token } := if_neg hc

theorem outcome_token (hidle : r.Idle) {c : UInt8} (hstep : r.step c = r.onToken c) (hcomma : 44 ∉ c :: s)
    {property : ConnectionToken → Prop} (hnone : ∀ w, ¬ property w) :
    ((c :: s).foldl step r).Outcome r.flags property := by
  simp only [List.mem_cons, not_or] at hcomma
  have hskipping : Idle { r with state := .token } := ⟨by simp, hidle.headerState⟩
  rw [List.foldl_cons, hstep, onToken_eq (Ne.symm hcomma.1), foldl_token rfl hcomma.2]
  exact hskipping.outcome hnone

theorem outcome_ws (h : r.Pending w) (hcomma : 44 ∉ s) :
    (s.foldl step r).Outcome r.flags fun w' => w' = w ∧ Completes [] s := by
  induction s with
  | nil =>
      refine ⟨rfl, fun w' => ?_, .inr ⟨w, h⟩⟩
      rw [List.foldl_nil, h.eq_iff, and_iff_left (completes_nil.mpr rfl)]
  | cons c s ih =>
      simp only [List.mem_cons, not_or] at hcomma
      rw [List.foldl_cons]
      by_cases hc : c = 32
      · subst c
        have hstep : r.step 32 = r := by simp [step, h.state]
        simpa [hstep, completes_spaces] using ih hcomma.2
      · have hstep : r.step c = { r with headerState := .general, state := .token } := by
          simp [step, h.state, hc, Ne.symm hcomma.1, onToken]
        rw [hstep, foldl_token rfl hcomma.2]
        refine Idle.outcome ⟨by simp, by simp⟩ fun w' hw' => hc ?_
        exact (completes_spaces.mp hw'.2).1

theorem outcome_matching {index : Nat} (hstate : r.state = .matching w index) (hidle : r.Idle)
    (hindex : index < w.blob.length) (hcomma : 44 ∉ s) :
    (s.foldl step r).Outcome r.flags fun w' => w' = w ∧ Completes (w.blob.drop index) s := by
  induction s generalizing r index with
  | nil =>
      refine hidle.outcome fun w' hw' => ?_
      rw [completes_nil, List.drop_eq_nil_iff] at hw'
      omega
  | cons c s ih =>
      rw [List.drop_eq_getElem_cons hindex]
      simp only [completes_cons]
      by_cases hmatch : toLower c = w.blob[index]
      · simp only [hmatch, true_and]
        have hget : w.blob[index]? = some (toLower c) := by rw [hmatch, List.getElem?_eq_getElem hindex]
        simp only [List.mem_cons, not_or] at hcomma
        rw [List.foldl_cons]
        by_cases hlast : index + 1 = w.blob.length
        · have hstep : r.step c = { r with state := .ws, headerState := .pending w } := by
            simp [step, hstate, hget, hlast]
          rw [hstep, hlast, List.drop_length]
          exact outcome_ws ⟨rfl, rfl⟩ hcomma.2
        · have hstep : r.step c = { r with state := .matching w (index + 1) } := by
            simp [step, hstate, hget, hlast]
          rw [hstep]
          exact ih rfl ⟨by simp, hidle.headerState⟩ (by omega) hcomma.2
      · have hget : w.blob[index]? ≠ some (toLower c) := by
          rw [List.getElem?_eq_getElem hindex]
          exact fun heq => hmatch (Option.some.inj heq).symm
        refine outcome_token hidle (by simp [step, hstate, hget]) hcomma ?_
        exact fun w' hw' => hmatch hw'.2.1

/-- A part of the list makes the token pending that stands in it. -/
theorem outcome_connection (hstate : r.state = .connection) (hidle : r.Idle) (hcomma : 44 ∉ s) :
    (s.foldl step r).Outcome r.flags fun w => Names w s := by
  induction s with
  | nil =>
      refine hidle.outcome fun w hw => ?_
      cases completes_nil.mp hw
  | cons c s ih =>
      by_cases hblank : c = 9 ∨ c = 32
      · simp only [List.mem_cons, not_or] at hcomma
        have hstep : r.step c = r := by simp [step, hstate, hblank]
        simpa [hstep, Names, hblank] using ih hcomma.2
      · have hnames (w : ConnectionToken) : Names w (c :: s) ↔ toLower c = w.first ∧ Completes w.blob s := by
          rw [Names, List.dropWhile_cons_of_neg (by simpa using hblank), ConnectionToken.text, completes_cons]
        simp only [hnames]
        by_cases hletter : ∃ w : ConnectionToken, toLower c = w.first
        · obtain ⟨w, hw⟩ := hletter
          have hstep : r.step c = { r with state := .matching w 0 } := by
            cases w <;> simp [step, hstate, hblank, hw, ConnectionToken.first]
          have hfirst (w' : ConnectionToken) : toLower c = w'.first ∧ Completes w'.blob s ↔ w' = w ∧ Completes w.blob s := by
            rw [hw]
            cases w <;> cases w' <;> simp [ConnectionToken.first]
          simp only [List.mem_cons, not_or] at hcomma
          simp only [hfirst, List.foldl_cons, hstep]
          have hmatching : Idle { r with state := .matching w 0 } := ⟨by simp, hidle.headerState⟩
          have hindex : 0 < w.blob.length := by cases w <;> decide
          exact outcome_matching rfl hmatching hindex hcomma.2
        · simp only [not_exists] at hletter
          refine outcome_token hidle ?_ hcomma fun w hw => hletter w hw.1
          simp [step, hstate, hblank, hletter]

theorem Outcome.mem_orFlags {property : ConnectionToken → Prop} (h : r.Outcome flags property) (w : ConnectionToken) :
    w ∈ r.orFlags.flags ↔ w ∈ flags ∨ property w := by
  rw [← h.flags, ← h.pending w, or_comm]
  rcases h.idle with hidle | ⟨w', hpending⟩
  · rw [hidle.orFlags, or_iff_right (hidle.not_pending w)]
  · rw [hpending.eq_iff, orFlags, hpending.headerState]
    exact Finset.mem_insert

theorem Outcome.comma {property : ConnectionToken → Prop} (h : r.Outcome flags property) :
    (r.step 44).state = .connection ∧ (r.step 44).Idle ∧ (r.step 44).flags = r.orFlags.flags := by
  rcases h.idle with hidle | ⟨w, hpending⟩
  · have hstep : r.step 44 = { r with state := .connection } := by
      cases hstate : r.state with
      | connection => simp [step, hstate, onToken, show toLower 44 = 44 from rfl, ConnectionToken.first]
      | matching w index =>
          have hnone : w.blob[index]? ≠ some 44 := by
            intro hsome
            have hmem := List.mem_of_getElem? hsome
            revert hmem
            cases w <;> decide
          simp [step, hstate, onToken, show toLower 44 = 44 from rfl, hnone]
      | ws => exact absurd hstate hidle.state
      | token => simp [step, hstate, onToken]
    rw [hstep, hidle.orFlags]
    exact ⟨rfl, ⟨by simp, hidle.headerState⟩, rfl⟩
  · have hstep : r.step 44 = { r.orFlags with state := .connection } := by simp [step, hpending.state]
    rw [hstep]
    exact ⟨rfl, ⟨by simp, by simp [orFlags, hpending.headerState]⟩, rfl⟩

/-- Reading a value enters the flags of the tokens in its list. -/
theorem foldl_orFlags (hstate : r.state = .connection) (hidle : r.Idle) (value : List UInt8) (w : ConnectionToken) :
    w ∈ (value.foldl step r).orFlags.flags ↔ w ∈ r.flags ∨ Lists w value := by
  induction hn : value.length using Nat.strong_induction_on generalizing r value with
  | h n ih =>
      by_cases hcomma : 44 ∈ value
      · obtain ⟨s, later, rfl, hs⟩ := List.eq_append_cons_of_mem hcomma
        have houtcome := outcome_connection hstate hidle hs
        obtain ⟨hstate', hidle', hflags⟩ := houtcome.comma
        rw [List.length_append, List.length_cons] at hn
        rw [List.foldl_append, List.foldl_cons, ih later.length (by omega) hstate' hidle' later rfl, hflags,
          houtcome.mem_orFlags, or_assoc, Lists, Lists, List.splitOn_append_cons_of_beq s later (beq_self_eq_true _),
          List.splitOn_eq_singleton hs]
        simp
      · rw [(outcome_connection hstate hidle hcomma).mem_orFlags, Lists, List.splitOn_eq_singleton hcomma]
        simp

theorem mem_readValue (flags : Finset ConnectionToken) (value : List UInt8) (w : ConnectionToken) :
    w ∈ readValue flags value ↔ w ∈ flags ∨ Lists w value :=
  foldl_orFlags rfl ⟨by simp, by simp⟩ value w

end LlhttpConnection

end Libcold
