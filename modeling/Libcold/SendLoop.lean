import Mathlib.Data.List.Basic
import Mathlib.Order.WellFounded
import Mathlib.Tactic.Common

namespace Libcold.SendLoop

/-- The bytes that the first calls accepted; a call that fails accepts none. -/
def accepted (result : Nat → Int) : Nat → Nat
  | 0 => 0
  | k + 1 => accepted result k + (result k).toNat

/-- What the calls on a buffer of n bytes return, each of them an error or a count that
is not above what it was asked for. -/
structure Answers (n : Nat) where
  result : Nat → Int
  bounded : ∀ k, accepted result k ≤ n

inductive LoopExit
  | condition
  | failed (ret : Int)

/-- The variables of a loop, with the ranges that it passed, each by its start and size. -/
structure LoopState where
  alreadySent : Nat := 0
  ranges : List (Nat × Nat) := []
  exit : Option LoopExit := none

variable {n : Nat}

/-- One round of a loop. The call is given all that is left from where the last one
ended; `sendfile` moves its offset itself. -/
def round (answers : Answers n) (guard : Nat → Bool) (s : LoopState) : LoopState :=
  match s.exit with
  | some _ => s
  | none =>
      if s.alreadySent < n ∧ guard s.ranges.length = true then
        let ret := answers.result s.ranges.length
        let ranges := s.ranges ++ [(s.alreadySent, n - s.alreadySent)]
        if ret < 0 then { s with ranges, exit := some (.failed ret) }
        else { s with ranges, alreadySent := s.alreadySent + ret.toNat }
      else { s with exit := some .condition }

def loop (answers : Answers n) (guard : Nat → Bool) : Nat → LoopState
  | 0 => {}
  | k + 1 => round answers guard (loop answers guard k)

def written (n : Nat) (s : LoopState) : Option Int :=
  match s.exit with
  | none => none
  | some .condition => some n
  | some (.failed ret) => some ret

def complete (n : Nat) (s : LoopState) : Option Bool := s.exit.map fun _ => s.alreadySent == n

/-- `TcpSocket::WriteN` after some rounds, and what it has returned by then. -/
def writeN (answers : Answers n) (k : Nat) : LoopState × Option Int :=
  let s := loop answers (fun _ => true) k
  (s, written n s)

def writeNWithTimeout (answers : Answers n) (k : Nat) : LoopState × Option Int :=
  let s := loop answers (fun _ => true) k
  (s, written n s)

/-- `StaticFileBody::Send`, which looks before each call whether the socket is connected. -/
def send (answers : Answers n) (isConnected : Nat → Bool) (k : Nat) : LoopState × Option Bool :=
  let s := loop answers isConnected k
  (s, complete n s)

/-- The ranges passed follow each other from the start of the data, full success is
reported when all bytes were accepted and only then, and the loop ends. -/
structure Progresses {Value : Type} (answers : Answers n) (full : Value) (run : Nat → LoopState × Option Value) :
    Prop where
  consecutive : ∀ k, (run k).1.ranges = (List.range (run k).1.ranges.length).map fun i =>
    (accepted answers.result i, n - accepted answers.result i)
  exact : ∀ k value, (run k).2 = some value →
    (value = full ↔ accepted answers.result (run k).1.ranges.length = n)
  terminates : ∃ k, (run k).2.isSome

/-- From some call on, with bytes left and no error before, every call returns zero. -/
def Stalls (answers : Answers n) (guard : Nat → Bool) : Prop :=
  ∃ first, accepted answers.result first < n ∧ (∀ k < first, 0 ≤ answers.result k) ∧
    (∀ k, first ≤ k → answers.result k = 0) ∧ ∀ k, guard k = true

variable {answers : Answers n} {guard : Nat → Bool}

theorem accepted_mono (result : Nat → Int) {i j : Nat} (h : i ≤ j) : accepted result i ≤ accepted result j := by
  induction h with
  | refl => exact Nat.le_refl _
  | step _ ih => exact Nat.le_trans ih (Nat.le_add_right _ _)

theorem accepted_zeros {result : Nat → Int} {first : Nat} (h : ∀ k, first ≤ k → result k = 0) (k : Nat) :
    accepted result k ≤ accepted result first := by
  rcases Nat.le_total k first with hle | hle
  · exact accepted_mono result hle
  · induction hle with
    | refl => exact Nat.le_refl _
    | step hle ih =>
        rw [accepted, h _ hle]
        exact ih

/-- Bytes that are accepted are never given back, so some call accepts the last of them. -/
theorem exists_last (answers : Answers n) : ∃ first, ∀ k, first ≤ k → (answers.result k).toNat = 0 := by
  obtain ⟨first, -, hmin⟩ := (measure fun k => n - accepted answers.result k).wf.has_min Set.univ ⟨0, trivial⟩
  refine ⟨first, fun k hk => ?_⟩
  have hnot := hmin (k + 1) trivial
  have hfirst := accepted_mono answers.result hk
  have hbounded := answers.bounded (k + 1)
  simp only [accepted] at hbounded
  have hle : n - accepted answers.result first ≤ n - accepted answers.result (k + 1) := Nat.not_lt.mp hnot
  simp only [accepted] at hle
  omega

/-- What a round can do: nothing once the loop has ended, end it by its condition, end it
by a call that fails, or go on. -/
theorem round_cases (answers : Answers n) (guard : Nat → Bool) (s : LoopState) :
    (s.exit ≠ none ∧ round answers guard s = s) ∨
    (s.exit = none ∧ ¬ (s.alreadySent < n ∧ guard s.ranges.length = true) ∧
      round answers guard s = { s with exit := some .condition }) ∨
    (s.exit = none ∧ s.alreadySent < n ∧ answers.result s.ranges.length < 0 ∧ round answers guard s =
      { s with ranges := s.ranges ++ [(s.alreadySent, n - s.alreadySent)],
               exit := some (.failed (answers.result s.ranges.length)) }) ∨
    (s.exit = none ∧ s.alreadySent < n ∧ guard s.ranges.length = true ∧ 0 ≤ answers.result s.ranges.length ∧
      round answers guard s =
        { s with ranges := s.ranges ++ [(s.alreadySent, n - s.alreadySent)],
                 alreadySent := s.alreadySent + (answers.result s.ranges.length).toNat }) := by
  cases hexit : s.exit with
  | some exit => exact .inl ⟨nofun, by simp only [round, hexit]⟩
  | none =>
      by_cases hgoes : s.alreadySent < n ∧ guard s.ranges.length = true
      · by_cases hret : answers.result s.ranges.length < 0
        · exact .inr (.inr (.inl ⟨rfl, hgoes.1, hret, by simp only [round, hexit, if_pos hgoes, if_pos hret]⟩))
        · exact .inr (.inr (.inr ⟨rfl, hgoes.1, hgoes.2, Int.not_lt.mp hret, by
            simp only [round, hexit, if_pos hgoes, if_neg hret]⟩))
      · exact .inr (.inl ⟨rfl, hgoes, by simp only [round, hexit, if_neg hgoes]⟩)

structure Tracked (answers : Answers n) (guard : Nat → Bool) (s : LoopState) : Prop where
  ranges : s.ranges = (List.range s.ranges.length).map fun i =>
    (accepted answers.result i, n - accepted answers.result i)
  sent : s.alreadySent = accepted answers.result s.ranges.length
  condition : s.exit = some .condition → ¬ (s.alreadySent < n ∧ guard s.ranges.length = true)
  failed : ∀ ret, s.exit = some (.failed ret) → ret < 0 ∧ s.alreadySent < n

theorem ranges_snoc {s : LoopState} (h : Tracked answers guard s) :
    s.ranges ++ [(s.alreadySent, n - s.alreadySent)] =
      (List.range (s.ranges ++ [(s.alreadySent, n - s.alreadySent)]).length).map fun i =>
        (accepted answers.result i, n - accepted answers.result i) := by
  rw [List.length_append, List.length_singleton, List.range_succ, List.map_append, ← h.ranges, h.sent]
  rfl

theorem round_tracked {s : LoopState} (h : Tracked answers guard s) : Tracked answers guard (round answers guard s) := by
  obtain ⟨-, heq⟩ | ⟨-, hends, heq⟩ | ⟨-, hleft, hret, heq⟩ | ⟨hexit, -, -, -, heq⟩ := round_cases answers guard s
  · rw [heq]
    exact h
  · rw [heq]
    exact ⟨h.ranges, h.sent, fun _ => hends, nofun⟩
  · rw [heq]
    refine ⟨ranges_snoc h, ?_, nofun, ?_⟩
    · rw [List.length_append, List.length_singleton, accepted, Int.toNat_of_nonpos (Int.le_of_lt hret)]
      exact h.sent
    · intro ret hfailed
      cases hfailed
      exact ⟨hret, hleft⟩
  · rw [heq]
    refine ⟨ranges_snoc h, ?_, fun hsome => ?_, fun ret hsome => ?_⟩
    · rw [List.length_append, List.length_singleton, accepted, ← h.sent]
    · rw [hexit] at hsome
      cases hsome
    · rw [hexit] at hsome
      cases hsome

theorem loop_tracked (answers : Answers n) (guard : Nat → Bool) (k : Nat) :
    Tracked answers guard (loop answers guard k) := by
  induction k with
  | zero => exact ⟨rfl, rfl, nofun, nofun⟩
  | succ k ih => exact round_tracked ih

def GoesOn (answers : Answers n) (guard : Nat → Bool) (k : Nat) : Prop :=
  accepted answers.result k < n ∧ guard k = true ∧ 0 ≤ answers.result k

/-- The loop is still going after some rounds when each of them made such a call. -/
theorem running_iff (answers : Answers n) (guard : Nat → Bool) (k : Nat) :
    (loop answers guard k).exit = none ↔ ∀ i < k, GoesOn answers guard i := by
  suffices hboth : ((loop answers guard k).exit = none → (loop answers guard k).ranges.length = k) ∧
      ((loop answers guard k).exit = none ↔ ∀ i < k, GoesOn answers guard i) from hboth.2
  induction k with
  | zero => exact ⟨fun _ => rfl, fun _ => by simp, fun _ => rfl⟩
  | succ k ih =>
      obtain ⟨hlength, hgoes⟩ := ih
      have hsent := (loop_tracked answers guard k).sent
      rw [loop, Nat.forall_lt_succ_right]
      obtain ⟨hended, heq⟩ | ⟨hexit, hends, heq⟩ | ⟨hexit, -, hret, heq⟩ | ⟨hexit, hleft, hguard, hret, heq⟩ :=
        round_cases answers guard (loop answers guard k)
      · rw [heq]
        exact ⟨fun hexit => absurd hexit hended, fun hexit => absurd hexit hended,
          fun h => absurd (hgoes.mpr h.1) hended⟩
      · rw [hsent, hlength hexit] at hends
        rw [heq]
        exact ⟨nofun, nofun, fun h => absurd ⟨h.2.1, h.2.2.1⟩ hends⟩
      · rw [hlength hexit] at hret
        rw [heq]
        exact ⟨nofun, nofun, fun h => absurd hret (Int.not_lt.mpr h.2.2.2)⟩
      · rw [hsent, hlength hexit] at hleft
        rw [hlength hexit] at hguard hret
        rw [heq]
        refine ⟨fun _ => ?_, fun _ => ⟨hgoes.mp hexit, hleft, hguard, hret⟩, fun _ => hexit⟩
        rw [List.length_append, List.length_singleton, hlength hexit]

theorem goesOn_of_stalls (h : Stalls answers guard) (k : Nat) : GoesOn answers guard k := by
  obtain ⟨first, hleft, hbefore, hzero, hguard⟩ := h
  refine ⟨Nat.lt_of_le_of_lt (accepted_zeros hzero k) hleft, hguard k, ?_⟩
  rcases Nat.lt_or_ge k first with hlt | hge
  · exact hbefore k hlt
  · exact (hzero k hge).ge

theorem stalls_of_goesOn (h : ∀ k, GoesOn answers guard k) : Stalls answers guard := by
  obtain ⟨first, hlast⟩ := exists_last answers
  refine ⟨first, (h first).1, fun k _ => (h k).2.2, fun k hk => ?_, fun k => (h k).2.1⟩
  have hnonneg := (h k).2.2
  have hzero := hlast k hk
  omega

theorem ends_iff (answers : Answers n) (guard : Nat → Bool) :
    (∃ k, (loop answers guard k).exit.isSome) ↔ ¬ Stalls answers guard := by
  constructor
  · rintro ⟨k, hsome⟩ hstalls
    rw [(running_iff answers guard k).mpr fun i _ => goesOn_of_stalls hstalls i] at hsome
    cases hsome
  · intro hstalls
    by_contra hnone
    refine hstalls (stalls_of_goesOn fun k => ?_)
    have hrunning : (loop answers guard (k + 1)).exit = none := by
      by_contra hsome
      exact hnone ⟨k + 1, Option.isSome_iff_ne_none.mpr hsome⟩
    exact (running_iff answers guard (k + 1)).mp hrunning k (Nat.lt_succ_self k)

theorem progresses_iff {Value : Type} {full : Value} {value : LoopState → Option Value}
    (hreturns : ∀ s, (value s).isSome = s.exit.isSome)
    (hexact : ∀ s v, Tracked answers guard s → value s = some v → (v = full ↔ s.alreadySent = n)) :
    Progresses answers full (fun k => (loop answers guard k, value (loop answers guard k))) ↔
      ¬ Stalls answers guard := by
  have hends := ends_iff answers guard
  constructor
  · rintro ⟨-, -, k, hsome⟩
    rw [hreturns] at hsome
    exact hends.mp ⟨k, hsome⟩
  · intro hstalls
    obtain ⟨k, hsome⟩ := hends.mpr hstalls
    refine ⟨fun k => (loop_tracked answers guard k).ranges, fun k v hv => ?_, k, by rw [hreturns]; exact hsome⟩
    rw [← (loop_tracked answers guard k).sent]
    exact hexact _ v (loop_tracked answers guard k) hv

theorem written_progresses_iff (answers : Answers n) :
    Progresses answers (n : Int) (writeN answers) ↔ ¬ Stalls answers fun _ => true := by
  refine progresses_iff (fun s => ?_) (fun s v h hv => ?_)
  · rw [written]
    split <;> rename_i hexit <;> rw [hexit] <;> rfl
  · rw [written] at hv
    have hbounded := answers.bounded s.ranges.length
    rw [← h.sent] at hbounded
    split at hv
    · cases hv
    next hexit =>
      cases hv
      have hends := h.condition hexit
      simp only [and_true] at hends
      exact ⟨fun _ => by omega, fun _ => rfl⟩
    next ret hexit =>
      have hvalue := Option.some.inj hv
      obtain ⟨hret, hleft⟩ := h.failed ret hexit
      exact ⟨fun heq => by omega, fun heq => by omega⟩

theorem send_progresses_iff (answers : Answers n) (isConnected : Nat → Bool) :
    Progresses answers true (send answers isConnected) ↔ ¬ Stalls answers isConnected := by
  refine progresses_iff (fun s => ?_) (fun s v h hv => ?_)
  · rw [complete, Option.isSome_map]
  · obtain ⟨exit, -, rfl⟩ := Option.map_eq_some_iff.mp hv
    exact beq_iff_eq

/-- A loop passes each byte once, reports what was accepted and ends, unless its calls
return zero from some call on. -/
theorem send_loops_progress_iff (answers : Answers n) (isConnected : Nat → Bool) :
    (Progresses answers (n : Int) (writeN answers) ↔ ¬ Stalls answers fun _ => true) ∧
      (Progresses answers (n : Int) (writeNWithTimeout answers) ↔ ¬ Stalls answers fun _ => true) ∧
      (Progresses answers true (send answers isConnected) ↔ ¬ Stalls answers isConnected) :=
  ⟨written_progresses_iff answers, written_progresses_iff answers, send_progresses_iff answers isConnected⟩

theorem zeros_never_end : ¬ ∀ (n : Nat) (answers : Answers n), Progresses answers (n : Int) (writeN answers) := by
  intro h
  have hzero (k : Nat) : accepted (fun _ => 0) k ≤ 1 := by
    have hnone : accepted (fun _ => 0) k ≤ accepted (fun _ => 0) 0 := accepted_zeros (fun _ _ => rfl) k
    exact Nat.le_trans hnone (Nat.zero_le 1)
  have hstalls : Stalls (⟨fun _ => 0, hzero⟩ : Answers 1) fun _ => true :=
    ⟨0, Nat.zero_lt_one, fun k hk => absurd hk (Nat.not_lt_zero k), fun _ _ => rfl, fun _ => rfl⟩
  exact (written_progresses_iff _).mp (h 1 ⟨_, hzero⟩) hstalls

end Libcold.SendLoop
