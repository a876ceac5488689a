import Libcold.AsyncMutex

namespace Libcold.AsyncMutex

open Runs

variable {Coro : Type}

/-- How far a coroutine has come with taking the mutex and giving it up. -/
inductive MutexStage
  | free
  | entering
  | queued
  | holding
  | leaving
  deriving DecidableEq

def stageOf : MutexPc → Bool → Option MutexStage
  | .running, false => some .free
  | .running, true => some .holding
  | .awaitSuspend _, false | .locking _ _, false => some .entering
  | .waiting _, false => some .queued
  | .unlocking _, true | .exchanging, true | .resuming, true => some .leaving
  | _, _ => none

def stage (s : AsyncMutex Coro) (c : Coro) : Option MutexStage :=
  stageOf (s.pc c) (s.owns c)

/-- What becomes of a stage while a lock or an unlock that has begun goes on. -/
inductive MutexStage.Next : MutexStage → MutexStage → Prop
  | stay (stage : MutexStage) : Next stage stage
  | suspended : Next .entering .queued
  | acquired : Next .entering .holding
  | served : Next .queued .holding
  | released : Next .leaving .free

/-- The step begins nothing: whoever is at neither a lock nor an unlock stays there. -/
def Continues (s s' : AsyncMutex Coro) : Prop :=
  ∀ c, s.pc c = .running → s'.pc c = .running ∧ s'.owns c = s.owns c

/-- What one step does to one coroutine. -/
inductive Moves : MutexPc → Bool → MutexPc → Bool → Prop
  | stay (pc : MutexPc) (owns : Bool) : Moves pc owns pc owns
  | lock (op : Nat) (owns : Bool) : Moves .running owns (.awaitSuspend op) owns
  | load (op oldState : Nat) (owns : Bool) : Moves (.awaitSuspend op) owns (.locking op oldState) owns
  | reload (op oldState state : Nat) (owns : Bool) : Moves (.locking op oldState) owns (.locking op state) owns
  | acquire (op oldState : Nat) (owns : Bool) : Moves (.locking op oldState) owns .running true
  | enqueue (op oldState : Nat) (owns : Bool) : Moves (.locking op oldState) owns (.waiting op) owns
  | tryLock (owns : Bool) : Moves .running owns .running true
  | unlock (oldState : Nat) (owns : Bool) : Moves .running owns (.unlocking oldState) owns
  | hasWaiters (oldState : Nat) (owns : Bool) : Moves (.unlocking oldState) owns .resuming owns
  | release (oldState : Nat) (owns : Bool) : Moves (.unlocking oldState) owns .running false
  | noRelease (oldState : Nat) (owns : Bool) : Moves (.unlocking oldState) owns .exchanging owns
  | exchange (owns : Bool) : Moves .exchanging owns .resuming owns
  | hand (owns : Bool) : Moves .resuming owns .running false
  | served (op : Nat) (owns : Bool) : Moves (.waiting op) owns .running true
  | abort (pc : MutexPc) (owns owns' : Bool) : Moves pc owns .aborted owns'

section Moves

variable [DecidableEq Coro] {s s' : AsyncMutex Coro} {e : MutexEvent Coro}

theorem moves_of_setPc {c : Coro} {pc : MutexPc} (hmoves : Moves (s.pc c) (s.owns c) pc (s.owns c))
    (hpc : s'.pc = (s.setPc c pc).pc) (howns : s'.owns = s.owns) (d : Coro) :
    Moves (s.pc d) (s.owns d) (s'.pc d) (s'.owns d) := by
  rw [hpc, howns]
  by_cases hdc : d = c
  · rw [hdc, setPc_self]
    exact hmoves
  · rw [setPc_other s hdc]
    exact .stay _ _

theorem moves_of_setOwns {c : Coro} {pc : MutexPc} {owns : Bool} (hmoves : Moves (s.pc c) (s.owns c) pc owns)
    (hpc : s'.pc = (s.setPc c pc).pc) (howns : s'.owns = (s.setOwns c owns).owns) (d : Coro) :
    Moves (s.pc d) (s.owns d) (s'.pc d) (s'.owns d) := by
  rw [hpc, howns]
  by_cases hdc : d = c
  · have hself : (s.setOwns c owns).owns c = owns := Function.update_self _ _ _
    rw [hdc, setPc_self, hself]
    exact hmoves
  · have hother : (s.setOwns c owns).owns d = s.owns d := Function.update_of_ne hdc _ _
    rw [setPc_other s hdc, hother]
    exact .stay _ _

theorem moves_of_pop {c : Coro} (hpc : s.pc c = .resuming) :
    ∀ d, Moves (s.pc d) (s.owns d) ((s.pop c).pc d) ((s.pop c).owns d) :=
  moves_of_setOwns (hpc ▸ .hand _) rfl rfl

theorem moves_of_resume {c d : Coro} {op : Nat} (hpc : s.pc c = .resuming) (b : Coro) :
    Moves (s.pc b) (s.owns b) (((s.pop c).resumeAwaiter op d).pc b) (((s.pop c).resumeAwaiter op d).owns b) := by
  by_cases hwait : (s.pop c).pc d = .waiting op
  · rw [resumeAwaiter_of_waiting hwait]
    by_cases hbd : b = d
    · have hdc : d ≠ c := by
        rintro rfl
        rw [show (s.pop d).pc d = .running from setPc_self s d _] at hwait
        cases hwait
      have hpcd : s.pc d = .waiting op := (setPc_other s hdc _).symm.trans hwait
      have howns : (((s.pop c).setPc d .running).setOwns d true).owns d = true := Function.update_self _ _ _
      have hrun : (((s.pop c).setPc d .running).setOwns d true).pc d = .running := setPc_self _ d _
      rw [hbd, hpcd, howns, hrun]
      exact .served _ _
    · have howns : (((s.pop c).setPc d .running).setOwns d true).owns b = (s.pop c).owns b :=
        Function.update_of_ne hbd _ _
      have hsame : (((s.pop c).setPc d .running).setOwns d true).pc b = (s.pop c).pc b := setPc_other _ hbd _
      rw [howns, hsame]
      exact moves_of_pop hpc b
  · have habort : (s.pop c).resumeAwaiter op d = (s.pop c).setPc d .aborted := by
      simp only [resumeAwaiter]
      split
      · rename_i op' hop'
        rw [if_neg]
        rintro rfl
        exact hwait hop'
      · rfl
    rw [habort]
    by_cases hbd : b = d
    · rw [hbd, setPc_self]
      exact .abort _ _ _
    · rw [setPc_other _ hbd]
      exact moves_of_pop hpc b

theorem step_moves (hstep : Step s e s') : ∀ c, Moves (s.pc c) (s.owns c) (s'.pc c) (s'.owns c) := by
  cases hstep with
  | lock c op hpc hop hfresh => exact moves_of_setPc (hpc ▸ .lock op _) rfl rfl
  | load c op hpc => exact moves_of_setPc (hpc ▸ .load op _ _) rfl rfl
  | acquire c op hpc hstate => exact moves_of_setOwns (hpc ▸ .acquire op _ _) rfl rfl
  | acquireFails c op hpc => exact moves_of_setPc (hpc ▸ .reload op _ _ _) rfl rfl
  | enqueue c op oldState hpc hold hstate => exact moves_of_setPc (hpc ▸ .enqueue op _ _) rfl rfl
  | enqueueFails c op oldState hpc hold => exact moves_of_setPc (hpc ▸ .reload op _ _ _) rfl rfl
  | tryLock c hpc hstate =>
      have hmoves : Moves (s.pc c) (s.owns c) .running true := hpc ▸ .tryLock _
      refine moves_of_setOwns hmoves ?_ rfl
      rw [← hpc]
      exact (Function.update_eq_self c s.pc).symm
  | tryLockFails c hpc hstate => exact fun d => .stay _ _
  | unlock c hpc howns =>
      have hmoves : Moves (s.pc c) (s.owns c) (if s.state = kNotLocked then .aborted else .unlocking s.state)
          (s.owns c) := by
        split
        · exact .abort _ _ _
        · exact hpc ▸ .unlock _ _
      exact moves_of_setPc hmoves rfl rfl
  | hasWaiters c oldState hpc hhead => exact moves_of_setPc (hpc ▸ .hasWaiters _ _) rfl rfl
  | release c hpc hhead hstate => exact moves_of_setOwns (hpc ▸ .release _ _) rfl rfl
  | releaseFails c hpc hhead hstate => exact moves_of_setPc (hpc ▸ .noRelease _ _) rfl rfl
  | noRelease c oldState hpc hhead hold => exact moves_of_setPc (hpc ▸ .noRelease _ _) rfl rfl
  | exchange c fuel next newHead hpc hstate hreverse => exact moves_of_setPc (hpc ▸ .exchange _) rfl rfl
  | exchangeAborts c hpc hstate => exact moves_of_setPc (.abort _ _ _) rfl rfl
  | resume c d hpc hhead hawaiter => exact moves_of_resume hpc
  | resumeAborts c hpc hhead => exact moves_of_setPc (.abort _ _ _) rfl rfl

end Moves

section Stages

theorem stageOf_holding_iff {pc : MutexPc} {owns : Bool} :
    stageOf pc owns = some .holding ↔ pc = .running ∧ owns = true := by
  cases pc <;> cases owns <;> simp [stageOf]

theorem stageOf_free_iff {pc : MutexPc} {owns : Bool} :
    stageOf pc owns = some .free ↔ pc = .running ∧ owns = false := by
  cases pc <;> cases owns <;> simp [stageOf]

theorem stageOf_running {owns : Bool} {st : MutexStage} (h : stageOf .running owns = some st) :
    st = .free ∨ st = .holding := by
  cases owns <;> cases h <;> simp

theorem stageOf_waiting {op : Nat} {owns : Bool} {st : MutexStage} (h : stageOf (.waiting op) owns = some st) :
    st = .queued := by
  cases owns <;> cases h
  rfl

theorem waiting_of_queued {pc : MutexPc} {owns : Bool} (h : stageOf pc owns = some .queued) :
    ∃ op, pc = .waiting op := by
  cases pc <;> cases owns <;> simp_all [stageOf]

theorem owns_iff_of_stageOf {pc : MutexPc} {owns : Bool} {st : MutexStage} (h : stageOf pc owns = some st) :
    owns = true ↔ st = .holding ∨ st = .leaving := by
  cases pc <;> cases owns <;> simp_all [stageOf] <;> subst h <;> simp

theorem Moves.stage_next {pc pc' : MutexPc} {owns owns' : Bool} {st : MutexStage} (h : Moves pc owns pc' owns')
    (hst : stageOf pc owns = some st) (habort : pc' ≠ .aborted)
    (hcont : pc = .running → pc' = .running ∧ owns' = owns) :
    ∃ st', stageOf pc' owns' = some st' ∧ st.Next st' := by
  cases h with
  | stay => exact ⟨st, hst, .stay st⟩
  | lock op => exact absurd (hcont rfl).1 (by simp)
  | load op oldState | reload op oldState state =>
      cases owns with
      | false => cases hst; exact ⟨_, rfl, .stay _⟩
      | true => cases hst
  | acquire op oldState =>
      cases owns with
      | false => cases hst; exact ⟨_, rfl, .acquired⟩
      | true => cases hst
  | enqueue op oldState =>
      cases owns with
      | false => cases hst; exact ⟨_, rfl, .suspended⟩
      | true => cases hst
  | tryLock =>
      obtain rfl := (hcont rfl).2
      exact ⟨st, hst, .stay st⟩
  | unlock oldState => exact absurd (hcont rfl).1 (by simp)
  | hasWaiters oldState | noRelease oldState | exchange =>
      cases owns with
      | false => cases hst
      | true => cases hst; exact ⟨_, rfl, .stay _⟩
  | release oldState | hand =>
      cases owns with
      | false => cases hst
      | true => cases hst; exact ⟨_, rfl, .released⟩
  | served op =>
      cases owns with
      | false => cases hst; exact ⟨_, rfl, .served⟩
      | true => cases hst
  | abort => exact absurd rfl habort

variable {trace : List (MutexEvent Coro)} {s s' : AsyncMutex Coro} {e : MutexEvent Coro} {waiters arrived : List Nat}

theorem stage_congr {c : Coro} (hpc : s'.pc c = s.pc c) (howns : s'.owns c = s.owns c) : stage s' c = stage s c := by
  rw [stage, stage, hpc, howns]

/-- Two coroutines never both hold the mutex or give it up. -/
theorem Inv.holder_unique (h : Inv trace s waiters arrived) {c d : Coro} (hc : stage s c = some .holding)
    {st : MutexStage} (hd : stage s d = some st) (hst : st = .holding ∨ st = .leaving) : d = c :=
  h.owner d c ((owns_iff_of_stageOf hd).mpr hst) ((owns_iff_of_stageOf hc).mpr (.inl rfl))

variable [DecidableEq Coro]

theorem Inv.stage_next (h : Inv trace s waiters arrived) (hstep : Step s e s') (hcont : Continues s s') {c : Coro}
    {st : MutexStage} (hst : stage s c = some st) : ∃ st', stage s' c = some st' ∧ st.Next st' := by
  obtain ⟨_, _, h'⟩ := step_inv h hstep
  refine (step_moves hstep c).stage_next hst ?_ (hcont c)
  intro habort
  exact h'.duty_of habort

omit [DecidableEq Coro] in
theorem others_of_actor {x c d : Coro} (hpc : ∀ b, b ≠ x → s'.pc b = s.pc b)
    (howns : ∀ b, b ≠ x → s'.owns b = s.owns b) (hrun : s.pc c = .running) (hbegun : s'.pc c ≠ .running)
    (hdc : d ≠ c) : stage s' d = stage s d := by
  by_cases hcx : c = x
  · subst x
    exact stage_congr (hpc d hdc) (howns d hdc)
  · exact absurd ((hpc c hcx).trans hrun) hbegun

/-- A coroutine that begins a lock or an unlock is the only one that moves. -/
theorem Inv.begin_others (h : Inv trace s waiters arrived) (hstep : Step s e s') {c : Coro}
    (hrun : s.pc c = .running) (hbegun : s'.pc c ≠ .running) {d : Coro} (hdc : d ≠ c) :
    stage s' d = stage s d := by
  cases hstep with
  | lock | load | acquireFails | enqueue | enqueueFails | unlock | hasWaiters | releaseFails | noRelease | exchange
  | exchangeAborts | resumeAborts =>
      exact others_of_actor (fun b hb => setPc_other s hb _) (fun _ _ => rfl) hrun hbegun hdc
  | acquire | release =>
      exact others_of_actor (fun b hb => setPc_other s hb _) (fun b hb => Function.update_of_ne hb _ _) hrun hbegun hdc
  | tryLock | tryLockFails => exact absurd hrun hbegun
  | resume x y hpc hhead hawaiter =>
      obtain ⟨rest, rfl, _⟩ := h.waitersChain.cons_of_ne hhead
      have hwait := (resume_inv h hpc hawaiter).1
      rw [resumeAwaiter_of_waiting hwait] at hbegun
      have hcx : c ≠ x := by
        rintro rfl
        rw [hrun] at hpc
        cases hpc
      have hpop : (s.pop x).pc c = .running := (setPc_other s hcx _).trans hrun
      have hcy : c ≠ y := by
        rintro rfl
        rw [hpop] at hwait
        cases hwait
      exact absurd ((setPc_other (s.pop x) hcy _).trans hpop) hbegun

theorem begin_lock (hstep : Step s e s') {c : Coro} (hfree : stage s c = some .free) {op : Nat}
    (hbegun : MutexPc.operation (s'.pc c) = some op) : stage s' c = some .entering := by
  obtain ⟨hpc, howns⟩ := stageOf_free_iff.mp hfree
  have hmoves := step_moves hstep c
  rw [hpc, howns] at hmoves
  rw [stage]
  generalize s'.pc c = pc at hmoves hbegun ⊢
  generalize s'.owns c = owns at hmoves ⊢
  cases hmoves with
  | lock => rfl
  | stay | tryLock | unlock | abort => cases hbegun

theorem Inv.begin_unlock (h : Inv trace s waiters arrived) (hstep : Step s e s') {c : Coro}
    (hholding : stage s c = some .holding) (hbegun : s'.pc c ≠ .running)
    (hop : MutexPc.operation (s'.pc c) = none) : stage s' c = some .leaving := by
  obtain ⟨_, _, h'⟩ := step_inv h hstep
  obtain ⟨hpc, howns⟩ := stageOf_holding_iff.mp hholding
  have hmoves := step_moves hstep c
  have habort : s'.pc c ≠ .aborted := fun habort => h'.duty_of habort
  rw [hpc, howns] at hmoves
  rw [stage]
  generalize s'.pc c = pc at hmoves hbegun hop habort ⊢
  generalize s'.owns c = owns at hmoves ⊢
  cases hmoves with
  | unlock => rfl
  | stay | tryLock => exact absurd rfl hbegun
  | lock => cases hop
  | abort => exact absurd rfl habort

end Stages

end Libcold.AsyncMutex
