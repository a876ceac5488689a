import Libcold.Platform
import Libcold.Runs
import Mathlib.Algebra.BigOperators.Group.Finset.Piecewise
import Mathlib.Data.Fintype.Card
import Mathlib.Data.Fintype.Prod
import Mathlib.Logic.Function.Basic

namespace Libcold

open Runs

variable {Caller : Type} [DecidableEq Caller]

/-- The control points of `GetNextIoService`. -/
inductive NextPc
  | idle
  | compare
  | reset
  | take
  deriving DecidableEq

/-- What the callers of `GetNextIoService` share, and where they are. -/
structure IoServicePool (Caller : Type) where
  index : Nat := 0
  calls : Caller → NextPc := fun _ => .idle

/-- The service that a call gives: the main one, or one by its subscript in the vector. -/
inductive IoServiceRef
  | mainIoService
  | subscript (i : Nat)
  deriving DecidableEq

inductive NextEvent (Caller : Type)
  | begins (c : Caller)
  | other
  | returns (c : Caller) (service : IoServiceRef)

namespace IoServicePool

def setCall (s : IoServicePool Caller) (c : Caller) (pc : NextPc) : IoServicePool Caller :=
  { s with calls := Function.update s.calls c pc }

/-- The steps of `GetNextIoService`; each access to `index_` is one. -/
inductive Step (poolSize : Nat) : IoServicePool Caller → NextEvent Caller → IoServicePool Caller → Prop
  | empty (s) (c) (hcall : s.calls c = .idle) (hempty : poolSize = 0) :
      Step poolSize s (.returns c .mainIoService) s
  | begins (s) (c) (hcall : s.calls c = .idle) (hsome : poolSize ≠ 0) :
      Step poolSize s (.begins c) (s.setCall c .compare)
  | past (s) (c) (hcall : s.calls c = .compare) (hpast : poolSize ≤ s.index) :
      Step poolSize s .other (s.setCall c .reset)
  | within (s) (c) (hcall : s.calls c = .compare) (hwithin : s.index < poolSize) :
      Step poolSize s .other (s.setCall c .take)
  | reset (s) (c) (hcall : s.calls c = .reset) : Step poolSize s .other { s.setCall c .take with index := 0 }
  | take (s) (c) (hcall : s.calls c = .take) :
      Step poolSize s (.returns c (.subscript s.index)) { s.setCall c .idle with index := (s.index + 1) % wordModulus }

/-- `GetIoServiceForHash`. -/
def getIoServiceForHash (poolSize hashCode : Nat) : IoServiceRef :=
  if poolSize = 0 then .mainIoService else .subscript (hashCode % poolSize)

def returned (trace : List (NextEvent Caller)) : List IoServiceRef :=
  trace.filterMap fun
    | .returns _ service => some service
    | _ => none

section Subscripts

variable [Fintype Caller]

/-- The callers that have found the index in range, or have reset it, and use it next. -/
def takers (calls : Caller → NextPc) : Nat := (Finset.univ.filter fun c => calls c = .take).card

theorem takers_update (calls : Caller → NextPc) (c : Caller) (pc : NextPc) :
    takers (Function.update calls c pc) + (if calls c = .take then 1 else 0) =
      takers calls + if pc = .take then 1 else 0 := by
  have hsplit (calls : Caller → NextPc) : takers calls =
      (if calls c = .take then 1 else 0) + ∑ d ∈ Finset.univ.erase c, if calls d = .take then 1 else 0 := by
    rw [takers, Finset.card_filter]
    exact (Finset.add_sum_erase _ (fun d => if calls d = .take then 1 else 0) (Finset.mem_univ c)).symm
  have hothers : (∑ d ∈ Finset.univ.erase c, if Function.update calls c pc d = .take then 1 else 0) =
      ∑ d ∈ Finset.univ.erase c, if calls d = .take then 1 else 0 := by
    refine Finset.sum_congr rfl fun d hd => ?_
    rw [Function.update_of_ne (Finset.ne_of_mem_erase hd)]
  rw [hsplit (Function.update calls c pc), hsplit calls, hothers, Function.update_self]
  omega

omit [DecidableEq Caller] in
theorem takers_le (calls : Caller → NextPc) : takers calls ≤ Fintype.card Caller := Finset.card_filter_le _ _

/-- What has been taken past the end is due to callers that are not about to take. -/
def Bounded (poolSize : Nat) (s : IoServicePool Caller) : Prop :=
  s.index + takers s.calls < poolSize + Fintype.card Caller

theorem step_bounded {poolSize : Nat} (hsome : poolSize ≠ 0) {s s' : IoServicePool Caller}
    {event : NextEvent Caller} (h : Step poolSize s event s') (hs : Bounded poolSize s) : Bounded poolSize s' := by
  unfold Bounded at hs ⊢
  have hle := takers_le s'.calls
  cases h with
  | empty => exact hs
  | begins c hcall hsome =>
      have hcount := takers_update s.calls c .compare
      simp only [setCall, hcall, reduceCtorEq, if_false] at hcount ⊢
      omega
  | past c hcall hpast =>
      have hcount := takers_update s.calls c .reset
      simp only [setCall, hcall, reduceCtorEq, if_false] at hcount ⊢
      omega
  | within c hcall hwithin =>
      simp only [setCall] at hle ⊢
      omega
  | reset c hcall =>
      simp only [setCall] at hle ⊢
      omega
  | take c hcall =>
      have hcount := takers_update s.calls c .idle
      have hmod := Nat.mod_le (s.index + 1) wordModulus
      simp only [setCall, hcall, reduceCtorEq, if_false, if_true] at hcount ⊢
      omega

theorem run_bounded {poolSize : Nat} (hsome : poolSize ≠ 0) {trace : List (NextEvent Caller)}
    {s : IoServicePool Caller} (h : Run (Step poolSize) {} trace s) : Bounded poolSize s ∧ s.index < wordModulus := by
  induction h with
  | stop =>
      have hle := takers_le (fun _ : Caller => NextPc.idle)
      have hnone : takers (fun _ : Caller => NextPc.idle) = 0 := by simp [takers]
      refine ⟨?_, Nat.two_pow_pos 64⟩
      simp only [Bounded]
      omega
  | next _ taken ih =>
      refine ⟨step_bounded hsome taken ih.1, ?_⟩
      cases taken with
      | reset => simp [wordModulus]
      | take => exact Nat.mod_lt _ (by decide)
      | _ => exact ih.2

/-- The callers of the list are about to take, the others are outside. -/
def taking (index : Nat) (callers : List Caller) : IoServicePool Caller where
  index
  calls c := if c ∈ callers then .take else .idle

omit [Fintype Caller] in
theorem setCall_taking (index : Nat) (callers : List Caller) (c : Caller) :
    ((taking index callers).setCall c .compare).setCall c .take = taking index (c :: callers) := by
  simp only [setCall, taking, Function.update_idem, IoServicePool.mk.injEq, true_and]
  funext d
  by_cases hd : d = c
  · simp [hd]
  · simp [hd]

omit [Fintype Caller] in
theorem taking_setCall {index : Nat} {callers : List Caller} {c : Caller} (hc : c ∉ callers) :
    { (taking index (c :: callers)).setCall c .idle with index := (index + 1) % wordModulus } =
      taking ((index + 1) % wordModulus) callers := by
  simp only [setCall, taking, IoServicePool.mk.injEq, true_and]
  funext d
  by_cases hd : d = c
  · simp [hd, hc]
  · simp [hd]

omit [Fintype Caller] in
theorem take_step {poolSize index : Nat} {callers : List Caller} {c : Caller} (hc : c ∉ callers) :
    Step poolSize (taking index (c :: callers)) (.returns c (.subscript index))
      (taking ((index + 1) % wordModulus) callers) := by
  rw [← taking_setCall hc]
  exact .take _ c (by simp [taking])

omit [Fintype Caller] in
/-- Callers that compare one after the other all find the same index in range. -/
theorem run_taking {poolSize index : Nat} (hindex : index < poolSize) (callers : List Caller) (hnodup : callers.Nodup) :
    ∃ trace, Run (Step poolSize) (taking index []) trace (taking index callers) := by
  induction callers with
  | nil => exact ⟨[], .stop⟩
  | cons c callers ih =>
      obtain ⟨hc, hrest⟩ := List.nodup_cons.mp hnodup
      obtain ⟨trace, hrun⟩ := ih hrest
      have hbegins := hrun.next (.begins _ c (by simp [taking, hc]) (by omega))
      have hwithin := hbegins.next (.within _ c (by simp [setCall]) hindex)
      rw [setCall_taking] at hwithin
      exact ⟨_, hwithin⟩

omit [Fintype Caller] in
/-- They then take as many subscripts in a row as they are. -/
theorem run_takes {poolSize : Nat} (callers : List Caller) (hnodup : callers.Nodup) {index j : Nat}
    (hfrom : index ≤ j) (hto : j < index + callers.length) (hj : j < wordModulus) :
    ∃ trace s c, Run (Step poolSize) (taking index callers) trace s ∧ .returns c (.subscript j) ∈ trace := by
  induction callers generalizing index with
  | nil =>
      simp only [List.length_nil] at hto
      omega
  | cons c callers ih =>
      obtain ⟨hc, hrest⟩ := List.nodup_cons.mp hnodup
      have hstep := @take_step _ _ poolSize index callers c hc
      by_cases heq : j = index
      · subst heq
        exact ⟨_, _, c, Run.single hstep, List.mem_singleton.mpr rfl⟩
      · rw [Nat.mod_eq_of_lt (by omega)] at hstep
        simp only [List.length_cons] at hto
        obtain ⟨trace, s, d, hrun, hmem⟩ := ih hrest (show index + 1 ≤ j by omega) (by omega)
        exact ⟨_, s, d, (Run.single hstep).append hrun, List.mem_append_right _ hmem⟩

omit [Fintype Caller] in
theorem run_index {poolSize : Nat} (hsize : poolSize < wordModulus) (c : Caller) (index : Nat)
    (hindex : index < poolSize) : ∃ trace, Run (Step poolSize) {} trace (taking index ([] : List Caller)) := by
  induction index with
  | zero => exact ⟨[], run_nil_iff.mpr (by simp [taking])⟩
  | succ index ih =>
      obtain ⟨trace, hrun⟩ := ih (by omega)
      obtain ⟨compared, hcompared⟩ := run_taking (show index < poolSize by omega) [c] (List.nodup_singleton c)
      have hstep := @take_step _ _ poolSize index [] c List.not_mem_nil
      rw [Nat.mod_eq_of_lt (by omega)] at hstep
      exact ⟨_, (hrun.append hcompared).next hstep⟩

/-- The subscripts that concurrent callers can be given: as many past the end as there are
other callers that may compare before one of them takes. -/
theorem subscripts_iff [Nonempty Caller] {poolSize : Nat} (hsome : poolSize ≠ 0) (hsize : poolSize < wordModulus)
    (j : Nat) :
    (∃ (trace : List (NextEvent Caller)) (s : IoServicePool Caller) (c : Caller),
        Run (Step poolSize) {} trace s ∧ .returns c (.subscript j) ∈ trace) ↔
      j < poolSize + Fintype.card Caller - 1 ∧ j < wordModulus := by
  constructor
  · rintro ⟨trace, s, c, hrun, hmem⟩
    induction hrun with
    | stop => cases hmem
    | next run taken ih =>
        rcases List.mem_append.mp hmem with hmem | hlast
        · exact ih hmem
        · cases List.mem_singleton.mp hlast
          obtain ⟨hbounded, hword⟩ := run_bounded hsome run
          cases taken with
          | take _ hcall =>
              rename_i s
              have hpos : 0 < takers s.calls :=
                Finset.card_pos.mpr ⟨c, Finset.mem_filter.mpr ⟨Finset.mem_univ c, hcall⟩⟩
              unfold Bounded at hbounded
              omega
  · rintro ⟨hlt, hword⟩
    obtain ⟨c⟩ := ‹Nonempty Caller›
    have hcallers : (Finset.univ : Finset Caller).toList.length = Fintype.card Caller := Finset.length_toList _
    by_cases hin : j < poolSize
    · obtain ⟨trace, hrun⟩ := run_index hsize c j hin
      obtain ⟨compared, hcompared⟩ := run_taking hin [c] (List.nodup_singleton c)
      exact ⟨_, _, c, (hrun.append hcompared).next (take_step List.not_mem_nil), by simp⟩
    · have hlast : poolSize - 1 < poolSize := by omega
      obtain ⟨trace, hrun⟩ := run_index hsize c (poolSize - 1) hlast
      obtain ⟨compared, hcompared⟩ := run_taking hlast _ (Finset.nodup_toList (Finset.univ : Finset Caller))
      obtain ⟨taken, s, d, htaken, hmem⟩ := run_takes _ (Finset.nodup_toList (Finset.univ : Finset Caller))
        (show poolSize - 1 ≤ j by omega) (by omega) hword
      exact ⟨_, s, d, (hrun.append hcompared).append htaken, List.mem_append_right _ hmem⟩

/-- Two callers of a pool of four can be given the service behind the last. -/
theorem subscripts_pair : ∃ (trace : List (NextEvent Bool)) (s : IoServicePool Bool) (c : Bool),
    Run (Step 4) {} trace s ∧ .returns c (.subscript 4) ∈ trace :=
  (subscripts_iff (by decide) (by decide) 4).mpr (by decide)

end Subscripts

section Turns

/-- A call begins where no other is going on. -/
def Alone (s : IoServicePool Caller) : NextEvent Caller → Prop
  | .begins _ => ∀ c, s.calls c = .idle
  | _ => True

/-- The state between and in the calls that come one after the other, of which a number
have returned. -/
structure InTurn (poolSize done : Nat) (s : IoServicePool Caller) : Prop where
  index_le : s.index ≤ poolSize
  index_mod : s.index % poolSize = done % poolSize
  reset : ∀ c, s.calls c = .reset → s.index = poolSize
  take : ∀ c, s.calls c = .take → s.index < poolSize
  one : ∀ c d, s.calls c ≠ .idle → s.calls d ≠ .idle → c = d

omit [DecidableEq Caller] in
theorem InTurn.others {poolSize done : Nat} {s : IoServicePool Caller} (h : InTurn poolSize done s) {c : Caller}
    (hc : s.calls c ≠ .idle) {d : Caller} (hd : d ≠ c) : s.calls d = .idle := by
  by_contra hbusy
  exact hd (h.one d c hbusy hc)

/-- The state when the one caller is somewhere. -/
theorem InTurn.setCall {poolSize done index : Nat} {s : IoServicePool Caller} {c : Caller}
    (hothers : ∀ d, d ≠ c → s.calls d = .idle) (hle : index ≤ poolSize) (hmod : index % poolSize = done % poolSize)
    (pc : NextPc) (hreset : pc = .reset → index = poolSize) (htake : pc = .take → index < poolSize) :
    InTurn poolSize done { s.setCall c pc with index } := by
  have hcalls (d : Caller) : Function.update s.calls c pc d = if d = c then pc else .idle := by
    by_cases hd : d = c
    · simp [hd]
    · simp [hd, hothers d hd]
  constructor
  · exact hle
  · exact hmod
  · intro d hd
    simp only [IoServicePool.setCall, hcalls] at hd
    split at hd
    · exact hreset hd
    · cases hd
  · intro d hd
    simp only [IoServicePool.setCall, hcalls] at hd
    split at hd
    · exact htake hd
    · cases hd
  · intro d e hd he
    simp only [IoServicePool.setCall, hcalls] at hd he
    split at hd
    · split at he
      · simp_all
      · exact absurd rfl he
    · exact absurd rfl hd

omit [DecidableEq Caller] in
theorem returned_append (first second : List (NextEvent Caller)) :
    returned (first ++ second) = returned first ++ returned second := List.filterMap_append

theorem step_inTurn {poolSize done : Nat} (hsome : poolSize ≠ 0) (hsize : poolSize < wordModulus)
    {s s' : IoServicePool Caller} {event : NextEvent Caller} (hs : InTurn poolSize done s)
    (h : Guarded Alone (Step poolSize) s event s') :
    returned [event] = [] ∧ InTurn poolSize done s' ∨
      returned [event] = [.subscript (done % poolSize)] ∧ InTurn poolSize (done + 1) s' := by
  obtain ⟨halone, hstep⟩ := h
  cases hstep with
  | empty c hcall hempty => exact absurd hempty hsome
  | begins c hcall => exact .inl ⟨rfl, .setCall (fun d _ => halone d) hs.index_le hs.index_mod _ nofun nofun⟩
  | past c hcall hpast =>
      have hothers (d : Caller) (hd : d ≠ c) := hs.others (by simp [hcall]) hd
      have hindex := hs.index_le
      exact .inl ⟨rfl, .setCall hothers hs.index_le hs.index_mod _ (fun _ => by omega) nofun⟩
  | within c hcall hwithin =>
      have hothers (d : Caller) (hd : d ≠ c) := hs.others (by simp [hcall]) hd
      exact .inl ⟨rfl, .setCall hothers hs.index_le hs.index_mod _ nofun fun _ => hwithin⟩
  | reset c hcall =>
      have hothers (d : Caller) (hd : d ≠ c) := hs.others (by simp [hcall]) hd
      have hmod := hs.index_mod
      rw [hs.reset c hcall, Nat.mod_self] at hmod
      exact .inl ⟨rfl, .setCall hothers (Nat.zero_le _) (by simpa using hmod) _ nofun fun _ => by omega⟩
  | take c hcall =>
      have hothers (d : Caller) (hd : d ≠ c) := hs.others (by simp [hcall]) hd
      have hlt := hs.take c hcall
      have hmod := hs.index_mod
      have hnext : (s.index + 1) % poolSize = (done + 1) % poolSize := by rw [Nat.add_mod, hmod, ← Nat.add_mod]
      rw [Nat.mod_eq_of_lt hlt] at hmod
      rw [Nat.mod_eq_of_lt (show s.index + 1 < wordModulus by omega), ← hmod]
      exact .inr ⟨rfl, .setCall hothers (by omega) hnext _ nofun nofun⟩

/-- How often the turns of a number of calls come to a service. -/
theorem count_turns {poolSize i : Nat} (hi : i < poolSize) (calls : Nat) :
    ((List.range calls).map fun k => IoServiceRef.subscript (k % poolSize)).count (.subscript i) =
      calls / poolSize + if i < calls % poolSize then 1 else 0 := by
  induction calls with
  | zero => simp
  | succ calls ih =>
      rw [List.range_succ, List.map_append, List.count_append, ih, List.map_singleton, List.count_singleton]
      have hcalls := Nat.div_add_mod calls poolSize
      have hlt := Nat.mod_lt calls (show 0 < poolSize by omega)
      generalize calls / poolSize = rounds at hcalls ⊢
      generalize calls % poolSize = turn at hcalls hlt ⊢
      subst hcalls
      rw [Nat.add_assoc (poolSize * rounds), Nat.mul_add_div (show 0 < poolSize by omega), Nat.mul_add_mod]
      simp only [beq_iff_eq, IoServiceRef.subscript.injEq]
      by_cases hlast : turn + 1 = poolSize
      · rw [hlast, Nat.div_self (by omega), Nat.mod_self]
        split <;> split <;> split <;> omega
      · rw [Nat.div_eq_of_lt (show turn + 1 < poolSize by omega), Nat.mod_eq_of_lt (show turn + 1 < poolSize by omega)]
        split <;> split <;> split <;> omega

/-- Calls that do not overlap go round the services in their order, whoever makes them, so
that no service is given more than once more than another. -/
theorem round_robin {poolSize : Nat} (hsome : poolSize ≠ 0) (hsize : poolSize < wordModulus)
    {trace : List (NextEvent Caller)} {s : IoServicePool Caller} (h : Run (Guarded Alone (Step poolSize)) {} trace s) :
    let calls := (returned trace).length
    returned trace = (List.range calls).map (fun k => .subscript (k % poolSize)) ∧
      ∀ i < poolSize, (returned trace).count (.subscript i) =
        calls / poolSize + if i < calls % poolSize then 1 else 0 := by
  intro calls
  suffices hturns : InTurn poolSize calls s ∧
      returned trace = (List.range calls).map fun k => IoServiceRef.subscript (k % poolSize) by
    refine ⟨hturns.2, fun i hi => ?_⟩
    rw [hturns.2]
    exact count_turns hi calls
  induction h with
  | stop => exact ⟨⟨Nat.zero_le _, rfl, nofun, nofun, fun _ _ h => absurd rfl h⟩, rfl⟩
  | @next trace s s' event run taken ih =>
      obtain ⟨hturn, hreturned⟩ := ih
      simp only [calls, returned_append]
      rcases step_inTurn hsome hsize hturn taken with ⟨hlast, hturn'⟩ | ⟨hlast, hturn'⟩
      · rw [hlast, List.append_nil]
        exact ⟨hturn', hreturned⟩
      · rw [hlast, List.length_append, List.length_singleton, List.range_succ, List.map_append, ← hreturned]
        exact ⟨hturn', rfl⟩

theorem round_robin_once : ∃ s : IoServicePool Bool,
    Run (Guarded Alone (Step 2)) {} [.begins true, .other, .returns true (.subscript 0)] s ∧
      returned [NextEvent.begins true, .other, .returns true (.subscript 0)] = [.subscript 0] := by
  have hrun : ∃ s : IoServicePool Bool,
      Run (Guarded Alone (Step 2)) {} [.begins true, .other, .returns true (.subscript 0)] s := by
    simp only [run_cons_iff, run_nil_iff]
    exact ⟨_, _, ⟨fun _ => rfl, .begins _ true rfl (by decide)⟩, _, ⟨trivial, .within _ true rfl (by decide)⟩,
      _, ⟨trivial, .take _ true rfl⟩, rfl⟩
  obtain ⟨s, hrun⟩ := hrun
  exact ⟨s, hrun, (round_robin (by decide) (by decide) hrun).1⟩

end Turns

end IoServicePool

end Libcold
