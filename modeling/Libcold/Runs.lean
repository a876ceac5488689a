import Mathlib.Data.List.Induction
import Mathlib.Tactic.Common

namespace Libcold.Runs

variable {State Label : Type} {step : State → Label → State → Prop} {start : State}

/-- The runs of a labelled step relation, with their labels in order. -/
inductive Run (step : State → Label → State → Prop) (start : State) : List Label → State → Prop
  | stop : Run step start [] start
  | next {trace : List Label} {s t : State} {label : Label} (run : Run step start trace s)
      (taken : step s label t) : Run step start (trace ++ [label]) t

def Guarded (guard : State → Label → Prop) (step : State → Label → State → Prop) (s : State) (label : Label)
    (t : State) : Prop :=
  guard s label ∧ step s label t

/-- The steps that lead from a state with the property to a state with it. -/
def Within (property : State → Prop) (step : State → Label → State → Prop) (s : State) (label : Label)
    (t : State) : Prop :=
  property s ∧ step s label t ∧ property t

theorem Run.invariant {property : List Label → State → Prop} (hstart : property [] start)
    (hstep : ∀ trace s label t, property trace s → step s label t → property (trace ++ [label]) t)
    {trace : List Label} {s : State} (h : Run step start trace s) : property trace s := by
  induction h with
  | stop => exact hstart
  | next _ taken ih => exact hstep _ _ _ _ ih taken

theorem run_snoc_iff {trace : List Label} {label : Label} {t : State} :
    Run step start (trace ++ [label]) t ↔ ∃ s, Run step start trace s ∧ step s label t := by
  constructor
  · intro h
    generalize htrace : trace ++ [label] = whole at h
    cases h with
    | stop => simp at htrace
    | next run taken =>
        obtain ⟨rfl, hlabel⟩ := List.append_inj' htrace rfl
        cases hlabel
        exact ⟨_, run, taken⟩
  · rintro ⟨s, run, taken⟩
    exact run.next taken

theorem Run.append {first second : List Label} {s t : State} (h : Run step start first s)
    (h' : Run step s second t) : Run step start (first ++ second) t := by
  induction h' with
  | stop => simpa using h
  | next _ taken ih => simpa [List.append_assoc] using ih.next taken

theorem Run.single {s t : State} {label : Label} (h : step s label t) : Run step s [label] t :=
  Run.stop.next h

theorem run_append_iff {first second : List Label} {t : State} :
    Run step start (first ++ second) t ↔ ∃ s, Run step start first s ∧ Run step s second t := by
  constructor
  · induction second using List.reverseRecOn generalizing t with
    | nil => intro h; exact ⟨t, by simpa using h, .stop⟩
    | append_singleton second label ih =>
        intro h
        rw [← List.append_assoc] at h
        obtain ⟨s, run, taken⟩ := run_snoc_iff.mp h
        obtain ⟨mid, hfirst, hsecond⟩ := ih run
        exact ⟨mid, hfirst, hsecond.next taken⟩
  · rintro ⟨s, hfirst, hsecond⟩
    exact hfirst.append hsecond

theorem run_nil_iff {t : State} : Run step start [] t ↔ t = start := by
  constructor
  · intro h
    generalize htrace : ([] : List Label) = whole at h
    cases h with
    | stop => rfl
    | next run taken => simp at htrace
  · rintro rfl
    exact .stop

theorem run_cons_iff {trace : List Label} {label : Label} {t : State} :
    Run step start (label :: trace) t ↔ ∃ s, step start label s ∧ Run step s trace t := by
  constructor
  · intro h
    obtain ⟨s, hfirst, hrest⟩ := run_append_iff.mp (show Run step start ([label] ++ trace) t from h)
    obtain ⟨mid, hstop, taken⟩ := run_snoc_iff.mp (show Run step start ([] ++ [label]) s from hfirst)
    obtain rfl := run_nil_iff.mp hstop
    exact ⟨s, taken, hrest⟩
  · rintro ⟨s, taken, hrest⟩
    exact (Run.single taken).append hrest

theorem Run.mono {other : State → Label → State → Prop}
    (hmono : ∀ s label t, step s label t → other s label t) {trace : List Label} {s : State}
    (h : Run step start trace s) : Run other start trace s := by
  induction h with
  | stop => exact .stop
  | next _ taken ih => exact .next ih (hmono _ _ _ taken)

/-- A guard is exactly what keeps a property, when an invariant implies the
property, the guarded steps keep the invariant, and no other step keeps the
property. -/
theorem run_guarded_iff_within {guard : State → Label → Prop} {invariant property : State → Prop}
    (hstart : invariant start) (hproperty : ∀ s, invariant s → property s)
    (hkeep : ∀ s label t, invariant s → guard s label → step s label t → invariant t)
    (hexact : ∀ s label t, invariant s → step s label t → property t → guard s label)
    (trace : List Label) (s : State) :
    Run (Guarded guard step) start trace s ↔ Run (Within property step) start trace s := by
  constructor
  · intro h
    suffices hboth : invariant s ∧ Run (Within property step) start trace s from hboth.2
    induction h with
    | stop => exact ⟨hstart, .stop⟩
    | next _ taken ih =>
        have ht := hkeep _ _ _ ih.1 taken.1 taken.2
        exact ⟨ht, .next ih.2 ⟨hproperty _ ih.1, taken.2, hproperty _ ht⟩⟩
  · intro h
    suffices hboth : invariant s ∧ Run (Guarded guard step) start trace s from hboth.2
    induction h with
    | stop => exact ⟨hstart, .stop⟩
    | next _ taken ih =>
        have hguard := hexact _ _ _ ih.1 taken.2.1 taken.2.2
        exact ⟨hkeep _ _ _ ih.1 hguard taken.2.1, .next ih.2 ⟨hguard, taken.2.1⟩⟩

/-- Two properties that an invariant makes equal have the same runs within them. -/
theorem run_within_iff {invariant property other : State → Prop} (hstart : invariant start)
    (hkeep : ∀ s label t, invariant s → property s → step s label t → invariant t)
    (hiff : ∀ s, invariant s → (property s ↔ other s)) (trace : List Label) (s : State) :
    Run (Within property step) start trace s ↔ Run (Within other step) start trace s := by
  constructor
  · intro h
    suffices hboth : invariant s ∧ Run (Within other step) start trace s from hboth.2
    induction h with
    | stop => exact ⟨hstart, .stop⟩
    | next _ taken ih =>
        have ht := hkeep _ _ _ ih.1 taken.1 taken.2.1
        exact ⟨ht, .next ih.2 ⟨(hiff _ ih.1).mp taken.1, taken.2.1, (hiff _ ht).mp taken.2.2⟩⟩
  · intro h
    suffices hboth : invariant s ∧ Run (Within property step) start trace s from hboth.2
    induction h with
    | stop => exact ⟨hstart, .stop⟩
    | next _ taken ih =>
        have hs := (hiff _ ih.1).mpr taken.1
        have ht := hkeep _ _ _ ih.1 hs taken.2.1
        exact ⟨ht, .next ih.2 ⟨hs, taken.2.1, (hiff _ ht).mpr taken.2.2⟩⟩

def total (cost : Label → Nat) : List Label → Nat
  | [] => 0
  | label :: trace => cost label + total cost trace

theorem total_append (cost : Label → Nat) (first second : List Label) :
    total cost (first ++ second) = total cost first + total cost second := by
  induction first with
  | nil => simp [total]
  | cons label first ih => simp [total, ih, Nat.add_assoc]

/-- An account of a run: what the steps spend comes from the potential of the start
and from what other steps add to it. -/
theorem Run.account {invariant : State → Prop} (potential : State → Nat) (spent gained : Label → Nat)
    (hstart : invariant start) (hkeep : ∀ s label t, invariant s → step s label t → invariant t)
    (hstep : ∀ s label t, invariant s → step s label t → potential t + spent label ≤ potential s + gained label)
    {trace : List Label} {s : State} (h : Run step start trace s) :
    potential s + total spent trace ≤ potential start + total gained trace := by
  suffices hboth : invariant s ∧ potential s + total spent trace ≤ potential start + total gained trace from hboth.2
  induction h with
  | stop => exact ⟨hstart, Nat.le_refl _⟩
  | next _ taken ih =>
      refine ⟨hkeep _ _ _ ih.1 taken, ?_⟩
      have hone := hstep _ _ _ ih.1 taken
      simp only [total_append, total]
      omega

end Libcold.Runs
