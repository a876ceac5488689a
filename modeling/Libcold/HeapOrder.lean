import Mathlib.Logic.Equiv.Basic
import Mathlib.Order.Lattice
import Mathlib.Order.Nat

namespace Libcold.HeapOrder

variable {κ : Type} [LinearOrder κ]

def parent (i : Nat) : Nat := (i - 1) / 2

/-- The heap order of a binary heap laid out level by level. Positions past
the end of the stored elements carry a greatest key and constrain nothing. -/
def Ordered (k : Nat → κ) : Prop := ∀ i, 0 < i → k (parent i) ≤ k i

/-- The children of the hole are at or after the parent of the hole. -/
def Bridged (k : Nat → κ) (hole : Nat) : Prop :=
  0 < hole → ∀ i, 0 < i → parent i = hole → k (parent hole) ≤ k i

/-- Only the edge that enters the hole may be out of order. -/
structure Rising (k : Nat → κ) (hole : Nat) : Prop where
  elsewhere : ∀ i, 0 < i → i ≠ hole → k (parent i) ≤ k i
  bridged : Bridged k hole

/-- Only the edges that leave the hole may be out of order. -/
structure Sinking (k : Nat → κ) (hole : Nat) : Prop where
  elsewhere : ∀ i, 0 < i → parent i ≠ hole → k (parent i) ≤ k i
  bridged : Bridged k hole

/-- Any edge that touches the hole may be out of order, as after an arbitrary
change of the key stored there. -/
structure Disturbed (k : Nat → κ) (hole : Nat) : Prop where
  elsewhere : ∀ i, 0 < i → i ≠ hole → parent i ≠ hole → k (parent i) ≤ k i
  bridged : Bridged k hole

def exchange (k : Nat → κ) (i j : Nat) : Nat → κ := k ∘ Equiv.swap i j

omit [LinearOrder κ] in
@[simp] theorem exchange_left (k : Nat → κ) (i j : Nat) : exchange k i j i = k j := by
  simp [exchange]

omit [LinearOrder κ] in
@[simp] theorem exchange_right (k : Nat → κ) (i j : Nat) : exchange k i j j = k i := by
  simp [exchange]

omit [LinearOrder κ] in
theorem exchange_other (k : Nat → κ) {i j l : Nat} (hi : l ≠ i) (hj : l ≠ j) :
    exchange k i j l = k l := by
  simp [exchange, Equiv.swap_apply_of_ne_of_ne hi hj]

theorem parent_lt {i : Nat} (h : 0 < i) : parent i < i := by
  unfold parent; omega

theorem parent_eq_iff {i p : Nat} (h : 0 < i) : parent i = p ↔ i = 2 * p + 1 ∨ i = 2 * p + 2 := by
  unfold parent; omega

theorem Ordered.root_le {k : Nat → κ} (h : Ordered k) (i : Nat) : k 0 ≤ k i := by
  induction i using Nat.strongRecOn with
  | ind i ih =>
      rcases Nat.eq_zero_or_pos i with rfl | hi
      · exact le_rfl
      · exact (ih (parent i) (parent_lt hi)).trans (h i hi)

theorem Ordered.bridged {k : Nat → κ} (h : Ordered k) (hole : Nat) : Bridged k hole := by
  intro hh i hi hp
  exact (h hole hh).trans (hp ▸ h i hi)

theorem Ordered.rising {k : Nat → κ} (h : Ordered k) (hole : Nat) : Rising k hole :=
  ⟨fun i hi _ => h i hi, h.bridged hole⟩

/-- Changing one key of an ordered heap leaves every edge away from it alone. -/
theorem Ordered.update {k k' : Nat → κ} (h : Ordered k) (hole : Nat)
    (hk : ∀ i, i ≠ hole → k' i = k i) : Disturbed k' hole := by
  constructor
  · intro i hi hne hp
    rw [hk i hne, hk (parent i) hp]
    exact h i hi
  · intro hh i hi hp
    have hne : i ≠ hole := by have := parent_lt hi; omega
    rw [hk i hne, hk (parent hole) (parent_lt hh).ne]
    exact h.bridged hole hh i hi hp

theorem Ordered.append {k k' : Nat → κ} (h : Ordered k) (last : Nat)
    (hk : ∀ i, i ≠ last → k' i = k i) (htop : ∀ i, last < i → ∀ x : κ, x ≤ k' i) :
    Rising k' last := by
  have hhole := h.update last hk
  constructor
  · intro i hi hne
    by_cases hp : parent i = last
    · exact htop i (by have := parent_lt hi; omega) _
    · exact hhole.elsewhere i hi hne hp
  · exact hhole.bridged

theorem Ordered.replace_root {k k' : Nat → κ} (h : Ordered k) (last : Nat)
    (hk : ∀ i, 0 < i → i < last → k' i = k i)
    (htop : ∀ i, 0 < i → last ≤ i → ∀ x : κ, x ≤ k' i) : Sinking k' 0 := by
  constructor
  · intro i hi hp
    by_cases hl : i < last
    · have := parent_lt hi
      rw [hk i hi hl, hk (parent i) (by omega) (by omega)]
      exact h i hi
    · exact htop i hi (by omega) _
  · exact fun h0 => absurd h0 (Nat.lt_irrefl 0)

theorem Rising.finish {k : Nat → κ} {hole : Nat} (h : Rising k hole)
    (hle : 0 < hole → k (parent hole) ≤ k hole) : Ordered k := by
  intro i hi
  by_cases he : i = hole
  · subst he; exact hle hi
  · exact h.elsewhere i hi he

theorem Rising.exchange {k : Nat → κ} {hole : Nat} (h : Rising k hole) (hh : 0 < hole)
    (hle : k hole ≤ k (parent hole)) : Rising (exchange k (parent hole) hole) (parent hole) := by
  have hp := parent_lt hh
  constructor
  · intro i hi hne
    by_cases hi' : i = hole
    · subst hi'; simpa using hle
    · rw [exchange_other k hne hi']
      by_cases hc : parent i = hole
      · rw [hc, exchange_right]
        exact h.bridged hh i hi hc
      · by_cases hs : parent i = parent hole
        · rw [hs, exchange_left]
          exact hle.trans (hs ▸ h.elsewhere i hi hi')
        · rw [exchange_other k hs hc]
          exact h.elsewhere i hi hi'
  · intro hq i hi hpi
    have hpp := parent_lt hq
    have hup : k (parent (parent hole)) ≤ k (parent hole) := h.elsewhere _ hq hp.ne
    rw [exchange_other k hpp.ne (by omega)]
    by_cases hi' : i = hole
    · subst hi'; simpa using hup
    · have hne : i ≠ parent hole := by have := parent_lt hi; omega
      rw [exchange_other k hne hi']
      exact hup.trans (hpi ▸ h.elsewhere i hi hi')

theorem Sinking.finish {k : Nat → κ} {hole : Nat} (h : Sinking k hole)
    (hle : ∀ i, 0 < i → parent i = hole → k hole ≤ k i) : Ordered k := by
  intro i hi
  by_cases hp : parent i = hole
  · rw [hp]; exact hle i hi hp
  · exact h.elsewhere i hi hp

theorem Disturbed.finish {k : Nat → κ} {hole : Nat} (h : Disturbed k hole)
    (hle : ∀ i, 0 < i → parent i = hole → k hole ≤ k i) : Rising k hole := by
  constructor
  · intro i hi hne
    by_cases hp : parent i = hole
    · rw [hp]; exact hle i hi hp
    · exact h.elsewhere i hi hne hp
  · exact h.bridged

/-- Moving the least child up into the hole repairs every edge but those that
leave the place the child came from. -/
theorem Disturbed.exchange {k : Nat → κ} {hole c : Nat} (h : Disturbed k hole) (hc : 0 < c)
    (hpc : parent c = hole) (hmin : ∀ i, 0 < i → parent i = hole → k c ≤ k i)
    (hle : k c ≤ k hole) : Sinking (exchange k hole c) c := by
  have hlt : hole < c := hpc ▸ parent_lt hc
  constructor
  · intro i hi hne
    by_cases hih : i = hole
    · subst hih
      have hp := parent_lt hi
      rw [exchange_left, exchange_other k hp.ne (by omega)]
      exact h.bridged hi c hc hpc
    · by_cases hic : i = c
      · subst hic
        rw [hpc, exchange_left, exchange_right]
        exact hle
      · rw [exchange_other k hih hic]
        by_cases hp : parent i = hole
        · rw [hp, exchange_left]
          exact hmin i hi hp
        · rw [exchange_other k hp hne]
          exact h.elsewhere i hi hih hp
  · intro _ i hi hpi
    have hi' := parent_lt hi
    rw [hpc, exchange_left, exchange_other k (by omega) (by omega)]
    exact hpi ▸ h.elsewhere i hi (by omega) (by omega)

theorem Sinking.disturbed {k : Nat → κ} {hole : Nat} (h : Sinking k hole) : Disturbed k hole :=
  ⟨fun i hi _ hp => h.elsewhere i hi hp, h.bridged⟩

end Libcold.HeapOrder
