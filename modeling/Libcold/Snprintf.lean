import Libcold.HttpResponse
import Mathlib.Data.Nat.Digits.Lemmas

namespace Libcold

/-- `"%0wd"`. The sign counts for the width. -/
def zeroPadded (width : Nat) (v : Int) : List UInt8 :=
  let digits := decimal v.natAbs
  if v < 0 then 45 :: (List.replicate (width - 1 - digits.length) 48 ++ digits)
  else List.replicate (width - digits.length) 48 ++ digits

theorem decimal_lt {n : Nat} (h : n < 10) : decimal n = [UInt8.ofNat (48 + n)] := by
  by_cases hn : n = 0
  · subst n
    rfl
  · rw [decimal, if_neg hn, Nat.digits_of_lt 10 n hn h]
    rfl

theorem decimal_snoc {n : Nat} (h : 10 ≤ n) : decimal n = decimal (n / 10) ++ [UInt8.ofNat (48 + n % 10)] := by
  rw [decimal, decimal, if_neg (by omega), if_neg (by omega), Nat.digits_def' (by decide) (by omega),
    List.reverse_cons, List.map_append]
  rfl

theorem length_decimal_le_iff (n k : Nat) : (decimal n).length ≤ k + 1 ↔ n < 10 ^ (k + 1) := by
  by_cases hn : n = 0
  · subst n
    simp [decimal]
  · rw [decimal, if_neg hn, List.length_map, List.length_reverse, Nat.digits_length_le_iff (by decide)]

theorem zeroPadded_succ (width n : Nat) :
    zeroPadded (width + 2) n = zeroPadded (width + 1) (n / 10 : Nat) ++ [UInt8.ofNat (48 + n % 10)] := by
  simp only [zeroPadded, Int.natAbs_natCast, if_neg (Int.not_lt.mpr (Int.natCast_nonneg _))]
  by_cases h : n < 10
  · rw [decimal_lt h, Nat.div_eq_of_lt h, Nat.mod_eq_of_lt h]
    simp [decimal, List.replicate_succ']
  · have hwidth : width + 2 - ((decimal (n / 10)).length + 1) = width + 1 - (decimal (n / 10)).length := by omega
    rw [decimal_snoc (by omega), ← List.append_assoc, List.length_append, List.length_singleton, hwidth]

theorem zeroPadded_one {n : Nat} (h : n < 10) : zeroPadded 1 n = [UInt8.ofNat (48 + n)] := by
  simp [zeroPadded, decimal_lt h]

theorem zeroPadded_two {n : Nat} (h : n < 100) :
    zeroPadded 2 n = [UInt8.ofNat (48 + n / 10), UInt8.ofNat (48 + n % 10)] := by
  rw [zeroPadded_succ 0, zeroPadded_one (by omega)]
  rfl

theorem zeroPadded_three {n : Nat} (h : n < 1000) :
    zeroPadded 3 n = [UInt8.ofNat (48 + n / 100), UInt8.ofNat (48 + n / 10 % 10), UInt8.ofNat (48 + n % 10)] := by
  rw [zeroPadded_succ 1, zeroPadded_two (by omega), Nat.div_div_eq_div_mul]
  rfl

theorem zeroPadded_four {n : Nat} (h : n < 10000) :
    zeroPadded 4 n =
      [UInt8.ofNat (48 + n / 1000), UInt8.ofNat (48 + n / 100 % 10), UInt8.ofNat (48 + n / 10 % 10),
        UInt8.ofNat (48 + n % 10)] := by
  rw [zeroPadded_succ 2, zeroPadded_three (by omega), Nat.div_div_eq_div_mul, Nat.div_div_eq_div_mul]
  rfl

theorem le_length_zeroPadded (width : Nat) (v : Int) : width ≤ (zeroPadded width v).length := by
  simp only [zeroPadded]
  split <;> simp only [List.length_cons, List.length_append, List.length_replicate] <;> omega

theorem length_decimal_natAbs_le_iff (v : Int) (k : Nat) :
    (decimal v.natAbs).length ≤ k + 1 ↔ (v.natAbs : Int) < 10 ^ (k + 1) := by
  rw [length_decimal_le_iff]
  exact_mod_cast Iff.rfl

/-- A number keeps to its width when it has so few digits. -/
theorem length_zeroPadded_le_iff (width : Nat) (v : Int) :
    (zeroPadded (width + 2) v).length ≤ width + 2 ↔ -10 ^ (width + 1) < v ∧ v < 10 ^ (width + 2) := by
  have hone := length_decimal_natAbs_le_iff v width
  have htwo := length_decimal_natAbs_le_iff v (width + 1)
  have hpos : (0 : Int) < 10 ^ (width + 1) := Int.pow_pos (by decide)
  have hpos' : (0 : Int) < 10 ^ (width + 2) := Int.pow_pos (by decide)
  generalize (10 : Int) ^ (width + 1) = p at *
  generalize (10 : Int) ^ (width + 1 + 1) = q at *
  simp only [zeroPadded]
  split
  · simp only [List.length_cons, List.length_append, List.length_replicate]
    omega
  · simp only [List.length_append, List.length_replicate]
    omega

theorem head_zeroPadded_of_neg {v : Int} (hv : v < 0) (width : Nat) : (zeroPadded width v).head? = some 45 := by
  simp [zeroPadded, hv]

theorem decimal_le (n : Nat) : ∀ b ∈ decimal n, b ≤ 57 := by
  induction n using Nat.strong_induction_on with
  | h n ih =>
      intro b hb
      have hdigit : ∀ d < 10, UInt8.ofNat (48 + d) ≤ 57 := by decide
      by_cases hn : n < 10
      · rw [decimal_lt hn, List.mem_singleton] at hb
        rw [hb]
        exact hdigit n hn
      · rw [decimal_snoc (by omega), List.mem_append, List.mem_singleton] at hb
        cases hb with
        | inl hb => exact ih (n / 10) (by omega) b hb
        | inr hb =>
            rw [hb]
            exact hdigit (n % 10) (Nat.mod_lt _ (by decide))

theorem zeroPadded_le (width : Nat) (v : Int) : ∀ b ∈ zeroPadded width v, b ≤ 57 := by
  intro b hb
  simp only [zeroPadded] at hb
  split at hb
  · rw [List.mem_cons, List.mem_append, List.mem_replicate] at hb
    obtain rfl | ⟨-, rfl⟩ | hb := hb
    · decide
    · decide
    · exact decimal_le _ b hb
  · rw [List.mem_append, List.mem_replicate] at hb
    obtain ⟨-, rfl⟩ | hb := hb
    · decide
    · exact decimal_le _ b hb

end Libcold
