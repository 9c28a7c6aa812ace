import InertText.Number.Basic
import Mathlib.Algebra.Order.Ring.Nat
import Mathlib.Tactic.Common

/-!
# Natural numbers that are read as infinite

A natural number is read as the nearest number of the format. The greatest finite one is
an odd multiple of the spacing at its magnitude, so half a spacing above it the tie goes
up, and from there on everything is read as infinite.
-/
namespace InertText.Number

variable {step num m n k : ℕ}

lemma roundTo_one (step num : ℕ) : roundTo step num 1 =
    if 2 * (num % step) < step ∨ (2 * (num % step) = step ∧ num / step % 2 = 0) then
      num / step * step
    else (num / step + 1) * step := by
  rw [roundTo, Nat.mul_one]

/-- Rounding does not pass a multiple of the step from above. -/
lemma le_roundTo (hdvd : step ∣ m) (h : m ≤ num) : m ≤ roundTo step num 1 := by
  obtain ⟨j, rfl⟩ := hdvd
  rcases Nat.eq_zero_or_pos step with rfl | hpos
  · simp
  have hj : j ≤ num / step := by
    rwa [Nat.le_div_iff_mul_le hpos, Nat.mul_comm]
  rw [roundTo_one, Nat.mul_comm]
  split_ifs
  · exact Nat.mul_le_mul_right step hj
  · exact Nat.mul_le_mul_right step (Nat.le_succ_of_le hj)

/-- An even multiple of the step is reached from half a step below it on, since of a tie the
even side wins. -/
lemma roundTo_lt_iff (hpos : 0 < step) :
    roundTo step num 1 < 2 * m * step ↔ 2 * num + step < 2 * (2 * m * step) := by
  have hnum := Nat.div_add_mod' num step
  have hrest := Nat.mod_lt num hpos
  have hsucc (j : ℕ) : (j + 1) * step = j * step + step := Nat.add_one_mul j step
  rw [roundTo_one, hsucc]
  generalize num / step = below at hnum ⊢
  generalize num % step = rest at hnum hrest ⊢
  rcases lt_trichotomy (below + 1) (2 * m) with hlt | heq | hgt
  · have hmul : (below + 2) * step ≤ 2 * m * step := Nat.mul_le_mul_right step hlt
    rw [Nat.add_mul] at hmul
    split_ifs <;> omega
  · have hodd : below % 2 ≠ 0 := by omega
    simp only [← heq, hsucc, hodd, and_false, or_false]
    split_ifs <;> omega
  · have hmul : 2 * m * step ≤ below * step := Nat.mul_le_mul_right step (by omega)
    split_ifs <;> omega

/-- Below a power of two the numbers lie so close that it is reached only by rounding from
the last half of a spacing below it. -/
lemma lt_iff_of_log2_lt (h : num.log2 < k + 54) :
    2 * num + 2 ^ (num.log2 - 52) < 2 * 2 ^ (k + 54) ↔ num + 2 ^ k < 2 ^ (k + 54) := by
  have hpow : (2 : ℕ) ^ (k + 54) = 2 * 2 ^ (k + 53) := Nat.pow_succ'
  have hhalf : (2 : ℕ) ^ (k + 53) = 2 ^ 53 * 2 ^ k := by rw [Nat.pow_add, Nat.mul_comm]
  rw [hpow]
  rcases Nat.lt_or_ge num.log2 (k + 53) with hlt | hge
  · have hnum : num < 2 ^ (k + 53) :=
      lt_of_lt_of_le Nat.lt_log2_self (Nat.pow_le_pow_right (by decide) hlt)
    have hstep : 2 ^ (num.log2 - 52) ≤ 2 ^ k := Nat.pow_le_pow_right (by decide) (by omega)
    generalize 2 ^ (k + 53) = half at hhalf hnum ⊢
    generalize 2 ^ (num.log2 - 52) = step at hstep ⊢
    omega
  · have hlog : num.log2 - 52 = k + 1 := by omega
    rw [hlog, Nat.pow_succ']
    generalize 2 ^ (k + 53) = half
    omega

/-- A number is rounded up to a power of two from half a spacing below it on. -/
lemma nearest_lt_iff : nearest num 1 < 2 ^ (k + 54) ↔ num + 2 ^ k < 2 ^ (k + 54) := by
  have hspacing : nearest num 1 = roundTo (2 ^ (num.log2 - 52)) num 1 := by
    rw [nearest, Nat.div_one, spacing, Nat.pow_eq]
  rw [hspacing]
  rcases Nat.lt_or_ge num.log2 (k + 54) with hlt | hge
  · obtain ⟨j, hj⟩ : ∃ j, k + 54 = j + 1 + (num.log2 - 52) :=
      ⟨k + 53 - (num.log2 - 52), by omega⟩
    have hmultiple : 2 ^ (k + 54) = 2 * 2 ^ j * 2 ^ (num.log2 - 52) := by
      rw [hj, Nat.pow_add, Nat.pow_succ']
    rw [← lt_iff_of_log2_lt hlt, hmultiple]
    exact roundTo_lt_iff (Nat.two_pow_pos _)
  · -- The power stands below the number, and with it below what the number is rounded to.
    have hne : num ≠ 0 := by
      rintro rfl
      rw [Nat.log2_zero] at hge
      omega
    have hpow : 2 ^ (k + 54) ≤ 2 ^ num.log2 := Nat.pow_le_pow_right (by decide) hge
    have hnum : 2 ^ num.log2 ≤ num := Nat.log2_self_le hne
    have hround := le_roundTo (Nat.pow_dvd_pow 2 (Nat.sub_le num.log2 52)) hnum
    exact iff_of_false (Nat.not_lt.mpr (hpow.trans hround))
      (Nat.not_lt.mpr ((hpow.trans hnum).trans (Nat.le_add_right num _)))

/-- A natural number is rounded in units as it is in quanta. -/
lemma nearest_mul_lt_iff (q : ℕ) :
    nearest (n * 2 ^ q) 1 < 2 ^ (k + 54) * 2 ^ q ↔ n < 2 ^ (k + 54) - 2 ^ k := by
  have hpow (j : ℕ) : 2 ^ (j + 54) * 2 ^ q = 2 ^ (j + q + 54) := by
    rw [← Nat.pow_add, Nat.add_right_comm]
  rw [hpow, nearest_lt_iff, ← hpow, Nat.pow_add 2 k q, ← Nat.add_mul,
    Nat.mul_lt_mul_right (Nat.two_pow_pos q), Nat.lt_sub_iff_add_lt]

/-- The numbers from the least one on are those that are read as infinite. -/
theorem ofDecimal_eq_infinite_iff {negative : Bool} :
    ofDecimal negative n 0 = .infinite negative ↔ leastInfinite ≤ n := by
  have hnearest : nearest (n * quantaInOne) (Nat.pow 10 0) < overflow ↔ n < leastInfinite := by
    unfold overflow quantaInOne leastInfinite
    have hbits : 1024 = 970 + 54 := rfl
    rw [hbits]
    generalize 1074 = q
    generalize 970 = k
    exact nearest_mul_lt_iff q
  rw [ofDecimal]
  split_ifs with h
  · simp [Nat.not_le.mpr (hnearest.mp h)]
  · simpa using (not_congr hnearest).mp h

end InertText.Number
