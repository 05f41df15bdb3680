import Mathlib.Algebra.Order.Field.Power
import Mathlib.Data.Nat.Log
import Mathlib.Data.Rat.Floor

/-!
# Rounding to double precision

A finite double as the rational number that it is, and the double next to a rational number: of two
that are equally near the even one. Overflow to the infinities is left out.
-/

namespace WorkflowBoard

/-- The nearest integer, the even one of two. -/
def roundEven (x : ℚ) : ℤ :=
  let n := ⌊x⌋
  let r := x - n
  if r < 1 / 2 then n else if 1 / 2 < r then n + 1 else if n % 2 = 0 then n else n + 1

/-- The exponent of the leading binary digit. -/
def binaryExponent (x : ℚ) : ℤ :=
  let e : ℤ := x.num.natAbs.log2 - x.den.log2
  if 2 ^ e ≤ |x| then e else e - 1

/-- The last place of a double of this size. -/
def lastPlace (x : ℚ) : ℚ := 2 ^ max (binaryExponent x - 52) (-1074)

/-- The double next to `x`. -/
def roundDouble (x : ℚ) : ℚ := roundEven (x / lastPlace x) * lastPlace x

theorem roundEven_intCast (k : ℤ) : roundEven k = k := by
  unfold roundEven
  dsimp only
  rw [Int.floor_intCast, sub_self, if_pos (by norm_num)]

theorem lastPlace_pos (x : ℚ) : 0 < lastPlace x := zpow_pos (by norm_num) _

/-- A multiple of the last place of a number is not rounded. -/
theorem roundDouble_mul_unit {x : ℚ} {k : ℤ} (h : x = k * lastPlace x) : roundDouble x = x := by
  have hk : x / lastPlace x = k := (div_eq_iff (lastPlace_pos x).ne').mpr h
  unfold roundDouble
  rw [hk, roundEven_intCast]
  exact h.symm

theorem binaryExponent_intCast {n : ℤ} (hn : n ≠ 0) :
    binaryExponent n = n.natAbs.log2 := by
  have hle : (2 : ℚ) ^ (n.natAbs.log2 : ℤ) ≤ |(n : ℚ)| := by
    rw [zpow_natCast, ← Int.cast_abs, Int.abs_eq_natAbs]
    exact_mod_cast Nat.log2_self_le (Int.natAbs_ne_zero.mpr hn)
  unfold binaryExponent
  dsimp only
  rw [Rat.num_intCast, Rat.den_intCast]
  have hone : Nat.log2 1 = 0 := by decide
  rw [hone, Nat.cast_zero, sub_zero, if_pos hle]

/-- Integers up to `2 ^ 53` are exact. -/
theorem roundDouble_of_le {n : ℤ} (h : n.natAbs ≤ 2 ^ 53) : roundDouble n = n := by
  by_cases hn : n = 0
  · subst hn
    exact roundDouble_mul_unit (k := 0) (by simp)
  have hexp := binaryExponent_intCast hn
  by_cases hlt : n.natAbs < 2 ^ 53
  · -- The last place is a negative power of two.
    have hlog : n.natAbs.log2 < 53 := (Nat.log2_lt (Int.natAbs_ne_zero.mpr hn)).mpr hlt
    obtain ⟨j, hj⟩ : ∃ j : ℕ, max (binaryExponent n - 52) (-1074) = -(j : ℤ) :=
      ⟨52 - n.natAbs.log2, by omega⟩
    refine roundDouble_mul_unit (k := n * 2 ^ j) ?_
    unfold lastPlace
    rw [hj, zpow_neg, zpow_natCast]
    push_cast
    rw [mul_assoc, mul_inv_cancel₀ (by positivity), mul_one]
  · have heq : n.natAbs = 2 ^ 53 := by omega
    have hplace : lastPlace n = 2 := by
      unfold lastPlace
      rw [hexp, heq, Nat.log2_two_pow]
      norm_num
    refine roundDouble_mul_unit (k := n / 2) ?_
    rw [hplace]
    have heven : n = n / 2 * 2 := by omega
    exact_mod_cast heven

theorem roundEven_le {x : ℚ} {k : ℤ} (h : x ≤ k) : roundEven x ≤ k := by
  have hfloor : (⌊x⌋ : ℚ) ≤ x := Int.floor_le x
  by_cases heq : ⌊x⌋ = k
  · -- Then the number is the integer.
    have hx : x = k := le_antisymm h (heq ▸ hfloor)
    rw [hx, roundEven_intCast]
  · have hlt : ⌊x⌋ + 1 ≤ k := by
      have hle : ⌊x⌋ ≤ k := by exact_mod_cast hfloor.trans h
      omega
    unfold roundEven
    dsimp only
    split_ifs <;> omega

theorem le_roundEven {x : ℚ} {k : ℤ} (h : k ≤ x) : k ≤ roundEven x := by
  have hfloor : k ≤ ⌊x⌋ := Int.le_floor.mpr h
  unfold roundEven
  dsimp only
  split_ifs <;> omega

/-- An integer beyond `2 ^ 53` is not rounded to less. -/
theorem le_abs_roundDouble {n : ℤ} (h : 2 ^ 53 ≤ n.natAbs) : 2 ^ 53 ≤ |roundDouble n| := by
  have hn : n ≠ 0 := by
    rintro rfl
    simp at h
  have hlog : 53 ≤ n.natAbs.log2 := (Nat.le_log2 (Int.natAbs_ne_zero.mpr hn)).mpr h
  obtain ⟨j, hj⟩ : ∃ j : ℕ, n.natAbs.log2 = 52 + j := ⟨n.natAbs.log2 - 52, by omega⟩
  have hplace : lastPlace n = 2 ^ j := by
    unfold lastPlace
    rw [binaryExponent_intCast hn, hj, max_eq_left (by omega)]
    rw [← zpow_natCast]
    congr 1
    omega
  have hpow : (2 : ℚ) ^ 52 * 2 ^ j ≤ |(n : ℚ)| := by
    rw [← pow_add, ← hj, ← Int.cast_abs, Int.abs_eq_natAbs]
    exact_mod_cast Nat.log2_self_le (Int.natAbs_ne_zero.mpr hn)
  have htwo : (0 : ℚ) < 2 ^ j := by positivity
  have hbig : (2 : ℚ) ^ 53 ≤ 2 ^ 52 * 2 ^ j := by
    rw [← pow_add]
    exact pow_le_pow_right₀ (by norm_num) (by omega)
  -- What is rounded is at least `2 ^ 52` of the last place, on either side of zero.
  have hround : 2 ^ 52 ≤ |roundEven ((n : ℚ) / 2 ^ j)| := by
    rcases le_total 0 (n : ℚ) with hpos | hneg
    · rw [abs_of_nonneg hpos] at hpow
      have hle : ((2 ^ 52 : ℤ) : ℚ) ≤ n / 2 ^ j := by
        rw [le_div_iff₀ htwo]
        exact_mod_cast hpow
      exact (le_roundEven hle).trans (le_abs_self _)
    · rw [abs_of_nonpos hneg] at hpow
      have hle : (n : ℚ) / 2 ^ j ≤ ((-2 ^ 52 : ℤ) : ℚ) := by
        rw [div_le_iff₀ htwo]
        push_cast
        linarith
      have hneg := roundEven_le hle
      rw [abs_of_nonpos (by omega)]
      omega
  have hcast : (2 : ℚ) ^ 52 ≤ |(roundEven ((n : ℚ) / 2 ^ j) : ℚ)| := by
    rw [← Int.cast_abs]
    exact_mod_cast hround
  unfold roundDouble
  rw [hplace, abs_mul, abs_of_pos htwo]
  exact hbig.trans (mul_le_mul_of_nonneg_right hcast htwo.le)

/-- No other integer is rounded to less. -/
theorem eq_of_roundDouble_lt {n : ℤ} (h : |roundDouble n| < 2 ^ 53) : roundDouble n = n := by
  by_cases hsmall : n.natAbs ≤ 2 ^ 53
  · exact roundDouble_of_le hsmall
  · exact absurd h (not_lt.mpr (le_abs_roundDouble (by omega)))

end WorkflowBoard
