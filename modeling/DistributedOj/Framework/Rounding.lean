import Mathlib

/-!
# Rounding to binary digits

`roundBits p q` is the number of `p` binary digits that is nearest to `q`, and of
two equally near the one whose last digit is 0. The exponent has no bounds, so what
is not 0 does not become 0: a sign is kept (`roundBits_nonneg_iff`). A number that
has `p` digits stays as it is (`roundBits_of_digits`), and no other more than doubles
(`roundBits_le`).
-/

namespace OJ.Framework

/-- The nearest integer, and of two the even one. -/
def roundEven (q : ℚ) : ℤ :=
  if q - ⌊q⌋ < 1 / 2 ∨ q - ⌊q⌋ = 1 / 2 ∧ ⌊q⌋ % 2 = 0 then ⌊q⌋ else ⌊q⌋ + 1

/-- The unit of the last of `p` binary digits. -/
def ulp (p : ℕ) (q : ℚ) : ℚ := 2 ^ (Int.log 2 |q| + 1 - p)

def roundBits (p : ℕ) (q : ℚ) : ℚ := roundEven (q / ulp p q) * ulp p q

@[simp] theorem roundEven_intCast (n : ℤ) : roundEven n = n := by
  rw [roundEven, Int.floor_intCast, sub_self, if_pos (.inl (by norm_num))]

/-- No integer lies between a number and what it is rounded to. -/
theorem le_roundEven {n : ℤ} {q : ℚ} (h : n ≤ q) : n ≤ roundEven q := by
  refine (Int.le_floor.mpr h).trans ?_
  rw [roundEven]
  split
  · exact le_rfl
  · omega

theorem roundEven_le {n : ℤ} {q : ℚ} (h : q ≤ n) : roundEven q ≤ n := by
  rcases h.eq_or_lt with rfl | hlt
  · rw [roundEven_intCast]
  · have hfloor : ⌊q⌋ < n := Int.floor_lt.mpr hlt
    rw [roundEven]
    split
    · omega
    · omega

theorem ulp_pos (p : ℕ) (q : ℚ) : 0 < ulp p q := zpow_pos (by norm_num) _

/-- The digits of a number, as an integer, are at least 1. -/
theorem one_le_div_ulp {p : ℕ} (hp : 0 < p) {q : ℚ} (hq : q ≠ 0) : 1 ≤ |q| / ulp p q := by
  rw [one_le_div (ulp_pos p q), ulp]
  have hle : ((2 : ℕ) : ℚ) ^ Int.log 2 |q| ≤ |q| := Int.zpow_log_le_self (by decide) (abs_pos.mpr hq)
  refine le_trans (zpow_le_zpow_right₀ (by norm_num) ?_) hle
  omega

@[simp] theorem roundBits_zero (p : ℕ) : roundBits p 0 = 0 := by
  have h : roundEven 0 = 0 := roundEven_intCast 0
  rw [roundBits, zero_div, h, Int.cast_zero, zero_mul]

theorem roundBits_nonneg_iff {p : ℕ} (hp : 0 < p) {q : ℚ} : 0 ≤ roundBits p q ↔ 0 ≤ q := by
  rw [roundBits, mul_nonneg_iff_of_pos_right (ulp_pos p q), Int.cast_nonneg_iff]
  constructor
  · intro h
    by_contra hneg
    have hq : q < 0 := not_le.mp hneg
    have hone := one_le_div_ulp hp hq.ne
    rw [abs_of_neg hq, neg_div, le_neg] at hone
    have hround : roundEven (q / ulp p q) ≤ -1 := roundEven_le (by push_cast; linarith)
    omega
  · intro h
    exact le_roundEven (by exact_mod_cast div_nonneg h (ulp_pos p q).le)

theorem roundBits_le {p : ℕ} (hp : 0 < p) {q : ℚ} (hq : 0 ≤ q) : roundBits p q ≤ 2 * q := by
  rcases hq.eq_or_lt with rfl | hpos
  · rw [roundBits_zero, mul_zero]
  · have hone := one_le_div_ulp hp hpos.ne'
    rw [abs_of_pos hpos] at hone
    have hround : (roundEven (q / ulp p q) : ℚ) ≤ q / ulp p q + 1 :=
      (Int.cast_le.mpr (roundEven_le (Int.le_ceil _))).trans (Int.ceil_lt_add_one _).le
    calc roundBits p q ≤ (q / ulp p q + q / ulp p q) * ulp p q :=
          mul_le_mul_of_nonneg_right (hround.trans (by linarith)) (ulp_pos p q).le
      _ = 2 * q := by
          rw [← two_mul, mul_assoc, div_mul_cancel₀ q (ulp_pos p q).ne']

/-- A number of `p` digits, `k` of them after the point. -/
theorem roundBits_of_digits {p : ℕ} {n : ℤ} (hn : |n| < 2 ^ p) (k : ℕ) :
    roundBits p (n / 2 ^ k) = n / 2 ^ k := by
  rcases eq_or_ne n 0 with rfl | hne
  · simp
  have hq : (n : ℚ) / 2 ^ k ≠ 0 := div_ne_zero (Int.cast_ne_zero.mpr hne) (by positivity)
  have hlog : Int.log 2 |(n : ℚ) / 2 ^ k| < p - k := by
    refine (Int.lt_zpow_iff_log_lt (by decide) (abs_pos.mpr hq)).mp ?_
    rw [abs_div, abs_of_pos (by positivity : (0 : ℚ) < 2 ^ k), div_lt_iff₀ (by positivity), ← zpow_natCast,
      Nat.cast_ofNat, ← zpow_add₀ (by norm_num), sub_add_cancel, zpow_natCast]
    exact_mod_cast hn
  -- In the unit of its last digit the number is an integer.
  obtain ⟨m, hm⟩ : ∃ m : ℤ, (n : ℚ) / 2 ^ k / ulp p (n / 2 ^ k) = m := by
    rw [ulp]
    generalize Int.log 2 |(n : ℚ) / 2 ^ k| = e at hlog
    obtain ⟨j, hj⟩ : ∃ j : ℕ, (k : ℤ) + (e + 1 - p) = -j := ⟨(p - k - (e + 1)).toNat, by omega⟩
    refine ⟨n * 2 ^ j, ?_⟩
    rw [div_div, ← zpow_natCast 2 k, ← zpow_add₀ (by norm_num), hj, zpow_neg, div_inv_eq_mul]
    norm_cast
  rw [roundBits, hm, roundEven_intCast, ← hm, div_mul_cancel₀ _ (ulp_pos _ _).ne']

end OJ.Framework
