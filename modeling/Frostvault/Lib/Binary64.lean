import Mathlib.Data.Int.Log
import Mathlib.Data.Rat.Floor
import Mathlib.Algebra.Order.Field.Power
import Mathlib.Tactic.Positivity

/-!
Numbers of the binary64 format, as exact rationals.

* `Binary64`: a finite number, an infinity, or no number; the two zeros are one;
* `nearest`: the rational rounded to 53 binary digits, ties to even;
* `round`: the same, with what is too large an infinity;
* `nearest_intCast`: **whole numbers below 2^53 are exact**;
* `abs_nearest_sub_lt`: how far a rounded number is off.
-/

/-- A binary64 number. -/
inductive Binary64
  | finite (q : ℚ)
  | infinite (negative : Bool)
  | nan
  deriving DecidableEq

namespace Binary64

/-- The whole number nearest to a rational; of two, the even one. -/
def roundHalfEven (q : ℚ) : ℤ :=
  let r := q - ⌊q⌋
  if r < 1 / 2 then ⌊q⌋
  else if 1 / 2 < r then ⌊q⌋ + 1
  else if ⌊q⌋ % 2 = 0 then ⌊q⌋ else ⌊q⌋ + 1

@[simp]
lemma roundHalfEven_intCast (n : ℤ) : roundHalfEven n = n := by
  simp [roundHalfEven]

/-- The distance of neighbours near a rational. -/
def ulp (q : ℚ) : ℚ := 2 ^ (max (Int.log 2 |q|) (-1022) - 52)

/-- A rational rounded to the precision of the format. -/
def nearest (q : ℚ) : ℚ := roundHalfEven (q / ulp q) * ulp q

/-- A rational rounded to the format. -/
def round (q : ℚ) : Binary64 :=
  if |nearest q| < 2 ^ 1024 then .finite (nearest q) else .infinite (q < 0)

/-- A rational that is a whole multiple of the distance of its neighbours is exact. -/
lemma nearest_eq_self {q : ℚ} {m : ℤ} (h : q = m * ulp q) : nearest q = q := by
  have hpos : ulp q ≠ 0 := by
    unfold ulp
    positivity
  have hdiv : q / ulp q = m := by
    rw [div_eq_iff hpos]
    exact h
  rw [nearest, hdiv, roundHalfEven_intCast, ← h]

/-- **Whole numbers below 2^53 are exact.** -/
theorem nearest_intCast {n : ℤ} (h : |n| < 2 ^ 53) : nearest n = n := by
  by_cases hn : n = 0
  · have hzero : roundHalfEven 0 = 0 := by
      rw [← Int.cast_zero, roundHalfEven_intCast]
    rw [hn, Int.cast_zero, nearest, zero_div, hzero, Int.cast_zero, zero_mul]
  · have habs : (1 : ℚ) ≤ |(n : ℚ)| := by
      rw [← Int.cast_abs]
      exact_mod_cast Int.one_le_abs hn
    have hlow : 0 ≤ Int.log 2 |(n : ℚ)| := by
      rw [← Int.zpow_le_iff_le_log (by norm_num) (by linarith)]
      simpa using habs
    have hhigh : Int.log 2 |(n : ℚ)| < 53 := by
      rw [← Int.lt_zpow_iff_log_lt (by norm_num) (by linarith), ← Int.cast_abs]
      exact_mod_cast h
    obtain ⟨k, hk⟩ := Int.eq_ofNat_of_zero_le (show 0 ≤ 52 - Int.log 2 |(n : ℚ)| by omega)
    have hulp : ulp n = (2 : ℚ) ^ (-(k : ℤ)) := by
      rw [ulp, max_eq_left (by omega)]
      congr 1
      omega
    refine nearest_eq_self (m := n * 2 ^ k) ?_
    rw [hulp, zpow_neg, zpow_natCast]
    push_cast
    rw [mul_assoc, mul_inv_cancel₀ (by positivity), mul_one]

lemma abs_roundHalfEven_sub_le (q : ℚ) : |(roundHalfEven q : ℚ) - q| ≤ 1 / 2 := by
  have hlow := Int.floor_le q
  have hhigh := Int.lt_floor_add_one q
  rw [abs_le]
  unfold roundHalfEven
  dsimp only
  split_ifs <;> push_cast <;> constructor <;> linarith

/-- A number below a power of two is off by less than the distance of its neighbours there. -/
lemma abs_nearest_sub_lt {q : ℚ} {k : ℤ} (hk : 0 < k) (h : |q| < 2 ^ k) :
    |nearest q - q| < 2 ^ (k - 53) := by
  have hpos : 0 < ulp q := by
    unfold ulp
    positivity
  have hulp : ulp q ≤ 2 ^ (k - 53) := by
    refine zpow_le_zpow_right₀ (by norm_num) ?_
    by_cases hq : q = 0
    · simp only [hq, abs_zero, Int.log_zero_right]
      omega
    · have hlog : Int.log 2 |q| < k :=
        (Int.lt_zpow_iff_log_lt (by norm_num) (abs_pos.mpr hq)).mp (by exact_mod_cast h)
      omega
  have herror : nearest q - q = (roundHalfEven (q / ulp q) - q / ulp q) * ulp q := by
    rw [nearest, sub_mul, div_mul_cancel₀ q hpos.ne']
  rw [herror, abs_mul, abs_of_pos hpos]
  have hhalf := abs_roundHalfEven_sub_le (q / ulp q)
  nlinarith

end Binary64
