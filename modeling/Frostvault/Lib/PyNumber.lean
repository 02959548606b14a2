import Frostvault.Lib.Binary64

/-!
Finite numbers of Python: whole numbers of any size, and binary64 numbers.

An operation on two whole numbers is exact; when one operand is a binary64 number, both are
converted to that format and the result is rounded to it.  Comparisons are exact.

* `Is`: what a number stands for, when that is a whole number below 2^53;
* `is_add`, `is_sub`, `is_mul`, `is_floordiv`, `is_min`, `is_max`: **there every operation is
  exact**, whatever the operands are written as.
-/

/-- A finite number. -/
inductive PyNumber
  | int (n : ℤ)
  | float (q : ℚ)
  deriving DecidableEq

namespace PyNumber

/-- What a number stands for. -/
def value : PyNumber → ℚ
  | int n => n
  | float q => q

/-- A number converted to binary64. -/
def toFloat : PyNumber → ℚ
  | int n => Binary64.nearest n
  | float q => q

/-- An operation on numbers, from those on whole numbers and on binary64 numbers. -/
def combine (onInts : ℤ → ℤ → ℤ) (onFloats : ℚ → ℚ → ℚ) : PyNumber → PyNumber → PyNumber
  | int m, int n => int (onInts m n)
  | a, b => float (Binary64.nearest (onFloats a.toFloat b.toFloat))

def add : PyNumber → PyNumber → PyNumber := combine (· + ·) (· + ·)

def sub : PyNumber → PyNumber → PyNumber := combine (· - ·) (· - ·)

def mul : PyNumber → PyNumber → PyNumber := combine (· * ·) (· * ·)

/-- `//`. -/
def floordiv : PyNumber → PyNumber → PyNumber := combine Int.fdiv fun a b => ⌊a / b⌋

/-- `min(a, b)`: the first one, unless the second is smaller. -/
def min (a b : PyNumber) : PyNumber := if b.value < a.value then b else a

/-- `max(a, b)`: the first one, unless the second is larger. -/
def max (a b : PyNumber) : PyNumber := if a.value < b.value then b else a

/-! ### Whole values -/

/-- The number stands for a whole number that is exact in binary64. -/
def Is (a : PyNumber) (n : ℤ) : Prop := a.value = n ∧ |n| < 2 ^ 53

lemma toFloat_of_is {a : PyNumber} {n : ℤ} (h : a.Is n) : a.toFloat = n := by
  obtain ⟨hvalue, hbound⟩ := h
  cases a with
  | int m =>
      obtain rfl : m = n := Int.cast_injective (α := ℚ) hvalue
      exact Binary64.nearest_intCast hbound
  | float q => exact hvalue

/-- An operation that agrees on whole numbers is exact there. -/
lemma is_combine {onInts : ℤ → ℤ → ℤ} {onFloats : ℚ → ℚ → ℚ} {a b : PyNumber} {m n : ℤ}
    (ha : a.Is m) (hb : b.Is n) (hop : onFloats m n = onInts m n) (hr : |onInts m n| < 2 ^ 53) :
    (combine onInts onFloats a b).Is (onInts m n) := by
  have hround : Binary64.nearest (onFloats a.toFloat b.toFloat) = onInts m n := by
    rw [toFloat_of_is ha, toFloat_of_is hb, hop, Binary64.nearest_intCast hr]
  refine ⟨?_, hr⟩
  cases a with
  | float q => exact hround
  | int i =>
      cases b with
      | float q => exact hround
      | int j =>
          obtain rfl : i = m := Int.cast_injective (α := ℚ) ha.1
          obtain rfl : j = n := Int.cast_injective (α := ℚ) hb.1
          rfl

variable {a b : PyNumber} {m n : ℤ}

section

variable (ha : a.Is m)

include ha

section

variable (hb : b.Is n)

include hb

lemma is_add (hr : |m + n| < 2 ^ 53) : (add a b).Is (m + n) :=
  is_combine ha hb (by push_cast; rfl) hr

lemma is_sub (hr : |m - n| < 2 ^ 53) : (sub a b).Is (m - n) :=
  is_combine ha hb (by push_cast; rfl) hr

lemma is_mul (hr : |m * n| < 2 ^ 53) : (mul a b).Is (m * n) :=
  is_combine ha hb (by push_cast; rfl) hr

lemma is_floordiv (hn : 0 ≤ n) (hr : |m / n| < 2 ^ 53) :
    (floordiv a b).Is (m / n) := by
  rw [← Int.fdiv_eq_ediv_of_nonneg m hn] at hr ⊢
  refine is_combine ha hb ?_ hr
  rw [Int.fdiv_eq_ediv_of_nonneg m hn]
  obtain ⟨k, rfl⟩ := Int.eq_ofNat_of_zero_le hn
  exact_mod_cast congrArg (Int.cast (R := ℚ)) (Rat.floor_intCast_div_natCast m k)

lemma is_min : (min a b).Is (Min.min m n) := by
  unfold min
  have hlt : b.value < a.value ↔ n < m := by
    rw [ha.1, hb.1]
    exact_mod_cast Iff.rfl
  split_ifs with h
  · rwa [min_eq_right (hlt.mp h).le]
  · rwa [min_eq_left (not_lt.mp fun hnm => h (hlt.mpr hnm))]

lemma is_max : (max a b).Is (Max.max m n) := by
  unfold max
  have hlt : a.value < b.value ↔ m < n := by
    rw [ha.1, hb.1]
    exact_mod_cast Iff.rfl
  split_ifs with h
  · rwa [max_eq_right (hlt.mp h).le]
  · rwa [max_eq_left (not_lt.mp fun hmn => h (hlt.mpr hmn))]

end

end

lemma is_int (h : |n| < 2 ^ 53) : (int n).Is n := ⟨rfl, h⟩

end PyNumber
