import Mathlib.Data.List.Flatten
import Mathlib.Data.List.Range

/-!
Pages of a list by number (`LIMIT n OFFSET (page - 1) * n`), and a list whose pages are put
together from two sources, one behind the other.

* `flatten_pages`: the first `k` pages are the first `k * n` elements;
* `flatten_pages_of_le`: enough pages are the whole list, each element once;
* `behind`, `behind_eq_page`: **a page read from two sources** is the page of the first source
  followed by the second, also where it crosses from one to the other.
-/

namespace Paging

variable {α : Type*}

/-- The elements of one page; pages are counted from `0`. -/
def page (n : ℕ) (xs : List α) (k : ℕ) : List α := (xs.drop (k * n)).take n

/-- **Pages put together**: the first `k` pages are the first `k * n` elements. -/
lemma flatten_pages (n : ℕ) (xs : List α) (k : ℕ) :
    ((List.range k).map (page n xs)).flatten = xs.take (k * n) := by
  induction k with
  | zero => simp
  | succ k ih =>
      rw [List.range_succ, List.map_append, List.flatten_append, ih, Nat.succ_mul, List.take_add]
      simp [page]

lemma flatten_pages_of_le {n k : ℕ} {xs : List α} (h : xs.length ≤ k * n) :
    ((List.range k).map (page n xs)).flatten = xs := by
  rw [flatten_pages, List.take_of_length_le h]

/-- A page read from two sources: from the first one as long as the page begins in it, filled up
from the start of the second; behind the first one, from the second alone. -/
def behind (n : ℕ) (xs ys : List α) (offset : ℕ) : List α :=
  if offset < xs.length then
    let items := (xs.drop offset).take n
    items ++ if 0 < n - items.length then ys.take (n - items.length) else []
  else (ys.drop (offset - xs.length)).take n

/-- **A page read from two sources** is the page of the two lists put together. -/
lemma behind_eq_page (n : ℕ) (xs ys : List α) (k : ℕ) :
    behind n xs ys (k * n) = page n (xs ++ ys) k := by
  rw [behind, page]
  by_cases h : k * n < xs.length
  · rw [if_pos h, List.drop_append_of_le_length h.le, List.take_append]
    have hlen : n - ((xs.drop (k * n)).take n).length = n - (xs.drop (k * n)).length := by
      rw [List.length_take]
      omega
    simp only [hlen]
    split
    · rfl
    · rename_i hfull
      rw [Nat.eq_zero_of_not_pos hfull, List.take_zero]
  · rw [if_neg h, List.drop_append, List.drop_eq_nil_of_le (not_lt.mp h), List.nil_append]

end Paging
