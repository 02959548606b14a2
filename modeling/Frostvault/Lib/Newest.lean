import Mathlib.Data.List.Sort

/-!
What a list sorted newest first has behind its first entries.

* `descending`: the greatest first;
* `drop_descending_of_length_le`: nothing is left behind as many as there are;
* `exists_least`: **of one more than that, the least is left**;
* `drop_descending_of_least`: it is the least that is left.
-/

namespace Newest

variable {α : Type*} [LinearOrder α] {l : List α} {keep : ℕ}

/-- The greatest first. -/
def descending (l : List α) : List α := l.insertionSort (· ≥ ·)

@[simp] lemma mem_descending {x : α} : x ∈ descending l ↔ x ∈ l :=
  List.mem_insertionSort (· ≥ ·)

@[simp] lemma length_descending : (descending l).length = l.length :=
  List.length_insertionSort (· ≥ ·) l

lemma drop_descending_of_length_le (h : l.length ≤ keep) : (descending l).drop keep = [] :=
  List.drop_of_length_le (by rwa [length_descending])

/-- **Of one more, the least is left.** -/
lemma exists_least (h : l.length = keep + 1) :
    ∃ o ∈ l, (descending l).drop keep = [o] ∧ ∀ x ∈ l, x ≠ o → o < x := by
  have hlength : (descending l).length = keep + 1 := by rw [length_descending, h]
  have hkeep : keep < (descending l).length := by omega
  have hsorted : (descending l).Pairwise (· ≥ ·) := List.pairwise_insertionSort _ l
  refine ⟨(descending l)[keep], mem_descending.mp (List.getElem_mem hkeep), ?_, ?_⟩
  · rw [List.drop_eq_getElem_cons hkeep, List.drop_of_length_le (by omega)]
  · intro x hx hne
    obtain ⟨i, hi, rfl⟩ := List.getElem_of_mem (mem_descending.mpr hx)
    have hik : i < keep := by
      rcases Nat.lt_or_ge i keep with hlt | hge
      · exact hlt
      · obtain rfl : i = keep := by omega
        exact absurd rfl hne
    have hge := List.pairwise_iff_getElem.mp hsorted i keep hi hkeep hik
    exact lt_of_le_of_ne hge (Ne.symm hne)

lemma drop_descending_of_least (h : l.length = keep + 1) {o : α} (ho : o ∈ l)
    (hleast : ∀ x ∈ l, x ≠ o → o < x) : (descending l).drop keep = [o] := by
  obtain ⟨o', ho', hdrop, hleast'⟩ := exists_least h
  have heq : o' = o := by
    by_contra hne
    exact lt_asymm (hleast o' ho' hne) (hleast' o ho (Ne.symm hne))
  rw [hdrop, heq]

end Newest
