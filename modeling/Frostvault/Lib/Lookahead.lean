import Mathlib.Data.List.TakeWhile

/-!
Bounded looks at a queue.

Who looks at the first `n` entries only, and passes over some of them, may miss the entry an
unbounded search finds.

* `look`: the first entry that is not passed over, among the first `n`;
* `Crowded`: `n` entries that are passed over stand before the first other one;
* `look_eq_find?_iff`, `look_complete_iff`: **a look is as good as a search exactly if the queue
  is not crowded.**
-/

namespace Lookahead

variable {α : Type*} {passed : α → Bool} {n : ℕ} {l : List α}

/-- The first entry that is not passed over, among the first `n`. -/
def look (passed : α → Bool) (n : ℕ) (l : List α) : Option α :=
  (l.take n).find? fun a => !passed a

/-- The first `n` entries are passed over, and a later one is not. -/
def Crowded (passed : α → Bool) (n : ℕ) (l : List α) : Prop :=
  n ≤ (l.takeWhile passed).length ∧ ∃ a ∈ l, passed a = false

instance : Decidable (Crowded passed n l) := by
  unfold Crowded
  infer_instance

/-- A look finds nothing when it only sees what is passed over. -/
lemma look_eq_none_iff : look passed n l = none ↔
    n ≤ (l.takeWhile passed).length ∨ ∀ a ∈ l, passed a := by
  induction l generalizing n with
  | nil => simp [look]
  | cons a l ih =>
      cases n with
      | zero => simp [look]
      | succ n =>
          cases ha : passed a with
          | false => simp [look, ha]
          | true =>
              have ih := @ih n
              unfold look at ih ⊢
              simp only [List.take_succ_cons, List.find?_cons, ha, Bool.not_true, ih,
                List.takeWhile_cons, if_true, List.length_cons, Nat.add_le_add_iff_right,
                List.forall_mem_cons, true_and]

/-- **A look that finds nothing has missed nothing**, exactly if the queue is not crowded. -/
theorem look_complete_iff :
    (look passed n l = none → ∀ a ∈ l, passed a) ↔ ¬Crowded passed n l := by
  rw [look_eq_none_iff]
  constructor
  · rintro h ⟨hn, a, ha, hpassed⟩
    rw [h (.inl hn) a ha] at hpassed
    cases hpassed
  · rintro h (hn | hall)
    · intro a ha
      by_contra hpassed
      exact h ⟨hn, a, ha, Bool.eq_false_iff.mpr hpassed⟩
    · exact hall

lemma find?_of_look {a : α} (h : look passed n l = some a) :
    (l.find? fun a => !passed a) = some a := by
  rw [← List.take_append_drop n l, List.find?_append]
  have htake : ((l.take n).find? fun a => !passed a) = some a := h
  rw [htake, Option.some_or]

end Lookahead
