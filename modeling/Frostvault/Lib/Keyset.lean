import Mathlib.Data.List.Infix

/-!
Keyset pagination over sorted rows.

A page is the first `n` rows whose key lies above the last key read.  The rows may change
between two pages; what is fixed is a part of them, selected by a predicate.

* `after_eq_page_append`: the rows above a key are one page and the rows above its last key;
* `filter_after_eq_page_append`: the same for the rows selected by a predicate;
* `page_eq_after_of_short`: a short page is the last one.
-/

namespace Keyset

variable {α κ : Type*} (key : α → κ) (lt : κ → κ → Bool)

/-- The rows above a key. -/
def after (k : κ) (rows : List α) : List α := rows.filter fun r => lt k (key r)

/-- One page of at most `n` rows above a key. -/
def page (k : κ) (n : ℕ) (rows : List α) : List α := (after key lt k rows).take n

/-- The key the next page starts from: the last one of the page, if there is one. -/
def nextKey (k : κ) (rows : List α) : κ := (rows.getLast?.map key).getD k

/-- Rows listed in strictly increasing order of their keys. -/
def Ascending (rows : List α) : Prop := rows.Pairwise fun a b => lt (key a) (key b) = true

variable {key lt}

lemma Ascending.filter {rows : List α} (h : Ascending key lt rows) (q : α → Bool) :
    Ascending key lt (rows.filter q) :=
  List.Pairwise.filter q h

lemma after_filter (k : κ) (q : α → Bool) (rows : List α) :
    after key lt k (rows.filter q) = (after key lt k rows).filter q := by
  simp only [after, List.filter_filter, Bool.and_comm]

lemma page_eq_after_of_short (k : κ) (n : ℕ) (rows : List α)
    (h : (page key lt k n rows).length < n) : page key lt k n rows = after key lt k rows := by
  rw [page, List.length_take] at h
  exact List.take_of_length_le (by omega)

section Order

variable (htrans : ∀ a b c, lt a b → lt b c → lt a c)
  (hirrefl : ∀ a, lt a a = false)

include htrans hirrefl

/-- Above the last key of an initial segment lies exactly the rest. -/
lemma after_last_of_ascending (xs : List α) (x : α) (ys : List α)
    (h : Ascending key lt (xs ++ x :: ys)) :
    after key lt (key x) (xs ++ x :: ys) = ys := by
  obtain ⟨-, hy, hxy⟩ := List.pairwise_append.mp h
  obtain ⟨hx, -⟩ := List.pairwise_cons.mp hy
  have h1 : xs.filter (fun r => lt (key x) (key r)) = [] := by
    rw [List.filter_eq_nil_iff]
    intro r hr hlt
    have := htrans _ _ _ hlt (hxy r hr x List.mem_cons_self)
    rw [hirrefl] at this
    exact Bool.false_ne_true this
  have h2 : ys.filter (fun r => lt (key x) (key r)) = ys :=
    List.filter_eq_self.mpr hx
  rw [after, List.filter_append, List.filter_cons, h1, h2]
  simp [hirrefl]

/-- **One page at a time.**  The rows above a key are one page followed by the rows above
the key the page ends with. -/
lemma after_eq_page_append {rows : List α} (h : Ascending key lt rows) (k : κ) (n : ℕ) :
    after key lt k rows = page key lt k n rows ++
      after key lt (nextKey key k (page key lt k n rows)) rows ∨
      page key lt k n rows = [] := by
  rcases List.eq_nil_or_concat (page key lt k n rows) with hnil | ⟨xs, x, hx⟩
  · exact Or.inr hnil
  · left
    have hsplit : after key lt k rows = xs ++ x :: (after key lt k rows).drop n := by
      conv_lhs => rw [← List.take_append_drop n (after key lt k rows)]
      rw [page] at hx
      rw [hx]
      simp
    have hkx : lt k (key x) := by
      have hmem : x ∈ after key lt k rows := by
        rw [hsplit]
        simp
      exact (List.mem_filter.mp hmem).2
    -- the rows above the last key are among the rows above the first one
    have hafter : after key lt (key x) rows = after key lt (key x) (after key lt k rows) := by
      simp only [after, List.filter_filter]
      refine List.filter_congr fun r _ => ?_
      cases hr : lt (key x) (key r)
      · rfl
      · simp [htrans _ _ _ hkx hr]
    have hasc : Ascending key lt (xs ++ x :: (after key lt k rows).drop n) :=
      hsplit ▸ h.filter _
    have hrest := after_last_of_ascending htrans hirrefl _ _ _ hasc
    rw [← hsplit] at hrest
    rw [hx, nextKey, List.concat_eq_append, List.getLast?_concat, Option.map_some,
      Option.getD_some, hafter, hrest]
    conv_lhs => rw [hsplit]
    simp

lemma filter_after_eq_page_append {rows : List α} (h : Ascending key lt rows) (q : α → Bool)
    (k : κ) (n : ℕ) (hne : page key lt k n rows ≠ []) :
    after key lt k (rows.filter q) = (page key lt k n rows).filter q ++
      after key lt (nextKey key k (page key lt k n rows)) (rows.filter q) := by
  rcases after_eq_page_append htrans hirrefl h k n with heq | hnil
  · rw [after_filter, heq, List.filter_append, after_filter]
  · exact absurd hnil hne

end Order

end Keyset
