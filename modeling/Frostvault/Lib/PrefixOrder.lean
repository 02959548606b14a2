import Mathlib.Data.List.Infix
import Mathlib.Data.List.Lex
import Mathlib.Data.List.Sort

/-!
Prefixes in a sorted list of texts.

In the lexicographic order the texts with a given prefix stand together, right behind it.  So a
sorted list in which no text is a prefix of the next one has no two texts of which one is a prefix
of the other.

* `isPrefix_of_between`: what stands between a text and a longer one has the same prefix;
* `Apart`, `pairwise_apart_iff_getElem?`: neither text is a prefix of the other;
* `pairwise_apart_iff_chain`: **the neighbours decide**;
* `pairwise_apart_iff_sorted`: for a list in any order, those of the sorted one.
-/

namespace PrefixOrder

variable {α : Type*} {a b c : List α} {l : List (List α)}

/-- Neither text is a prefix of the other. -/
def Apart (a b : List α) : Prop := ¬a <+: b ∧ ¬b <+: a

lemma Apart.symm (h : Apart a b) : Apart b a := ⟨h.2, h.1⟩

lemma pairwise_apart_iff_getElem? {β : Type*} (f : β → List α) (l : List β) :
    l.Pairwise (fun x y => Apart (f x) (f y)) ↔
      ∀ (i j : ℕ) (x y : β), i ≠ j → l[i]? = some x → l[j]? = some y → ¬f x <+: f y := by
  rw [List.pairwise_iff_getElem]
  constructor
  · intro h i j x y hij hx hy
    obtain ⟨hi, rfl⟩ := List.getElem?_eq_some_iff.mp hx
    obtain ⟨hj, rfl⟩ := List.getElem?_eq_some_iff.mp hy
    rcases Nat.lt_or_gt_of_ne hij with hlt | hlt
    · exact (h i j hi hj hlt).1
    · exact (h j i hj hi hlt).2
  · intro h i j hi hj hij
    have hx := List.getElem?_eq_getElem hi
    have hy := List.getElem?_eq_getElem hj
    exact ⟨h i j _ _ (ne_of_lt hij) hx hy, h j i _ _ (ne_of_gt hij) hy hx⟩

variable [LinearOrder α]

lemma cons_le_cons_iff {x y : α} : x :: a ≤ y :: b ↔ x < y ∨ x = y ∧ a ≤ b := by
  rw [le_iff_lt_or_eq, List.cons_lt_cons_iff, le_iff_lt_or_eq, List.cons.injEq]
  tauto

lemma nil_le (b : List α) : [] ≤ b := by
  cases b with
  | nil => exact le_refl _
  | cons y b => exact le_of_lt List.Lex.nil

lemma le_of_isPrefix (h : a <+: b) : a ≤ b := by
  induction a generalizing b with
  | nil => exact nil_le b
  | cons x a ih =>
      obtain ⟨t, rfl⟩ := h
      exact cons_le_cons_iff.mpr (.inr ⟨rfl, ih (List.prefix_append a t)⟩)

/-- **What stands between a text and a longer one** has the text as a prefix. -/
lemma isPrefix_of_between (h : a <+: c) (hab : a ≤ b) (hbc : b ≤ c) : a <+: b := by
  induction a generalizing b c with
  | nil => exact List.nil_prefix
  | cons x a ih =>
      obtain ⟨t, rfl⟩ := h
      cases b with
      | nil => exact absurd hab (not_le_of_gt List.Lex.nil)
      | cons y b =>
          rw [List.cons_append] at hbc
          rcases cons_le_cons_iff.mp hab with hxy | ⟨rfl, htail⟩
          · rcases cons_le_cons_iff.mp hbc with hyx | ⟨rfl, -⟩
            · exact absurd hyx (lt_asymm hxy)
            · exact absurd hxy (lt_irrefl _)
          · rcases cons_le_cons_iff.mp hbc with hxx | ⟨-, hbc⟩
            · exact absurd hxx (lt_irrefl _)
            · exact List.cons_prefix_cons.mpr ⟨rfl, ih (List.prefix_append a t) htail hbc⟩

/-- **The neighbours decide**: in a sorted list no text is a prefix of the next one exactly if
any two are apart. -/
lemma pairwise_apart_iff_chain (hl : l.Pairwise (· ≤ ·)) :
    l.IsChain (fun a b => ¬a <+: b) ↔ l.Pairwise Apart := by
  constructor
  · intro h
    induction l with
    | nil => exact .nil
    | cons a l ih =>
        obtain ⟨hle, hl⟩ := List.pairwise_cons.mp hl
        refine List.pairwise_cons.mpr ⟨fun c hc => ?_, ih hl (List.isChain_of_isChain_cons h)⟩
        have hnot : ¬a <+: c := by
          intro hac
          cases l with
          | nil => cases hc
          | cons b l =>
              -- the next text stands between the two
              have hbc : b ≤ c := by
                rcases List.mem_cons.mp hc with rfl | hc
                · exact le_refl _
                · exact (List.pairwise_cons.mp hl).1 c hc
              exact (List.isChain_cons_cons.mp h).1
                (isPrefix_of_between hac (hle b List.mem_cons_self) hbc)
        refine ⟨hnot, fun hca => hnot ?_⟩
        rw [le_antisymm (hle c hc) (le_of_isPrefix hca)]
  · exact fun h => (h.imp fun hab => hab.1).isChain

/-- In whatever order the texts come, it is the sorted list that has to be looked at. -/
theorem pairwise_apart_iff_sorted (l : List (List α)) :
    (l.insertionSort (· ≤ ·)).IsChain (fun a b => ¬a <+: b) ↔ l.Pairwise Apart := by
  rw [pairwise_apart_iff_chain (List.pairwise_insertionSort _ l)]
  exact (List.perm_insertionSort _ l).pairwise_iff fun h => h.symm

end PrefixOrder
