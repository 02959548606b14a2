import Mathlib.Data.List.Sort

/-!
Turns from a cursor.

The members of a linear order stand in a circle.  Those above the cursor come first, in order,
and then the others from the lowest on.  Everyone who takes a turn becomes the cursor.

* `NoLater`: the order of the turns, seen from a cursor;
* `Advances`: turns, none of which passes over a given member;
* `advances_take_of_pairwise`: those who take turns out of one list in that order;
* `mem_of_advances`: **a member is not passed over for more turns than there are members before
  it**, which `ahead` counts.
-/

namespace Turns

open List

variable {α : Type*} [LinearOrder α] {c a b v x : α}

/-- From the cursor, `a` comes no later than `b`. -/
def NoLater (c a b : α) : Prop := c < a ∧ b ≤ c ∨ (c < a ↔ c < b) ∧ a ≤ b

instance (c a b : α) : Decidable (NoLater c a b) := inferInstanceAs (Decidable (_ ∨ _))

/-! ### The order -/

lemma noLater_self (c a : α) : NoLater c a a := .inr ⟨Iff.rfl, le_rfl⟩

lemma noLater_total (c a b : α) : NoLater c a b ∨ NoLater c b a := by
  unfold NoLater
  grind

lemma NoLater.trans (hab : NoLater c a b) (hbx : NoLater c b x) : NoLater c a x := by
  unfold NoLater at *
  grind

instance (c : α) : Std.Total (NoLater c) := ⟨noLater_total c⟩

instance (c : α) : IsTrans α (NoLater c) := ⟨fun _ _ _ => NoLater.trans⟩

/-- After a turn, those who had theirs come last: who came later still comes no later. -/
lemma NoLater.rotate (hab : NoLater c a b) (hne : a ≠ b) (hx : NoLater c x a ∨ NoLater c b x) :
    NoLater a b x := by
  unfold NoLater at *
  grind

/-- The turn of another is one of those before a member, and the only one that is over then. -/
lemma NoLater.of_turn (hav : NoLater c a v) (hne : a ≠ v) (hx : NoLater a x v) :
    NoLater c x v ∧ x ≠ a := by
  unfold NoLater at *
  grind

/-! ### Turns -/

/-- Turns one after the other, none of which passes over `v`. -/
def Advances (v : α) : α → List α → Prop
  | _, [] => True
  | c, a :: as => NoLater c a v ∧ Advances v a as

variable {as bs members : List α}

/-- The cursor after some turns is the last one who took a turn. -/
lemma advances_append :
    Advances v c (as ++ bs) ↔ Advances v c as ∧ Advances v (as.getLast?.getD c) bs := by
  induction as generalizing c with
  | nil => simp [Advances]
  | cons a as ih =>
      rw [cons_append, Advances, Advances, ih, and_assoc]
      cases as with
      | nil => rfl
      | cons b as =>
          rw [getLast?_cons_cons, getLast?_cons, Option.getD_some, Option.getD_some]

/-- After a turn, the next ones of a list pass over no one who is in it or had a turn. -/
lemma advances_of_pairwise (hsorted : (a :: as).Pairwise (NoLater c)) (hnodup : (a :: as).Nodup)
    (hv : NoLater c v a ∨ v ∈ as) : Advances v a as := by
  induction as generalizing a with
  | nil => exact trivial
  | cons b as ih =>
      obtain ⟨hfirst, hrest⟩ := pairwise_cons.mp hsorted
      obtain ⟨hnew, hnodup⟩ := nodup_cons.mp hnodup
      have hab := hfirst b mem_cons_self
      have hne : a ≠ b := fun h => hnew (h ▸ mem_cons_self)
      rcases hv with hv | hv
      · exact ⟨hab.rotate hne (.inl hv), ih hrest hnodup (.inl (hv.trans hab))⟩
      · rcases mem_cons.mp hv with rfl | hv
        · exact ⟨hab.rotate hne (.inr (noLater_self c v)), ih hrest hnodup
            (.inl (noLater_self c v))⟩
        · have hbv := (pairwise_cons.mp hrest).1 v hv
          exact ⟨hab.rotate hne (.inr hbv), ih hrest hnodup (.inr hv)⟩

/-- **The first turns of a list in that order** pass over no one who is in it. -/
lemma advances_take_of_pairwise (hsorted : as.Pairwise (NoLater c)) (hnodup : as.Nodup)
    (hv : v ∈ as) (k : ℕ) : Advances v c (as.take k) := by
  have hall : Advances v c as := by
    cases as with
    | nil => exact trivial
    | cons a as =>
        rcases mem_cons.mp hv with rfl | hv
        · exact ⟨noLater_self c v, advances_of_pairwise hsorted hnodup (.inl (noLater_self c v))⟩
        · exact ⟨(pairwise_cons.mp hsorted).1 v hv,
            advances_of_pairwise hsorted hnodup (.inr hv)⟩
  rw [← take_append_drop k as, advances_append] at hall
  exact hall.1

/-! ### The wait -/

/-- How many members come before `v` or are `v`, seen from the cursor. -/
def ahead (members : List α) (c v : α) : ℕ :=
  (members.filter fun x => decide (NoLater c x v)).length

lemma ahead_le (members : List α) (c v : α) : ahead members c v ≤ members.length :=
  length_filter_le _ _

/-- The turn of another member brings `v` closer. -/
lemma ahead_lt (ha : a ∈ members) (hav : NoLater c a v) (hne : a ≠ v) :
    ahead members a v < ahead members c v := by
  have hself : ¬NoLater a a v := fun h => (hav.of_turn hne h).2 rfl
  have hsub : members.filter (fun x => decide (NoLater a x v)) =
      (members.filter fun x => decide (NoLater c x v)).filter
        fun x => decide (NoLater a x v) := by
    rw [filter_filter]
    refine filter_congr fun x _ => ?_
    by_cases hx : NoLater a x v
    · simp [hx, (hav.of_turn hne hx).1]
    · simp [hx]
  rw [ahead, hsub]
  refine length_filter_lt_length_iff_exists.mpr ⟨a, ?_, by simpa using hself⟩
  exact mem_filter.mpr ⟨ha, by simpa using hav⟩

/-- **A member is not passed over for longer** than there are members before it. -/
theorem mem_of_advances (hv : v ∈ members) (has : ∀ a ∈ as, a ∈ members)
    (hadvances : Advances v c as) (hlength : ahead members c v ≤ as.length) : v ∈ as := by
  induction as generalizing c with
  | nil =>
      have hmem : v ∈ members.filter fun x => decide (NoLater c x v) :=
        mem_filter.mpr ⟨hv, by simpa using noLater_self c v⟩
      exact absurd (length_pos_of_mem hmem) (Nat.not_lt.mpr hlength)
  | cons a as ih =>
      obtain ⟨hav, hadvances⟩ := hadvances
      by_cases hne : a = v
      · rw [hne]
        exact mem_cons_self
      · have hcloser := ahead_lt (has a mem_cons_self) hav hne
        refine mem_cons_of_mem a (ih (fun b hb => has b (mem_cons_of_mem a hb))
          hadvances ?_)
        rw [length_cons] at hlength
        omega

/-- Within as many turns as there are members, everyone who is not passed over had one. -/
theorem mem_take_drop_of_advances (hv : v ∈ members) (has : ∀ a ∈ as, a ∈ members)
    (hadvances : Advances v c as) {i : ℕ} (hi : i + members.length ≤ as.length) :
    v ∈ (as.drop i).take members.length := by
  rw [← take_append_drop i as, advances_append,
    ← take_append_drop members.length (as.drop i), advances_append] at hadvances
  refine mem_of_advances hv (fun a ha => ?_) hadvances.2.1 ((ahead_le _ _ _).trans ?_)
  · exact has a (mem_of_mem_drop (mem_of_mem_take ha))
  · rw [length_take, length_drop]
    omega

end Turns
