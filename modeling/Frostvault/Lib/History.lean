import Mathlib.Data.List.Induction

/-!
Histories: lists of events, the newest last.

* `History.Since`: an event happened, and since then none that cancels it;
* `History.Always`: a condition held of every event and the history before it;
* `since_concat`, `always_concat`: what one more event does;
* `Since.append`, `not_since_append`: what more events leave alone;
* `not_since_iff`: between every such event and now there is one that cancels it.
-/

namespace History

variable {α : Type*}

/-- Some event met `p` in its history, and no event after it meets `q`. -/
def Since (p : List α → α → Prop) (q : α → Prop) (l : List α) : Prop :=
  ∃ h a t, l = h ++ a :: t ∧ p h a ∧ ∀ b ∈ t, ¬q b

/-- Every event meets `R` in its history. -/
def Always (R : List α → α → Prop) (l : List α) : Prop :=
  ∀ h a t, l = h ++ a :: t → R h a

variable {p : List α → α → Prop} {q : α → Prop} {R : List α → α → Prop}

variable {l : List α}

/-- Where a list with one more event splits: at the new event, or before it. -/
lemma concat_eq_append_cons_iff {h t : List α} {e a : α} :
    l ++ [e] = h ++ a :: t ↔
      (h = l ∧ a = e ∧ t = []) ∨ ∃ t', t = t' ++ [e] ∧ l = h ++ a :: t' := by
  constructor
  · intro heq
    cases t using List.reverseRecOn with
    | nil =>
        obtain ⟨hl, he⟩ := List.append_inj' heq rfl
        simp_all
    | append_singleton t' b =>
        rw [← List.cons_append, ← List.append_assoc] at heq
        obtain ⟨hl, he⟩ := List.append_inj' heq rfl
        simp_all
  · rintro (⟨rfl, rfl, rfl⟩ | ⟨t', rfl, rfl⟩)
    · rfl
    · simp

@[simp]
lemma not_since_nil : ¬Since p q [] := by
  rintro ⟨h, a, t, heq, -, -⟩
  simp at heq

/-- **One more event.**  It counts itself, or it does not cancel the one that counted. -/
lemma since_concat {e : α} :
    Since p q (l ++ [e]) ↔ p l e ∨ (Since p q l ∧ ¬q e) := by
  constructor
  · rintro ⟨h, a, t, heq, ha, ht⟩
    rcases concat_eq_append_cons_iff.mp heq with ⟨rfl, rfl, rfl⟩ | ⟨t', rfl, rfl⟩
    · exact Or.inl ha
    · refine Or.inr ⟨⟨h, a, t', rfl, ha, fun b hb => ht b (List.mem_append_left _ hb)⟩, ?_⟩
      exact ht e (by simp)
  · rintro (he | ⟨⟨h, a, t, rfl, ha, ht⟩, hqe⟩)
    · exact ⟨l, e, [], rfl, he, by simp⟩
    · refine ⟨h, a, t ++ [e], by simp, ha, fun b hb => ?_⟩
      rcases List.mem_append.mp hb with hb | hb
      · exact ht b hb
      · rw [List.mem_singleton.mp hb]
        exact hqe

lemma not_since_iff :
    ¬Since p q l ↔ ∀ h a t, l = h ++ a :: t → p h a → ∃ b ∈ t, q b := by
  simp only [Since, not_exists, not_and, not_forall, not_not, exists_prop]

/-- Events that cancel nothing leave what counted. -/
lemma Since.append {es : List α} (h : Since p q l) (hes : ∀ e ∈ es, ¬q e) :
    Since p q (l ++ es) := by
  obtain ⟨g, a, t, rfl, ha, ht⟩ := h
  refine ⟨g, a, t ++ es, by simp, ha, fun b hb => ?_⟩
  rcases List.mem_append.mp hb with hb | hb
  · exact ht b hb
  · exact hes b hb

lemma not_since_append {es : List α} (h : ¬Since p q l) (hes : ∀ e ∈ es, ∀ g, ¬p g e) :
    ¬Since p q (l ++ es) := by
  induction es using List.reverseRecOn with
  | nil => rwa [List.append_nil]
  | append_singleton es e ih =>
      rw [← List.append_assoc, since_concat]
      rintro (he | ⟨hs, -⟩)
      · exact hes e (by simp) _ he
      · exact ih (fun b hb => hes b (List.mem_append_left _ hb)) hs

@[simp]
lemma always_nil : Always R [] := by
  intro h a t heq
  simp at heq

/-- One more event keeps a history good exactly if the event itself is. -/
lemma always_concat {e : α} : Always R (l ++ [e]) ↔ Always R l ∧ R l e := by
  constructor
  · intro hall
    refine ⟨fun h a t heq => hall h a (t ++ [e]) (by simp [heq]), ?_⟩
    exact hall l e [] rfl
  · rintro ⟨hall, he⟩ h a t heq
    rcases concat_eq_append_cons_iff.mp heq with ⟨rfl, rfl, -⟩ | ⟨t', -, rfl⟩
    · exact he
    · exact hall h a t' rfl

lemma Always.initial {l₁ : List α} (h : Always R l) (hl : l₁ <+: l) : Always R l₁ := by
  obtain ⟨l₂, rfl⟩ := hl
  rintro g a t rfl
  exact h g a (t ++ l₂) (by simp)

/-- A condition on events alone holds of every event. -/
lemma always_forall_mem {q : α → Prop} (h : Always (fun _ a => q a) l) :
    ∀ a ∈ l, q a := by
  intro a ha
  obtain ⟨g, t, heq⟩ := List.append_of_mem ha
  exact h g a t heq

end History
