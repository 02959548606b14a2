import Mathlib.Data.List.Basic

/-!
Runs of a deterministic transition function with guarded actions.

`step s a` is `none` when the action is not enabled.  A run is a list of actions, each
enabled in the state the previous ones lead to.

* `run_append`: a run splits at every point;
* `run_induction`: an invariant kept by every step holds after every run;
* `run_induction_along`: the same when each step may use a condition on the state
  before it;
* `run_induction_history`: the same for what relates the actions so far to the state;
* `exists_breaking_step`: what holds before a run and not after it was broken by a step;
* `along_iff_invariant`: the conditions are exact when each of them decides its step;
* `along_iff_forall_step`: they are conditions on the states the steps start from;
* `guard_bind_eq_some`, `read_checked_eq_some`: a step that checks something and goes on.
-/

namespace Runs

variable {σ α : Type*} (step : σ → α → Option σ)

/-- The state a list of actions leads to, when each of them is enabled. -/
def run (s : σ) : List α → Option σ
  | [] => some s
  | a :: as => (step s a).bind fun s' => run s' as

/-- Every step of the run meets the condition `G` on the state before it. -/
def Along (G : σ → α → Prop) (s : σ) : List α → Prop
  | [] => True
  | a :: as => G s a ∧ ∀ s', step s a = some s' → Along G s' as

/-- The condition of a run can be checked step by step. -/
instance decidableAlong (G : σ → α → Prop) [∀ s a, Decidable (G s a)] :
    ∀ (s : σ) (as : List α), Decidable (Along step G s as)
  | _, [] => isTrue trivial
  | s, a :: as =>
      match h : step s a with
      | none => decidable_of_iff (G s a) (by simp [Along, h])
      | some s' =>
          have := decidableAlong G s' as
          decidable_of_iff (G s a ∧ Along step G s' as) (by simp [Along, h])

variable {step}

@[simp] lemma run_nil (s : σ) : run step s [] = some s := rfl

variable {G : σ → α → Prop} {I : σ → Prop} {as : List α} {s t : σ}

lemma run_cons_eq_some {a : α} :
    run step s (a :: as) = some t ↔ ∃ s', step s a = some s' ∧ run step s' as = some t := by
  simp [run, Option.bind_eq_some_iff]

lemma run_append {bs : List α} :
    run step s (as ++ bs) = some t ↔ ∃ u, run step s as = some u ∧ run step u bs = some t := by
  induction as generalizing s with
  | nil => simp
  | cons a as ih =>
      simp only [List.cons_append, run_cons_eq_some, ih]
      constructor
      · rintro ⟨s', hs, u, hu, ht⟩
        exact ⟨u, ⟨s', hs, hu⟩, ht⟩
      · rintro ⟨u, ⟨s', hs, hu⟩, ht⟩
        exact ⟨s', hs, u, hu, ht⟩

/-- **Invariants of conditioned runs.**  An invariant that every step meeting its
condition keeps holds after every run whose steps all meet their conditions. -/
theorem run_induction_along (hstep : ∀ s a s', I s → G s a → step s a = some s' → I s') (hI : I s)
    (hG : Along step G s as) (h : run step s as = some t) : I t := by
  induction as generalizing s with
  | nil =>
      cases h
      exact hI
  | cons a as ih =>
      obtain ⟨s', hs, ht⟩ := run_cons_eq_some.mp h
      exact ih (hstep s a s' hI hG.1 hs) (hG.2 s' hs) ht

lemma Along.cons {a : α} (hG : G s a) (hs : step s a = some t) (h : Along step G t as) :
    Along step G s (a :: as) :=
  ⟨hG, fun s' hs' => by
    cases hs.symm.trans hs'
    exact h⟩

lemma Along.of_append {bs : List α} (h : Along step G s (as ++ bs)) : Along step G s as := by
  induction as generalizing s with
  | nil => exact trivial
  | cons a as ih => exact ⟨h.1, fun s' hs => ih (h.2 s' hs)⟩

/-- **Invariants of the history.**  What relates the actions so far to the state, and is kept
by every action that meets its condition, holds after every such run. -/
theorem run_induction_history {I : List α → σ → Prop}
    (hstep : ∀ as s a s', I as s → G s a → step s a = some s' → I (as ++ [a]) s') (hI : I [] s)
    (hG : Along step G s as) (h : run step s as = some t) : I as t := by
  have hgen : ∀ bs, I bs s → I (bs ++ as) t := by
    clear hI
    induction as generalizing s with
    | nil =>
        cases h
        intro bs hbs
        rwa [List.append_nil]
    | cons a as ih =>
        intro bs hbs
        obtain ⟨s', hs, ht⟩ := run_cons_eq_some.mp h
        have hnext := ih (hG.2 s' hs) ht (bs ++ [a]) (hstep bs s a s' hbs hG.1 hs)
        rwa [List.append_assoc] at hnext
  exact hgen [] hI

/-- **Exact conditions.**  When a step from a good state leads to a good state exactly if it
meets its condition, a run visits good states only exactly if all its steps meet theirs. -/
theorem along_iff_invariant (hstep : ∀ s a s', I s → step s a = some s' → (I s' ↔ G s a)) (hI : I s)
    (h : run step s as = some t) :
    (∀ bs u, bs <+: as → run step s bs = some u → I u) ↔ Along step G s as := by
  induction as generalizing s with
  | nil =>
      refine ⟨fun _ => trivial, fun _ bs u hbs hu => ?_⟩
      obtain rfl := List.prefix_nil.mp hbs
      cases hu
      exact hI
  | cons a as ih =>
      obtain ⟨s', hs, ht⟩ := run_cons_eq_some.mp h
      constructor
      · intro hall
        have hI' : I s' := by
          refine hall [a] s' (by simp) ?_
          rw [run_cons_eq_some]
          exact ⟨s', hs, rfl⟩
        refine ⟨(hstep s a s' hI hs).mp hI', fun s'' hs'' => ?_⟩
        cases hs.symm.trans hs''
        refine (ih hI' ht).mp fun bs u hbs hu => ?_
        refine hall (a :: bs) u (List.cons_prefix_cons.mpr ⟨rfl, hbs⟩) ?_
        exact run_cons_eq_some.mpr ⟨s', hs, hu⟩
      · rintro ⟨hG, hrest⟩ bs u hbs hu
        have hI' : I s' := (hstep s a s' hI hs).mpr hG
        cases bs with
        | nil =>
            cases hu
            exact hI
        | cons b bs =>
            obtain ⟨rfl, hbs'⟩ := List.cons_prefix_cons.mp hbs
            obtain ⟨s'', hs'', hu⟩ := run_cons_eq_some.mp hu
            cases hs.symm.trans hs''
            exact (ih hI' ht).mpr (hrest s' hs) bs u hbs' hu

/-- The condition of a run is the condition of each of its steps in the state it starts from. -/
theorem along_iff_forall_step (h : run step s as = some t) : Along step G s as ↔
      ∀ bs a cs u, as = bs ++ a :: cs → run step s bs = some u → G u a := by
  induction as generalizing s with
  | nil =>
      refine ⟨fun _ bs a cs u h => ?_, fun _ => trivial⟩
      simp at h
  | cons a as ih =>
      obtain ⟨s', hs, ht⟩ := run_cons_eq_some.mp h
      constructor
      · rintro ⟨hG, hrest⟩ bs b cs u hsplit hu
        cases bs with
        | nil =>
            cases hu
            obtain ⟨rfl, -⟩ := List.cons.inj hsplit
            exact hG
        | cons b' bs =>
            obtain ⟨rfl, htail⟩ := List.cons.inj hsplit
            obtain ⟨s'', hs'', hu⟩ := run_cons_eq_some.mp hu
            cases hs.symm.trans hs''
            exact (ih ht).mp (hrest s' hs) bs b cs u htail hu
      · intro hall
        refine ⟨hall [] a as s rfl rfl, fun s'' hs'' => ?_⟩
        cases hs.symm.trans hs''
        refine (ih ht).mpr fun bs b cs u hsplit hu => ?_
        exact hall (a :: bs) b cs u (by rw [hsplit, List.cons_append])
          (run_cons_eq_some.mpr ⟨s', hs, hu⟩)

/-- An invariant kept by every step holds after every run. -/
theorem run_induction (hstep : ∀ s a s', I s → step s a = some s' → I s') (hI : I s)
    (h : run step s as = some t) : I t := by
  induction as generalizing s with
  | nil =>
      cases h
      exact hI
  | cons a as ih =>
      obtain ⟨s', hs, ht⟩ := run_cons_eq_some.mp h
      exact ih (hstep s a s' hI hs) ht

/-- **What a run has lost, one of its steps took away.** -/
theorem exists_breaking_step (hI : I s) (h : run step s as = some t) (hbroken : ¬I t) :
    ∃ bs a cs u u', as = bs ++ a :: cs ∧ run step s bs = some u ∧ step u a = some u' ∧
      I u ∧ ¬I u' := by
  induction as generalizing s with
  | nil =>
      cases h
      exact absurd hI hbroken
  | cons a as ih =>
      obtain ⟨s', hs, ht⟩ := run_cons_eq_some.mp h
      by_cases hI' : I s'
      · obtain ⟨bs, b, cs, u, u', rfl, hu, hstep, hIu, hIu'⟩ := ih hI' ht
        exact ⟨a :: bs, b, cs, u, u', rfl, run_cons_eq_some.mpr ⟨s', hs, hu⟩, hstep, hIu, hIu'⟩
      · exact ⟨[], a, as, s, s', rfl, rfl, hs, hI, hI'⟩

lemma guard_bind_eq_some {p : Prop} [Decidable p] {β : Type*} {f : Unit → Option β} {b : β} :
    (guard p : Option Unit).bind f = some b ↔ p ∧ f () = some b := by
  by_cases hp : p
  · simp [guard, hp]
  · have hf : (guard p : Option Unit).bind f = none := by
      rw [guard, if_neg hp]
      rfl
    rw [hf]
    simp [hp]

lemma checked_eq_some {p : Prop} [Decidable p] {β : Type*} {a b : β} :
    (guard p : Option Unit).bind (fun _ => some a) = some b ↔ p ∧ a = b := by
  rw [guard_bind_eq_some, Option.some.injEq]

/-- A step that reads something, checks it and goes on. -/
lemma read_checked_eq_some {α β : Type*} {o : Option α} {p : α → Prop} [DecidablePred p] {f : α → β}
    {b : β} :
    (o.bind fun a => (guard (p a) : Option Unit).bind fun _ => some (f a)) = some b ↔
      ∃ a, o = some a ∧ p a ∧ f a = b := by
  rw [Option.bind_eq_some_iff]
  exact exists_congr fun _ => and_congr_right fun _ => checked_eq_some

end Runs
