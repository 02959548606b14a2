import Frostvault.Lib.Runs
import Mathlib.Order.Filter.Finite
import Mathlib.Order.Filter.AtTopBot.Basic

/-!
Infinite runs of a deterministic transition function whose steps report what happened.

A run may pause, so that a run that has come to its end is one that pauses forever.

* `Run`: a run; `Run.Reports`: a step of it, by what it reports;
* `Run.from_on`: what holds from some time on;
* `Run.invariant`: what every step keeps;
* `Run.ofList`: a finite run that pauses forever;
* `eventually_forall_lt`: **finitely many parties that come to rest are at rest together**.
-/

namespace FairRuns

open Runs

variable {σ α ε : Type*}

/-- A run from a state. -/
structure Run (step : σ → α → Option (σ × ε)) (init : σ) where
  state : ℕ → σ
  act : ℕ → Option α
  start : state 0 = init
  pause : ∀ n, act n = none → state (n + 1) = state n
  next : ∀ n a, act n = some a → ∃ e, step (state n) a = some (state (n + 1), e)

variable {step : σ → α → Option (σ × ε)} {init : σ}

/-- The step at some time reports this. -/
def Run.Reports (r : Run step init) (n : ℕ) (e : ε) : Prop :=
  ∃ a, r.act n = some a ∧ step (r.state n) a = some (r.state (n + 1), e)

/-- **From some time on.**  A property that every later step keeps. -/
lemma Run.from_on (r : Run step init) {P : σ → Prop} {n : ℕ} (h : P (r.state n))
    (hstep : ∀ m, n ≤ m → P (r.state m) → ∀ a e, r.act m = some a →
      step (r.state m) a = some (r.state (m + 1), e) → P (r.state (m + 1))) :
    ∀ m, n ≤ m → P (r.state m) := by
  intro m hm
  induction m, hm using Nat.le_induction with
  | base => exact h
  | succ m hm ih =>
      cases hact : r.act m with
      | none => exact r.pause m hact ▸ ih
      | some a =>
          obtain ⟨e, he⟩ := r.next m a hact
          exact hstep m hm ih a e hact he

lemma Run.invariant (r : Run step init) {P : σ → Prop} (h : P init)
    (hstep : ∀ s a s' e, P s → step s a = some (s', e) → P s') (n : ℕ) : P (r.state n) := by
  have hstart : P (r.state 0) := by rwa [r.start]
  exact r.from_on hstart (fun _ _ ih _ _ _ he => hstep _ _ _ _ ih he) n (Nat.zero_le n)

/-- A transition without its report. -/
def silent (step : σ → α → Option (σ × ε)) (s : σ) (a : α) : Option σ := (step s a).map Prod.fst

/-- The state after the first actions of a list. -/
def stateAfter (step : σ → α → Option (σ × ε)) (init : σ) (as : List α) (n : ℕ) : σ :=
  (run (silent step) init (as.take n)).getD init

/-- **A finite run** that pauses forever. -/
def Run.ofList (as : List α) (h : (run (silent step) init as).isSome = true) :
    Run step init where
  state := stateAfter step init as
  act n := as[n]?
  start := by
    rw [stateAfter, List.take_zero]
    rfl
  pause n hn := by
    have hlen := List.getElem?_eq_none_iff.mp hn
    rw [stateAfter, stateAfter, List.take_of_length_le hlen,
      List.take_of_length_le (Nat.le_succ_of_le hlen)]
  next n a ha := by
    obtain ⟨s, hs⟩ := Option.isSome_iff_exists.mp h
    obtain ⟨hn, hget⟩ := List.getElem?_eq_some_iff.mp ha
    -- the run goes through the states before and after the action
    have hsplit : as.take n ++ a :: as.drop (n + 1) = as := by
      rw [← hget, List.getElem_cons_drop, List.take_append_drop]
    rw [← hsplit] at hs
    obtain ⟨u, hu, hrest⟩ := run_append.mp hs
    obtain ⟨u', hu', -⟩ := run_cons_eq_some.mp hrest
    obtain ⟨⟨w, e⟩, hstep, hw⟩ := Option.map_eq_some_iff.mp hu'
    have hnext : run (silent step) init (as.take (n + 1)) = some u' := by
      rw [← List.take_concat_get' as n hn, hget]
      refine run_append.mpr ⟨u, hu, run_cons_eq_some.mpr ⟨u', hu', rfl⟩⟩
    refine ⟨e, ?_⟩
    rw [stateAfter, stateAfter, hu, hnext, Option.getD_some, Option.getD_some, hstep, ← hw]

lemma Run.ofList_state {as : List α} (h : (run (silent step) init as).isSome) {n : ℕ}
    (hn : as.length ≤ n) : (Run.ofList as h).state n = stateAfter step init as as.length := by
  show stateAfter step init as n = _
  rw [stateAfter, stateAfter, List.take_of_length_le hn, List.take_of_length_le le_rfl]

/-- **Finitely many parties** that come to rest are at rest together. -/
lemma eventually_forall_lt {P : ℕ → ℕ → Prop} {k : ℕ}
    (h : ∀ i < k, ∃ n, ∀ m, n ≤ m → P i m) : ∃ n, ∀ m, n ≤ m → ∀ i < k, P i m := by
  have hall : ∀ᶠ m in Filter.atTop, ∀ i ∈ Finset.range k, P i m :=
    (Filter.eventually_all_finset (Finset.range k)).mpr fun i hi =>
      Filter.eventually_atTop.mpr (h i (Finset.mem_range.mp hi))
  obtain ⟨n, hn⟩ := Filter.eventually_atTop.mp hall
  exact ⟨n, fun m hm i hi => hn m hm i (Finset.mem_range.mpr hi)⟩

end FairRuns
