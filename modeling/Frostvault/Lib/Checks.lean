import Mathlib.Logic.Basic

/-!
Functions that check and raise, as values of `Except`.

A body that raises has no result, so from the fact that it returned one reads off, check by
check, what held on the way.

* `Checks.require`: raise unless a condition holds;
* `bind_eq_ok_iff`: a body that continues after a call;
* `require_bind_eq_ok_iff`: a body that continues after a check.
-/

namespace Checks

variable {ε : Type*} {α β : Type}

/-- Raise `e` unless `p` holds. -/
def require (p : Prop) [Decidable p] (e : ε) : Except ε Unit :=
  if p then .ok () else .error e

/-- A body that calls and continues returns exactly if the call and the rest do. -/
@[simp]
lemma bind_eq_ok_iff {x : Except ε α} {f : α → Except ε β} {b : β} :
    (x >>= f) = .ok b ↔ ∃ a, x = .ok a ∧ f a = .ok b := by
  cases x with
  | error e => simp [bind, Except.bind]
  | ok a => simp [bind, Except.bind]

/-- A check returns exactly if its condition holds. -/
@[simp]
lemma require_eq_ok_iff {p : Prop} [Decidable p] {e : ε} {u : Unit} :
    require p e = .ok u ↔ p := by
  by_cases hp : p <;> simp [require, hp]

/-- A body that checks and continues returns exactly if the condition holds and the rest
returns. -/
lemma require_bind_eq_ok_iff {p : Prop} [Decidable p] {e : ε} {f : Unit → Except ε β} {b : β} :
    (require p e >>= f) = .ok b ↔ p ∧ f () = .ok b := by
  rw [bind_eq_ok_iff]
  constructor
  · rintro ⟨⟨⟩, hp, hf⟩
    exact ⟨require_eq_ok_iff.mp hp, hf⟩
  · rintro ⟨hp, hf⟩
    exact ⟨(), require_eq_ok_iff.mpr hp, hf⟩

@[simp]
lemma pure_eq_ok_iff {a b : α} : (pure a : Except ε α) = .ok b ↔ a = b := by
  simp [pure, Except.pure]

lemma toOption_bind {x : Except ε α} {f : α → Except ε β} :
    (x >>= f).toOption = x.toOption.bind fun a => (f a).toOption := by
  cases x <;> rfl

lemma toOption_require {p : Prop} [Decidable p] {e : ε} :
    (require p e).toOption = if p then some () else none := by
  unfold require
  split <;> rfl

lemma toOption_eq_some_iff {x : Except ε α} {a : α} : x.toOption = some a ↔ x = .ok a := by
  cases x <;> simp [Except.toOption]

end Checks
