import Mathlib.Data.Option.Basic

/-!
Three-valued logic of SQL conditions.

A condition is `some true`, `some false` or `none` (`NULL`).  A nullable column is an
`Option`, a comparison with `NULL` is `NULL`, and a `WHEN` or `WHERE` is taken only when
its condition is true.

* `holds_and`, `holds_or`: conjunction and disjunction of conditions that are taken;
* `holds_eq`, `holds_eqLit`: a comparison is true only between equal, non-null values;
* `holds_eqOrBothNull`: the null-safe comparison is equality of the columns;
* `holds_not_coalesce`: the negation of a condition guarded by `coalesce(.., FALSE)` is its
  classical negation.
-/

namespace Sql

/-- A three-valued condition. -/
abbrev Cond := Option Bool

namespace Cond

/-- The condition is true, so a `WHEN` or `WHERE` with it is taken. -/
def holds (c : Cond) : Bool := c == some true

/-- `AND`: false wins over `NULL`. -/
def and : Cond → Cond → Cond
  | some false, _ => some false
  | _, some false => some false
  | some true, some true => some true
  | _, _ => none

/-- `OR`: true wins over `NULL`. -/
def or : Cond → Cond → Cond
  | some true, _ => some true
  | _, some true => some true
  | some false, some false => some false
  | _, _ => none

/-- `NOT`. -/
def not (c : Cond) : Cond := c.map (!·)

@[simp] lemma holds_some (b : Bool) : holds (some b) = b := by
  cases b <;> rfl

@[simp] lemma holds_none : holds none = false := rfl

@[simp] lemma holds_and (a b : Cond) : (a.and b).holds = (a.holds && b.holds) := by
  rcases a with _ | _ | _ <;> rcases b with _ | _ | _ <;> rfl

@[simp] lemma holds_or (a b : Cond) : (a.or b).holds = (a.holds || b.holds) := by
  rcases a with _ | _ | _ <;> rcases b with _ | _ | _ <;> rfl

/-- `NOT coalesce(c, FALSE)` is the classical negation of `c` being taken. -/
@[simp] lemma holds_not_coalesce (c : Cond) : (not (some (c.getD false))).holds = !c.holds := by
  rcases c with _ | _ | _ <;> rfl

end Cond

variable {α : Type*} [DecidableEq α]

/-- `a = b` on nullable columns. -/
def eq (a b : Option α) : Cond :=
  match a, b with
  | some x, some y => some (decide (x = y))
  | _, _ => none

/-- `a = x` for a literal `x`. -/
def eqLit (a : Option α) (x : α) : Cond := a.map fun y => decide (y = x)

/-- `a IS NOT NULL`. -/
def isNotNull {β : Type*} (a : Option β) : Cond := some a.isSome

/-- `a IS NULL`. -/
def isNull {β : Type*} (a : Option β) : Cond := some a.isNone

/-- `a = b OR (a IS NULL AND b IS NULL)`: the comparison that takes two `NULL`s as equal. -/
def eqOrBothNull (a b : Option α) : Cond := (eq a b).or ((isNull a).and (isNull b))

/-- `a IN (xs)`, over literals. -/
def inList (a : Option α) (xs : List α) : Cond := a.map fun x => decide (x ∈ xs)

@[simp] lemma holds_eq (a b : Option α) : (eq a b).holds = (decide (a = b) && a.isSome) := by
  cases a <;> cases b <;> simp [eq]

@[simp] lemma holds_eqLit (a : Option α) (x : α) :
    (eqLit a x).holds = decide (a = some x) := by
  cases a <;> simp [eqLit]

@[simp] lemma holds_isNotNull {β : Type*} (a : Option β) : (isNotNull a).holds = a.isSome := by
  simp [isNotNull]

/-- The null-safe comparison is equality of the columns. -/
@[simp] lemma holds_eqOrBothNull (a b : Option α) :
    (eqOrBothNull a b).holds = decide (a = b) := by
  rw [eqOrBothNull, Cond.holds_or, Cond.holds_and, holds_eq, isNull, isNull, Cond.holds_some,
    Cond.holds_some]
  cases a <;> cases b <;> simp

@[simp] lemma holds_inList (a : Option α) (xs : List α) :
    (inList a xs).holds = a.any fun x => decide (x ∈ xs) := by
  cases a <;> simp [inList]

end Sql
