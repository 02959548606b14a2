import Mathlib.Data.List.Basic

/-!
Savepoints, and chains of compare-and-swap statements under one of them.

A statement of a chain reports how many rows it touched.  The first one that does not touch
exactly one row undoes the chain: the session goes back to the savepoint and releases it.

* `Session.savepoint`, `Session.rollbackTo`, `Session.release`: the statements;
* `swapAll`: the state after a chain whose statements touch one row each;
* `compareAndSwap`: the chain in a session;
* `compareAndSwap_savepoint`: all of the chain, or the session before the savepoint;
* `swapAll_rel`: what every statement does, the chain does.
-/

namespace Savepoints

variable {σ : Type*}

/-- What a session sees of the database, and the savepoints it can go back to, the latest
first. -/
structure Session (σ : Type*) where
  current : σ
  saved : List (String × σ)

/-- `SAVEPOINT name`. -/
def Session.savepoint (s : Session σ) (name : String) : Session σ :=
  { s with saved := (name, s.current) :: s.saved }

/-- `ROLLBACK TO SAVEPOINT name`: the savepoint stays. -/
def Session.rollbackTo (s : Session σ) (name : String) : Option (Session σ) :=
  match s.saved.dropWhile fun e => e.1 ≠ name with
  | [] => none
  | e :: es => some ⟨e.2, e :: es⟩

/-- `RELEASE SAVEPOINT name`: it goes, with the later ones. -/
def Session.release (s : Session σ) (name : String) : Option (Session σ) :=
  match s.saved.dropWhile fun e => e.1 ≠ name with
  | [] => none
  | _ :: es => some { s with saved := es }

variable {s : Session σ} {name : String}

lemma rollbackTo_savepoint (s : Session σ) (name : String) (t : σ) :
    ({ s.savepoint name with current := t } : Session σ).rollbackTo name =
      some (s.savepoint name) := by
  simp [Session.rollbackTo, Session.savepoint]

lemma release_savepoint (s : Session σ) (name : String) (t : σ) :
    ({ s.savepoint name with current := t } : Session σ).release name =
      some { s with current := t } := by
  simp [Session.release, Session.savepoint]

/-- How a chain ends. -/
inductive Outcome
  | done
  /-- A statement did not touch exactly one row. -/
  | lost
  /-- The savepoint is not there. -/
  | noSavepoint
deriving DecidableEq, Repr

/-- The state after the statements, if each of them touches exactly one row. -/
def swapAll : List (σ → σ × ℕ) → σ → Option σ
  | [], t => some t
  | stmt :: stmts, t => if (stmt t).2 = 1 then swapAll stmts (stmt t).1 else none

/-- Run the statements; the first that does not touch exactly one row rolls back to the
savepoint and releases it. -/
def compareAndSwap (name : String) : List (σ → σ × ℕ) → Session σ → Outcome × Session σ
  | [], s => (.done, s)
  | stmt :: stmts, s =>
      let s' := { s with current := (stmt s.current).1 }
      if (stmt s.current).2 = 1 then compareAndSwap name stmts s'
      else match (s'.rollbackTo name).bind fun s => s.release name with
        | some s => (.lost, s)
        | none => (.noSavepoint, s')

/-- **All or nothing.**  A chain started right after its savepoint runs to its end, or leaves
the session as it was before the savepoint. -/
theorem compareAndSwap_savepoint (s : Session σ) (name : String) (stmts : List (σ → σ × ℕ))
    (t : σ) :
    compareAndSwap name stmts { s.savepoint name with current := t } =
      match swapAll stmts t with
      | some t' => (.done, { s.savepoint name with current := t' })
      | none => (.lost, s) := by
  induction stmts generalizing t with
  | nil => rfl
  | cons stmt stmts ih =>
      rw [compareAndSwap, swapAll]
      by_cases hone : (stmt t).2 = 1
      · simp only [if_pos hone]
        exact ih (stmt t).1
      · simp only [if_neg hone]
        have hback : (s.savepoint name).release name = some s :=
          release_savepoint s name s.current
        simp only [rollbackTo_savepoint, Option.bind_some, hback]

/-- A chain starts with its first statement. -/
lemma swapAll_cons_eq_some {stmt : σ → σ × ℕ} {stmts : List (σ → σ × ℕ)} {t t' : σ} :
    swapAll (stmt :: stmts) t = some t' ↔
      (stmt t).2 = 1 ∧ swapAll stmts (stmt t).1 = some t' := by
  rw [swapAll]
  by_cases hone : (stmt t).2 = 1 <;> simp [hone]

@[simp] lemma swapAll_nil (t : σ) : swapAll [] t = some t := rfl

/-- What every statement does to a state, the chain does. -/
lemma swapAll_rel {R : σ → σ → Prop} (hrefl : ∀ t, R t t)
    (htrans : ∀ {t t' t''}, R t t' → R t' t'' → R t t'') {stmts : List (σ → σ × ℕ)}
    (h : ∀ stmt ∈ stmts, ∀ t, R t (stmt t).1) {t t' : σ} (hrun : swapAll stmts t = some t') :
    R t t' := by
  induction stmts generalizing t with
  | nil =>
      obtain rfl : t = t' := Option.some.inj hrun
      exact hrefl t
  | cons stmt stmts ih =>
      have hfirst : R t (stmt t).1 := h stmt List.mem_cons_self t
      exact htrans hfirst (ih (fun stmt hs => h stmt (List.mem_cons_of_mem _ hs))
        (swapAll_cons_eq_some.mp hrun).2)

end Savepoints
