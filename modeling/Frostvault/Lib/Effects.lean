import Mathlib.Data.List.Basic

/-!
Programs that act on a world they share with others.

A program returns, raises, or takes an action.  An action reads the world, changes it and
is recorded, all at once; between two actions anybody else may change the world.

* `Prog`: programs, with `ask` for an action that only reads and `commit` for one that also
  writes when it succeeds;
* `Prog.play`: the run of a program among given moves of the others, up to any point;
* `Wp`: what has to hold of a world for a program to meet a specification whatever the
  others do within a relation `E`;
* `wp_bind`, `wp_ask`, `wp_commit`, `Wp.mono`, `Wp.grows`, `Wp.above`: **its rules**;
* `Wp.play`, `Wp.steps`: what `Wp` says about runs;
* `Meets`: a specification about what is recorded, whatever the others do;
* `Meets.bind`, `Meets.handle`, `Meets.ensuring`, `Meets.ask`, `Meets.commit`, `Meets.within`,
  `Meets.steps`: **its rules**, and what it says about runs;
* `Keeps`: an invariant of histories and worlds that every action keeps;
* `Keeps.bind`, `Keeps.handle`, `keeps_ask`, `keeps_commit`: its rules;
* `Follows`: a program that returns in a world returns in a related one;
* `follows_bind`, `follows_handle`, `follows_ensuring`, `Follows.play`: its rules, and what it says
  about runs.
-/

namespace Effects

variable {σ ι ε χ α β : Type}

/-! ### Programs -/

/-- A program over a world `σ`, recording `ι`, raising `ε` and returning `α`. -/
inductive Prog (σ ι ε α : Type) : Type
  | ret (a : α)
  | raise (e : ε)
  | act (event : σ → ι) (update : σ → σ) (next : σ → Prog σ ι ε α)

namespace Prog

/-- One program after another. -/
def bind : Prog σ ι ε α → (α → Prog σ ι ε β) → Prog σ ι ε β
  | ret a, f => f a
  | raise e, _ => raise e
  | act ev up next, f => act ev up fun w => (next w).bind f

instance : Monad (Prog σ ι ε) where
  pure := ret
  bind := bind

/-- An exception is handled. -/
def handle : Prog σ ι ε α → (ε → Prog σ ι ε α) → Prog σ ι ε α
  | ret a, _ => ret a
  | raise e, f => f e
  | act ev up next, f => act ev up fun w => (next w).handle f

/-- What a result does: it is returned or raised. -/
def ofExcept : Except ε α → Prog σ ι ε α
  | .ok a => ret a
  | .error e => raise e

/-- An action that only reads. -/
def ask (event : Except ε α → ι) (f : σ → Except ε α) : Prog σ ι ε α :=
  act (fun w => event (f w)) id fun w => ofExcept (f w)

/-- The world after a transaction: one that raises writes nothing. -/
def committed (w : σ) : Except ε (α × σ) → σ
  | .ok r => r.2
  | .error _ => w

/-- A transaction: it reads, and writes if it does not raise. -/
def commit (event : σ → ι) (f : σ → Except ε (α × σ)) : Prog σ ι ε α :=
  act event (fun w => committed w (f w)) fun w => ofExcept ((f w).map Prod.fst)

/-- The outcome of a program, returned whether it raises or not. -/
def outcome (p : Prog σ ι ε α) : Prog σ ι ε (Except ε α) :=
  (p.bind fun a => ret (.ok a)).handle fun e => ret (.error e)

/-- `try: .. finally: ..`. -/
def ensuring (p : Prog σ ι ε α) (last : Prog σ ι ε Unit) : Prog σ ι ε α := do
  let r ← p.outcome
  last
  ofExcept r

/-- A check that raises. -/
def require (p : Prop) [Decidable p] (e : ε) : Prog σ ι ε Unit :=
  if p then ret () else raise e

/-- A program on a part of a larger world, whose records and exceptions are wrapped. -/
def within {τ κ δ : Type} (get : τ → σ) (put : σ → τ → τ) (event : ι → κ) (error : ε → δ) :
    Prog σ ι ε α → Prog τ κ δ α
  | ret a => ret a
  | raise e => raise (error e)
  | act ev up next => act (fun w => event (ev (get w))) (fun w => put (up (get w)) w)
      fun w => (next (get w)).within get put event error

end Prog

/-! ### Runs -/

/-- How a run ends: it may be stopped before any action. -/
inductive Ending (ε α : Type)
  | stopped
  | returned (a : α)
  | raised (e : ε)
deriving DecidableEq, Repr

/-- A run: what it recorded, how it ended, and the world it left. -/
structure Played (σ ι ε α : Type) where
  events : List ι
  ending : Ending ε α
  world : σ

/-- The run of a program in which the others make one of the given moves before each of its
actions; it stops where the moves end. -/
def Prog.play (env : χ → σ → σ) : Prog σ ι ε α → σ → List χ → Played σ ι ε α
  | .ret a, w, _ => ⟨[], .returned a, w⟩
  | .raise e, w, _ => ⟨[], .raised e, w⟩
  | .act _ _ _, w, [] => ⟨[], .stopped, w⟩
  | .act ev up next, w, x :: xs =>
      let w' := env x w
      let r := (next w').play env (up w') xs
      { r with events := ev w' :: r.events }

/-- An action of a run, with the worlds before and after it. -/
structure Step (σ ι : Type) where
  event : ι
  before : σ
  after : σ

/-- The actions of a run. -/
def Prog.steps (env : χ → σ → σ) : Prog σ ι ε α → σ → List χ → List (Step σ ι)
  | .ret _, _, _ => []
  | .raise _, _, _ => []
  | .act _ _ _, _, [] => []
  | .act ev up next, w, x :: xs =>
      ⟨ev (env x w), env x w, up (env x w)⟩ :: (next (env x w)).steps env (up (env x w)) xs

section

variable (env : χ → σ → σ)

include env

lemma Prog.steps_events (p : Prog σ ι ε α) (w : σ) (xs : List χ) :
    (p.steps env w xs).map Step.event = (p.play env w xs).events := by
  induction p generalizing w xs with
  | ret a => rfl
  | raise e => rfl
  | act ev up next ih =>
      cases xs with
      | nil => rfl
      | cons x xs => exact congrArg (ev (env x w) :: ·) (ih (env x w) _ xs)

/-- The world a run leaves is that after its last action. -/
lemma Prog.play_world (p : Prog σ ι ε α) (w : σ) (xs : List χ) :
    (p.play env w xs).world = ((p.steps env w xs).getLast?.map Step.after).getD w := by
  induction p generalizing w xs with
  | ret a => rfl
  | raise e => rfl
  | act ev up next ih =>
      cases xs with
      | nil => rfl
      | cons x xs =>
          have hnext := ih (env x w) (up (env x w)) xs
          rw [Prog.play, Prog.steps, hnext, List.getLast?_cons]
          cases ((next (env x w)).steps env (up (env x w)) xs).getLast? <;> rfl

lemma Prog.play_map {ψ : Type} (f : ψ → χ) (p : Prog σ ι ε α) (w : σ) (xs : List ψ) :
    p.play env w (xs.map f) = p.play (fun x => env (f x)) w xs := by
  induction p generalizing w xs with
  | ret a => rfl
  | raise e => rfl
  | act ev up next ih =>
      cases xs with
      | nil => rfl
      | cons x xs => simp only [List.map_cons, Prog.play, ih]

lemma Prog.exists_ended (x : χ) (p : Prog σ ι ε α) (w : σ) (xs : List χ) :
    ∃ n, (p.play env w (xs ++ List.replicate n x)).ending ≠ .stopped ∧
      (p.play env w xs).events <+: (p.play env w (xs ++ List.replicate n x)).events := by
  induction p generalizing w xs with
  | ret a => exact ⟨0, (fun h => nomatch h), List.nil_prefix⟩
  | raise e => exact ⟨0, (fun h => nomatch h), List.nil_prefix⟩
  | act ev up next ih =>
      cases xs with
      | nil =>
          obtain ⟨n, hn, -⟩ := ih (env x w) (up (env x w)) []
          exact ⟨n + 1, hn, List.nil_prefix⟩
      | cons y xs =>
          obtain ⟨n, hn, hevents⟩ := ih (env y w) (up (env y w)) xs
          exact ⟨n, hn, (List.prefix_cons_inj _).mpr hevents⟩

end

/-! ### Specifications -/

/-- Whatever the others do within `E`, every action of the program meets `G` (its history,
what it records, the world before it and after it), and it ends in `Q` or raises in `R`. -/
def Wp (E : σ → σ → Prop) (G : List ι → ι → σ → σ → Prop) (Q : α → List ι → σ → Prop)
    (R : ε → List ι → σ → Prop) : Prog σ ι ε α → List ι → σ → Prop
  | .ret a, h, w => Q a h w
  | .raise e, h, w => R e h w
  | .act ev up next, h, w => ∀ w', E w w' → G h (ev w') w' (up w') ∧
      Wp E G Q R (next w') (h ++ [ev w']) (up w')

/-- The others may do anything. -/
abbrev Anything (σ : Type) : σ → σ → Prop := fun _ _ => True

/-- Nothing is asked of an action. -/
abbrev Unchecked (σ ι : Type) : List ι → ι → σ → σ → Prop := fun _ _ _ _ => True

variable {E : σ → σ → Prop} {G : List ι → ι → σ → σ → Prop} {Q Q' : α → List ι → σ → Prop}
  {R R' : ε → List ι → σ → Prop} {p : Prog σ ι ε α} {h : List ι} {w : σ}

@[simp]
lemma wp_ret (a : α) : Wp E G Q R (.ret a) h w ↔ Q a h w := Iff.rfl

@[simp]
lemma wp_pure (a : α) : Wp E G Q R (pure a) h w ↔ Q a h w := Iff.rfl

@[simp]
lemma wp_raise (e : ε) : Wp E G Q R (.raise e : Prog σ ι ε α) h w ↔ R e h w := Iff.rfl

/-- **Composition.** -/
@[simp]
lemma wp_bind {Q : β → List ι → σ → Prop} {f : α → Prog σ ι ε β} :
    Wp E G Q R (p >>= f) h w ↔ Wp E G (fun a => Wp E G Q R (f a)) R p h w := by
  change Wp E G Q R (p.bind f) h w ↔ _
  induction p generalizing h w with
  | ret a => exact Iff.rfl
  | raise e => exact Iff.rfl
  | act ev up next ih =>
      constructor
      · intro hw w' hE
        exact ⟨(hw w' hE).1, (ih w').mp (hw w' hE).2⟩
      · intro hw w' hE
        exact ⟨(hw w' hE).1, (ih w').mpr (hw w' hE).2⟩

variable {env : χ → σ → σ} {event : Except ε α → ι} {f : ε → Prog σ ι ε α} {last : Prog σ ι ε Unit}

lemma wp_handle :
    Wp E G Q R (p.handle f) h w ↔ Wp E G Q (fun e => Wp E G Q R (f e)) p h w := by
  induction p generalizing h w with
  | ret a => exact Iff.rfl
  | raise e => exact Iff.rfl
  | act ev up next ih =>
      constructor
      · intro hw w' hE
        exact ⟨(hw w' hE).1, (ih w').mp (hw w' hE).2⟩
      · intro hw w' hE
        exact ⟨(hw w' hE).1, (ih w').mpr (hw w' hE).2⟩

lemma Wp.mono (hw : Wp E G Q R p h w) (hQ : ∀ a h w, Q a h w → Q' a h w)
    (hR : ∀ e h w, R e h w → R' e h w) : Wp E G Q' R' p h w := by
  induction p generalizing h w with
  | ret a => exact hQ a h w hw
  | raise e => exact hR e h w hw
  | act ev up next ih => exact fun w' hE => ⟨(hw w' hE).1, ih w' (hw w' hE).2⟩

lemma Wp.grows (hw : Wp E G Q R p h w) :
    Wp E G (fun a h' w' => h <+: h' ∧ Q a h' w') R p h w := by
  induction p generalizing h w with
  | ret a => exact ⟨List.prefix_refl h, hw⟩
  | raise e => exact hw
  | act ev up next ih =>
      intro w' hE
      have hnext := ih w' (hw w' hE).2
      refine ⟨(hw w' hE).1, hnext.mono (fun a h' w'' hQ => ?_) fun _ _ _ hR => hR⟩
      exact ⟨(List.prefix_append h _).trans hQ.1, hQ.2⟩

/-- Where what the others do and what the actions do keeps a preorder, the program ends above the
world it started in. -/
lemma Wp.above {r : σ → σ → Prop} (hrefl : ∀ w, r w w) (htrans : ∀ a b c, r a b → r b c → r a c)
    (hE : ∀ w w', E w w' → r w w') (hG : ∀ h ev w w', G h ev w w' → r w w')
    (hw : Wp E G Q R p h w) : Wp E G (fun a h' w' => Q a h' w' ∧ r w w') R p h w := by
  have hfrom (w₀ : σ) (h₀ : r w₀ w) : Wp E G (fun a h' w' => Q a h' w' ∧ r w₀ w') R p h w := by
    clear hrefl
    induction p generalizing h w with
    | ret a => exact ⟨hw, h₀⟩
    | raise e => exact hw
    | act ev up next ih =>
        intro w' hw'
        have hact := (hw w' hw').1
        have hup : r w₀ (up w') := htrans _ _ _ (htrans _ _ _ h₀ (hE _ _ hw')) (hG _ _ _ _ hact)
        exact ⟨hact, ih w' (hw w' hw').2 hup⟩
  exact hfrom w (hrefl w)

lemma wp_outcome {Q : Except ε α → List ι → σ → Prop} :
    Wp E G Q R p.outcome h w ↔ Wp E G (fun a => Q (.ok a)) (fun e => Q (.error e)) p h w := by
  rw [Prog.outcome, wp_handle]
  exact wp_bind

/-- A program with a last part that runs in any case. -/
lemma wp_ensuring :
    Wp E G Q R (p.ensuring last) h w ↔
      Wp E G (fun a => Wp E G (fun _ => Q a) R last) (fun e => Wp E G (fun _ => R e) R last)
        p h w := by
  have hbind {f : Except ε α → Prog σ ι ε α} : Wp E G Q R (p.outcome >>= f) h w ↔
      Wp E G (fun a => Wp E G Q R (f (.ok a))) (fun e => Wp E G Q R (f (.error e))) p h w := by
    rw [wp_bind, Prog.outcome, wp_handle]
    exact wp_bind
  have hok (a : α) (h : List ι) (w : σ) :
      Wp E G Q R (last >>= fun _ => .ofExcept (.ok a)) h w ↔ Wp E G (fun _ => Q a) R last h w :=
    wp_bind
  have herror (e : ε) (h : List ι) (w : σ) :
      Wp E G Q R (last >>= fun _ => .ofExcept (.error e)) h w ↔ Wp E G (fun _ => R e) R last h w :=
    wp_bind
  rw [Prog.ensuring, hbind]
  constructor
  · exact fun hw => hw.mono (fun a h w => (hok a h w).mp) fun e h w => (herror e h w).mp
  · exact fun hw => hw.mono (fun a h w => (hok a h w).mpr) fun e h w => (herror e h w).mpr

lemma wp_ofExcept {r : Except ε α} :
    Wp E G Q R (.ofExcept r) h w ↔ (∀ a, r = .ok a → Q a h w) ∧ ∀ e, r = .error e → R e h w := by
  cases r <;> simp [Prog.ofExcept]

lemma map_eq_ok {r : Except ε α} {f : α → β} {b : β} :
    r.map f = .ok b ↔ ∃ a, r = .ok a ∧ f a = b := by
  cases r <;> simp [Except.map]

lemma wp_ask {f : σ → Except ε α} :
    Wp E G Q R (.ask event f) h w ↔ ∀ w', E w w' → G h (event (f w')) w' w' ∧
      (∀ a, f w' = .ok a → Q a (h ++ [event (f w')]) w') ∧
      ∀ e, f w' = .error e → R e (h ++ [event (f w')]) w' := by
  simp only [Prog.ask, Wp, id_eq, wp_ofExcept]

lemma wp_commit {event : σ → ι} {f : σ → Except ε (α × σ)} :
    Wp E G Q R (.commit event f) h w ↔ ∀ w', E w w' →
      (∀ a w'', f w' = .ok (a, w'') → G h (event w') w' w'' ∧ Q a (h ++ [event w']) w'') ∧
      ∀ e, f w' = .error e → G h (event w') w' w' ∧ R e (h ++ [event w']) w' := by
  simp only [Prog.commit, Wp]
  refine forall_congr' fun w' => imp_congr_right fun _ => ?_
  cases hf : f w' with
  | ok r => simp [Prog.committed, Except.map, Prog.ofExcept, wp_ret, Prod.ext_iff]
  | error e => simp [Prog.committed, Except.map, Prog.ofExcept]

lemma wp_require {c : Prop} [Decidable c] {e : ε} {Q : Unit → List ι → σ → Prop} :
    Wp E G Q R (.require c e) h w ↔ (c → Q () h w) ∧ (¬c → R e h w) := by
  by_cases hc : c <;> simp [Prog.require, hc]

/-- **Runs meet specifications.**  However the others move within `E`, each action of the
run met `G` in its history, and the run ended as specified unless it was stopped. -/
theorem Wp.play (hE : ∀ x w, E w (env x w)) (hw : Wp E G Q R p h w) (xs : List χ) :
    (∀ a, (p.play env w xs).ending = .returned a →
      Q a (h ++ (p.play env w xs).events) (p.play env w xs).world) ∧
    (∀ e, (p.play env w xs).ending = .raised e →
      R e (h ++ (p.play env w xs).events) (p.play env w xs).world) ∧
    ∀ h₁ ev h₂, (p.play env w xs).events = h₁ ++ ev :: h₂ →
      ∃ w₁ w₂, G (h ++ h₁) ev w₁ w₂ := by
  induction p generalizing h w xs with
  | ret a =>
      refine ⟨fun b hb => ?_, fun e he => ?_, fun h₁ ev h₂ hev => ?_⟩
      · obtain rfl : a = b := by simpa [Prog.play] using hb
        simpa [Prog.play] using hw
      · simp [Prog.play] at he
      · simp [Prog.play] at hev
  | raise e =>
      refine ⟨fun b hb => ?_, fun e' he => ?_, fun h₁ ev h₂ hev => ?_⟩
      · simp [Prog.play] at hb
      · obtain rfl : e = e' := by simpa [Prog.play] using he
        simpa [Prog.play] using hw
      · simp [Prog.play] at hev
  | act ev up next ih =>
      cases xs with
      | nil => exact ⟨by simp [Prog.play], by simp [Prog.play], by simp [Prog.play]⟩
      | cons x xs =>
          obtain ⟨hG, hnext⟩ := hw (env x w) (hE x w)
          obtain ⟨hret, hraise, hall⟩ := ih (env x w) hnext xs
          simp only [List.append_assoc, List.singleton_append] at hret hraise
          refine ⟨hret, hraise, fun h₁ ev' h₂ hev => ?_⟩
          cases h₁ with
          | nil =>
              obtain ⟨rfl, -⟩ := List.cons_eq_cons.mp hev
              rw [List.append_nil]
              exact ⟨_, _, hG⟩
          | cons e₁ h₁ =>
              obtain ⟨rfl, htail⟩ := List.cons_eq_cons.mp hev
              have hG' := hall h₁ ev' h₂ htail
              rwa [List.append_assoc, List.singleton_append] at hG'

/-- **The actions of a run meet `G`**, each in its history and between its worlds. -/
theorem Wp.steps (hE : ∀ x w, E w (env x w)) (hw : Wp E G Q R p h w)
    {xs : List χ} {before after : List (Step σ ι)} {s : Step σ ι}
    (hs : p.steps env w xs = before ++ s :: after) :
    G (h ++ before.map Step.event) s.event s.before s.after := by
  induction p generalizing h w xs before with
  | ret a => simp [Prog.steps] at hs
  | raise e => simp [Prog.steps] at hs
  | act ev up next ih =>
      cases xs with
      | nil => simp [Prog.steps] at hs
      | cons x xs =>
          obtain ⟨hG, hnext⟩ := hw (env x w) (hE x w)
          cases before with
          | nil =>
              obtain ⟨rfl, -⟩ := List.cons_eq_cons.mp hs
              simpa using hG
          | cons t before =>
              obtain ⟨rfl, htail⟩ := List.cons_eq_cons.mp hs
              have hG' := ih (env x w) hnext htail
              rwa [List.append_assoc] at hG'

/-- **The world a run leaves** has what every action leaves. -/
theorem Wp.world {I : σ → Prop} (hE : ∀ x w, E w (env x w))
    (hG : ∀ h ev w w', G h ev w w' → I w') (hw : Wp E G Q R p h w) (hI : I w) (xs : List χ) :
    I (p.play env w xs).world := by
  induction p generalizing h w xs with
  | ret a => exact hI
  | raise e => exact hI
  | act ev up next ih =>
      cases xs with
      | nil => exact hI
      | cons x xs =>
          obtain ⟨hstep, hnext⟩ := hw (env x w) (hE x w)
          exact ih (env x w) hnext (hG _ _ _ _ hstep) xs

/-! ### Specifications about histories -/

/-- Whatever the others do, every action of the program meets `G`, and its history meets `Q` when
it returns and `R` when it raises. -/
def Meets (G : List ι → ι → σ → σ → Prop) (Q : α → List ι → Prop) (R : ε → List ι → Prop)
    (p : Prog σ ι ε α) (h : List ι) : Prop :=
  ∀ w, Wp (Anything σ) G (fun a h _ => Q a h) (fun e h _ => R e h) p h w

section Meets

variable {Q Q' : α → List ι → Prop} {R R' : ε → List ι → Prop} {Q₂ : β → List ι → Prop}

lemma meets_ret {a : α} (hQ : Q a h) : Meets G Q R (.ret a) h := fun _ => hQ

lemma meets_pure {a : α} (hQ : Q a h) : Meets G Q R (pure a) h := fun _ => hQ

lemma meets_raise {e : ε} (hR : R e h) : Meets G Q R (.raise e : Prog σ ι ε α) h := fun _ => hR

lemma Meets.mono (hp : Meets G Q R p h) (hQ : ∀ a h, Q a h → Q' a h)
    (hR : ∀ e h, R e h → R' e h) : Meets G Q' R' p h :=
  fun w => (hp w).mono (fun a h _ => hQ a h) fun e h _ => hR e h

lemma Meets.grows (hp : Meets G Q R p h) : Meets G (fun a h' => h <+: h' ∧ Q a h') R p h :=
  fun w => (hp w).grows

/-- **Composition.** -/
theorem Meets.bind {f : α → Prog σ ι ε β} (hp : Meets G Q R p h)
    (hf : ∀ a h, Q a h → Meets G Q₂ R (f a) h) : Meets G Q₂ R (p >>= f) h :=
  fun w => wp_bind.mpr ((hp w).mono (fun a h w hQ => hf a h hQ w) fun _ _ _ hR => hR)

lemma Meets.handle {S : ε → List ι → Prop} (hp : Meets G Q S p h)
    (hf : ∀ e h, S e h → Meets G Q R (f e) h) : Meets G Q R (p.handle f) h :=
  fun w => wp_handle.mpr ((hp w).mono (fun _ _ _ hQ => hQ) fun e h w hR => hf e h hR w)

lemma Meets.ensuring (hp : Meets G Q' R' p h) (hQ : ∀ a h, Q' a h → Meets G (fun _ => Q a) R last h)
    (hR : ∀ e h, R' e h → Meets G (fun _ => R e) R last h) : Meets G Q R (p.ensuring last) h :=
  fun w => wp_ensuring.mpr ((hp w).mono (fun a h w h' => hQ a h h' w) fun e h w h' => hR e h h' w)

lemma Meets.outcome {S : Except ε α → List ι → Prop} (hp : Meets G Q R' p h)
    (hQ : ∀ a h, Q a h → S (.ok a) h) (hR : ∀ e h, R' e h → S (.error e) h) :
    Meets G S R p.outcome h :=
  Meets.handle (Meets.bind (p := p) hp fun a h h' => meets_ret (hQ a h h'))
    fun e h h' => meets_ret (hR e h h')

lemma meets_act {ev : σ → ι} {up : σ → σ} {next : σ → Prog σ ι ε α}
    (hnext : ∀ w, G h (ev w) w (up w) ∧ Meets G Q R (next w) (h ++ [ev w])) :
    Meets G Q R (.act ev up next) h :=
  fun _ w _ => ⟨(hnext w).1, (hnext w).2 (up w)⟩

lemma meets_ask {f : σ → Except ε α}
    (hG : ∀ w, G h (event (f w)) w w) (hQ : ∀ w a, f w = .ok a → Q a (h ++ [event (.ok a)]))
    (hR : ∀ w e, f w = .error e → R e (h ++ [event (.error e)])) :
    Meets G Q R (.ask event f) h := by
  intro _
  refine wp_ask.mpr fun w _ => ⟨hG w, fun a ha => ?_, fun e he => ?_⟩
  · exact ha ▸ hQ w a ha
  · exact he ▸ hR w e he

lemma meets_commit {event : σ → ι} {f : σ → Except ε (α × σ)}
    (hok : ∀ w a w', f w = .ok (a, w') → G h (event w) w w' ∧ Q a (h ++ [event w]))
    (herror : ∀ w e, f w = .error e → G h (event w) w w ∧ R e (h ++ [event w])) :
    Meets G Q R (.commit event f) h :=
  fun _ => wp_commit.mpr fun w _ => ⟨hok w, herror w⟩

lemma meets_require {c : Prop} [Decidable c] {e : ε} {Q : Unit → List ι → Prop}
    (hQ : c → Q () h) (hR : ¬c → R e h) : Meets G Q R (.require c e) h :=
  fun _ => wp_require.mpr ⟨hQ, hR⟩

lemma meets_of_wp (hw : Wp (Anything σ) G (fun a h _ => Q a h) (fun e h _ => R e h) p h w) :
    Meets G Q R p h := by
  intro v
  cases p with
  | ret a => exact hw
  | raise e => exact hw
  | act ev up next => exact hw

lemma meets_unchecked (p : Prog σ ι ε α) (h : List ι) :
    Meets (Unchecked σ ι) (fun _ _ => True) (fun _ _ => True) p h := by
  induction p generalizing h with
  | ret a => exact meets_ret trivial
  | raise e => exact meets_raise trivial
  | act ev up next ih => exact meets_act fun w => ⟨trivial, ih w _⟩

/-- A program on a part of the world meets there what it meets in the larger world. -/
theorem Meets.within {τ κ δ : Type} {get : τ → σ} {put : σ → τ → τ} {event : ι → κ}
    {error : ε → δ} {G' : List κ → κ → τ → τ → Prop} (hG : ∀ h x w w', G' h (event x) w w')
    (hp : Meets (Unchecked σ ι) Q R p h) (h₀ : List κ) :
    Meets G' (fun a h' => ∃ reads, h' = h₀ ++ reads.map event ∧ Q a reads)
      (fun e h' => ∃ e₀ reads, e = error e₀ ∧ h' = h₀ ++ reads.map event ∧ R e₀ reads)
      (p.within get put event error) (h₀ ++ h.map event) := by
  induction p generalizing h with
  | ret a => exact fun w => ⟨h, rfl, hp (get w)⟩
  | raise e => exact fun w => ⟨e, h, rfl, rfl, hp (get w)⟩
  | act ev up next ih =>
      intro _ w _
      refine ⟨hG _ _ _ _, ?_⟩
      have hnext : Meets (Unchecked σ ι) Q R (next (get w)) (h ++ [ev (get w)]) :=
        meets_of_wp (hp (get w) (get w) trivial).2
      have hlifted := ih (get w) hnext
      rw [List.map_append, ← List.append_assoc] at hlifted
      exact hlifted _

/-- **The actions of a run meet `G`**, each in its history. -/
theorem Meets.steps (hp : Meets G Q R p h) (env : χ → σ → σ) (w : σ) {xs : List χ}
    {before after : List (Step σ ι)} {s : Step σ ι}
    (hs : p.steps env w xs = before ++ s :: after) :
    G (h ++ before.map Step.event) s.event s.before s.after :=
  (hp w).steps (fun _ _ => trivial) hs

end Meets

/-! ### Invariants -/

/-- Every action of the program keeps the invariant. -/
def Keeps (E : σ → σ → Prop) (I : List ι → σ → Prop) (p : Prog σ ι ε α) : Prop :=
  ∀ h w, I h w → Wp E (Unchecked σ ι) (fun _ => I) (fun _ => I) p h w

section Keeps

variable {I : List ι → σ → Prop}

lemma keeps_pure (a : α) : Keeps E I (pure a : Prog σ ι ε α) := fun _ _ hI => hI

lemma keeps_raise (e : ε) : Keeps E I (.raise e : Prog σ ι ε α) := fun _ _ hI => hI

/-- **Composition.** -/
lemma Keeps.bind {f : α → Prog σ ι ε β} (hp : Keeps E I p) (hf : ∀ a, Keeps E I (f a)) :
    Keeps E I (p >>= f) :=
  fun h w hI => wp_bind.mpr ((hp h w hI).mono (fun a h w hI => hf a h w hI) fun _ _ _ hI => hI)

lemma Keeps.handle (hp : Keeps E I p) (hf : ∀ e, Keeps E I (f e)) :
    Keeps E I (p.handle f) :=
  fun h w hI => wp_handle.mpr ((hp h w hI).mono (fun _ _ _ hI => hI) fun e h w hI => hf e h w hI)

lemma keeps_ask {f : σ → Except ε α}
    (hE : ∀ h w w', I h w → E w w' → I h w') (hI : ∀ h w, I h w → I (h ++ [event (f w)]) w) :
    Keeps E I (.ask event f) := by
  intro h w hw
  refine wp_ask.mpr fun w' hw' => ⟨trivial, fun a ha => ?_, fun e he => ?_⟩
  · exact hI h w' (hE h w w' hw hw')
  · exact hI h w' (hE h w w' hw hw')

lemma keeps_commit {event : σ → ι} {f : σ → Except ε (α × σ)}
    (hE : ∀ h w w', I h w → E w w' → I h w')
    (hok : ∀ h w a w', I h w → f w = .ok (a, w') → I (h ++ [event w]) w')
    (herror : ∀ h w e, I h w → f w = .error e → I (h ++ [event w]) w) :
    Keeps E I (.commit event f) := by
  intro h w hw
  refine wp_commit.mpr fun w' hw' => ⟨fun a w'' hf => ⟨trivial, ?_⟩, fun e hf => ⟨trivial, ?_⟩⟩
  · exact hok h w' a w'' (hE h w w' hw hw') hf
  · exact herror h w' e (hE h w w' hw hw') hf

lemma keeps_require {c : Prop} [Decidable c] {e : ε} :
    Keeps E I (.require c e : Prog σ ι ε Unit) :=
  fun _ _ hI => wp_require.mpr ⟨fun _ => hI, fun _ => hI⟩

end Keeps

/-! ### Two worlds -/

/-- The program does not return. -/
def Prog.Fails : Prog σ ι ε α → Prop
  | .ret _ => False
  | .raise _ => True
  | .act _ _ next => ∀ w, (next w).Fails

/-- Where the first program returns the second returns as well, in worlds that stay related by
`S`; nothing is asked where the first fails. -/
def Follows (S : σ → σ → Prop) (Q : α → β → Prop) :
    Prog σ ι ε α → Prog σ ι ε β → σ → σ → Prop
  | .ret a, q, w, w' => S w w' ∧ ∃ b, q = .ret b ∧ Q a b
  | .raise _, _, _, _ => True
  | .act ev up next, .act _ up' next', w, w' => (Prog.act ev up next).Fails ∨
      S w w' ∧ ∀ v v', S v v' → Follows S Q (next v) (next' v') (up v) (up' v')
  | .act ev up next, _, _, _ => (Prog.act ev up next).Fails

section Follows

variable {S : σ → σ → Prop} {γ δ : Type} {P : α → β → Prop} {q : Prog σ ι ε β} {w' : σ}

lemma Prog.Fails.bind {f : α → Prog σ ι ε β} (hf : ∀ a, (f a).Fails) : (p >>= f).Fails := by
  change (p.bind f).Fails
  induction p with
  | ret a => exact hf a
  | raise e => exact trivial
  | act ev up next ih => exact fun w => ih w

lemma Prog.Fails.bind_left {f : α → Prog σ ι ε β} (hp : p.Fails) : (p >>= f).Fails := by
  change (p.bind f).Fails
  induction p with
  | ret a => exact hp.elim
  | raise e => exact trivial
  | act ev up next ih => exact fun w => ih w (hp w)

lemma Prog.Fails.ensuring (hp : p.Fails) : (p.ensuring last).Fails := by
  induction p with
  | ret a => exact hp.elim
  | raise e =>
      have hleft : (Prog.raise e : Prog σ ι ε α).ensuring last = (last >>= fun _ => .raise e) := rfl
      rw [hleft]
      exact Prog.Fails.bind fun _ => trivial
  | act ev up next ih => exact fun w => ih w (hp w)

/-- Nothing is asked where the first program fails. -/
lemma follows_of_fails (hp : p.Fails) : Follows S P p q w w' := by
  cases p with
  | ret a => exact hp.elim
  | raise e => exact trivial
  | act ev up next =>
      cases q with
      | ret b => exact hp
      | raise e => exact hp
      | act ev' up' next' => exact .inl hp

/-- **Composition.** -/
theorem follows_bind {P' : γ → δ → Prop} {f : α → Prog σ ι ε γ} {g : β → Prog σ ι ε δ}
    (h : Follows S P p q w w')
    (hf : ∀ a b, P a b → ∀ w w', S w w' → Follows S P' (f a) (g b) w w') :
    Follows S P' (p >>= f) (q >>= g) w w' := by
  change Follows S P' (p.bind f) (q.bind g) w w'
  induction p generalizing q w w' with
  | ret a =>
      obtain ⟨hS, b, rfl, hab⟩ := h
      exact hf a b hab w w' hS
  | raise e => exact trivial
  | act ev up next ih =>
      cases q with
      | ret b => exact follows_of_fails (Prog.Fails.bind_left h)
      | raise e => exact follows_of_fails (Prog.Fails.bind_left h)
      | act ev' up' next' =>
          rcases h with hfails | ⟨hS, hnext⟩
          · exact follows_of_fails (Prog.Fails.bind_left hfails)
          · exact .inr ⟨hS, fun v v' hv => ih v (hnext v v' hv)⟩

lemma Follows.mono {P' : α → β → Prop} (h : Follows S P p q w w') (hP : ∀ a b, P a b → P' a b) :
    Follows S P' p q w w' := by
  induction p generalizing q w w' with
  | ret a =>
      obtain ⟨hS, b, rfl, hab⟩ := h
      exact ⟨hS, b, rfl, hP a b hab⟩
  | raise e => exact trivial
  | act ev up next ih =>
      cases q with
      | ret b => exact h
      | raise e => exact h
      | act ev' up' next' =>
          rcases h with hfails | ⟨hS, hnext⟩
          · exact .inl hfails
          · exact .inr ⟨hS, fun v v' hv => ih v (hnext v v' hv)⟩

lemma follows_act {ev ev' : σ → ι} {up up' : σ → σ} {next : σ → Prog σ ι ε α}
    {next' : σ → Prog σ ι ε β} (hS : S w w')
    (h : ∀ v v', S v v' → Follows S P (next v) (next' v') (up v) (up' v')) :
    Follows S P (.act ev up next) (.act ev' up' next') w w' :=
  .inr ⟨hS, h⟩

lemma follows_ask {event' : Except ε β → ι} {f : σ → Except ε α} {g : σ → Except ε β} (hS : S w w')
    (h : ∀ v v', S v v' → ∀ a, f v = .ok a → ∃ b, g v' = .ok b ∧ P a b) :
    Follows S P (.ask event f) (.ask event' g) w w' := by
  refine follows_act hS fun v v' hv => ?_
  cases hf : f v with
  | error e => exact trivial
  | ok a =>
      obtain ⟨b, hb, hP⟩ := h v v' hv a hf
      rw [hb]
      exact ⟨hv, b, rfl, hP⟩

lemma follows_commit {event event' : σ → ι} {f : σ → Except ε (α × σ)}
    {g : σ → Except ε (β × σ)} (hS : S w w')
    (h : ∀ v v', S v v' → ∀ a u, f v = .ok (a, u) → ∃ b u', g v' = .ok (b, u') ∧ P a b ∧ S u u') :
    Follows S P (.commit event f) (.commit event' g) w w' := by
  refine follows_act hS fun v v' hv => ?_
  cases hf : f v with
  | error e => exact trivial
  | ok r =>
      obtain ⟨b, u', hb, hP, hu⟩ := h v v' hv r.1 r.2 hf
      rw [hb]
      exact ⟨hu, b, rfl, hP⟩

/-- A last part that runs in any case. -/
theorem follows_ensuring {last' : Prog σ ι ε Unit} (h : Follows S P p q w w')
    (hlast : ∀ w w', S w w' → Follows S (fun _ _ => True) last last' w w') :
    Follows S P (p.ensuring last) (q.ensuring last') w w' := by
  induction p generalizing q w w' with
  | ret a =>
      obtain ⟨hS, b, rfl, hab⟩ := h
      have hleft : (Prog.ret a : Prog σ ι ε α).ensuring last = (last >>= fun _ => .ret a) := rfl
      have hright : (Prog.ret b : Prog σ ι ε β).ensuring last' = (last' >>= fun _ => .ret b) := rfl
      rw [hleft, hright]
      exact follows_bind (hlast w w' hS) fun _ _ _ w w' hS => ⟨hS, b, rfl, hab⟩
  | raise e =>
      have hleft : (Prog.raise e : Prog σ ι ε α).ensuring last = (last >>= fun _ => .raise e) := rfl
      rw [hleft]
      exact follows_of_fails (Prog.Fails.bind fun _ => trivial)
  | act ev up next ih =>
      cases q with
      | ret b => exact follows_of_fails (Prog.Fails.ensuring h)
      | raise e => exact follows_of_fails (Prog.Fails.ensuring h)
      | act ev' up' next' =>
          rcases h with hfails | ⟨hS, hnext⟩
          · exact follows_of_fails (Prog.Fails.ensuring hfails)
          · exact .inr ⟨hS, fun v v' hv => ih v (hnext v v' hv)⟩

lemma Prog.Fails.play (hp : p.Fails) (xs : List χ) (a : α) :
    (p.play env w xs).ending ≠ .returned a := by
  induction p generalizing w xs with
  | ret b => exact hp.elim
  | raise e => exact fun h => nomatch h
  | act ev up next ih =>
      cases xs with
      | nil => exact fun h => nomatch h
      | cons x xs => exact ih (env x w) (hp _) xs

lemma Prog.Fails.handle (hp : p.Fails) (hf : ∀ e, (f e).Fails) :
    (p.handle f).Fails := by
  induction p with
  | ret a => exact hp.elim
  | raise e => exact hf e
  | act ev up next ih => exact fun w => ih w (hp w)

lemma follows_handle {g : ε → Prog σ ι ε β} (h : Follows S P p q w w')
    (hf : ∀ e, (f e).Fails) : Follows S P (p.handle f) (q.handle g) w w' := by
  induction p generalizing q w w' with
  | ret a =>
      obtain ⟨hS, b, rfl, hab⟩ := h
      exact ⟨hS, b, rfl, hab⟩
  | raise e => exact follows_of_fails (hf e)
  | act ev up next ih =>
      cases q with
      | ret b => exact follows_of_fails (Prog.Fails.handle h hf)
      | raise e => exact follows_of_fails (Prog.Fails.handle h hf)
      | act ev' up' next' =>
          rcases h with hfails | ⟨hS, hnext⟩
          · exact follows_of_fails (Prog.Fails.handle hfails hf)
          · exact .inr ⟨hS, fun v v' hv => ih v (hnext v v' hv)⟩

/-- In a run of the program every move meets `Ok` in the world it is made in. -/
def Prog.MovesMeet (env : χ → σ → σ) (Ok : χ → σ → Prop) : Prog σ ι ε α → σ → List χ → Prop
  | .ret _, _, _ => True
  | .raise _, _, _ => True
  | .act _ _ _, _, [] => True
  | .act _ up next, w, x :: xs =>
      Ok x w ∧ (next (env x w)).MovesMeet env Ok (up (env x w)) xs

/-- **Runs follow.**  When every move that is made keeps the worlds related, the second run returns
where the first one does. -/
theorem Follows.play {env' : χ → σ → σ} {Ok : χ → σ → Prop}
    (hE : ∀ x w w', S w w' → Ok x w' → S (env x w) (env' x w')) (h : Follows S P p q w w')
    {xs : List χ} (hOk : q.MovesMeet env' Ok w' xs) {a : α}
    (ha : (p.play env w xs).ending = .returned a) :
    ∃ b, (q.play env' w' xs).ending = .returned b ∧ P a b := by
  induction p generalizing q w w' xs with
  | ret c =>
      obtain ⟨-, b, rfl, hab⟩ := h
      obtain rfl : c = a := by simpa [Prog.play] using ha
      exact ⟨b, rfl, hab⟩
  | raise e => cases ha
  | act ev up next ih =>
      cases q with
      | ret b => exact (Prog.Fails.play h xs a ha).elim
      | raise e => exact (Prog.Fails.play h xs a ha).elim
      | act ev' up' next' =>
          rcases h with hfails | ⟨hS, hnext⟩
          · exact (Prog.Fails.play hfails xs a ha).elim
          · cases xs with
            | nil => cases ha
            | cons x xs => exact ih _ (hnext _ _ (hE x w w' hS hOk.1)) hOk.2 ha

end Follows

end Effects
