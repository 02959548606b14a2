import Mathlib.Data.List.Basic

/-!
Patterns over texts: pieces that stand for one character of a class or for a run of them.

The regular expressions of names and the shell patterns of `fnmatch` are lists of such pieces.

* `fullmatch_append`: a concatenation matches a text that splits;
* `fullmatch_lit`, `fullmatch_many`, `fullmatch_replicate`: the pieces;
* `glob`: a shell pattern, with its stars, question marks and sets.
-/

namespace Patterns

variable {α : Type*}

/-- One character of a class, or any number of them. -/
inductive Piece (α : Type*)
  | one (p : α → Bool)
  | many (p : α → Bool)

/-- The text is a run of the class and a rest that is accepted. -/
def run (p : α → Bool) (k : List α → Bool) : List α → Bool
  | [] => k []
  | c :: cs => k (c :: cs) || (p c && run p k cs)

/-- The pieces match the whole text. -/
def fullmatch : List (Piece α) → List α → Bool
  | [], s => s.isEmpty
  | .one _ :: _, [] => false
  | .one p :: ps, c :: cs => p c && fullmatch ps cs
  | .many p :: ps, s => run p (fullmatch ps) s

/-- A text, literally. -/
def lit [DecidableEq α] (t : List α) : List (Piece α) := t.map fun a => .one fun c => c = a

/-! ### Matching -/

variable {s : List α}

lemma run_iff {p : α → Bool} {k : List α → Bool} :
    run p k s ↔ ∃ a b, s = a ++ b ∧ (∀ c ∈ a, p c) ∧ k b := by
  induction s with
  | nil =>
      simp only [run]
      constructor
      · exact fun h => ⟨[], [], rfl, by simp, h⟩
      · rintro ⟨a, b, hab, -, h⟩
        obtain ⟨rfl, rfl⟩ := List.append_eq_nil_iff.mp hab.symm
        exact h
  | cons c cs ih =>
      simp only [run, Bool.or_eq_true, Bool.and_eq_true, ih]
      constructor
      · rintro (h | ⟨hc, a, b, rfl, ha, h⟩)
        · exact ⟨[], c :: cs, rfl, by simp, h⟩
        · exact ⟨c :: a, b, rfl, by simpa using ⟨hc, ha⟩, h⟩
      · rintro ⟨a, b, hab, ha, h⟩
        cases a with
        | nil => exact .inl (by rwa [hab])
        | cons d a =>
            obtain ⟨rfl, rfl⟩ := List.cons.inj hab
            exact .inr ⟨ha _ List.mem_cons_self, a, b, rfl,
              fun e he => ha e (List.mem_cons_of_mem _ he), h⟩

/-- **Concatenation.** -/
theorem fullmatch_append {ps qs : List (Piece α)} :
    fullmatch (ps ++ qs) s ↔
      ∃ a b, s = a ++ b ∧ fullmatch ps a ∧ fullmatch qs b := by
  induction ps generalizing s with
  | nil =>
      constructor
      · exact fun h => ⟨[], s, rfl, rfl, h⟩
      · rintro ⟨a, b, rfl, ha, h⟩
        rw [List.isEmpty_iff.mp ha]
        exact h
  | cons p ps ih =>
      cases p with
      | one p =>
          cases s with
          | nil =>
              simp only [List.cons_append, fullmatch, Bool.false_eq_true, false_iff]
              rintro ⟨a, b, hab, ha, -⟩
              rw [(List.append_eq_nil_iff.mp hab.symm).1] at ha
              cases ha
          | cons c cs =>
              simp only [List.cons_append, fullmatch, Bool.and_eq_true, ih]
              constructor
              · rintro ⟨hc, a, b, rfl, ha, hb⟩
                exact ⟨c :: a, b, rfl, by simp [fullmatch, hc, ha], hb⟩
              · rintro ⟨a, b, hab, ha, hb⟩
                cases a with
                | nil => cases ha
                | cons d a =>
                    obtain ⟨rfl, rfl⟩ := List.cons.inj hab
                    obtain ⟨hc, ha⟩ := Bool.and_eq_true_iff.mp ha
                    exact ⟨hc, a, b, rfl, ha, hb⟩
      | many p =>
          simp only [List.cons_append, fullmatch, run_iff, ih]
          constructor
          · rintro ⟨a, -, rfl, ha, b, c, rfl, hb, hc⟩
            exact ⟨a ++ b, c, by simp, ⟨a, b, rfl, ha, hb⟩, hc⟩
          · rintro ⟨-, c, rfl, ⟨a, b, rfl, ha, hb⟩, hc⟩
            exact ⟨a, b ++ c, by simp, ha, b, c, rfl, hb, hc⟩

/-- A literal matches itself. -/
@[simp]
lemma fullmatch_lit [DecidableEq α] {t : List α} : fullmatch (lit t) s ↔ s = t := by
  induction t generalizing s with
  | nil => simp [lit, fullmatch]
  | cons a t ih =>
      cases s with
      | nil => simp [lit, fullmatch]
      | cons c cs =>
          have h : fullmatch (lit (a :: t)) (c :: cs) = (decide (c = a) && fullmatch (lit t) cs) :=
            rfl
          simp [h, ih]

/-- A run of a class. -/
@[simp]
lemma fullmatch_many {p : α → Bool} :
    fullmatch [.many p] s ↔ ∀ c ∈ s, p c := by
  simp only [fullmatch, run_iff, List.isEmpty_iff]
  constructor
  · rintro ⟨a, b, rfl, ha, rfl⟩
    simpa using ha
  · exact fun h => ⟨s, [], by simp, h, rfl⟩

/-- So many characters of a class. -/
@[simp]
lemma fullmatch_replicate {p : α → Bool} {n : ℕ} :
    fullmatch (List.replicate n (.one p)) s ↔ s.length = n ∧ ∀ c ∈ s, p c := by
  induction n generalizing s with
  | zero =>
      simp only [List.replicate_zero, fullmatch, List.isEmpty_iff, List.length_eq_zero_iff]
      constructor
      · rintro rfl
        exact ⟨rfl, by simp⟩
      · exact And.left
  | succ n ih =>
      cases s with
      | nil => simp [List.replicate_succ, fullmatch]
      | cons c cs =>
          simp only [List.replicate_succ, fullmatch, Bool.and_eq_true, ih, List.length_cons,
            Nat.add_right_cancel_iff, List.mem_cons, forall_eq_or_imp]
          constructor
          · rintro ⟨hc, hn, h⟩
            exact ⟨hn, hc, h⟩
          · rintro ⟨hn, hc, h⟩
            exact ⟨hc, hn, h⟩

/-! ### Shell patterns -/

/-- The characters before the bracket that closes a set. -/
def closeSet : List Char → Option (List Char)
  | [] => none
  | ']' :: _ => some []
  | c :: cs => (closeSet cs).map (c :: ·)

/-- The set a bracket opens: whether it is negated, and its characters; a bracket that stands
first closes nothing. -/
def readSet : List Char → Option (Bool × List Char)
  | '!' :: ']' :: cs => (closeSet cs).map fun s => (true, ']' :: s)
  | '!' :: cs => (closeSet cs).map fun s => (true, s)
  | ']' :: cs => (closeSet cs).map fun s => (false, ']' :: s)
  | cs => (closeSet cs).map fun s => (false, s)

/-- The characters and the ranges of a set; a range whose ends are reversed is empty. -/
def inSet (x : Char) : List Char → Bool
  | a :: '-' :: b :: cs => (a ≤ x && x ≤ b) || inSet x cs
  | a :: cs => x = a || inSet x cs
  | [] => false

/-- A shell pattern, from its position after `skip` characters on. -/
def globFrom : ℕ → List Char → List (Piece Char)
  | _, [] => []
  | skip + 1, _ :: cs => globFrom skip cs
  | 0, '*' :: cs => .many (fun _ => true) :: globFrom 0 cs
  | 0, '?' :: cs => .one (fun _ => true) :: globFrom 0 cs
  | 0, '[' :: cs =>
      match readSet cs with
      | none => .one (fun c => c = '[') :: globFrom 0 cs
      | some (negated, set) =>
          .one (fun c => inSet c set != negated) ::
            globFrom (set.length + 1 + negated.toNat) cs
  | 0, a :: cs => .one (fun c => c = a) :: globFrom 0 cs

/-- `fnmatch.translate`. -/
def glob (pattern : List Char) : List (Piece Char) := globFrom 0 pattern

/-- A set in a name matches another name, and not its own. -/
example : fullmatch (glob ['[', 'a', '-', 'c', ']']) ['b'] = true ∧
    fullmatch (glob ['[', 'a', '-', 'c', ']']) ['[', 'a', '-', 'c', ']'] = false := by
  decide

end Patterns
