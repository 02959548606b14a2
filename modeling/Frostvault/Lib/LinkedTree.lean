import Mathlib.Data.List.Infix

/-!
Trees of directories with symbolic links.

A tree says what is at a path of names, counted from the root.  A path is followed name by
name: a link is replaced by its text, which starts again at the root or goes on where the link
is, and `..` in it goes up from the directory reached.  At most a fixed number of links is
followed.

* `walk`, `resolve`: where a path leads;
* `Real`: a path of directories without a link;
* `resolve_real`: **a path leads to a real one**, and `resolve_of_real`: a real one leads to
  itself;
* `resolve_concat`, `exists_of_resolve_concat`: a path with one more name;
* `commonPath`: the longest common path of two, with what it says about prefixes.
-/

namespace LinkedTree

variable {ν : Type}

/-- A part of the text of a link. -/
inductive Segment (ν : Type)
  | up
  | down (n : ν)
deriving DecidableEq, Repr

/-- What is at a path. -/
inductive Entry (ν : Type)
  | directory
  | file
  | link (absolute : Bool) (text : List (Segment ν))
deriving DecidableEq, Repr

/-- A tree, by paths from its root, which is a directory. -/
abbrev Tree (ν : Type) := List ν → Option (Entry ν)

/-- Follow a text from a directory; `follow` goes on at a link. -/
def walkWith (t : Tree ν) (follow : List ν → List (Segment ν) → Option (List ν)) :
    List ν → List (Segment ν) → Option (List ν)
  | here, [] => some here
  | here, .up :: rest => walkWith t follow here.dropLast rest
  | here, .down n :: rest =>
      match t (here ++ [n]) with
      | some .directory => walkWith t follow (here ++ [n]) rest
      | some (.link absolute text) => follow (if absolute then [] else here) (text ++ rest)
      | _ => none

/-- Follow a text through at most so many links. -/
def walk (t : Tree ν) : ℕ → List ν → List (Segment ν) → Option (List ν)
  | 0 => walkWith t fun _ _ => none
  | limit + 1 => walkWith t (walk t limit)

/-- The directory a path leads to. -/
def resolve (t : Tree ν) (limit : ℕ) (p : List ν) : Option (List ν) :=
  walk t limit [] (p.map .down)

/-- A path of directories, none of which is a link. -/
def Real (t : Tree ν) (p : List ν) : Prop :=
  ∀ q n, q ++ [n] <+: p → t (q ++ [n]) = some .directory

variable {t t' : Tree ν} {limit : ℕ} {p q here : List ν} {n : ν}

lemma real_nil (t : Tree ν) : Real t [] := fun q n h => by simp at h

lemma Real.of_prefix (hp : Real t p) (h : q <+: p) : Real t q :=
  fun r n hr => hp r n (hr.trans h)

lemma Real.concat (hp : Real t p) (hn : t (p ++ [n]) = some .directory) : Real t (p ++ [n]) := by
  intro q m h
  rcases List.prefix_concat_iff.mp h with h | h
  · rw [h]
    exact hn
  · exact hp q m h

lemma Real.directory (hp : Real t (p ++ [n])) : t (p ++ [n]) = some .directory :=
  hp p n (List.prefix_refl _)

lemma Real.mono (hp : Real t p) (h : ∀ q, t q = some .directory → t' q = some .directory) :
    Real t' p :=
  fun q n hq => h _ (hp q n hq)

variable {follow : List ν → List (Segment ν) → Option (List ν)} {rest : List (Segment ν)}

/-- A text is followed to real paths when links are. -/
lemma real_walkWith (hfollow : ∀ here rest q, Real t here → follow here rest = some q → Real t q)
    (hhere : Real t here) (h : walkWith t follow here rest = some q) :
    Real t q := by
  induction rest generalizing here with
  | nil =>
      cases h
      exact hhere
  | cons segment rest ih =>
      cases segment with
      | up => exact ih (hhere.of_prefix (List.dropLast_prefix here)) h
      | down n =>
          rw [walkWith] at h
          split at h
          · rename_i hdir
            exact ih (hhere.concat hdir) h
          · refine hfollow _ _ q ?_ h
            split
            · exact real_nil t
            · exact hhere
          · cases h

lemma real_walk (hhere : Real t here) (h : walk t limit here rest = some q) : Real t q := by
  induction limit generalizing here rest q with
  | zero => exact real_walkWith (fun _ _ _ _ hnone => by cases hnone) hhere h
  | succ limit ih => exact real_walkWith (fun here rest q hr hq => ih hr hq) hhere h

/-- **A path leads to a real one.** -/
theorem resolve_real (h : resolve t limit p = some q) : Real t q := real_walk (real_nil t) h

/-- A real path is followed without a link. -/
lemma walkWith_of_real (hp : Real t (here ++ p)) :
    walkWith t follow here (p.map .down) = some (here ++ p) := by
  induction p generalizing here with
  | nil => rw [List.append_nil, List.map_nil, walkWith]
  | cons n p ih =>
      have hsplit : here ++ n :: p = here ++ [n] ++ p := by simp
      have hdir : t (here ++ [n]) = some .directory :=
        hp here n (hsplit ▸ List.prefix_append _ p)
      rw [List.map_cons, walkWith, hdir, hsplit]
      exact ih (hsplit ▸ hp)

/-- **A real path leads to itself.** -/
theorem resolve_of_real (hp : Real t p) : resolve t limit p = some p := by
  cases limit <;> exact walkWith_of_real (by simpa using hp)

lemma resolve_eq_self_iff : resolve t limit p = some p ↔ Real t p :=
  ⟨resolve_real, resolve_of_real⟩

/-! ### The last name of a path -/

/-- One more directory, from wherever the text leads. -/
lemma walkWith_concat
    (hfollow : ∀ here rest q, follow here rest = some q → t (q ++ [n]) = some .directory →
      follow here (rest ++ [.down n]) = some (q ++ [n])) (h : walkWith t follow here rest = some q)
    (hdir : t (q ++ [n]) = some .directory) :
    walkWith t follow here (rest ++ [.down n]) = some (q ++ [n]) := by
  induction rest generalizing here with
  | nil =>
      cases h
      simp [walkWith, hdir]
  | cons segment rest ih =>
      cases segment with
      | up => exact ih h
      | down m =>
          rw [List.cons_append, walkWith]
          rw [walkWith] at h
          split at h
          · exact ih h
          · rw [← List.append_assoc]
            exact hfollow _ _ q h hdir
          · cases h

/-- **A path with one more directory** leads to that directory. -/
lemma resolve_concat (h : resolve t limit p = some q) (hdir : t (q ++ [n]) = some .directory) :
    resolve t limit (p ++ [n]) = some (q ++ [n]) := by
  have hwalk : ∀ limit here (rest : List (Segment ν)) q, walk t limit here rest = some q →
      t (q ++ [n]) = some .directory → walk t limit here (rest ++ [.down n]) = some (q ++ [n]) := by
    intro limit
    induction limit with
    | zero =>
        exact fun _ _ _ h hdir => walkWith_concat (fun _ _ _ hnone => by cases hnone) h hdir
    | succ limit ih => exact fun _ _ _ h hdir => walkWith_concat ih h hdir
  rw [resolve, List.map_append]
  exact hwalk limit [] _ q h hdir

/-- Where a text with one more name leads: the name is that of a directory there, or a link. -/
lemma exists_of_walkWith_concat (hfollow : ∀ here rest q, follow here (rest ++ [.down n]) = some q →
      ∃ d, follow here rest = some d ∧ (t (d ++ [n]) = some .directory ∧ q = d ++ [n] ∨
      ∃ absolute text, t (d ++ [n]) = some (.link absolute text)))
    (h : walkWith t follow here (rest ++ [.down n]) = some q) :
    ∃ d, walkWith t follow here rest = some d ∧ (t (d ++ [n]) = some .directory ∧ q = d ++ [n] ∨
      ∃ absolute text, t (d ++ [n]) = some (.link absolute text)) := by
  induction rest generalizing here with
  | nil =>
      refine ⟨here, rfl, ?_⟩
      rw [List.nil_append, walkWith] at h
      split at h
      · rename_i hdir
        exact .inl ⟨hdir, (Option.some.inj h).symm⟩
      · rename_i absolute text hlink
        exact .inr ⟨absolute, text, hlink⟩
      · cases h
  | cons segment rest ih =>
      cases segment with
      | up => exact ih h
      | down m =>
          rw [List.cons_append, walkWith] at h
          rw [walkWith]
          split at h
          · exact ih h
          · rw [← List.append_assoc] at h
            exact hfollow _ _ q h
          · cases h

/-- **A path that does not end in a link** leads to a directory of its last name. -/
lemma exists_of_resolve_concat (h : resolve t limit (p ++ [n]) = some q) :
    ∃ d, resolve t limit p = some d ∧ (t (d ++ [n]) = some .directory ∧ q = d ++ [n] ∨
      ∃ absolute text, t (d ++ [n]) = some (.link absolute text)) := by
  have hwalk : ∀ limit here (rest : List (Segment ν)) q,
      walk t limit here (rest ++ [.down n]) = some q →
      ∃ d, walk t limit here rest = some d ∧ (t (d ++ [n]) = some .directory ∧ q = d ++ [n] ∨
        ∃ absolute text, t (d ++ [n]) = some (.link absolute text)) := by
    intro limit
    induction limit with
    | zero => exact fun _ _ _ h => exists_of_walkWith_concat (fun _ _ _ hnone => by cases hnone) h
    | succ limit ih => exact fun _ _ _ h => exists_of_walkWith_concat ih h
  rw [resolve, List.map_append] at h
  exact hwalk limit [] _ q h

/-! ### Common paths -/

variable [DecidableEq ν]

/-- The longest path that both paths begin with. -/
def commonPath : List ν → List ν → List ν
  | a :: as, b :: bs => if a = b then a :: commonPath as bs else []
  | _, _ => []

lemma commonPath_eq_left_iff : commonPath p q = p ↔ p <+: q := by
  induction p generalizing q with
  | nil => simp [commonPath]
  | cons a as ih =>
      cases q with
      | nil => simp [commonPath]
      | cons b bs =>
          rw [commonPath, List.cons_prefix_cons]
          by_cases hab : a = b
          · simp [hab, ih]
          · simp [hab]

lemma commonPath_comm (p q : List ν) : commonPath p q = commonPath q p := by
  induction p generalizing q with
  | nil => cases q <;> rfl
  | cons a as ih =>
      cases q with
      | nil => rfl
      | cons b bs =>
          rw [commonPath, commonPath]
          by_cases hab : a = b
          · simp [hab, ih]
          · simp [hab, Ne.symm hab]

lemma commonPath_eq_right_iff : commonPath p q = q ↔ q <+: p := by
  rw [commonPath_comm, commonPath_eq_left_iff]

end LinkedTree
