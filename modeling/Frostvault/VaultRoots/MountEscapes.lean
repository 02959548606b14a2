import Frostvault.VaultRoots.MountInfo

/-!
The octal escapes of `/proc/self/mountinfo`.

A text the kernel writes has backslashes in four escapes only, and cutting it at another
character leaves texts of this kind.  Reading one gives its characters and the four that are
escaped.

* `unescapeMountinfo_mangle`: **an escaped name is read back**;
* `Mangled`: what the kernel writes; `Mangled.of_mem_splitOnP`: so are its pieces;
* `Mangled.mem_of_unescape`: what reading it can give.
-/

namespace Frostvault

open List

/-- The characters the kernel escapes. -/
def mangledChars : List Char := [' ', '\t', '\n', '\\']

variable {name raw line : List Char} {c : Char}

/-! ### Reading back -/

lemma unescapeMountinfo_cons (h : c ≠ '\\') (rest : List Char) :
    unescapeMountinfo (c :: rest) = (unescapeMountinfo rest).map (c :: ·) := by
  rw [unescapeMountinfo]
  · intro _ _ _ _ hc _
    exact h hc
  · exact h

/-- A character that was written is read. -/
lemma unescapeMountinfo_mangleChar (c : Char) (rest : List Char) :
    unescapeMountinfo (mangleChar c ++ rest) = (unescapeMountinfo rest).map (c :: ·) := by
  rw [mangleChar]
  split_ifs with hspace htab hnewline hbackslash
  · subst hspace
    rfl
  · subst htab
    rfl
  · subst hnewline
    rfl
  · subst hbackslash
    rfl
  · exact unescapeMountinfo_cons hbackslash rest

/-- **An escaped name is read back.** -/
lemma unescapeMountinfo_mangle (name : List Char) :
    unescapeMountinfo (mangle name) = some name := by
  induction name with
  | nil => rfl
  | cons c name ih =>
      rw [mangle, flatMap_cons, unescapeMountinfo_mangleChar, ← mangle, ih, Option.map_some]

/-- A text without backslashes is read as it is. -/
lemma unescapeMountinfo_of_not_mem (h : '\\' ∉ raw) : unescapeMountinfo raw = some raw := by
  induction raw with
  | nil => rfl
  | cons c raw ih =>
      rw [mem_cons, not_or] at h
      rw [unescapeMountinfo_cons (Ne.symm h.1), ih h.2, Option.map_some]

lemma mapM_unescape_mangle (names : List (List Char)) :
    (names.map mangle).mapM unescapeMountinfo = some names := by
  induction names with
  | nil => rfl
  | cons name names ih =>
      rw [map_cons, mapM_cons, unescapeMountinfo_mangle, ih]
      rfl

lemma mapM_unescape_of_not_mem {names : List (List Char)} (h : ∀ n ∈ names, '\\' ∉ n) :
    names.mapM unescapeMountinfo = some names := by
  induction names with
  | nil => rfl
  | cons name names ih =>
      rw [forall_mem_cons] at h
      rw [mapM_cons, unescapeMountinfo_of_not_mem h.1, ih h.2]
      rfl

/-! ### What is written -/

/-- The only backslashes are those of the escapes. -/
inductive Mangled : List Char → Prop
  | nil : Mangled []
  | cons (c : Char) (rest : List Char) (h : c ≠ '\\') (hrest : Mangled rest) : Mangled (c :: rest)
  | escape (c : Char) (rest : List Char) (h : c ∈ mangledChars) (hrest : Mangled rest) :
      Mangled (mangleChar c ++ rest)

lemma Mangled.append {raw' : List Char} (h : Mangled raw) (h' : Mangled raw') :
    Mangled (raw ++ raw') := by
  induction h with
  | nil => exact h'
  | cons c rest hc _ ih => exact .cons c _ hc ih
  | escape c rest hc _ ih =>
      rw [append_assoc]
      exact .escape c _ hc ih

lemma mangled_of_not_mem (h : '\\' ∉ raw) : Mangled raw := by
  induction raw with
  | nil => exact .nil
  | cons c raw ih =>
      rw [mem_cons, not_or] at h
      exact .cons c _ (Ne.symm h.1) (ih h.2)

lemma mangled_mangle (name : List Char) : Mangled (mangle name) := by
  induction name with
  | nil => exact .nil
  | cons c name ih =>
      rw [mangle, flatMap_cons, ← mangle]
      by_cases hc : c ∈ mangledChars
      · exact .escape c _ hc ih
      · have hself : mangleChar c = [c] := by
          simp only [mangledChars, mem_cons, not_mem_nil, or_false, not_or] at hc
          simp [mangleChar, hc]
        rw [hself]
        refine .cons c _ ?_ ih
        rintro rfl
        exact hc (by decide)

/-- **What reading such a text can give.** -/
lemma Mangled.mem_of_unescape (h : Mangled raw) (hname : unescapeMountinfo raw = some name)
    (hc : c ∈ name) : c ∈ raw ∨ c ∈ mangledChars := by
  induction h generalizing name with
  | nil =>
      cases hname
      cases hc
  | cons d rest hd _ ih =>
      rw [unescapeMountinfo_cons hd, Option.map_eq_some_iff] at hname
      obtain ⟨name', hname', rfl⟩ := hname
      rcases mem_cons.mp hc with rfl | hc
      · exact .inl mem_cons_self
      · exact (ih hname' hc).imp_left (mem_cons_of_mem _)
  | escape d rest hd _ ih =>
      rw [unescapeMountinfo_mangleChar, Option.map_eq_some_iff] at hname
      obtain ⟨name', hname', rfl⟩ := hname
      rcases mem_cons.mp hc with rfl | hc
      · exact .inr hd
      · exact (ih hname' hc).imp_left (mem_append_right _)

/-- What an escape is made of is not where a text is cut. -/
structure Sparing (p : Char → Bool) : Prop where
  backslash : p '\\' = false
  digit : ∀ d ∈ ['0', '1', '2', '3', '4', '5', '6', '7'], p d = false

lemma Sparing.mangleChar {p : Char → Bool} (hp : Sparing p) (hc : c ∈ mangledChars) :
    ∀ d ∈ mangleChar c, p d = false := by
  have hdigit (d : Char) (hd : d ∈ ['0', '1', '2', '3', '4', '5', '6', '7']) := hp.digit d hd
  simp only [mangledChars, mem_cons, not_mem_nil, or_false] at hc
  rcases hc with rfl | rfl | rfl | rfl
  · simp [Frostvault.mangleChar, hp.backslash, hdigit]
  · simp [Frostvault.mangleChar, hp.backslash, hdigit]
  · simp [Frostvault.mangleChar, hp.backslash, hdigit]
  · simp [Frostvault.mangleChar, hp.backslash, hdigit]

/-- **The pieces of such a text** are of the same kind. -/
lemma Mangled.of_mem_splitOnP {p : Char → Bool} (hp : Sparing p) (h : Mangled raw)
    (hmem : line ∈ raw.splitOnP p) : Mangled line := by
  induction h generalizing line with
  | nil =>
      rw [splitOnP_nil, mem_singleton] at hmem
      exact hmem ▸ .nil
  | cons c rest hc _ ih =>
      obtain ⟨v, vs, hv⟩ := exists_cons_of_ne_nil (splitOnP_ne_nil p rest)
      rw [splitOnP_cons_eq_if_modifyHead] at hmem
      split at hmem
      · rcases mem_cons.mp hmem with rfl | hmem
        · exact .nil
        · exact ih hmem
      · rw [hv, modifyHead_cons, mem_cons] at hmem
        rcases hmem with rfl | hmem
        · exact .cons c _ hc (ih (hv ▸ mem_cons_self))
        · exact ih (hv ▸ mem_cons_of_mem _ hmem)
  | escape c rest hc _ ih =>
      obtain ⟨v, vs, hv⟩ := exists_cons_of_ne_nil (splitOnP_ne_nil p rest)
      -- none of the four characters is a place to cut
      rw [Lines.splitOnP_append_of_forall (hp.mangleChar hc) hv, mem_cons] at hmem
      rcases hmem with rfl | hmem
      · exact .escape c _ hc (ih (hv ▸ mem_cons_self))
      · exact ih (hv ▸ mem_cons_of_mem _ hmem)

end Frostvault
