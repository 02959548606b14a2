import Mathlib.Data.List.AList

/-!
Files by directory and name.

What a file is (its kind, its bytes, who made it) is a parameter.

* `lookup_move`: a rename takes what is at its target;
* `lookup_removeAll`: removing the entries of a list;
* `mem_names`: the listing of a directory.
-/

namespace Directory

/-- A name in a directory. -/
abbrev FileName := List Char

/-- A directory entry: the directory, however it was reached, and the name. -/
structure Place where
  dir : ℕ
  name : FileName
deriving DecidableEq, Repr

/-- The entries there are, and what each of them is. -/
abbrev Files (ν : Type) := AList fun _ : Place => ν

variable {ν : Type} {fs : Files ν} {p q : Place}

/-- The listing of a directory. -/
def names (fs : Files ν) (dir : ℕ) : List FileName :=
  (fs.keys.filter fun p => p.dir = dir).map Place.name

/-- A rename: whatever was at the target is gone. -/
def move (fs : Files ν) (source target : Place) : Files ν :=
  match fs.lookup source with
  | none => fs
  | some n => (fs.erase source).insert target n

/-- Remove entries, one after the other. -/
def removeAll (fs : Files ν) (ps : List Place) : Files ν := ps.foldl (fun fs p => fs.erase p) fs

lemma mem_names {dir : ℕ} {name : FileName} :
    name ∈ names fs dir ↔ (fs.lookup ⟨dir, name⟩).isSome := by
  rw [AList.lookup_isSome, AList.mem_keys, names, List.mem_map]
  constructor
  · rintro ⟨p, hp, rfl⟩
    obtain ⟨hmem, hdir⟩ := List.mem_filter.mp hp
    obtain rfl : p.dir = dir := by simpa using hdir
    exact hmem
  · exact fun h => ⟨⟨dir, name⟩, List.mem_filter.mpr ⟨h, by simp⟩, rfl⟩

lemma lookup_insert_congr {fs' : Files ν} {n : ν} (h : fs'.lookup p = fs.lookup p) (q : Place) :
    (fs'.insert q n).lookup p = (fs.insert q n).lookup p := by
  rcases eq_or_ne p q with rfl | hne
  · rw [AList.lookup_insert, AList.lookup_insert]
  · rw [AList.lookup_insert_ne hne, AList.lookup_insert_ne hne, h]

lemma lookup_erase_congr {fs' : Files ν} (h : fs'.lookup p = fs.lookup p) (q : Place) :
    (fs'.erase q).lookup p = (fs.erase q).lookup p := by
  rcases eq_or_ne p q with rfl | hne
  · rw [AList.lookup_erase, AList.lookup_erase]
  · rw [AList.lookup_erase_ne hne, AList.lookup_erase_ne hne, h]

/-- **A rename**: the entry is at its target, and nothing else moves. -/
lemma lookup_move {source target : Place} {n : ν} (h : fs.lookup source = some n) (p : Place) :
    (move fs source target).lookup p =
      if p = target then some n else if p = source then none else fs.lookup p := by
  rw [move, h]
  dsimp only
  split
  · rename_i hp
    rw [hp, AList.lookup_insert]
  · rename_i hp
    rw [AList.lookup_insert_ne hp]
    split
    · rename_i hs
      rw [hs, AList.lookup_erase]
    · rename_i hs
      rw [AList.lookup_erase_ne hs]

/-- **Removing entries** leaves the others. -/
lemma lookup_removeAll (ps : List Place) (p : Place) :
    (removeAll fs ps).lookup p = if p ∈ ps then none else fs.lookup p := by
  induction ps generalizing fs with
  | nil => rfl
  | cons q ps ih =>
      have hcons : removeAll fs (q :: ps) = removeAll (fs.erase q) ps := rfl
      rw [hcons, ih]
      by_cases hq : p = q
      · subst hq
        simp
      · by_cases hps : p ∈ ps
        · simp [hps]
        · simp [hps, hq, AList.lookup_erase_ne hq]

end Directory
