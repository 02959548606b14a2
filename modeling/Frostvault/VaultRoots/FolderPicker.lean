import Frostvault.Lib.Lines
import Frostvault.VaultRoots.Overlap

/-!
The folder picker (`browse_source_directories` of `app/services/source_directories.py`).

The picker lists the directories below a path and gives each of them a relative path, made of the
names as they are.  The adoption reads that path again: it strips white space at both ends, takes
a backslash for a slash, and drops empty and `.` segments.  A name with a backslash, or with white
space where the path begins or ends, is read as another one.  And the browsed path may cross a
link, while the comparison with the held roots is one of texts.

* `browseSourceDirectories`: the listing;
* `Plain`, `canonicalize_slashed`: the paths that are read back as they are;
* `plain_of_resolveDirectory`: only they lead to the child that was listed;
* `FreeIn`: no held root of the volume overlaps a directory;
* `AdmittedPath`: the checks of the adoption on a path that has been read;
* `picker_faithful_iff`: **when an entry adopts the folder that was listed, and only a free one**;
* `picker_adopts_another_folder`: a listing of two folders, one of which adopts the other.
-/

namespace Frostvault

open List LinkedTree

variable {w : RootWorld} {volume : EntryName} {c p : DirPath} {n : EntryName} {dir root : DirPath}

/-! ### The listing -/

/-- What the listing takes from outside: `iterdir`, which may fail, and `str.lower`. -/
structure PickerEnv where
  iterdir : DirPath → Option (List EntryName)
  lower : List Char → List Char

/-- An entry of the listing. -/
structure PickerItem where
  name : EntryName
  relativePath : List Char
  navigable : Bool
  selectable : Bool
deriving DecidableEq

/-- `_occupation_for_path`. -/
def occupationForPath (relativePath : List Char) (occupied : List (List Char)) : Bool :=
  occupied.any fun root => root = relativePath

/-- `_has_occupied_descendant`. -/
def hasOccupiedDescendant (relativePath : List Char) (occupied : List (List Char)) : Bool :=
  occupied.any fun root => root ≠ relativePath &&
    (relativePath = [] || (relativePath ++ ['/']).isPrefixOf root)

/-- `name if canonical == "" else f"{canonical}/{name}"`. -/
def childPath (canonical name : List Char) : List Char :=
  if canonical = [] then name else canonical ++ '/' :: name

/-- The entry of a child. -/
def pickerItem (canonical : List Char) (occupied : List (List Char)) (child : EntryName) :
    PickerItem :=
  let relative := childPath canonical child.text
  let occupation := occupationForPath relative occupied
  { name := child
    relativePath := relative
    navigable := !occupation
    selectable := !occupation && !hasOccupiedDescendant relative occupied }

/-- `browse_source_directories`: the entries of a path, which lies in no held root. -/
def browseSourceDirectories (env : PickerEnv) (w : RootWorld)
    (volumeAlias relativePath : List Char) : Option (List PickerItem) := do
  let volume ← w.fs.volume? (Text.strip isSpace volumeAlias)
  let canonical ← canonicalizeRelativePath relativePath
  let occupied := (occupiedVaultRoots w (w.fs.volumePath volume)).map slashed
  guard (occupied.all fun root => !(root = [] || slashed canonical = root ||
    (root ++ ['/']).isPrefixOf (slashed canonical)))
  let directory ← resolveDirectory w.fs (w.fs.volumePath volume) canonical
  let children ← env.iterdir directory
  let sorted := children.insertionSort fun a b => env.lower a.text ≤ env.lower b.text
  return (sorted.filter fun child => !w.fs.isSymlink (directory ++ [child]) &&
    (w.fs.resolve (directory ++ [child])).isSome).map (pickerItem (slashed canonical) occupied)

variable {fs : Filesystem} {volumeAlias : List Char}

/-- A listing in its parts: the path that is browsed, the directory it leads to, and a child of
it that is a directory and no link. -/
lemma exists_of_mem_browse {env : PickerEnv} {relativePath : List Char}
    {items : List PickerItem} {item : PickerItem}
    (h : browseSourceDirectories env w volumeAlias relativePath = some items)
    (hitem : item ∈ items) : ∃ volume c dir,
      w.fs.volume? (Text.strip isSpace volumeAlias) = some volume ∧
      canonicalizeRelativePath relativePath = some c ∧
      resolveDirectory w.fs (w.fs.volumePath volume) c = some dir ∧
      item.relativePath = childPath (slashed c) item.name.text ∧
      w.fs.isSymlink (dir ++ [item.name]) = false ∧
      (w.fs.resolve (dir ++ [item.name])).isSome := by
  simp only [browseSourceDirectories, Option.bind_eq_bind, Option.bind_eq_some_iff,
    Option.guard_eq_some', exists_const, Option.pure_def, Option.some.injEq] at h
  obtain ⟨volume, hvolume, c, hc, -, dir, hdir, children, -, rfl⟩ := h
  obtain ⟨child, hchild, rfl⟩ := mem_map.mp hitem
  obtain ⟨-, hkept⟩ := mem_filter.mp hchild
  simp only [Bool.and_eq_true, Bool.not_eq_true'] at hkept
  exact ⟨volume, c, dir, hvolume, hc, hdir, rfl, hkept.1, hkept.2⟩

/-! ### Paths as texts -/

lemma slashed_concat (hc : c ≠ []) : slashed (c ++ [n]) = slashed c ++ '/' :: n.text := by
  induction c with
  | nil => exact absurd rfl hc
  | cons m c ih =>
      cases c with
      | nil => simp [slashed]
      | cons m' c =>
          have htail := ih (cons_ne_nil m' c)
          simp only [slashed, cons_append, map_cons, intercalate_cons_cons] at htail ⊢
          rw [htail]
          simp

/-- The path of a child is that of its names. -/
lemma childPath_slashed (c : DirPath) (n : EntryName) :
    childPath (slashed c) n.text = slashed (c ++ [n]) := by
  unfold childPath
  split
  · rename_i hnil
    rw [slashed_eq_nil_iff.mp hnil]
    simp [slashed]
  · rename_i hne
    exact (slashed_concat fun h => hne (slashed_eq_nil_iff.mpr h)).symm

/-! ### Reading a path -/

/-- What `canonicalize_relative_path` splits. -/
def rawPath (r : List Char) : List Char :=
  (Text.strip isSpace r).map fun c => if c = '\\' then '/' else c

lemma backslash_notMem_rawPath (r : List Char) : '\\' ∉ rawPath r := by
  intro h
  obtain ⟨c, -, hc⟩ := mem_map.mp h
  split at hc
  · cases hc
  · rename_i hne
    exact hne hc

lemma map_slash_of_notMem {s : List Char} (h : '\\' ∉ s) :
    (s.map fun c => if c = '\\' then '/' else c) = s := by
  refine (map_congr_left fun c hc => if_neg ?_).trans (map_id s)
  rintro rfl
  exact h hc

lemma canonicalize_eq_some_iff {r : List Char} : canonicalizeRelativePath r = some p ↔
    Char.ofNat 0 ∉ rawPath r ∧ (rawPath r).head? ≠ some '/' ∧
      canonicalParts ((rawPath r).splitOn '/') = some p := by
  simp only [canonicalizeRelativePath]
  rw [show ((Text.strip isSpace r).map fun c => if c = '\\' then '/' else c) = rawPath r from rfl]
  by_cases hnull : Char.ofNat 0 ∈ rawPath r
  · simp [hnull]
  · rw [if_neg hnull]
    by_cases hempty : rawPath r = [] ∨ rawPath r = ['.']
    · rw [if_pos hempty]
      rcases hempty with h | h
      · simp [h, canonicalParts]
      · have hdot : List.splitOn '/' ['.'] = [['.']] := by decide
        simp [h, canonicalParts, hdot]
    · rw [if_neg hempty]
      by_cases hhead : (rawPath r).head? = some '/'
      · simp [hhead]
      · simp [hhead, hnull]

/-- The names of a path are parts of the text. -/
lemma canonicalParts_sublist {parts : List (List Char)} (h : canonicalParts parts = some p) :
    List.Sublist (p.map EntryName.text) parts := by
  induction parts generalizing p with
  | nil =>
      cases h
      exact List.Sublist.slnil
  | cons part parts ih =>
      rw [canonicalParts] at h
      split at h
      · exact (ih h).cons part
      · simp only [Option.bind_eq_bind, Option.bind_eq_some_iff, Option.some.injEq] at h
        obtain ⟨name, hname, names, hnames, rfl⟩ := h
        have htext : name.text = part := by
          unfold EntryName.of? at hname
          split at hname
          · cases hname
            rfl
          · cases hname
        rw [map_cons, htext]
        exact (ih hnames).cons_cons part

lemma canonicalParts_append (xs ys : List (List Char)) : canonicalParts (xs ++ ys) =
    (canonicalParts xs).bind fun a => (canonicalParts ys).map (a ++ ·) := by
  induction xs with
  | nil => simp [canonicalParts]
  | cons x xs ih =>
      rw [cons_append, canonicalParts, canonicalParts]
      split
      · exact ih
      · rw [ih]
        cases EntryName.of? x with
        | none => rfl
        | some name =>
            cases canonicalParts xs with
            | none => rfl
            | some names => cases canonicalParts ys <;> rfl

lemma canonicalParts_names (p : DirPath) : canonicalParts (p.map EntryName.text) = some p := by
  induction p with
  | nil => rfl
  | cons n p ih =>
      have hname : EntryName.of? n.text = some n := dif_pos n.names
      rw [map_cons, canonicalParts, if_neg, hname, ih]
      · rfl
      · exact not_or.mpr ⟨n.names.1, n.names.2.2.1⟩

lemma notMem_text_of_canonicalize {r : List Char} (h : canonicalizeRelativePath r = some p)
    {m : EntryName} (hm : m ∈ p) : '\\' ∉ m.text ∧ Char.ofNat 0 ∉ m.text := by
  obtain ⟨hnull, -, hparts⟩ := canonicalize_eq_some_iff.mp h
  have hpart := (canonicalParts_sublist hparts).subset (mem_map_of_mem hm)
  rw [splitOn_eq_splitOnP] at hpart
  exact ⟨fun hc => backslash_notMem_rawPath r (Lines.mem_of_mem_splitOnP hpart hc),
    fun hc => hnull (Lines.mem_of_mem_splitOnP hpart hc)⟩

/-- **A path that is read back as it is**: no white space at its ends, no backslash, no null
character. -/
def Plain (r : List Char) : Prop :=
  Text.strip isSpace r = r ∧ '\\' ∉ r ∧ Char.ofNat 0 ∉ r

instance (r : List Char) : Decidable (Plain r) := inferInstanceAs (Decidable (_ ∧ _ ∧ _))

/-- The text of a path does not begin with a slash. -/
lemma head_slashed (p : DirPath) : (slashed p).head? ≠ some '/' := by
  cases p with
  | nil => simp [slashed]
  | cons n p =>
      intro h
      have hne := n.names.1
      have hslash := n.names.2.1
      cases htext : n.text with
      | nil => exact hne htext
      | cons x xs =>
          rw [htext] at hslash
          rw [slashed, map_cons, htext, intercalate_cons_cons_left] at h
          exact hslash (by rw [Option.some.inj h]; exact mem_cons_self)

lemma splitOn_slashed (hp : p ≠ []) : (slashed p).splitOn '/' = p.map EntryName.text :=
  splitOn_intercalate '/' (fun c hc => (mem_map_text p c hc).2) (by simpa using hp)

/-- **Reading back** the text of a path gives the path. -/
lemma canonicalize_slashed (h : Plain (slashed p)) :
    canonicalizeRelativePath (slashed p) = some p := by
  obtain ⟨hstrip, hbackslash, hnull⟩ := h
  have hraw : rawPath (slashed p) = slashed p := by
    rw [rawPath, hstrip, map_slash_of_notMem hbackslash]
  rw [canonicalize_eq_some_iff, hraw]
  refine ⟨hnull, head_slashed p, ?_⟩
  rcases eq_or_ne p [] with rfl | hp
  · rfl
  · rw [splitOn_slashed hp, canonicalParts_names]

/-! ### Links -/

/-- A path whose last entry is no link leads to a directory of that name. -/
lemma exists_of_resolve_of_isSymlink (hlink : fs.isSymlink (p ++ [n]) = false)
    (h : fs.resolve (p ++ [n]) = some root) :
    ∃ d, fs.resolve p = some d ∧ fs.tree (d ++ [n]) = some .directory ∧ root = d ++ [n] := by
  obtain ⟨d, hd, ⟨hdir, rfl⟩ | ⟨absolute, text, htext⟩⟩ := exists_of_resolve_concat h
  · exact ⟨d, hd, hdir, rfl⟩
  · have hd' : fs.resolve p = some d := hd
    rw [Filesystem.isSymlink_concat, hd', Option.any_some, htext] at hlink
    cases hlink

lemma resolveDirectory_eq_some_iff {base : DirPath} :
    resolveDirectory fs base p = some dir ↔
      fs.isSymlink (base ++ p) = false ∧ fs.resolve (base ++ p) = some dir ∧ base <+: dir := by
  simp only [resolveDirectory, Option.bind_eq_bind, Option.bind_eq_some_iff,
    Option.guard_eq_some', exists_const, Option.some.injEq]
  constructor
  · rintro ⟨hlink, _, hresolve, hbase, rfl⟩
    exact ⟨hlink, hresolve, hbase⟩
  · rintro ⟨hlink, hresolve, hbase⟩
    exact ⟨hlink, dir, hresolve, hbase, rfl⟩

lemma real_volumePath (h : w.fs.volume? volumeAlias = some volume) :
    Real w.fs.tree (w.fs.volumePath volume) := by
  simp only [Filesystem.volume?, Option.bind_eq_bind, Option.bind_eq_some_iff,
    Option.guard_eq_some', exists_const, Option.some.injEq] at h
  obtain ⟨_, -, ⟨-, hdir, -⟩, rfl⟩ := h
  exact w.fs.sources_real.concat hdir

/-- **A child that is listed** is a directory, and its path is accepted as it stands. -/
lemma resolveDirectory_concat {base : DirPath}
    (hdir : resolveDirectory fs base c = some dir) (hlink : fs.isSymlink (dir ++ [n]) = false)
    (hchild : (fs.resolve (dir ++ [n])).isSome) :
    resolveDirectory fs base (c ++ [n]) = some (dir ++ [n]) := by
  obtain ⟨-, hresolve, hbase⟩ := resolveDirectory_eq_some_iff.mp hdir
  have hself : fs.resolve dir = some dir := resolve_of_real (resolve_real hresolve)
  obtain ⟨root, hroot⟩ := Option.isSome_iff_exists.mp hchild
  obtain ⟨d, hd, hentry, -⟩ := exists_of_resolve_of_isSymlink hlink hroot
  cases hself.symm.trans hd
  refine resolveDirectory_eq_some_iff.mpr ⟨?_, ?_, hbase.trans (prefix_append dir [n])⟩
  · rw [← append_assoc, Filesystem.isSymlink_concat, hresolve, Option.any_some, hentry]
  · rw [← append_assoc]
    exact resolve_concat hresolve hentry

/-! ### Which paths are read back -/

/-- **A path that is read as one that leads to the child** is read as it is, unless the path that
was browsed begins with white space. -/
lemma plain_of_resolveDirectory {base : DirPath} (hbase : Real fs.tree base)
    (hc : ∀ m ∈ c, '\\' ∉ m.text ∧ Char.ofNat 0 ∉ m.text)
    (hstart : ∀ x xs, slashed c = x :: xs → isSpace x = false)
    (hdir : resolveDirectory fs base c = some dir)
    (hp : canonicalizeRelativePath (slashed (c ++ [n])) = some p)
    (htarget : resolveDirectory fs base p = some (dir ++ [n])) : Plain (slashed (c ++ [n])) := by
  obtain ⟨-, hresolve, hinside⟩ := resolveDirectory_eq_some_iff.mp hdir
  obtain ⟨hlink, hleads, -⟩ := resolveDirectory_eq_some_iff.mp htarget
  -- the path that is read ends in the name of the child
  obtain ⟨q, rfl⟩ : ∃ q, p = q ++ [n] := by
    rcases eq_nil_or_concat p with rfl | ⟨q, m, rfl⟩
    · rw [append_nil] at hleads
      have hself : fs.resolve base = some base := resolve_of_real hbase
      cases hself.symm.trans hleads
      have hlen := hinside.length_le
      simp at hlen
    · rw [concat_eq_append, ← append_assoc] at hlink hleads
      obtain ⟨d, -, -, heq⟩ := exists_of_resolve_of_isSymlink hlink hleads
      obtain ⟨-, hlast⟩ := append_inj' heq rfl
      refine ⟨q, ?_⟩
      rw [concat_eq_append, hlast]
  have hn := notMem_text_of_canonicalize hp (m := n) (by simp)
  have hall : ∀ m ∈ c ++ [n], '\\' ∉ m.text ∧ Char.ofNat 0 ∉ m.text := by
    intro m hm
    rcases mem_append.mp hm with h | h
    · exact hc m h
    · rw [mem_singleton.mp h]
      exact hn
  have hfree (x : Char) (hx : x ≠ '/') (hnames : ∀ m ∈ c ++ [n], x ∉ m.text) :
      x ∉ slashed (c ++ [n]) := by
    intro h
    rcases Text.mem_intercalate h with h | ⟨text, htext, h⟩
    · exact hx h
    · obtain ⟨m, hm, rfl⟩ := mem_map.mp htext
      exact hnames m hm h
  have hbackslash := hfree '\\' (by decide) fun m hm => (hall m hm).1
  have hnull := hfree (Char.ofNat 0) (by decide) fun m hm => (hall m hm).2
  refine ⟨?_, hbackslash, hnull⟩
  have hraw : rawPath (slashed (c ++ [n])) = Text.strip isSpace (slashed (c ++ [n])) :=
    map_slash_of_notMem fun h => hbackslash ((Text.strip_infix isSpace _).subset h)
  obtain ⟨-, -, hparts⟩ := canonicalize_eq_some_iff.mp hp
  rw [hraw] at hparts
  rcases eq_or_ne c [] with rfl | hne
  · -- the stripped name is the only part
    have hone : (Text.strip isSpace n.text).splitOn '/' = [Text.strip isSpace n.text] := by
      refine splitOn_eq_singleton fun h => ?_
      exact n.names.2.1 ((Text.strip_infix isSpace _).subset h)
    have htext : slashed ([] ++ [n]) = n.text := by simp [slashed]
    rw [htext] at hparts ⊢
    rw [hone] at hparts
    have hmem := (canonicalParts_sublist hparts).subset
      (mem_map_of_mem (mem_append_right q mem_cons_self))
    exact (mem_singleton.mp hmem).symm
  · -- only the end of the name can be stripped
    rw [slashed_concat hne, Text.strip_append_cons (by decide) hstart] at hparts ⊢
    have hsplit : (slashed c ++ '/' :: n.text.rdropWhile isSpace).splitOn '/' =
        c.map EntryName.text ++ [n.text.rdropWhile isSpace] := by
      have hlast : '/' ∉ n.text.rdropWhile isSpace := fun h =>
        n.names.2.1 ((List.rdropWhile_prefix isSpace n.text).subset h)
      rw [splitOn_append_cons_self, splitOn_slashed hne, splitOn_eq_singleton hlast]
    rw [hsplit, canonicalParts_append, canonicalParts_names, Option.bind_some,
      Option.map_eq_some_iff] at hparts
    obtain ⟨e, he, hpath⟩ := hparts
    have hsub := canonicalParts_sublist he
    rcases eq_nil_or_concat e with rfl | ⟨e', x, rfl⟩
    · -- the name is dropped: the path is the one that was browsed
      rw [append_nil] at hpath
      rw [← hpath, hresolve] at hleads
      simp at hleads
    · rw [concat_eq_append, ← append_assoc] at hpath
      obtain ⟨-, hx⟩ := append_inj' hpath rfl
      have hmem := hsub.subset (mem_map_of_mem (f := EntryName.text) (a := x) (by simp))
      rw [← mem_singleton.mp hmem, singleton_inj.mp hx]

/-! ### The picker and the adoption -/

/-- The directory an entry was listed for. -/
def listedDirectory (w : RootWorld) (volumeAlias relativePath : List Char) (item : PickerItem) :
    Option DirPath := do
  let volume ← w.fs.volume? (Text.strip isSpace volumeAlias)
  let c ← canonicalizeRelativePath relativePath
  let dir ← resolveDirectory w.fs (w.fs.volumePath volume) c
  some (dir ++ [item.name])

/-- No held root of the volume is the directory, above it or below it. -/
def FreeIn (w : RootWorld) (volume : EntryName) (root : DirPath) : Prop :=
  ∀ relative ∈ occupiedVaultRoots w (w.fs.volumePath volume),
    ¬Overlapping root (w.fs.volumePath volume ++ relative)

/-- **A faithful entry**: what it adopts is the directory it was listed for, and free. -/
def FaithfulEntry (w : RootWorld) (volumeAlias relativePath : List Char) (item : PickerItem) :
    Prop :=
  ∀ volume root, w.fs.volume? (Text.strip isSpace volumeAlias) = some volume →
    resolveAdoptionCandidate w volumeAlias item.relativePath = some root →
    listedDirectory w volumeAlias relativePath item = some root ∧ FreeIn w volume root

/-- **The checks on a path** that has been read: it is no link and leads to an accessible
directory of the volume without mounts below, and overlaps no held root by its names. -/
structure AdmittedPath (w : RootWorld) (volume : EntryName) (p : DirPath) : Prop where
  leads : ∃ target, w.fs.isSymlink (w.fs.volumePath volume ++ p) = false ∧
    w.fs.resolve (w.fs.volumePath volume ++ p) = some target ∧
    w.fs.volumePath volume <+: target ∧
    w.fs.noNestedMount (w.fs.volumePath volume) target ∧ w.fs.accessible target
  apart : ∀ relative ∈ occupiedVaultRoots w (w.fs.volumePath volume), ¬Overlapping p relative

/-- **When an entry is read as it was listed**, where its path passes the checks: it is read back
as it is, and crosses no link unless to a free directory.  A browsed path that begins with white
space may be read as a link to the same place. -/
def PickedAsListed (w : RootWorld) (volumeAlias relativePath : List Char) (item : PickerItem) :
    Prop :=
  ∀ volume c dir p, w.fs.volume? (Text.strip isSpace volumeAlias) = some volume →
    canonicalizeRelativePath relativePath = some c →
    listedDirectory w volumeAlias relativePath item = some dir →
    canonicalizeRelativePath item.relativePath = some p →
    AdmittedPath w volume p →
    (Plain item.relativePath ∨ ((slashed c).head?.any isSpace ∧
      w.fs.resolve (w.fs.volumePath volume ++ p) = some dir)) ∧
    (Real w.fs.tree (w.fs.volumePath volume ++ p) ∨ FreeIn w volume dir)

lemma noVaultOverlap_iff : noVaultOverlap w (w.fs.volumePath volume) p ↔
    ∀ relative ∈ occupiedVaultRoots w (w.fs.volumePath volume), ¬Overlapping p relative := by
  simp only [noVaultOverlap, all_eq_true, Bool.not_eq_true', ← Bool.not_eq_true,
    pathsOverlap_slashed]

/-- **The adoption** of a path that is read as `p` returns where `p` leads, exactly when `p` passes
the checks. -/
lemma resolveAdoptionCandidate_eq_some_iff {r : List Char}
    (hvolume : w.fs.volume? (Text.strip isSpace volumeAlias) = some volume) :
    resolveAdoptionCandidate w volumeAlias r = some root ↔
      ∃ p, canonicalizeRelativePath r = some p ∧ AdmittedPath w volume p ∧
        resolveDirectory w.fs (w.fs.volumePath volume) p = some root := by
  simp only [resolveAdoptionCandidate, hvolume, Option.bind_eq_bind, Option.bind_some,
    Option.bind_eq_some_iff, Option.guard_eq_some', exists_const, Option.some.injEq,
    noVaultOverlap_iff]
  refine exists_congr fun p => and_congr_right fun _ => ?_
  constructor
  · rintro ⟨_, htarget, hopen, hapart, rfl⟩
    obtain ⟨hlink, hleads, hinside⟩ := resolveDirectory_eq_some_iff.mp htarget
    exact ⟨⟨⟨_, hlink, hleads, hinside, hopen⟩, hapart⟩, htarget⟩
  · rintro ⟨⟨⟨target, hlink, hleads, hinside, hopen⟩, hapart⟩, htarget⟩
    obtain ⟨-, hleads', -⟩ := resolveDirectory_eq_some_iff.mp htarget
    obtain rfl := Option.some.inj (hleads.symm.trans hleads')
    exact ⟨target, htarget, hopen, hapart, rfl⟩

/-- A path without links is free where its names are. -/
lemma AdmittedPath.freeIn (h : AdmittedPath w volume p) :
    FreeIn w volume (w.fs.volumePath volume ++ p) :=
  fun relative hrelative hover => h.apart relative hrelative (overlapping_append_iff.mp hover)

/-- **The folder picker.**  Every entry of a listing, selectable or not, is faithful exactly when
it is read as it was listed. -/
theorem picker_faithful_iff {env : PickerEnv} {volumeAlias relativePath : List Char}
    {items : List PickerItem} {item : PickerItem}
    (h : browseSourceDirectories env w volumeAlias relativePath = some items)
    (hitem : item ∈ items) :
    FaithfulEntry w volumeAlias relativePath item ↔
      PickedAsListed w volumeAlias relativePath item := by
  obtain ⟨volume, c, dir, hvolume, hc, hdir, hpath, hlink, hchild⟩ := exists_of_mem_browse h hitem
  have hlisted : listedDirectory w volumeAlias relativePath item = some (dir ++ [item.name]) := by
    simp [listedDirectory, hvolume, hc, hdir]
  rw [childPath_slashed] at hpath
  constructor
  · intro hfaithful volume' c' dir' p hvolume' hc' hdir' hp hadmitted
    cases hvolume.symm.trans hvolume'
    cases hc.symm.trans hc'
    cases hlisted.symm.trans hdir'
    obtain ⟨root, hlast, hleads, hinside, -⟩ := hadmitted.leads
    have htarget : resolveDirectory w.fs (w.fs.volumePath volume) p = some root :=
      resolveDirectory_eq_some_iff.mpr ⟨hlast, hleads, hinside⟩
    obtain ⟨hsame, hfree⟩ := hfaithful volume root hvolume
      ((resolveAdoptionCandidate_eq_some_iff hvolume).mpr ⟨p, hp, hadmitted, htarget⟩)
    cases hlisted.symm.trans hsame
    refine ⟨?_, .inr hfree⟩
    by_cases hstart : (slashed c).head?.any isSpace
    · exact .inr ⟨hstart, hleads⟩
    · left
      rw [hpath] at hp ⊢
      refine plain_of_resolveDirectory (real_volumePath hvolume)
        (fun m hm => notMem_text_of_canonicalize hc hm) (fun x xs hx => ?_) hdir hp htarget
      rw [hx, head?_cons, Option.any_some] at hstart
      exact Bool.eq_false_iff.mpr hstart
  · intro hpicked volume' root hvolume' hroot
    cases hvolume.symm.trans hvolume'
    obtain ⟨p, hp, hadmitted, htarget⟩ := (resolveAdoptionCandidate_eq_some_iff hvolume).mp hroot
    obtain ⟨-, hleads, -⟩ := resolveDirectory_eq_some_iff.mp htarget
    obtain ⟨hread, hplace⟩ := hpicked volume c _ p hvolume hc hlisted hp hadmitted
    have hsame : root = dir ++ [item.name] := by
      rcases hread with hplain | ⟨-, hsame⟩
      · have hback := canonicalize_slashed (hpath ▸ hplain)
        rw [← hpath, hp] at hback
        rw [Option.some.inj hback, resolveDirectory_concat hdir hlink hchild] at htarget
        exact (Option.some.inj htarget).symm
      · exact Option.some.inj (hleads.symm.trans hsame)
    refine ⟨hsame ▸ hlisted, ?_⟩
    rcases hplace with hreal | hfree
    · have hself : w.fs.resolve _ = some _ := resolve_of_real hreal
      rw [← Option.some.inj (hself.symm.trans hleads)]
      exact hadmitted.freeIn
    · rwa [hsame]

/-- A Source Volume `p` with the directories `x` and ` x`. -/
def spacedVolume : Filesystem where
  tree := fun p =>
    if p ∈ [[sourcesName], [sourcesName, volumeName],
        [sourcesName, volumeName, entryName 'x'],
        [sourcesName, volumeName, ⟨[' ', 'x'], by decide⟩]] then some .directory
    else none
  maxLinks := 40
  sources := [sourcesName]
  sources_real := (real_nil _).concat (by decide)
  healthy := fun _ => true
  isMount := fun _ => false
  accessible := fun _ => true

/-- The listing of its two directories. -/
def spacedListing : PickerEnv where
  iterdir := fun _ => some [entryName 'x', ⟨[' ', 'x'], by decide⟩]
  lower := id

/-- The entry of `x` adopts `x`. -/
theorem picker_faithful_plain :
    FaithfulEntry ⟨spacedVolume, []⟩ ['p'] [] ⟨entryName 'x', ['x'], true, true⟩ := by
  have hbrowse : browseSourceDirectories spacedListing ⟨spacedVolume, []⟩ ['p'] [] =
      some [⟨⟨[' ', 'x'], by decide⟩, [' ', 'x'], true, true⟩,
        ⟨entryName 'x', ['x'], true, true⟩] := by decide
  refine (picker_faithful_iff hbrowse (by simp)).mpr ?_
  intro volume c dir p _ _ _ _ _
  refine ⟨.inl (by decide), .inr fun relative hrelative => ?_⟩
  cases hrelative

/-- The entry of ` x` adopts `x`. -/
theorem picker_adopts_another_folder : ¬∀ (env : PickerEnv) (w : RootWorld)
    (volumeAlias relativePath : List Char) (items : List PickerItem),
    browseSourceDirectories env w volumeAlias relativePath = some items →
    ∀ item ∈ items, item.selectable = true → FaithfulEntry w volumeAlias relativePath item := by
  intro h
  have hbrowse : browseSourceDirectories spacedListing ⟨spacedVolume, []⟩ ['p'] [] =
      some [⟨⟨[' ', 'x'], by decide⟩, [' ', 'x'], true, true⟩,
        ⟨entryName 'x', ['x'], true, true⟩] := by decide
  have hfaithful := h _ _ _ _ _ hbrowse _ mem_cons_self rfl
  have hadopted : resolveAdoptionCandidate ⟨spacedVolume, []⟩ ['p'] [' ', 'x'] =
      some [entryName 's', entryName 'p', entryName 'x'] := by decide
  have hlisted := (hfaithful (entryName 'p') _ (by decide) hadopted).1
  cases hlisted

end Frostvault
