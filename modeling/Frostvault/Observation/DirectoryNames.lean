import Frostvault.Aggregates.StorageClasses
import Frostvault.Observation.BatchRefinement

/-!
The names of directories, from a path to its rollups (`ancestor_directories`, `parent_and_name`,
`mark_path_dirty`, `_rebuild_directory` of `app/services/directory_aggregates.py` and
`safe_relative_path` of `app/services/vault_paths.py`).

Each of them strips its text first, so a name that begins or ends with whitespace is read as
another one.

* `safeRelativePath`, `parentAndName`: the source's functions on text;
* `rollupSql_eq`: a refresh rolls up the visible files below the directory, whatever its name;
* `normalize_eq_self_iff`: the names the normalisation keeps;
* `faithful_naming_iff`: **the paths whose directories are named faithfully**.
-/

namespace Frostvault

open List

/-! ### Paths and names -/

/-- `re.match(r"^[A-Za-z]:/", normalized)`. -/
def hasDrive : List Char → Bool
  | c :: ':' :: '/' :: _ => c.isAlpha
  | _ => false

/-- `safe_relative_path`: the parts of an accepted path. -/
def safeRelativePath (value : List Char) : Option (List (List Char)) :=
  if Char.ofNat 0 ∈ value then none
  else
    let normalized := value.map fun c => if c = '\\' then '/' else c
    if hasDrive normalized then none
    else
      -- `PurePosixPath(normalized).parts`
      let parts := (normalized.splitOn '/').filter fun w => w ≠ [] && w ≠ ['.']
      if normalized.head? = some '/' ∨ parts = [] ∨ ['.', '.'] ∈ parts then none else some parts

/-- `parent_and_name`; the source splits with `rpartition`. -/
def parentAndName (directoryPath : Path) : Path × List Char :=
  let normalized := normalize directoryPath
  if normalized = [] then ([], [])
  else if '/' ∉ normalized then ([], normalized)
  else ((normalized.rdropWhile (· ≠ '/')).dropLast, normalized.rtakeWhile (· ≠ '/'))

/-! ### The rollup of some files -/

/-- The visible files whose path starts with the directory and a slash. -/
def filesBelow (cat : Catalog) (v : VaultId) (d : Path) : List VaultFile :=
  cat.files.filter fun f => f.visible && f.below v d

/-- The rollup of some files of a Vault, if there is one. -/
def rollupOfFiles (jobs : List Job) (v : VaultId) (files : List VaultFile) : Option DirectoryRollup :=
  let rows := files.filterMap (fileRow jobs v)
  if rows = [] then none
  else some
    { columnsOf rows with
      storageClasses := fun k => files.countP fun f => f.classRefreshed = some k }

/-- The rows below a directory are those of the visible files below it. -/
lemma rowsBelow_perm (coll : Collation) (cat : Catalog) (v : VaultId) (d : Path) :
    (rowsBelow coll cat v d).Perm ((filesBelow cat v d).filterMap (fileRow cat.jobs v)) := by
  have hfiles : (cat.rows v).filter (fun r => r.visible && decide (d ++ ['/'] <+: r.path)) =
      (filesBelow cat v d).filterMap (fileRow cat.jobs v) := by
    rw [Catalog.rows, filesBelow, filter_filterMap, filterMap_filter]
    refine filterMap_congr fun f _ => ?_
    rw [fileRow_eq, VaultFile.below]
    cases f.activePath v with
    | none => simp
    | some p =>
        have hpath : (rowAt cat.jobs f p).path = p := rfl
        simp only [Option.map_some, Option.filter_some, visible_rowAt, hpath, Option.any_some]
  rw [rowsBelow_eq, ← hfiles]
  exact (perm_insertionSort _ _).filter _

/-- **A refresh rolls up the visible files below the directory.** -/
lemma rollupSql_eq (coll : Collation) (cat : Catalog) (v : VaultId) (d : Path) :
    rollupSql coll cat v d = rollupOfFiles cat.jobs v (filesBelow cat v d) := by
  have hperm := rowsBelow_perm coll cat v d
  have hj : ∀ r ∈ rowsBelow coll cat v d, Joined r := by
    intro r hr
    rw [rowsBelow_eq] at hr
    exact joined_of_mem_orderedRows (mem_of_mem_filter hr)
  have hclasses : ∀ k, (storageRows cat v d).count k =
      (filesBelow cat v d).countP fun f => f.classRefreshed = some k := by
    intro k
    rw [refreshed_classes, filesBelow, countP_filter]
    refine countP_congr fun f _ => ?_
    rw [VaultFile.refreshedFor]
    simp only [Bool.and_eq_true, decide_eq_true_eq]
    constructor
    · rintro ⟨hbelow, hclass⟩
      exact ⟨hclass, visible_of_classRefreshed hclass, hbelow⟩
    · rintro ⟨hclass, -, hbelow⟩
      exact ⟨hbelow, hclass⟩
  rw [rollupSql, columnsSql_eq hj, rollupOfFiles]
  by_cases hrows : rowsBelow coll cat v d = []
  · rw [if_pos hrows, if_pos (perm_nil.mp (hrows ▸ hperm.symm))]
    rfl
  · have hfiles : (filesBelow cat v d).filterMap (fileRow cat.jobs v) ≠ [] := by
      intro hnil
      rw [hnil] at hperm
      exact hrows (perm_nil.mp hperm)
    rw [if_neg hrows, if_neg hfiles, Option.map_some]
    simp only [hclasses, columnsOf_perm hperm]

/-- A refresh writes the row of the normalised name. -/
lemma rebuildDirectory_eq (coll : Collation) (cat : Catalog) (v : VaultId) (stored : Rolled)
    (d : Path) :
    rebuildDirectory coll cat v stored d =
      if normalize d = [] then stored
      else Function.update stored (normalize d)
        (rollupOfFiles cat.jobs v (filesBelow cat v (normalize d))) := by
  rw [rebuildDirectory]
  split
  · rfl
  · rw [rollupSql_eq]

/-! ### Names the normalisation keeps -/

/-- A character that stripping leaves at the end of a text. -/
def Kept (c : Char) : Prop := isSpace c = false ∧ c ≠ '/'

/-- **The names the normalisation keeps** begin and end with a character it does not strip. -/
lemma normalize_eq_self_iff (d : Path) : normalize d = d ↔
    (∀ c cs, d = c :: cs → Kept c) ∧ ∀ cs c, d = cs ++ [c] → Kept c := by
  constructor
  · intro h
    have hinfix := Text.strip_infix isSpace d
    have hslash : Text.strip (· == '/') (Text.strip isSpace d) <:+: Text.strip isSpace d :=
      Text.strip_infix _ _
    have hlen : d.length ≤ (Text.strip isSpace d).length := by
      rw [← normalize, h] at hslash
      exact hslash.length_le
    have hspace : Text.strip isSpace d = d := hinfix.eq_of_length_le hlen
    rw [normalize, hspace] at h
    obtain ⟨hhead, hlast⟩ := (Text.strip_eq_self_iff isSpace d).mp hspace
    obtain ⟨hhead', hlast'⟩ := (Text.strip_eq_self_iff _ d).mp h
    refine ⟨fun c cs hd => ⟨hhead c cs hd, ?_⟩, fun cs c hd => ⟨hlast cs c hd, ?_⟩⟩
    · simpa using hhead' c cs hd
    · simpa using hlast' cs c hd
  · rintro ⟨hhead, hlast⟩
    have hspace : Text.strip isSpace d = d :=
      Text.strip_eq_self _ _ (fun c cs hd => (hhead c cs hd).1) fun cs c hd => (hlast cs c hd).1
    rw [normalize, hspace]
    refine Text.strip_eq_self _ _ (fun c cs hd => ?_) fun cs c hd => ?_
    · simpa using (hhead c cs hd).2
    · simpa using (hlast cs c hd).2

/-- A directory without whitespace at its start, without whitespace at the end of a directory
segment, without an empty directory segment, and with a name that is not blank. -/
structure PlainlyNamed (p : Path) : Prop where
  start : ∀ c cs, p = c :: cs → isSpace c = false
  directories : ∀ d, d ++ ['/'] <+: p → ∃ cs c, d = cs ++ [c] ∧ Kept c
  name : ∀ d w, p = d ++ '/' :: w → '/' ∉ w → ∃ c ∈ w, isSpace c = false

variable {d p : Path}

lemma head_of_prefix (h : d ++ ['/'] <+: p) (hne : d ≠ []) :
    ∃ c cs cs', d = c :: cs ∧ p = c :: cs' := by
  obtain ⟨c, cs, rfl⟩ := exists_cons_of_ne_nil hne
  obtain ⟨t, rfl⟩ := h
  exact ⟨c, cs, _, rfl, rfl⟩

/-- The directories of a plainly named path keep their names. -/
lemma PlainlyNamed.normalize_eq (h : PlainlyNamed p) (hd : d ++ ['/'] <+: p) :
    normalize d = d ∧ d ≠ [] := by
  obtain ⟨cs, c, rfl, hc⟩ := h.directories d hd
  have hne : cs ++ [c] ≠ [] := by simp
  refine ⟨(normalize_eq_self_iff _).mpr ⟨fun x xs hx => ⟨?_, ?_⟩, fun xs x hx => ?_⟩, hne⟩
  · obtain ⟨y, ys, zs, hy, hp⟩ := head_of_prefix hd hne
    obtain rfl : x = y := (cons_eq_cons.mp (hx.symm.trans hy)).1
    exact h.start x zs hp
  · rintro rfl
    -- the path would begin with a directory without name
    have hroot : [] ++ ['/'] <+: p := by
      refine List.IsPrefix.trans ?_ hd
      rw [hx]
      exact ⟨xs ++ ['/'], rfl⟩
    obtain ⟨ys, y, hnil, -⟩ := h.directories [] hroot
    simp at hnil
  · obtain rfl : c = x := by simpa using (append_inj' hx rfl).2
    exact hc

lemma rdropWhile_append_sep {q : Char → Bool} {d w : List Char} (hw : ∃ c ∈ w, q c = false) :
    (d ++ '/' :: w).rdropWhile q = d ++ '/' :: w.rdropWhile q := by
  have hne : (w.reverse.dropWhile q).isEmpty = false := by
    obtain ⟨c, hc, hq⟩ := hw
    rw [isEmpty_eq_false_iff, ne_eq, dropWhile_eq_nil_iff]
    exact fun h => by simpa [hq] using h c (mem_reverse.mpr hc)
  rw [List.rdropWhile, List.rdropWhile, reverse_append, reverse_cons, append_assoc,
    dropWhile_append, hne]
  simp

lemma rdropWhile_append_blank {q : Char → Bool} {d w : List Char} (hsep : q '/' = false)
    (hw : ∀ c ∈ w, q c) : (d ++ '/' :: w).rdropWhile q = d ++ ['/'] := by
  have hblank : w.reverse.dropWhile q = [] :=
    dropWhile_eq_nil_iff.mpr fun c hc => hw c (mem_reverse.mp hc)
  rw [List.rdropWhile, reverse_append, reverse_cons, append_assoc,
    dropWhile_append, hblank]
  simp [hsep]

/-- The normalisation of a plainly named path drops whitespace at the end of its name. -/
lemma PlainlyNamed.normalize_path {w : Path} (h : PlainlyNamed p) (hp : p = d ++ '/' :: w)
    (hw : '/' ∉ w) : normalize p = d ++ '/' :: w.rdropWhile isSpace := by
  subst hp
  have hname := h.name d w rfl hw
  have hd : d ++ ['/'] <+: d ++ '/' :: w := ⟨w, by simp⟩
  have hne := (h.normalize_eq hd).2
  obtain ⟨c, cs, cs', hc, hp⟩ := head_of_prefix hd hne
  have hdrop : (d ++ '/' :: w).dropWhile isSpace = d ++ '/' :: w := by
    rw [hp, dropWhile_cons_of_neg (by simp [h.start c cs' hp])]
  have hspace : Text.strip isSpace (d ++ '/' :: w) = d ++ '/' :: w.rdropWhile isSpace := by
    rw [Text.strip, hdrop, rdropWhile_append_sep hname]
  rw [normalize, hspace]
  refine Text.strip_eq_self _ _ (fun x xs hx => ?_) fun xs x hx => ?_
  · have hkept := ((normalize_eq_self_iff d).mp (h.normalize_eq hd).1).1 c cs hc
    rw [hc, cons_append] at hx
    rw [← (cons_eq_cons.mp hx).1]
    simpa using hkept.2
  · -- the last character is one of the name
    have hrest : w.rdropWhile isSpace ≠ [] := by
      rw [ne_eq, rdropWhile_eq_nil_iff]
      obtain ⟨y, hy, hspace⟩ := hname
      exact fun hall => by simpa [hspace] using hall y hy
    have hmem : x ∈ w.rdropWhile isSpace := by
      have hlast := congrArg List.getLast? hx
      rw [getLast?_append_of_ne_nil _ (by simp), getLast?_concat,
        getLast?_cons, getLast?_eq_some_getLast hrest] at hlast
      rw [← Option.some.inj hlast]
      exact getLast_mem hrest
    have hslash : x ≠ '/' := fun heq =>
      hw (heq ▸ (List.rdropWhile_prefix isSpace w).subset hmem)
    simpa using hslash

lemma PlainlyNamed.ancestors (h : PlainlyNamed p) (hmem : '/' ∈ p) :
    ancestorDirectories p = Text.properPrefixes '/' p := by
  obtain ⟨d, w, hp, hw⟩ := Text.exists_last_sep '/' hmem
  have hw' : '/' ∉ w.rdropWhile isSpace := fun h =>
    hw ((List.rdropWhile_prefix isSpace w).subset h)
  rw [ancestorDirectories_eq, h.normalize_path hp hw, hp, Text.properPrefixes_append_sep,
    Text.properPrefixes_append_sep, Text.properPrefixes_of_not_mem '/' hw,
    Text.properPrefixes_of_not_mem '/' hw']

lemma ancestors_of_plain (h : '/' ∉ p ∨ PlainlyNamed p) :
    ancestorDirectories p = Text.properPrefixes '/' p := by
  by_cases hmem : '/' ∈ p
  · exact (h.resolve_left (not_not.mpr hmem)).ancestors hmem
  · have hnone : '/' ∉ normalize p := fun hin =>
      hmem (((Text.strip_infix _ _).trans (Text.strip_infix _ _)).subset hin)
    rw [ancestorDirectories_eq, Text.properPrefixes_of_not_mem '/' hmem,
      Text.properPrefixes_of_not_mem '/' hnone]

/-! ### Faithful names -/

/-- Parent and name of a directory, put together again. -/
def joinName (parent : Path) (name : List Char) : Path :=
  if parent = [] then name else parent ++ '/' :: name

/-- What the normalisation leaves of a name is split at its last slash. -/
lemma joinName_parentAndName (hne : normalize d ≠ []) :
    '/' ∉ (parentAndName d).2 ∧
      joinName (parentAndName d).1 (parentAndName d).2 = normalize d := by
  rw [parentAndName, if_neg hne]
  by_cases hmem : '/' ∈ normalize d
  · rw [if_neg (not_not.mpr hmem)]
    obtain ⟨q, w, hd, hw⟩ := Text.exists_last_sep '/' hmem
    have hkeep : ∀ c ∈ w, decide (c ≠ '/') = true := by
      intro c hc
      exact decide_eq_true fun heq => hw (heq ▸ hc)
    have hparent : (normalize d).rdropWhile (· ≠ '/') = q ++ ['/'] := by
      rw [hd]
      exact rdropWhile_append_blank (by decide) hkeep
    have hname : (normalize d).rtakeWhile (· ≠ '/') = w := by
      have hsplit :=
        rdropWhile_append_rtakeWhile (p := fun c => decide (c ≠ '/')) (l := normalize d)
      rw [hparent] at hsplit
      refine append_cancel_left (hsplit.trans ?_)
      rw [hd]
      simp
    have hq : q ≠ [] := by
      rintro rfl
      cases Text.strip_head_not (· == '/') _ '/' w hd
    rw [hparent, hname, dropLast_concat, joinName, if_neg hq]
    exact ⟨hw, hd.symm⟩
  · rw [if_pos hmem]
    exact ⟨hmem, rfl⟩

lemma parentAndName_spec (hnormal : normalize d = d) (hne : d ≠ []) :
    '/' ∉ (parentAndName d).2 ∧ joinName (parentAndName d).1 (parentAndName d).2 = d := by
  obtain ⟨hname, hjoin⟩ := joinName_parentAndName (hnormal.symm ▸ hne : normalize d ≠ [])
  exact ⟨hname, hjoin.trans hnormal⟩

/-- The directories of a path are named faithfully: they are its proper initial segments, a mark
of the path names each of them, and the refresh of a mark rewrites the row of the directory it
names, and no other, from the visible files below this directory. -/
structure FaithfullyNamed (p : Path) : Prop where
  ancestors : ancestorDirectories p = Text.properPrefixes '/' p
  marked : ∀ d ∈ Text.properPrefixes '/' p, ∀ (ses : Session) (v : VaultId) (db : Db),
    (markPathDirty ses v db p).DirtyAt v d
  rebuilt : ∀ d ∈ Text.properPrefixes '/' p,
    ∀ (coll : Collation) (cat : Catalog) (v : VaultId) (stored : Rolled),
      rebuildDirectory coll cat v stored d =
        Function.update stored d (rollupOfFiles cat.jobs v (filesBelow cat v d))
  named : ∀ d ∈ Text.properPrefixes '/' p,
    '/' ∉ (parentAndName d).2 ∧ joinName (parentAndName d).1 (parentAndName d).2 = d

/-- A directory with a name the normalisation changes is not refreshed: a file below it is not
counted in its row. -/
lemma normal_of_rebuilt (h : ∀ (coll : Collation) (cat : Catalog) (v : VaultId)
    (stored : Rolled), rebuildDirectory coll cat v stored d =
      Function.update stored d (rollupOfFiles cat.jobs v (filesBelow cat v d))) :
    normalize d = d ∧ d ≠ [] := by
  have hrow := congrFun (h .codePoint (oneFileCatalog (d ++ ['/', 'x'])) 0 fun _ => none) d
  have hbelow : rollupOfFiles [] 0 (filesBelow (oneFileCatalog (d ++ ['/', 'x'])) 0 d) ≠ none := by
    have hprefix : d ++ ['/'] <+: d ++ ['/', 'x'] := ⟨['x'], by simp⟩
    simp [rollupOfFiles, filesBelow, oneFileCatalog, VaultFile.visible, VaultFile.below,
      VaultFile.activePath, freshCopy, fileRow, hprefix]
  rw [Function.update_self, rebuildDirectory_eq] at hrow
  by_cases hempty : normalize d = []
  · rw [if_pos hempty] at hrow
    exact (hbelow hrow.symm).elim
  · rw [if_neg hempty] at hrow
    by_cases hnormal : normalize d = d
    · exact ⟨hnormal, fun hd => hempty (hnormal.trans hd)⟩
    · rw [Function.update_of_ne fun heq => hnormal heq.symm] at hrow
      exact (hbelow hrow.symm).elim

/-- The names of a path are plain if the normalisation keeps its directories and its ancestors
are all of them. -/
lemma plainlyNamed_of_normal (hmem : '/' ∈ p)
    (hnormal : ∀ d, d ++ ['/'] <+: p → normalize d = d ∧ d ≠ [])
    (hancestors : ∀ d, d ++ ['/'] <+: p → d ∈ ancestorDirectories p) : PlainlyNamed p := by
  obtain ⟨q, u, hp, -⟩ := Text.exists_last_sep '/' hmem
  have hq : q ++ ['/'] <+: p := ⟨u, by simp [hp]⟩
  have hstart : ∀ c cs, p = c :: cs → Kept c := by
    intro c cs hc
    obtain ⟨x, xs, ys, hx, hpx⟩ := head_of_prefix hq (hnormal q hq).2
    obtain rfl : c = x := (cons_eq_cons.mp (hc.symm.trans hpx)).1
    exact ((normalize_eq_self_iff q).mp (hnormal q hq).1).1 c xs hx
  refine ⟨fun c cs hc => (hstart c cs hc).1, fun d hd => ?_, fun d w hpw hw => ?_⟩
  · obtain ⟨hself, hne⟩ := hnormal d hd
    have hsplit := dropLast_append_getLast hne
    exact ⟨_, _, hsplit.symm, ((normalize_eq_self_iff d).mp hself).2 _ _ hsplit.symm⟩
  · -- with a blank name the last directory would not be an ancestor
    by_contra hblank
    push Not at hblank
    have hspaces : ∀ c ∈ w, isSpace c := fun c hc => by
      simpa using hblank c hc
    have hanc : d ∈ ancestorDirectories p := hancestors d ⟨w, by simp [hpw]⟩
    have hdrop : p.dropWhile isSpace = p := by
      obtain ⟨c, cs, hc⟩ := exists_cons_of_ne_nil (ne_nil_of_mem hmem)
      rw [hc, dropWhile_cons_of_neg (by simp [(hstart c cs hc).1])]
    have hstripped : Text.strip isSpace p = d ++ ['/'] := by
      rw [Text.strip, hdrop, hpw]
      exact rdropWhile_append_blank (by decide) hspaces
    have hpre := (mem_ancestorDirectories p d).mp hanc
    have hshort : normalize p <:+: d ++ ['/'] := by
      rw [normalize, hstripped]
      exact Text.strip_infix _ _
    have hall : d ++ ['/'] = normalize p := hpre.eq_of_length_le hshort.length_le
    cases Text.strip_getLast_not (· == '/') _ d '/' hall.symm

lemma plainlyNamed_of_faithful (h : FaithfullyNamed p) (hmem : '/' ∈ p) :
    PlainlyNamed p := by
  refine plainlyNamed_of_normal hmem (fun d hd => ?_) fun d hd => ?_
  · exact normal_of_rebuilt (h.rebuilt d ((Text.mem_properPrefixes '/' p d).mpr hd))
  · rw [h.ancestors]
    exact (Text.mem_properPrefixes '/' p d).mpr hd

/-- **Faithful names.**  The directories of a path are named faithfully exactly when the path has
none, or begins without whitespace, has no directory segment that is empty or ends with whitespace,
and a name that is not blank. -/
theorem faithful_naming_iff (p : Path) : FaithfullyNamed p ↔ '/' ∉ p ∨ PlainlyNamed p := by
  constructor
  · intro h
    by_cases hmem : '/' ∈ p
    · exact .inr (plainlyNamed_of_faithful h hmem)
    · exact .inl hmem
  · intro h
    have hanc := ancestors_of_plain h
    have hnormal : ∀ d ∈ Text.properPrefixes '/' p, normalize d = d ∧ d ≠ [] := by
      intro d hd
      have hpre := (Text.mem_properPrefixes '/' p d).mp hd
      have hmem : '/' ∈ p := hpre.subset (by simp)
      exact (h.resolve_left (not_not.mpr hmem)).normalize_eq hpre
    refine ⟨hanc, fun d hd ses v db => ?_, fun d hd coll cat v stored => ?_, fun d hd => ?_⟩
    · have hmarks := (marksAdded_persistDirtyDirectories ses v db (ancestorDirectories p)).1
      exact (hmarks.dirty v d).mpr (.inr ⟨rfl, hanc ▸ hd⟩)
    · rw [rebuildDirectory_eq, (hnormal d hd).1, if_neg (hnormal d hd).2]
    · exact parentAndName_spec (hnormal d hd).1 (hnormal d hd).2

/-- The accepted path `a /b`: the refresh of its directory `a ` writes the row of `a`. -/
theorem naming_of_trailing_space :
    safeRelativePath ['a', ' ', '/', 'b'] = some [['a', ' '], ['b']] ∧
      ¬FaithfullyNamed ['a', ' ', '/', 'b'] := by
  refine ⟨by decide, fun h => ?_⟩
  have hnormal := normal_of_rebuilt (h.rebuilt ['a', ' '] (by decide))
  exact absurd hnormal.1 (by decide)

end Frostvault
