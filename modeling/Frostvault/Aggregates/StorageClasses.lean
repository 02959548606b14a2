import Frostvault.Aggregates.Refresh

/-!
The storage classes the two writers of `app/services/directory_aggregates.py` store.

`_rebuild_directory` counts a file for the class of its newest version that is neither missing nor
purged.  A full rebuild reads the newest version that is not purged (`LATEST_JOIN_SQL`) and counts
the file only if that one is not missing.

* `newest_filter`: the newest version, among fewer versions;
* `VaultFile.classRefreshed`, `VaultFile.classRebuilt`: the class a file is counted for;
* `classRebuilt_eq`: the two writers differ on a file that falls back to an older version;
* `refreshed_classes`, `rebuilt_classes`: the two maps, as counts over the files;
* `storageClasses_agree_iff`: **when the two maps are the same**.
-/

namespace Frostvault

open List

/-! ### Counts over the files -/

lemma countP_orderedRows (coll : Collation) (cat : Catalog) (v : VaultId) (q : VisibleRow → Bool) :
    (orderedRows coll cat v).countP q =
      cat.files.countP fun f => (f.activePath v).any fun p => q (rowAt cat.jobs f p) := by
  have hperm : (orderedRows coll cat v).Perm (cat.rows v) := perm_insertionSort _ _
  rw [hperm.countP_eq, Catalog.rows, countP_filterMap]
  refine countP_congr fun f _ => ?_
  rw [fileRow_eq]
  cases f.activePath v <;> simp

/-! ### The class of a file -/

/-- The newest version is the newest of fewer versions, if it is among them. -/
lemma newest_filter {q : ArchiveVersion → Bool} {ws : List ArchiveVersion} {w : ArchiveVersion}
    (h : newest ws = some w) (hq : q w) : newest (ws.filter q) = some w := by
  induction ws with
  | nil => cases h
  | cons u us ih =>
      rw [newest] at h
      cases hus : newest us with
      | none =>
          rw [hus] at h
          cases h
          rw [newest_eq_none.mp hus, filter_cons_of_pos hq]
          rfl
      | some x =>
          simp only [hus] at h
          by_cases hlt : u.versionNumber < x.versionNumber
          · rw [if_pos hlt] at h
            cases h
            have hrest := ih hus
            by_cases hu : q u
            · rw [filter_cons_of_pos hu, newest, hrest]
              exact if_pos hlt
            · rw [filter_cons_of_neg hu, hrest]
          · rw [if_neg hlt] at h
            cases h
            rw [filter_cons_of_pos hq, newest]
            cases hrest : newest (us.filter q) with
            | none => rfl
            | some y =>
                have hy : y.versionNumber ≤ x.versionNumber :=
                  newest_le hus y (mem_of_mem_filter (newest_mem hrest))
                exact if_neg (by omega)

/-- The newest version that is neither missing nor purged. -/
def VaultFile.cleanVersion (f : VaultFile) : Option ArchiveVersion :=
  newest (f.versions.filter fun w => w.availability ≠ .missing && w.availability ≠ .purged)

/-- The class `_rebuild_directory` counts a file for. -/
def VaultFile.classRefreshed (f : VaultFile) : Option StorageClass :=
  f.cleanVersion.bind ArchiveVersion.storageClass

/-- The class a full rebuild counts a file for. -/
def VaultFile.classRebuilt (f : VaultFile) : Option StorageClass :=
  (f.latestVersion.bind fun w => if w.availability = .missing then none else w.storageClass).filter
    (· ≠ "")

/-- The newest version that is not purged is missing, and an older one has a class. -/
def VaultFile.fallsBack (f : VaultFile) : Bool :=
  f.latestVersion.any (fun w => w.availability = .missing) && f.classRefreshed.isSome

variable {f : VaultFile} {k : StorageClass}

lemma cleanVersion_of_latest {w : ArchiveVersion} (h : f.latestVersion = some w)
    (hw : w.availability ≠ .missing) : f.cleanVersion = some w := by
  have hfilter : (f.versions.filter fun w => w.availability ≠ .missing && w.availability ≠ .purged) =
      (f.versions.filter fun w => w.availability ≠ .purged).filter
        fun w => w.availability ≠ .missing := by
    rw [filter_filter]
  rw [VaultFile.cleanVersion, hfilter]
  exact newest_filter h (by simpa using hw)

lemma latest_isSome_of_clean (h : f.latestVersion = none) :
    f.cleanVersion = none := by
  have hnone := newest_eq_none.mp h
  rw [VaultFile.cleanVersion, newest_eq_none, filter_eq_nil_iff]
  intro w hw hclean
  have hpurged := filter_eq_nil_iff.mp hnone w hw
  simp only [Bool.and_eq_true, decide_eq_true_eq] at hclean
  exact hpurged (by simpa using hclean.2)

/-- **The two classes of a file** are the same unless it falls back to an older version. -/
lemma classRebuilt_eq (f : VaultFile) :
    f.classRebuilt = if f.fallsBack then none else f.classRefreshed.filter (· ≠ "") := by
  rw [VaultFile.classRebuilt, VaultFile.fallsBack]
  cases h : f.latestVersion with
  | none =>
      rw [VaultFile.classRefreshed, latest_isSome_of_clean h]
      rfl
  | some w =>
      by_cases hw : w.availability = .missing
      · cases f.classRefreshed <;> simp [hw]
      · rw [VaultFile.classRefreshed, cleanVersion_of_latest h hw]
        simp [hw]

lemma visible_of_classRebuilt (h : f.classRebuilt = some k) :
    f.visible := by
  rw [VaultFile.visible]
  cases hlatest : f.latestVersion with
  | none => simp [VaultFile.classRebuilt, hlatest] at h
  | some w => simp

lemma visible_of_classRefreshed (h : f.classRefreshed = some k) : f.visible := by
  rw [VaultFile.visible]
  cases hlatest : f.latestVersion with
  | none => simp [VaultFile.classRefreshed, latest_isSome_of_clean hlatest] at h
  | some w => simp

/-- The row of a file has a cloud copy when its latest version is not missing. -/
lemma hasCloud_rowAt (jobs : List Job) (f : VaultFile) (p : Path) :
    (rowAt jobs f p).hasCloud = f.latestVersion.any fun w => w.availability ≠ .missing := by
  have hcloud : ∀ o : Option ArchiveVersion, (∀ w, o = some w → w.availability ≠ .purged) →
      ((o.map ArchiveVersion.id).isSome && o.map ArchiveVersion.availability ≠ some .missing &&
        o.map ArchiveVersion.availability ≠ some .purged) =
      o.any fun w => w.availability ≠ .missing := by
    intro o ho
    cases o with
    | none => rfl
    | some w => simp [ho w rfl]
  exact hcloud f.latestVersion fun w hw => f.latestVersion_not_purged hw

/-- What the contribution of a file counts. -/
lemma storageClass_contributionOf (jobs : List Job) (f : VaultFile) (p : Path) (k : StorageClass) :
    ((contributionOf (rowAt jobs f p)).storageClass = some k ∧ k ≠ "") ↔
      f.classRebuilt = some k := by
  have hclass : (contributionOf (rowAt jobs f p)).storageClass =
      f.latestVersion.bind fun w => if w.availability = .missing then none else w.storageClass := by
    have hrow : (contributionOf (rowAt jobs f p)).storageClass =
        if (rowAt jobs f p).hasCloud then f.latestVersion.bind ArchiveVersion.storageClass
        else none := rfl
    rw [hrow, hasCloud_rowAt]
    cases f.latestVersion with
    | none => rfl
    | some w => by_cases hmissing : w.availability = .missing <;> simp [hmissing]
  rw [hclass, VaultFile.classRebuilt, Option.filter_eq_some_iff]
  simp

/-! ### The two maps -/

/-- The refresh counts the file for the class. -/
def VaultFile.refreshedFor (v : VaultId) (d : Path) (k : StorageClass) (f : VaultFile) : Bool :=
  f.below v d && f.classRefreshed = some k

/-- The full rebuild counts the file for the class. -/
def VaultFile.rebuiltFor (v : VaultId) (d : Path) (k : StorageClass) (f : VaultFile) : Bool :=
  f.naming v d && f.classRebuilt = some k

variable {cat : Catalog} {v : VaultId} {d : Path}

/-- **The classes a refresh counts.** -/
lemma refreshed_classes (cat : Catalog) (v : VaultId) (d : Path) (k : StorageClass) :
    (storageRows cat v d).count k = cat.files.countP (VaultFile.refreshedFor v d k) := by
  rw [storageRows, count_filterMap]
  refine countP_congr fun f _ => ?_
  rw [VaultFile.refreshedFor, VaultFile.below, VaultFile.activePath, VaultFile.classRefreshed,
    VaultFile.cleanVersion]
  by_cases hactive : f.vaultId = v ∧ f.status = .active
  · cases hpath : f.currentPath with
    | none => simp [hactive]
    | some p =>
        have hlike := Text.like_escapeLike_descendants d p
        by_cases hp : d ++ ['/'] <+: p
        · simp [hactive, hp, hlike.mpr hp]
        · simp [hactive, hp, mt hlike.mp hp]
  · rw [if_neg hactive, if_neg fun h => hactive ⟨h.1, h.2.1⟩]
    simp

lemma storageClasses_foldl_add (rows : List VisibleRow) (r : DirectoryRollup) (k : StorageClass) :
    ((rows.map contributionOf).foldl DirectoryRollup.add r).storageClasses k =
      r.storageClasses k +
        rows.countP fun row => (contributionOf row).storageClass = some k ∧ k ≠ "" := by
  induction rows generalizing r with
  | nil => rfl
  | cons row rows ih =>
      rw [map_cons, foldl_cons, ih, countP_cons, DirectoryRollup.add]
      simp only [decide_eq_true_eq]
      omega

section

variable (coll : Collation)

include coll

/-- **The classes a full rebuild counts.** -/
lemma rebuilt_classes (cat : Catalog) (v : VaultId) (d : Path) (k : StorageClass) :
    (((rowsNaming coll cat v d).map contributionOf).foldl DirectoryRollup.add .zero).storageClasses
        k = cat.files.countP (VaultFile.rebuiltFor v d k) := by
  rw [storageClasses_foldl_add, rowsNaming, countP_filter, countP_orderedRows,
    DirectoryRollup.zero, Nat.zero_add]
  refine countP_congr fun f _ => ?_
  rw [VaultFile.rebuiltFor, VaultFile.naming]
  have hcounted := storageClass_contributionOf cat.jobs f
  cases f.activePath v with
  | none => simp
  | some p =>
      have hpath : (rowAt cat.jobs f p).path = p := rfl
      simp only [Option.any_some, hcounted, visible_rowAt, hpath, Bool.and_eq_true,
        decide_eq_true_eq]
      constructor
      · rintro ⟨hclass, -, hanc⟩
        exact ⟨hanc, hclass⟩
      · rintro ⟨hanc, hclass⟩
        exact ⟨hclass, visible_of_classRebuilt hclass, hanc⟩

/-- A refresh stores a row when a shown file is below. -/
lemma rowsBelow_ne_nil (cat : Catalog) (v : VaultId) (d : Path) :
    rowsBelow coll cat v d ≠ [] ↔ ∃ f ∈ cat.files, f.visible ∧ f.below v d := by
  rw [← length_pos_iff, rowsBelow_eq, ← countP_eq_length_filter, countP_orderedRows,
    countP_pos_iff]
  refine exists_congr fun f => and_congr_right fun _ => ?_
  rw [VaultFile.below]
  cases f.activePath v with
  | none => simp
  | some p =>
      have hpath : (rowAt cat.jobs f p).path = p := rfl
      simp [visible_rowAt, hpath]

/-- A full rebuild stores a row when a shown file names the directory. -/
lemma rowsNaming_ne_nil (cat : Catalog) (v : VaultId) (d : Path) :
    rowsNaming coll cat v d ≠ [] ↔ ∃ f ∈ cat.files, f.visible ∧ f.naming v d := by
  rw [← length_pos_iff, rowsNaming, ← countP_eq_length_filter, countP_orderedRows,
    countP_pos_iff]
  refine exists_congr fun f => and_congr_right fun _ => ?_
  rw [VaultFile.naming]
  cases f.activePath v with
  | none => simp
  | some p =>
      have hpath : (rowAt cat.jobs f p).path = p := rfl
      simp [visible_rowAt, hpath]

lemma refresh_storageClasses (cat : Catalog) (v : VaultId) (stored : Rolled)
    (hnormal : normalize d = d) (hne : d ≠ []) :
    (rebuildDirectory coll cat v stored d d).map DirectoryRollup.storageClasses =
      if rowsBelow coll cat v d = [] then none
      else some fun k => cat.files.countP (VaultFile.refreshedFor v d k) := by
  have hj : ∀ r ∈ rowsBelow coll cat v d, Joined r := by
    intro r hr
    rw [rowsBelow_eq] at hr
    exact joined_of_mem_orderedRows (mem_of_mem_filter hr)
  rw [rebuildDirectory, hnormal]
  simp only [hne, if_false, Function.update_self, rollupSql, Option.map_map, refreshed_classes]
  rw [columnsSql_eq hj]
  split <;> rfl

lemma rebuild_storageClasses (cat : Catalog) (v : VaultId) (batchSize : Option ℤ) (d : Path) :
    (rebuildVaultDirectoryAggregates coll cat v batchSize d).map DirectoryRollup.storageClasses =
      if rowsNaming coll cat v d = [] then none
      else some fun k => cat.files.countP (VaultFile.rebuiltFor v d k) := by
  rw [rebuildVaultDirectoryAggregates_apply]
  split
  · rfl
  · exact congrArg some (funext fun k => rebuilt_classes coll cat v d k)

end

/-! ### Agreement -/

/-- Both writers store the same storage classes for the directory, whatever was stored before. -/
def ClassesAgree (coll : Collation) (cat : Catalog) (v : VaultId) (batchSize : Option ℤ)
    (d : Path) : Prop :=
  ∀ stored : Rolled,
    (rebuildDirectory coll cat v stored d d).map DirectoryRollup.storageClasses =
      (rebuildVaultDirectoryAggregates coll cat v batchSize d).map DirectoryRollup.storageClasses

/-- A refresh writes the row of a directory whose name its normalisation keeps. -/
lemma normal_of_classesAgree {coll : Collation} {batchSize : Option ℤ}
    (h : ClassesAgree coll cat v batchSize d) : normalize d = d ∧ d ≠ [] := by
  -- two rows the refresh may find, of which a full rebuild stores at most one
  have hkept : ¬∀ stored : Rolled, rebuildDirectory coll cat v stored d d = stored d := by
    intro hkept
    have hone := h fun _ => some .zero
    have htwo := h fun _ => none
    rw [hkept] at hone htwo
    exact Option.some_ne_none _ (hone.trans htwo.symm)
  by_contra hnot
  refine hkept fun stored => ?_
  rw [rebuildDirectory]
  by_cases hempty : normalize d = []
  · rw [if_pos hempty]
  · rw [if_neg hempty, Function.update_of_ne]
    rintro hsame
    exact hnot ⟨hsame.symm, fun hd => hempty (hsame.symm.trans hd)⟩

lemma countP_eq_iff {α : Type} (l : List α) (a b : α → Bool) :
    l.countP a = l.countP b ↔ l.countP (fun x => a x && !b x) = l.countP fun x => b x && !a x := by
  have hsplit : ∀ a b : α → Bool,
      l.countP a = l.countP (fun x => a x && b x) + l.countP fun x => a x && !b x := by
    intro a b
    induction l with
    | nil => rfl
    | cons x l ih =>
        simp only [countP_cons, ih]
        cases a x <;> cases b x <;> simp <;> omega
  have hboth : l.countP (fun x => a x && b x) = l.countP fun x => b x && a x :=
    countP_congr fun x _ => by rw [Bool.and_comm]
  rw [hsplit a b, hsplit b a, hboth]
  omega

/-- The files one writer counts for a class and the other does not are equally many on both
sides, and both writers store a row, or neither does. -/
structure ClassesBalance (cat : Catalog) (v : VaultId) (d : Path) : Prop where
  stored : (∃ f ∈ cat.files, f.visible = true ∧ f.below v d = true) ↔
    ∃ f ∈ cat.files, f.visible = true ∧ f.naming v d = true
  counted : ∀ k, cat.files.countP (fun f => f.refreshedFor v d k && !f.rebuiltFor v d k) =
    cat.files.countP fun f => f.rebuiltFor v d k && !f.refreshedFor v d k

lemma visible_of_refreshedFor (h : f.refreshedFor v d k) : f.visible ∧ f.below v d := by
  rw [VaultFile.refreshedFor, Bool.and_eq_true, decide_eq_true_eq] at h
  exact ⟨visible_of_classRefreshed h.2, h.1⟩

lemma visible_of_rebuiltFor (h : f.rebuiltFor v d k) : f.visible ∧ f.naming v d := by
  rw [VaultFile.rebuiltFor, Bool.and_eq_true, decide_eq_true_eq] at h
  exact ⟨visible_of_classRebuilt h.2, h.1⟩

/-- The two maps of a directory with a normal name. -/
lemma classesAgree_iff_balance (coll : Collation) (batchSize : Option ℤ) (hnormal : normalize d = d)
    (hne : d ≠ []) :
    ClassesAgree coll cat v batchSize d ↔ ClassesBalance cat v d := by
  have hbelow := rowsBelow_ne_nil coll cat v d
  have hnaming := rowsNaming_ne_nil coll cat v d
  simp only [ClassesAgree, refresh_storageClasses coll cat v _ hnormal hne,
    rebuild_storageClasses, forall_const]
  by_cases hb : rowsBelow coll cat v d = []
  · have hnob := hbelow.not.mp (not_not.mpr hb)
    by_cases hn : rowsNaming coll cat v d = []
    · have hnon := hnaming.not.mp (not_not.mpr hn)
      rw [if_pos hb, if_pos hn]
      refine iff_of_true rfl ⟨iff_of_false hnob hnon, fun k => ?_⟩
      have hleft : ∀ f ∈ cat.files, ¬f.refreshedFor v d k := fun f hf h =>
        hnob ⟨f, hf, visible_of_refreshedFor h⟩
      have hright : ∀ f ∈ cat.files, ¬f.rebuiltFor v d k := fun f hf h =>
        hnon ⟨f, hf, visible_of_rebuiltFor h⟩
      rw [← countP_eq_iff, countP_eq_zero.mpr hleft, countP_eq_zero.mpr hright]
    · rw [if_pos hb, if_neg hn]
      refine iff_of_false (Option.some_ne_none _).symm fun h => ?_
      exact hnob (h.stored.mpr (hnaming.mp hn))
  · by_cases hn : rowsNaming coll cat v d = []
    · rw [if_neg hb, if_pos hn]
      refine iff_of_false (Option.some_ne_none _) fun h => ?_
      exact hnaming.not.mp (not_not.mpr hn) (h.stored.mp (hbelow.mp hb))
    · rw [if_neg hb, if_neg hn, Option.some.injEq, funext_iff]
      have hstored := iff_of_true (hbelow.mp hb) (hnaming.mp hn)
      constructor
      · exact fun h => ⟨hstored, fun k => (countP_eq_iff _ _ _).mp (h k)⟩
      · exact fun h k => (countP_eq_iff _ _ _).mpr (h.counted k)

lemma naming_iff_of_activePaths
    (hfiled : ∀ p ∈ cat.activePaths v, (d ∈ ancestorDirectories p ↔ d ++ ['/'] <+: p))
    (hf : f ∈ cat.files) : f.naming v d ↔ f.below v d := by
  rw [VaultFile.naming, VaultFile.below]
  cases hp : f.activePath v with
  | none => rfl
  | some p => simpa using hfiled p (mem_filterMap.mpr ⟨f, hf, hp⟩)

/-- Where the two writers agree which visible files are below, they differ on the files that fall
back to an older version, and on those with an empty class. -/
lemma balance_of_filed (hfiled : ∀ f ∈ cat.files, f.visible → (f.naming v d ↔ f.below v d)) :
    ClassesBalance cat v d ↔
      ∀ f ∈ cat.files, f.below v d → f.fallsBack = false ∧ f.classRefreshed ≠ some "" := by
  have hright : ∀ k, ∀ f ∈ cat.files, ¬(f.rebuiltFor v d k && !f.refreshedFor v d k) := by
    intro k f hf h
    rw [Bool.and_eq_true, Bool.not_eq_true'] at h
    obtain ⟨hre, hno⟩ := h
    obtain ⟨hvis, hnaming⟩ := visible_of_rebuiltFor hre
    rw [VaultFile.rebuiltFor, Bool.and_eq_true, decide_eq_true_eq, classRebuilt_eq] at hre
    by_cases hback : f.fallsBack
    · rw [if_pos hback] at hre
      exact nomatch hre.2
    · rw [if_neg hback, Option.filter_eq_some_iff] at hre
      simp [VaultFile.refreshedFor, (hfiled f hf hvis).mp hnaming, hre.2.1] at hno
  have hleft : (∀ k, ∀ f ∈ cat.files, ¬(f.refreshedFor v d k && !f.rebuiltFor v d k)) ↔
      ∀ f ∈ cat.files, f.below v d → f.fallsBack = false ∧ f.classRefreshed ≠ some "" := by
    rw [forall_comm]
    refine forall_congr' fun f => ?_
    rw [forall_comm]
    refine forall_congr' fun hf => ?_
    cases hclass : f.classRefreshed with
    | none =>
        have hback : f.fallsBack = false := by rw [VaultFile.fallsBack, hclass]; simp
        simp [VaultFile.refreshedFor, hclass, hback]
    | some k =>
        have hvis := visible_of_classRefreshed hclass
        have hsame : f.naming v d = f.below v d :=
          Bool.eq_iff_iff.mpr (hfiled f hf hvis)
        simp only [VaultFile.refreshedFor, VaultFile.rebuiltFor, hsame, classRebuilt_eq]
        cases hb : f.below v d with
        | false => simp
        | true => cases hback : f.fallsBack <;> simp [hclass, Option.filter]
  constructor
  · intro h
    refine hleft.mp fun k f hf hone => ?_
    have hzero := (h.counted k).trans (countP_eq_zero.mpr (hright k))
    exact countP_eq_zero.mp hzero f hf hone
  · intro h
    refine ⟨exists_congr fun f => and_congr_right fun hf => and_congr_right fun hvis =>
      (hfiled f hf hvis).symm, fun k => ?_⟩
    rw [countP_eq_zero.mpr (hleft.mpr h k), countP_eq_zero.mpr (hright k)]

/-- **The storage classes of the two writers.**  Where no active path of the Vault is misfiled, they
agree exactly when the directory has a normal name, no file below it falls back from a missing
version to an older one, and none has an empty class.  In general, when the directory has a normal
name, both writers store a row or neither does, and for every class the files that only the
refresh counts are as many as the files that only the full rebuild counts. -/
theorem storageClasses_agree_iff (coll : Collation) (cat : Catalog) (v : VaultId)
    (batchSize : Option ℤ) (d : Path) :
    ((∀ p ∈ cat.activePaths v, (d ∈ ancestorDirectories p ↔ d ++ ['/'] <+: p)) →
      (ClassesAgree coll cat v batchSize d ↔
        (normalize d = d ∧ d ≠ []) ∧ ∀ f ∈ cat.files, f.below v d = true →
          f.fallsBack = false ∧ f.classRefreshed ≠ some "")) ∧
    (ClassesAgree coll cat v batchSize d ↔
      (normalize d = d ∧ d ≠ []) ∧ ClassesBalance cat v d) := by
  have hgeneral : ClassesAgree coll cat v batchSize d ↔
      (normalize d = d ∧ d ≠ []) ∧ ClassesBalance cat v d := by
    constructor
    · intro h
      have hnormal := normal_of_classesAgree h
      exact ⟨hnormal, (classesAgree_iff_balance coll batchSize hnormal.1 hnormal.2).mp h⟩
    · exact fun ⟨hnormal, h⟩ =>
        (classesAgree_iff_balance coll batchSize hnormal.1 hnormal.2).mpr h
  refine ⟨fun hfiled => ?_, hgeneral⟩
  rw [hgeneral, balance_of_filed fun f hf _ => naming_iff_of_activePaths hfiled hf]

/-- A file whose newest version was found missing, with an older one in the cloud. -/
def missingNewest : Catalog where
  files := [⟨1, 0, .active, some ['a', '/', 'b'], 0, [], some freshCopy,
    [⟨1, 1, 0, some 1, some 3, some "DEEP_ARCHIVE", some 5, .verified, .available, some 1, none, 1,
      none, none, .upload, .upload⟩,
     ⟨2, 2, 0, some 2, some 4, some "DEEP_ARCHIVE", some 6, .verified, .missing, some 1, none, 1,
      none, none, .upload, .upload⟩], []⟩]
  jobs := []
  items := []
  ids_nodup := by simp
  paths_unique := by simp
  versions_unique := by simp [VaultFile.versionKeys, KeysDistinct]
  jobIds_nodup := nodup_nil

/-- The refresh of `a` counts the older version, the full rebuild counts none. -/
theorem storageClasses_differ_missing_newest :
    ¬∀ (coll : Collation) (cat : Catalog) (v : VaultId) (batchSize : Option ℤ) (d : Path),
      normalize d = d → d ≠ [] → ClassesAgree coll cat v batchSize d := by
  intro h
  have hagree := h .codePoint missingNewest 0 none ['a'] (by decide) (by decide) fun _ => none
  have hrefresh := refresh_storageClasses .codePoint missingNewest 0 (fun _ => none)
    (d := ['a']) (by decide) (by decide)
  have hbelow : rowsBelow .codePoint missingNewest 0 ['a'] ≠ [] := by decide
  have hnaming : rowsNaming .codePoint missingNewest 0 ['a'] ≠ [] := by decide
  rw [hrefresh, if_neg hbelow, rebuild_storageClasses, if_neg hnaming, Option.some.injEq] at hagree
  have hcount := congrFun hagree "DEEP_ARCHIVE"
  revert hcount
  decide

/-- At `a/b` nothing is misfiled. -/
theorem storageClasses_agree_iff_filed :
    (∀ p ∈ missingNewest.activePaths 0, (['a'] ∈ ancestorDirectories p ↔ ['a'] ++ ['/'] <+: p)) ∧
      (ClassesAgree .codePoint missingNewest 0 none ['a'] ↔
        (normalize ['a'] = ['a'] ∧ ['a'] ≠ []) ∧ ∀ f ∈ missingNewest.files,
          f.below 0 ['a'] = true → f.fallsBack = false ∧ f.classRefreshed ≠ some "") := by
  have hfiled : ∀ p ∈ missingNewest.activePaths 0,
      (['a'] ∈ ancestorDirectories p ↔ ['a'] ++ ['/'] <+: p) := by decide
  exact ⟨hfiled, (storageClasses_agree_iff .codePoint missingNewest 0 none ['a']).1 hfiled⟩

end Frostvault
