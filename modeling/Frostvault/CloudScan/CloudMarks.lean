import Frostvault.CloudScan.CloudOps
import Frostvault.Observation.Coverage

/-!
The marks of the operations on Archive Versions cover what they change, but for one.

A row belongs to one file, and what it shows is counted in the directories above the file's
current path.  Every operation but one marks these directories, or asks for a full rebuild.
`record_archive_version` marks the directories above the path it is called with.  A scan calls it
with the path decoded from the object key, where a renamed file no longer is: the directories of
its current path keep their old counts, unless they were marked already.

* `rollup_insert_iff`: one file's contribution decides whether a rollup changes;
* `marked_of_versions`: an operation that rewrites rows marks what it changes;
* `recordVersion_files`: the one file a recorded version changes;
* `cloud_marks_cover_iff`: **every changed directory is marked, exactly when a recorded version
  changes no unmarked directory away from the recorded path**.
-/

namespace Frostvault

open List

variable {coll : Collation} {batchSize : Option ℤ} {ses : Session}

/-! ### What one file adds -/

/-- A contribution as a rollup counts it: without its path, and without a class that is not
counted. -/
def FileContribution.counted (c : FileContribution) : FileContribution :=
  { c with
    path := []
    hasCloud := true
    storageClass := c.storageClass.filter (· ≠ "") }

lemma add_counted (r : DirectoryRollup) (c : FileContribution) : r.add c.counted = r.add c := by
  have hclass : ∀ k, (c.counted.storageClass = some k ∧ k ≠ "") ↔
      (c.storageClass = some k ∧ k ≠ "") := by
    intro k
    show (c.storageClass.filter (· ≠ "") = some k ∧ k ≠ "") ↔ _
    rw [Option.filter_eq_some_iff]
    simp
  simp only [DirectoryRollup.add, hclass]
  rfl

/-- **Two contributions add the same exactly when they count the same.** -/
lemma add_eq_iff (r : DirectoryRollup) (c c' : FileContribution) :
    r.add c = r.add c' ↔ c.counted = c'.counted := by
  constructor
  · intro h
    rw [← add_counted r c, ← add_counted r c'] at h
    have hcols : (r.add c.counted).toRollupColumns = (r.add c'.counted).toRollupColumns := by rw [h]
    have hclasses := congrArg DirectoryRollup.storageClasses h
    simp only [DirectoryRollup.add, RollupColumns.mk.injEq] at hcols hclasses
    obtain ⟨-, htotal, hlocal, hcloud, hstates, hactions⟩ := hcols
    have hstate : c'.counted.state = c.counted.state := by
      have := congrFun hstates c.counted.state
      simp only [if_true, Nat.add_left_cancel_iff] at this
      by_contra hne
      rw [if_neg hne] at this
      exact Nat.one_ne_zero this
    have hbool : ∀ a, c.counted.counts a = c'.counted.counts a := by
      intro a
      have := congrFun hactions a
      cases h1 : c.counted.counts a <;> cases h2 : c'.counted.counts a <;> simp [h1, h2] at this ⊢
    have hclass : c.counted.storageClass = c'.counted.storageClass := by
      refine Option.ext fun k => ?_
      have hk := congrFun hclasses k
      have hpos : ∀ c : FileContribution, c.counted.storageClass = some k → k ≠ "" := by
        intro c hc
        have := (Option.filter_eq_some_iff.mp hc).2
        simpa using this
      constructor
      · intro hc
        by_contra hc'
        simp [hc, hpos c hc, hc'] at hk
      · intro hc'
        by_contra hc
        simp [hc', hpos c' hc', hc] at hk
    have hup := hbool .upload
    have hrec := hbool .recover
    have hfree := hbool .freeSpace
    cases c
    cases c'
    simp_all [FileContribution.counted, FileContribution.counts]
  · intro h
    rw [← add_counted r c, ← add_counted r c', h]

/-- The rollup of a list of contributions; a directory without any has no row. -/
def rollupOf (cs : List FileContribution) : Option DirectoryRollup :=
  if cs = [] then none else some (cs.foldl DirectoryRollup.add .zero)

lemma rollupOf_perm {cs cs' : List FileContribution} (h : cs.Perm cs') :
    rollupOf cs = rollupOf cs' := by
  have hnil : cs = [] ↔ cs' = [] := by
    rw [← length_eq_zero_iff, ← length_eq_zero_iff, h.length_eq]
  rw [rollupOf, rollupOf, h.foldl_eq]
  simp only [hnil]

/-- **One contribution among others.**  The rollup changes exactly when what it counts does. -/
lemma rollup_insert_iff (cs : List FileContribution) (o o' : Option FileContribution) :
    rollupOf (cs ++ o.toList) = rollupOf (cs ++ o'.toList) ↔
      o.map FileContribution.counted = o'.map FileContribution.counted := by
  have hsome : ∀ c : FileContribution, rollupOf (cs ++ [c]) =
      some ((cs.foldl DirectoryRollup.add .zero).add c) := by
    intro c
    rw [rollupOf, if_neg (by simp), foldl_append]
    rfl
  have hnone : ∀ c : FileContribution, rollupOf cs ≠ rollupOf (cs ++ [c]) := by
    intro c
    rw [hsome, rollupOf]
    split
    · simp
    · intro h
      have hcount := congrArg (fun r : DirectoryRollup => r.itemCount) (Option.some.inj h)
      exact absurd hcount (Nat.ne_of_lt (Nat.lt_succ_self _))
  cases o with
  | none =>
      cases o' with
      | none => simp
      | some c' => simpa using hnone c'
  | some c =>
      cases o' with
      | none => simpa using (hnone c).symm
      | some c' =>
          simp only [Option.toList_some, Option.map_some, Option.some.injEq]
          rw [hsome, hsome, Option.some.injEq, add_eq_iff]

/-- What a file shows at a path counts for, in the directories above the path. -/
def countedAt (jobs : List Job) (f : VaultFile) (q : Path) : Option FileContribution :=
  (contributionFromRow (rowAt jobs f q)).map FileContribution.counted

variable {cat cat' : Catalog} {v w : VaultId} {d : Path}

/-- When one file is rewritten, its contribution decides whether the rollup changes. -/
lemma rebuild_oneFile_iff {f : VaultFile} {g : VaultFile → VaultFile} (hf : f ∈ cat.files)
    (hfiles : cat'.files = cat.files.map g)
    (hother : ∀ x ∈ cat.files, x.id ≠ f.id → share cat'.jobs w d (g x) = share cat.jobs w d x) :
    rebuildVaultDirectoryAggregates coll cat w batchSize d =
        rebuildVaultDirectoryAggregates coll cat' w batchSize d ↔
      (share cat.jobs w d f).map FileContribution.counted =
        (share cat'.jobs w d (g f)).map FileContribution.counted := by
  obtain ⟨before, after, hsplit⟩ := append_of_mem hf
  have hnd := cat.ids_nodup
  rw [hsplit, map_append, map_cons] at hnd
  have hrest : ∀ x ∈ before ++ after, share cat'.jobs w d (g x) = share cat.jobs w d x := by
    intro x hx
    have hne : x.id ≠ f.id := by
      intro heq
      have hmid := (nodup_middle.mp hnd)
      rw [← map_append] at hmid
      exact (nodup_cons.mp hmid).1 (heq ▸ mem_map_of_mem hx)
    refine hother x ?_ hne
    rw [hsplit]
    rcases mem_append.mp hx with hx | hx
    · exact mem_append_left _ hx
    · exact mem_append_right _ (mem_cons_of_mem _ hx)
  have hperm : ∀ (jobs : List Job) (h : VaultFile → VaultFile),
      ((before ++ f :: after).filterMap fun x => share jobs w d (h x)).Perm
        (((before ++ after).filterMap fun x => share jobs w d (h x)) ++
          (share jobs w d (h f)).toList) := by
    intro jobs h
    rw [filterMap_append, filterMap_append, append_assoc]
    refine List.Perm.append_left _ ?_
    cases hs : share jobs w d (h f) with
    | none => simp [hs]
    | some c =>
        simp only [filterMap_cons, hs]
        exact (perm_append_singleton _ _).symm
  have hleft : shares cat w d = (before ++ f :: after).filterMap fun x =>
      share cat.jobs w d (id x) := by
    rw [shares, hsplit]
    rfl
  have hright : shares cat' w d = (before ++ f :: after).filterMap fun x =>
      share cat'.jobs w d (g x) := by
    rw [shares, hfiles, hsplit, filterMap_map]
    rfl
  rw [rebuild_eq_shares, rebuild_eq_shares, ← rollupOf, ← rollupOf, hleft, hright,
    rollupOf_perm (hperm cat.jobs id), rollupOf_perm (hperm cat'.jobs g),
    filterMap_congr hrest]
  exact rollup_insert_iff _ _ _

/-! ### Marks -/

variable {db : Db} {o : VersionObservation}

lemma marked_markFileIdDirty_iff {u : VaultId} {id : FileId} :
    Marked (markFileIdDirty ses u db id) w d ↔ Marked db w d ∨ (w = u ∧
      ∃ f, db.catalog.file? id = some f ∧ f.vaultId = u ∧
        ∃ p, f.currentPath = some p ∧ d ∈ ancestorDirectories p) := by
  rw [markFileIdDirty]
  cases hfile : db.catalog.file? id with
  | none => simp
  | some f =>
      by_cases hu : f.vaultId = u
      · cases hp : f.currentPath with
        | none => simp [hu, hp]
        | some p => simp [hu, hp, markPathDirty, marked_persist_iff]
      · simp [hu]

lemma marked_mono_markFileIdDirty {u : VaultId} {id : FileId} (h : Marked db w d) :
    Marked (markFileIdDirty ses u db id) w d :=
  marked_markFileIdDirty_iff.mpr (Or.inl h)

/-- The marks of a list of files, one after the other. -/
lemma foldl_markFileIdDirty_catalog (fs : List VaultFile) (db : Db) :
    (fs.foldl (fun db f => markFileIdDirty ses f.vaultId db f.id) db).catalog = db.catalog := by
  induction fs generalizing db with
  | nil => rfl
  | cons f fs ih =>
      rw [foldl_cons, ih]
      exact markFileIdDirty_catalog _ _ _

lemma markVersionOwners_catalog (rows : List RowId) (db : Db) :
    (markVersionOwners ses rows db).catalog = db.catalog :=
  foldl_markFileIdDirty_catalog _ _

/-- The directories above the files of the rows are marked. -/
lemma marked_markVersionOwners {rows : List RowId} {f : VaultFile}
    (hf : f ∈ db.catalog.files) (hrow : ∃ u ∈ f.versions, u.id ∈ rows) {p : Path}
    (hp : f.currentPath = some p) (hd : d ∈ ancestorDirectories p) :
    Marked (markVersionOwners ses rows db) f.vaultId d := by
  have hmem : f ∈ db.catalog.files.filter fun f => f.versions.any fun u => u.id ∈ rows := by
    refine mem_filter.mpr ⟨hf, ?_⟩
    simpa using hrow
  have hkeep : ∀ (fs : List VaultFile) (db : Db), Marked db f.vaultId d →
      Marked (fs.foldl (fun db f => markFileIdDirty ses f.vaultId db f.id) db) f.vaultId d := by
    intro fs
    induction fs with
    | nil => exact fun _ h => h
    | cons x fs ih => exact fun db h => ih _ (marked_mono_markFileIdDirty h)
  have hreach : ∀ (fs : List VaultFile) (b : Db), b.catalog = db.catalog → f ∈ fs →
      Marked (fs.foldl (fun db f => markFileIdDirty ses f.vaultId db f.id) b) f.vaultId d := by
    intro fs
    induction fs with
    | nil => exact fun _ _ h => absurd h not_mem_nil
    | cons x fs ih =>
        intro b hb hin
        rw [foldl_cons]
        rcases mem_cons.mp hin with rfl | hin
        · refine hkeep fs _ (marked_markFileIdDirty_iff.mpr (Or.inr ⟨rfl, f, ?_, rfl, p, hp, hd⟩))
          rw [hb]
          exact db.catalog.file?_eq_of_mem hf
        · exact ih _ ((markFileIdDirty_catalog _ _ _).trans hb) hin
  exact hreach _ db rfl hmem

lemma marked_mono_markOwned {id : FileId} (h : Marked db w d) :
    Marked (markOwned ses db id) w d := by
  rw [markOwned]
  split
  · exact marked_mono_markFileIdDirty h
  · exact h

lemma foldl_markOwned_catalog (ids : List FileId) (db : Db) :
    (ids.foldl (markOwned ses) db).catalog = db.catalog := by
  induction ids generalizing db with
  | nil => rfl
  | cons id ids ih => rw [foldl_cons, ih, markOwned_catalog]

lemma markItemOwners_catalog (ids : List ℕ) (db : Db) :
    (markItemOwners ses ids db).catalog = db.catalog := by
  rw [markItemOwners, foldl_markOwned_catalog, markVersionOwners_catalog]

/-- The marks of deleted items include those of their versions. -/
lemma marked_markItemOwners {ids : List ℕ}
    (h : Marked (markVersionOwners ses ((db.catalog.items.filter fun i => i.id ∈ ids).filterMap
      DeletionItem.archiveVersionId) db) w d) : Marked (markItemOwners ses ids db) w d := by
  have hkeep : ∀ (files : List FileId) (b : Db), Marked b w d →
      Marked (files.foldl (markOwned ses) b) w d := by
    intro files
    induction files with
    | nil => exact fun _ h => h
    | cons x fs ih => exact fun b h => ih _ (marked_mono_markOwned h)
  exact hkeep _ _ h

/-! ### Rows that are rewritten -/

/-- A changed rollup names a file with other rows below the directory. -/
lemma exists_revised {h : VaultFile → List ArchiveVersion}
    (hfiles : cat'.files = cat.files.map fun f => f.withVersions (h f))
    (hjobs : cat'.jobs = cat.jobs)
    (hne : rebuildVaultDirectoryAggregates coll cat w batchSize d ≠
      rebuildVaultDirectoryAggregates coll cat' w batchSize d) :
    ∃ f ∈ cat.files, f.vaultId = w ∧ h f ≠ f.versions ∧
      ∃ p, f.currentPath = some p ∧ d ∈ ancestorDirectories p := by
  by_contra hno
  refine hne (rebuild_congr_of_shares batchSize ?_)
  rw [shares, shares, hfiles, hjobs]
  refine (filterMap_map ..).trans (filterMap_congr fun f hf => ?_)
  rw [Function.comp_apply]
  by_cases hv : f.vaultId = w
  · by_cases hh : h f = f.versions
    · rw [hh]
      rfl
    · have hout : ∀ p, f.currentPath = some p → d ∉ ancestorDirectories p :=
        fun p hp hd => hno ⟨f, hf, hv, hh, p, hp, hd⟩
      rw [share_eq_none_of_outside hout, share_eq_none_of_outside (f := f.withVersions (h f)) hout]
  · rw [share_eq_none_of_vaultId hv, share_eq_none_of_vaultId (f := f.withVersions (h f)) hv]

/-- **Rewritten rows.**  An operation that rewrites some rows and marks their files marks every
directory it changes. -/
lemma marked_of_versions {rows : List RowId}
    {g : VaultFile → ArchiveVersion → ArchiveVersion} {cat' : Catalog}
    (hfiles : cat'.files = db.catalog.files.map fun f => f.withVersions (f.versions.map (g f)))
    (hjobs : cat'.jobs = db.catalog.jobs) (hid : ∀ f u, (g f u).id = u.id)
    (hrows : ∀ f ∈ db.catalog.files, ∀ u ∈ f.versions, g f u ≠ u → ∃ x ∈ f.versions, x.id ∈ rows)
    (hne : rebuildVaultDirectoryAggregates coll db.catalog w batchSize d ≠
      rebuildVaultDirectoryAggregates coll cat' w batchSize d) :
    Marked (markVersionOwners ses rows { db with catalog := cat' }) w d := by
  obtain ⟨f, hf, rfl, hrev, p, hp, hd⟩ := exists_revised hfiles hjobs hne
  have hchanged : ∃ u ∈ f.versions, g f u ≠ u := by
    by_contra hno
    refine hrev ((map_congr_left fun u hu => ?_).trans (map_id f.versions))
    by_contra hgu
    exact hno ⟨u, hu, hgu⟩
  obtain ⟨u, hu, hgu⟩ := hchanged
  obtain ⟨x, hx, hin⟩ := hrows f hf u hu hgu
  have hmem : f.withVersions (f.versions.map (g f)) ∈ cat'.files := by
    rw [hfiles]
    exact mem_map_of_mem hf
  refine marked_markVersionOwners (f := f.withVersions (f.versions.map (g f))) hmem
    ⟨g f x, mem_map_of_mem hx, ?_⟩ hp hd
  rw [hid]
  exact hin

lemma marked_of_oneVersion {row : RowId} (g : ArchiveVersion → ArchiveVersion) {cat' : Catalog}
    (hfiles : cat'.files = db.catalog.files.map fun f =>
      f.withVersions (f.versions.map fun u => if u.id = row then g u else u))
    (hjobs : cat'.jobs = db.catalog.jobs) (hid : ∀ u, (g u).id = u.id)
    (hne : rebuildVaultDirectoryAggregates coll db.catalog w batchSize d ≠
      rebuildVaultDirectoryAggregates coll cat' w batchSize d) :
    Marked (markVersionOwners ses [row] { db with catalog := cat' }) w d := by
  refine marked_of_versions hfiles hjobs (fun _ u => ?_) (fun f _ u hu hchange => ?_) hne
  · split
    · exact hid u
    · rfl
  · refine ⟨u, hu, mem_singleton.mpr ?_⟩
    by_contra hrow
    exact hchange (if_neg hrow)

/-! ### A recorded version -/

/-- The file `record_archive_version` writes a row of, when it exists before the call: the file
of the known row, else the pinned owner or the file of the cloud path. -/
def Catalog.recordTarget (cat : Catalog) (v : VaultId) (o : VersionObservation) :
    Option VaultFile :=
  match cat.versionAt? v o.objectKey o.versionId with
  | some (f, _) => some f
  | none =>
      match o.vaultFileId with
      | some id => cat.file? id
      | none => cat.cloudFile? v o.path

/-- The file with the object version recorded. -/
def VaultFile.recording (id : RowId) (o : VersionObservation) (f : VaultFile) : VaultFile :=
  f.withVersions
    (if f.versions.any (fun u => u.isObject o.objectKey o.versionId) then
      f.versions.map fun u => if u.isObject o.objectKey o.versionId then u.seenBy o else u
    else f.versions ++ [newVersion id o f.versions])

/-- **A recorded version**, on a file that exists, rewrites that file only. -/
lemma recordVersion_files {row : RowId} {f : VaultFile}
    (h : recordVersion cat v o = some (cat', row)) (hf : cat.recordTarget v o = some f) :
    f ∈ cat.files ∧ f.vaultId = v ∧ cat'.jobs = cat.jobs ∧ cat'.files = cat.files.map fun x =>
      if x.id = f.id then x.recording cat.freshRowId o else x := by
  have hp : cat.pinHolds v o := by
    by_contra hp
    rw [recordVersion, dif_neg hp] at h
    cases h
  cases hat : cat.versionAt? v o.objectKey o.versionId with
  | some fw =>
      obtain ⟨hmem, hv, hw, hobj⟩ := cat.versionAt?_eq_some_iff.mp hat
      rw [Catalog.recordTarget, hat] at hf
      cases hf
      refine ⟨hmem, hv, ?_⟩
      have hpin : o.vaultFileId.any (· ≠ fw.1.id) = false := by
        by_contra hpin
        unfold recordVersion at h
        rw [dif_pos hp] at h
        split at h
        · rename_i g u hgu
          cases hat.symm.trans hgu
          rw [if_pos (Bool.not_eq_false _ ▸ hpin)] at h
          cases h
        · rename_i hnone
          cases hat.symm.trans hnone
      rw [recordVersion_of_seen hp hat hpin] at h
      cases h
      refine ⟨rfl, map_congr_left fun x hx => ?_⟩
      split
      · rename_i hid
        obtain rfl := cat.eq_of_id_eq hx hmem hid
        rw [VaultFile.recording, if_pos (any_eq_true.mpr ⟨fw.2, hw, hobj⟩)]
        refine congrArg fw.1.withVersions (map_congr_left fun u hu => ?_)
        have hiff : u.id = fw.2.id ↔ u.isObject o.objectKey o.versionId := by
          constructor
          · intro heq
            obtain ⟨-, rfl⟩ := cat.version_eq_of_id_eq hmem hmem hu hw heq
            exact hobj
          · intro hu'
            obtain ⟨-, rfl⟩ := cat.version_eq_of_isObject hmem hmem hu hw rfl hu' hobj
            rfl
        simp only [hiff]
      · rename_i hid
        refine congrArg x.withVersions ((map_congr_left fun u hu => ?_).trans (map_id _))
        refine if_neg fun heq => hid ?_
        rw [(cat.version_eq_of_id_eq hx hmem hu hw heq).1]
  | none =>
      rw [recordVersion_of_new hp hat] at h
      cases h
      rw [Catalog.recordTarget, hat] at hf
      have howner : f ∈ cat.files ∧ f.vaultId = v ∧ recordOwner cat v o = (cat, f.id) := by
        cases hpin : o.vaultFileId with
        | some id =>
            simp only [hpin] at hf
            obtain ⟨hmem, rfl⟩ := Catalog.mem_of_file? hf
            refine ⟨hmem, ?_, by simp only [recordOwner, hpin]⟩
            simp only [Catalog.pinHolds, hpin, Option.all_some, any_eq_true,
              Bool.and_eq_true, decide_eq_true_eq] at hp
            obtain ⟨g, hg, ⟨⟨hid, hv⟩, -⟩, -⟩ := hp
            rw [← cat.eq_of_id_eq hg hmem hid]
            exact hv
        | none =>
            simp only [hpin] at hf
            obtain ⟨hmem, hv⟩ := Catalog.mem_of_cloudFile? hf
            refine ⟨hmem, hv, ?_⟩
            simp only [recordOwner, hpin, resolveCloudPathFile, hf]
      obtain ⟨hmem, hv, hown⟩ := howner
      refine ⟨hmem, hv, ?_⟩
      have hno := cat.versionAt?_eq_none_iff.mp hat
      simp only [hown]
      refine ⟨rfl, map_congr_left fun x hx => ?_⟩
      split
      · rename_i hid
        obtain rfl := cat.eq_of_id_eq hx hmem hid
        rw [VaultFile.recording, if_neg]
        simp only [any_eq_true, not_exists, not_and]
        intro u hu
        simp [hno x hx hv u hu]
      · simp [VaultFile.withVersions]

/-- A recorded version whose file does not exist yet gets a file at the recorded path. -/
lemma recordVersion_minted {row : RowId}
    (h : recordVersion cat v o = some (cat', row)) (hf : cat.recordTarget v o = none)
    (hd : w = v → d ∉ ancestorDirectories o.path) :
    rebuildVaultDirectoryAggregates coll cat w batchSize d =
      rebuildVaultDirectoryAggregates coll cat' w batchSize d := by
  have hat : cat.versionAt? v o.objectKey o.versionId = none := by
    by_contra hat
    obtain ⟨fw, hfw⟩ := Option.ne_none_iff_exists'.mp hat
    rw [Catalog.recordTarget, hfw] at hf
    cases hf
  have hp : cat.pinHolds v o := by
    by_contra hp
    rw [recordVersion, dif_neg hp] at h
    cases h
  have hpin : o.vaultFileId = none := by
    by_contra hpin
    obtain ⟨id, hid⟩ := Option.ne_none_iff_exists'.mp hpin
    simp only [Catalog.recordTarget, hat, hid] at hf
    simp only [Catalog.pinHolds, hid, Option.all_some, any_eq_true, Bool.and_eq_true,
      decide_eq_true_eq] at hp
    obtain ⟨g, hg, ⟨⟨rfl, -⟩, -⟩, -⟩ := hp
    rw [cat.file?_eq_of_mem hg] at hf
    cases hf
  rw [Catalog.recordTarget, hat] at hf
  simp only [hpin] at hf
  rw [recordVersion_of_new hp hat] at h
  cases h
  obtain ⟨g, hg, -⟩ | ⟨-, hfree, howner⟩ := resolveCloudPathFile_spec cat v o.path o.observedAt
  · cases hf.symm.trans hg
  · have hown : recordOwner cat v o = (cat.insertFile v o.path o.observedAt hfree, cat.freshId) := by
      simp only [recordOwner, hpin, howner]
    by_contra hne
    obtain ⟨created, hext, hres⟩ := getOrCreateFile_spec cat v o.path o.observedAt
    have hgot : getOrCreateFile cat v o.path o.observedAt =
        (cat.insertFile v o.path o.observedAt hfree, cat.freshId) := by
      rw [← howner]
      simp only [resolveCloudPathFile, hf]
    rw [hgot] at hext hres
    rw [sameRollups_extended hext coll batchSize w d] at hne
    simp only [hown] at hne
    obtain ⟨f, hfile, hv, hrev, q, hq, hdq⟩ := exists_revised (h := fun f =>
      f.versions ++ if f.id = cat.freshId then
        [newVersion (cat.insertFile v o.path o.observedAt hfree).freshRowId o f.versions] else [])
      (by rfl) (by rfl) hne
    by_cases hid : f.id = cat.freshId
    · obtain ⟨hfv, hfp⟩ := hres.currentPath hfile hid
      cases hfp.symm.trans hq
      exact hd (hv.symm.trans hfv) hdq
    · exact hrev (by rw [if_neg hid, append_nil])

/-! ### The end of a deletion -/

/-- What `finalize_purge_job` leaves: the Job is settled, and the file is purged when its last
version is gone. -/
lemma finalizePurgeJob_spec {job : JobId} {file : FileId}
    (h : finalizePurgeJob cat job file = some cat') :
    (cat'.files = if purgesFile cat job file then
        cat.files.map fun f => if f.id = file then { f with status := .purged } else f
      else cat.files) ∧
    cat'.jobs = cat.jobs.map fun j => if j.id = job then
      { j with status := if purgeCompleted cat job then .completed else .failed } else j := by
  simp only [finalizePurgeJob, Option.bind_eq_bind, Runs.guard_bind_eq_some] at h
  obtain ⟨-, h⟩ := h
  simp only [purgesFile, Bool.and_eq_true, decide_eq_true_eq]
  split at h
  · rename_i hc
    cases h
    exact ⟨by rw [if_pos hc]; rfl, rfl⟩
  · rename_i hc
    cases h
    exact ⟨by rw [if_neg hc]; rfl, rfl⟩

/-- A `cloud-purge` Job belongs to the Vault of its file. -/
def Catalog.PurgesOwned (cat : Catalog) : Prop :=
  ∀ j ∈ cat.jobs, j.action = .cloudPurge → ∀ f ∈ cat.files, f.id = j.vaultFileId →
    f.vaultId = j.vaultId

instance (cat : Catalog) : Decidable cat.PurgesOwned :=
  inferInstanceAs (Decidable (∀ j ∈ cat.jobs, _))

/-- The end of a deletion marks the directories of the file it purges. -/
lemma marked_of_finalize {db' : Db} {j : Job} (hj : j ∈ db.catalog.jobs)
    (hact : j.action = .cloudPurge) (howned : db.catalog.PurgesOwned)
    (hrun : finalizeWithMarks ses db j = some db')
    (hne : rebuildVaultDirectoryAggregates coll db.catalog w batchSize d ≠
      rebuildVaultDirectoryAggregates coll db'.catalog w batchSize d) : Marked db' w d := by
  obtain ⟨cat', hcat, rfl⟩ := Option.map_eq_some_iff.mp hrun
  obtain ⟨hfiles, hjobs⟩ := finalizePurgeJob_spec hcat
  have hshare : ∀ f : VaultFile, share cat'.jobs w d f = share db.catalog.jobs w d f := by
    intro f
    refine share_congr_jobs ?_
    rw [hjobs]
    refine failedUploadSql_map (fun k => by split <;> rfl) (fun k => by split <;> rfl) ?_ _
    intro k hk hup
    refine if_neg fun hid => ?_
    rw [db.catalog.job_eq_of_id_eq hk hj hid, hact] at hup
    exact JobAction.noConfusion hup
  cases hpurge : purgesFile db.catalog j.id j.vaultFileId with
  | false =>
      simp only [hpurge, Bool.false_eq_true, if_false] at hne hfiles
      refine absurd (rebuild_congr_of_shares batchSize ?_) hne
      rw [shares, shares, hfiles]
      exact filterMap_congr fun f _ => hshare f
  | true =>
      simp only [hpurge, if_true] at hne hfiles ⊢
      rw [markFileIdDirty_catalog] at hne
      by_contra hno
      refine hne (rebuild_congr_of_shares batchSize ?_)
      rw [shares, shares, hfiles]
      refine (filterMap_map ..).trans (filterMap_congr fun f hf => ?_)
      rw [Function.comp_apply, hshare]
      split
      · rename_i hid
        by_cases hv : f.vaultId = w
        · -- the purged file has no share, and had none here: its directories are marked
          have hout : ∀ p, f.currentPath = some p → d ∉ ancestorDirectories p := by
            intro p hp hd
            refine hno (marked_markFileIdDirty_iff.mpr (Or.inr ⟨?_, { f with status := .purged },
              ?_, howned j hj hact f hf hid, p, hp, hd⟩))
            · exact hv.symm.trans (howned j hj hact f hf hid)
            · rw [← hid]
              refine cat'.file?_eq_of_mem (f := { f with status := .purged }) ?_
              rw [hfiles]
              exact mem_map.mpr ⟨f, hf, if_pos hid⟩
          rw [share_eq_none_of_outside hout,
            share_eq_none_of_outside (f := { f with status := .purged }) hout]
        · rw [share_eq_none_of_vaultId hv,
            share_eq_none_of_vaultId (f := { f with status := .purged }) hv]
      · rfl

/-! ### All operations -/

/-- **The marks reach the changed file.**  Only a recorded version can leave a directory out: its
file is an active one at another path, it counts for something else with the row, and a directory
above its path is neither above the recorded path nor marked before. -/
def CoversCloudChanges (db : Db) : CloudOp → Prop
  | .record v o => ∀ f ∈ db.catalog.recordTarget v o, ∀ q ∈ f.currentPath, f.status = .active →
      countedAt db.catalog.jobs f q ≠
        countedAt db.catalog.jobs (f.recording db.catalog.freshRowId o) q →
        ∀ d ∈ ancestorDirectories q, d ∈ ancestorDirectories o.path ∨ Marked db v d
  | _ => True

instance (db : Db) (op : CloudOp) : Decidable (CoversCloudChanges db op) := by
  cases op <;> unfold CoversCloudChanges <;> infer_instance

/-- A recorded version marks what it changes exactly when the marks reach its file. -/
lemma marked_record_iff {row : RowId} (h : recordVersion db.catalog v o = some (cat', row)) :
    (∀ w d, rebuildVaultDirectoryAggregates coll db.catalog w batchSize d ≠
        rebuildVaultDirectoryAggregates coll cat' w batchSize d →
        Marked (markPathDirty ses v { db with catalog := cat' } o.path) w d) ↔
      CoversCloudChanges db (.record v o) := by
  simp only [markPathDirty, marked_persist_iff]
  cases ht : db.catalog.recordTarget v o with
  | none =>
      refine iff_of_true (fun w d hne => ?_) ?_
      · by_contra hno
        exact hne (recordVersion_minted h ht fun hw hd => hno (Or.inr ⟨hw, hd⟩))
      · rw [CoversCloudChanges, ht]
        exact fun _ hf => absurd hf (by simp)
  | some f =>
      obtain ⟨hf, rfl, hjobs, hfiles⟩ := recordVersion_files h ht
      have hone : ∀ w d, rebuildVaultDirectoryAggregates coll db.catalog w batchSize d =
          rebuildVaultDirectoryAggregates coll cat' w batchSize d ↔
          (share db.catalog.jobs w d f).map FileContribution.counted =
            (share db.catalog.jobs w d (f.recording db.catalog.freshRowId o)).map
              FileContribution.counted := by
        intro w d
        rw [rebuild_oneFile_iff hf hfiles fun x hx hne => by rw [hjobs, if_neg hne], if_pos rfl,
          hjobs]
      simp only [CoversCloudChanges, ht, Option.mem_def, Option.some.injEq, forall_eq', ne_eq, hone]
      constructor
      · intro hall q hq hs hne d hd
        have hchange : ¬(share db.catalog.jobs f.vaultId d f).map FileContribution.counted =
            (share db.catalog.jobs f.vaultId d (f.recording db.catalog.freshRowId o)).map
              FileContribution.counted := by
          rw [share_of_active rfl hs hq, share_of_active (v := f.vaultId)
            (f := f.recording db.catalog.freshRowId o) rfl hs hq, if_pos hd, if_pos hd]
          exact hne
        rcases hall f.vaultId d hchange with hm | ⟨-, hm⟩
        · exact Or.inr hm
        · exact Or.inl hm
      · intro hall w d hne
        by_cases hshow : f.vaultId = w ∧ f.status = .active ∧ ∃ q, f.currentPath = some q
        · obtain ⟨rfl, hs, q, hq⟩ := hshow
          rw [share_of_active rfl hs hq, share_of_active (v := f.vaultId)
            (f := f.recording db.catalog.freshRowId o) rfl hs hq] at hne
          by_cases hd : d ∈ ancestorDirectories q
          · rw [if_pos hd, if_pos hd] at hne
            rcases hall q hq hs hne d hd with hm | hm
            · exact Or.inr ⟨rfl, hm⟩
            · exact Or.inl hm
          · rw [if_neg hd, if_neg hd] at hne
            exact absurd rfl hne
        · have hnone : ∀ x : VaultFile, x.vaultId = f.vaultId → x.status = f.status →
              x.currentPath = f.currentPath → share db.catalog.jobs w d x = none := by
            intro x hv hs hp
            cases hr : fileRow db.catalog.jobs w x with
            | none => simp [share, hr]
            | some r =>
                obtain ⟨h1, h2, h3, -⟩ := fileRow_eq_some hr
                exact absurd ⟨hv.symm.trans h1, hs.symm.trans h2, r.path, hp.symm.trans h3⟩ hshow
          rw [hnone f rfl rfl rfl, hnone (f.recording db.catalog.freshRowId o) rfl rfl rfl] at hne
          exact absurd rfl hne

/-- **Cloud operations mark what they change.**  Every directory whose full-rebuild rollup differs
before and after the operation is marked after it, or its Vault waits for a full rebuild, exactly
when the operation covers its changes. -/
theorem cloud_marks_cover_iff (coll : Collation) (batchSize : Option ℤ) (ses : Session)
    (db db' : Db) (op : CloudOp) (howned : db.catalog.PurgesOwned)
    (hrun : op.run ses db = some db') :
    (∀ w d, rebuildVaultDirectoryAggregates coll db.catalog w batchSize d ≠
        rebuildVaultDirectoryAggregates coll db'.catalog w batchSize d → Marked db' w d) ↔
      CoversCloudChanges db op := by
  cases op with
  | record v o =>
      obtain ⟨⟨cat', row⟩, hrec, rfl⟩ := Option.map_eq_some_iff.mp hrun
      have hcat : (markPathDirty ses v { db with catalog := cat' } o.path).catalog = cat' :=
        persist_catalog _ _ _
      simp only [hcat]
      exact marked_record_iff hrec
  | verified row digest =>
      cases hrun
      refine iff_of_true (fun w d hne => ?_) trivial
      rw [markVersionOwners_catalog] at hne
      exact marked_of_oneVersion _ rfl rfl (fun _ => rfl) hne
  | mismatch row digest =>
      cases hrun
      refine iff_of_true (fun w d hne => ?_) trivial
      rw [markVersionOwners_catalog] at hne
      exact marked_of_oneVersion _ rfl rfl (fun _ => rfl) hne
  | superseded kept scanId startedAt =>
      cases hrun
      refine iff_of_true (fun w d hne => ?_) trivial
      rw [markVersionOwners_catalog] at hne
      cases hown : db.catalog.versionOwner? kept with
      | none =>
          simp only [markUnlistedSnapshotVersionsSuperseded, hown] at hne
          exact absurd rfl hne
      | some owner =>
          have hrow := find?_some hown
          simp only [any_eq_true, decide_eq_true_eq] at hrow
          obtain ⟨x, hx, hid⟩ := hrow
          simp only [markUnlistedSnapshotVersionsSuperseded, hown] at hne ⊢
          refine marked_of_versions rfl rfl (fun f u => by split <;> rfl) ?_ hne
          intro f hf u hu hchange
          refine ⟨x, ?_, mem_singleton.mpr hid⟩
          have hfile : f.id = owner.id := by
            by_contra hne'
            exact hchange (if_neg fun h => hne' h.1)
          rwa [db.catalog.eq_of_id_eq hf (mem_of_find?_eq_some hown) hfile]
  | purged rows checkedAt =>
      cases hrun
      refine iff_of_true (fun w d hne => ?_) trivial
      rw [markVersionOwners_catalog] at hne
      refine marked_of_versions rfl rfl (fun f u => by split <;> rfl) ?_ hne
      intro f _ u hu hchange
      refine ⟨u, hu, ?_⟩
      by_contra hin
      exact hchange (if_neg hin)
  | restoreState row state storageClass =>
      cases hrun
      refine iff_of_true (fun w d hne => ?_) trivial
      rw [markVersionOwners_catalog] at hne
      exact marked_of_oneVersion _ rfl rfl (fun _ => rfl) hne
  | placement row p =>
      obtain ⟨cat', hcat, rfl⟩ := Option.map_eq_some_iff.mp hrun
      refine iff_of_true (fun w d hne => ?_) trivial
      rw [markVersionOwners_catalog] at hne
      rw [updateVersionStoragePlacement] at hcat
      split at hcat
      · cases hcat
        exact marked_of_oneVersion (·.placedAt p) rfl rfl (fun _ => rfl) hne
      · cases hcat
  | unseenMissing v scanId startedAt =>
      cases hrun
      refine iff_of_true (fun w d hne => ?_) trivial
      obtain ⟨f, -, hv, hrev, -⟩ := exists_revised (h := fun f => f.versions.map fun u : ArchiveVersion =>
        if f.vaultId = v ∧ u.unseen scanId startedAt ∧ u.availability ≠ .purged ∧
            activeUpload db.catalog f.id = false then
          u.setAvailability .missing scanId
        else u) (by rfl) (by rfl) hne
      obtain rfl : w = v := by
        by_contra hw
        refine hrev ((map_congr_left fun u _ => ?_).trans (map_id _))
        exact if_neg fun h => hw (hv.symm.trans h.1)
      exact Or.inr (Function.update_self ..)
  | itemsDeleted ids at_ =>
      cases hrun
      refine iff_of_true (fun w d hne => ?_) trivial
      rw [markItemOwners_catalog] at hne
      refine marked_markItemOwners ?_
      refine marked_of_versions rfl rfl (fun f u => by split <;> rfl) ?_ hne
      intro f _ u hu hchange
      refine ⟨u, hu, ?_⟩
      have hgone : u.id ∈ (db.catalog.items.filter fun i => i.id ∈ ids && i.kind = .version).filterMap
          DeletionItem.archiveVersionId := by
        by_contra hin
        exact hchange (if_neg hin)
      obtain ⟨i, hi, hrow⟩ := mem_filterMap.mp hgone
      obtain ⟨hmem, hwhich⟩ := mem_filter.mp hi
      simp only [Bool.and_eq_true, decide_eq_true_eq] at hwhich
      refine mem_filterMap.mpr ⟨{ i with status := .deleted }, mem_filter.mpr ⟨?_, ?_⟩, hrow⟩
      · exact mem_map.mpr ⟨i, hmem, if_pos hwhich.1⟩
      · simpa using hwhich.1
  | finalize job =>
      obtain ⟨j, hj, hdone⟩ := Option.bind_eq_some_iff.mp hrun
      have hfound := find?_some hj
      simp only [Bool.and_eq_true, decide_eq_true_eq] at hfound
      refine iff_of_true (fun w d hne => ?_) trivial
      exact marked_of_finalize (mem_of_find?_eq_some hj) hfound.2 howned hdone hne

/-- A file that was renamed from `a/x` to `b/x`; its version was reported missing. -/
def renamedFile : VaultFile where
  id := 1
  vaultId := 0
  status := .active
  currentPath := some ['b', '/', 'x']
  pathSince := 5
  pathHistory := [⟨['a', '/', 'x'], 1, 5⟩]
  localCopy := none
  versions := [⟨1, 1, 7, some 9, some 3, none, none, .verified, .missing, some 4, none, 2, none,
    none, .upload, .upload⟩]
  deleteMarkers := []

/-- A Vault with the renamed file and an aggregate status of `ready`. -/
def renamedDb : Db where
  vaults := [0]
  catalog := ⟨[renamedFile], [], [], by decide, pairwise_singleton _ _, by decide,
    nodup_nil⟩
  dirty := []
  status := fun _ => some .ready
  aggregates := fun _ _ => none

/-- A scan lists the version again, under the key of the old path. -/
def oldKeyListed : VersionObservation where
  path := ['a', '/', 'x']
  objectKey := 7
  versionId := 9
  size := some 3
  storageClass := none
  etag := none
  uploadedAt := 2
  observedAt := 6
  scanId := 6
  origin := .discovered
  vaultFileId := none

/-- The version is there again: `b` has content in the cloud, and is not marked. -/
theorem renamed_directory_unmarked :
    ¬ ∀ (coll : Collation) (batchSize : Option ℤ) (ses : Session) (db db' : Db) (op : CloudOp),
      db.catalog.PurgesOwned → op.run ses db = some db' →
      ∀ w d, rebuildVaultDirectoryAggregates coll db.catalog w batchSize d ≠
        rebuildVaultDirectoryAggregates coll db'.catalog w batchSize d → Marked db' w d := by
  intro hall
  have hseen : ∃ r, recordVersion renamedDb.catalog 0 oldKeyListed = some r :=
    ⟨_, recordVersion_of_seen (f := renamedFile) rfl rfl rfl⟩
  obtain ⟨⟨cat', row⟩, hrec⟩ := hseen
  have hmarks : ∀ w d, rebuildVaultDirectoryAggregates .codePoint renamedDb.catalog w none d ≠
      rebuildVaultDirectoryAggregates .codePoint cat' w none d →
      Marked (markPathDirty ⟨1, fun _ => 0⟩ 0 { renamedDb with catalog := cat' }
        oldKeyListed.path) w d := by
    intro w d hne
    refine hall .codePoint none ⟨1, fun _ => 0⟩ renamedDb _ (.record 0 oldKeyListed) (by decide) ?_
      w d ?_
    · simp only [CloudOp.run, hrec, Option.map_some]
    · rwa [markPathDirty, persist_catalog]
  have hcover := (marked_record_iff hrec).mp hmarks
  exact absurd hcover (by decide)

/-- A verified version is marked where its file is now. -/
theorem cloud_marks_cover_verified : ∃ cat, markVersionVerified renamedDb.catalog 1 4 = cat ∧
    ∀ w d, rebuildVaultDirectoryAggregates .codePoint renamedDb.catalog w none d ≠
        rebuildVaultDirectoryAggregates .codePoint cat w none d →
      Marked (markVersionOwners ⟨1, fun _ => 0⟩ [1] { renamedDb with catalog := cat }) w d := by
  have h := (cloud_marks_cover_iff .codePoint none ⟨1, fun _ => 0⟩ renamedDb _ (.verified 1 4)
    (by decide) rfl).mpr trivial
  rw [markVersionOwners_catalog] at h
  exact ⟨_, rfl, h⟩

end Frostvault
