import Frostvault.CloudScan.ScanCloud

/-!
What merging a listing does to the rows of a Vault.

A listed version is recorded and, where its path has lost its keeper, the other rows of its
file are superseded unless this scan has seen them.  Read row by row, a merge is a fold over
the listed versions.

* `MergeStep`, `mergeVersion_spec`: one version;
* `Merged`, `merged_versions`: the versions of the committed batches;
* `mergedRow_of_listed`, `mergedRow_of_unlisted`: a row after all of them.
-/

namespace Frostvault

open List

variable {cat cat' cur cur' : Catalog} {v : VaultId} {scope : MergeScope} {e : ListedVersion}

/-! ### One version -/

/-- The listed version takes the other rows of the file out of the archive. -/
def supersedes (cat : Catalog) (scope : MergeScope) (e : ListedVersion) (owner file : FileId) :
    Bool :=
  e.path ∈ scope.superseded && file = owner && !activeUpload cat owner

/-- A row after one version was merged. -/
def mergeRow (scope : MergeScope) (super : Bool) (e : ListedVersion) (vault : VaultId)
    (w : ArchiveVersion) : ArchiveVersion :=
  if vault = scope.vaultId ∧ w.isObject e.objectKey e.versionId = true then
    w.seenAgain e scope.scanId
  else if super = true ∧ w.inArchive = true ∧ w.unseen scope.scanId scope.scanId = true then
    w.setAvailability .purged scope.scanId
  else w

variable {codec : KeyCodec} {done : List ListedVersion} {f : VaultFile} {w : ArchiveVersion}

lemma mergeRow_isObject {super : Bool} {vault : VaultId} {key : ObjectKey} {n : ProviderVersionId} :
    (mergeRow scope super e vault w).isObject key n = w.isObject key n := by
  rw [mergeRow]
  split
  · rfl
  · split <;> rfl

/-- A file after one version was merged. -/
def mergedFile (cat : Catalog) (scope : MergeScope) (e : ListedVersion) (owner : FileId)
    (new : List ArchiveVersion) (f : VaultFile) : VaultFile :=
  f.withVersions
    (f.versions.map (mergeRow scope (supersedes cat scope e owner f.id) e f.vaultId) ++
      if f.id = owner then new else [])

/-- The catalog after one version was merged. -/
structure MergeStep (cat : Catalog) (scope : MergeScope) (e : ListedVersion) (cat' : Catalog)
    (owner : FileId) (minted : List VaultFile) (new : List ArchiveVersion) : Prop where
  files : cat'.files = (cat.files ++ minted).map (mergedFile cat scope e owner new)
  jobs : cat'.jobs = cat.jobs
  blank : ∀ g ∈ minted, Blank scope.vaultId e.path g ∧ g.id = owner ∧
    cat.cloudFile? scope.vaultId e.path = none
  discovered : ∀ w ∈ new, w.availability = .available ∧
    w.availabilityCheckedAt = some scope.scanId ∧ w.isObject e.objectKey e.versionId = true ∧
    cat.versionAt? scope.vaultId e.objectKey e.versionId = none
  owned : cat.ownerOf scope.vaultId e = some owner ∧ minted = [] ∨
    cat.ownerOf scope.vaultId e = none ∧ ∀ f ∈ cat.files, f.id ≠ owner

lemma unseen_seenAgain (w : ArchiveVersion) (e : ListedVersion) (scanId startedAt : Stamp) :
    (w.seenAgain e scanId).unseen scanId startedAt = false := by
  simp [ArchiveVersion.unseen, ArchiveVersion.seenAgain]

lemma unseen_of_checked {scanId startedAt : Stamp}
    (h : w.availabilityCheckedAt = some scanId) : w.unseen scanId startedAt = false := by
  simp [ArchiveVersion.unseen, h]

lemma mergeRow_false (f : VaultFile) (w : ArchiveVersion) :
    mergeRow scope false e f.vaultId w = recordedRow scope.vaultId e scope.scanId f w := by
  rw [mergeRow, recordedRow]
  simp

/-- The rows of a file, superseded after a version was recorded. -/
lemma supersede_recordedRow {owner : FileId} {kept : RowId}
    {active : Bool} (hkept : ¬(f.vaultId = scope.vaultId ∧
      w.isObject e.objectKey e.versionId) → w.id ≠ kept) :
    (if f.id = owner ∧ (recordedRow scope.vaultId e scope.scanId f w).id ≠ kept ∧
        (recordedRow scope.vaultId e scope.scanId f w).inArchive ∧
        (recordedRow scope.vaultId e scope.scanId f w).unseen scope.scanId scope.scanId ∧
        active = false then
      (recordedRow scope.vaultId e scope.scanId f w).setAvailability .purged scope.scanId
    else recordedRow scope.vaultId e scope.scanId f w) =
      mergeRow scope (decide (f.id = owner) && !active) e f.vaultId w := by
  rw [mergeRow]
  by_cases hobj : f.vaultId = scope.vaultId ∧ w.isObject e.objectKey e.versionId
  · rw [if_pos hobj, recordedRow, if_pos hobj, if_neg]
    rintro ⟨-, -, -, hun, -⟩
    rw [unseen_seenAgain] at hun
    cases hun
  · rw [if_neg hobj, recordedRow, if_neg hobj]
    refine if_congr ⟨fun h => ?_, fun h => ?_⟩ rfl rfl
    · exact ⟨by simp [h.1, h.2.2.2.2], h.2.2.1, h.2.2.2.1⟩
    · obtain ⟨hs, harch, hun⟩ := h
      simp only [Bool.and_eq_true, decide_eq_true_eq, Bool.not_eq_true'] at hs
      exact ⟨hs.1, hkept hobj, harch, hun, hs.2⟩

/-- The file of a row is found by the row's id. -/
lemma versionOwner?_eq (hf : f ∈ cat.files)
    (hw : w ∈ f.versions) : cat.versionOwner? w.id = some f := by
  cases h : cat.versionOwner? w.id with
  | none =>
      have := find?_eq_none.mp h f hf
      exact absurd (any_eq_true.mpr ⟨w, hw, by simp⟩) this
  | some g =>
      have hany : (g.versions.any fun u => u.id = w.id) := by
        simpa using find?_some h
      obtain ⟨u, hu, hid⟩ := any_eq_true.mp hany
      obtain ⟨rfl, -⟩ := cat.version_eq_of_id_eq (mem_of_find?_eq_some h) hf hu hw
        (of_decide_eq_true hid)
      rfl

/-- **Merging one version.** -/
lemma mergeVersion_spec (cat : Catalog) (scope : MergeScope) (e : ListedVersion) :
    ∃ owner minted new, MergeStep cat scope e (mergeVersion scope cat e) owner minted new := by
  obtain ⟨owner, minted, new, hrec⟩ := recordArchiveVersion_spec cat scope.vaultId e
    (scope.clock.version e) scope.scanId
  refine ⟨owner, minted, new, ?_, ?_, hrec.blank, hrec.discovered, hrec.owned⟩
  · rw [mergeVersion]
    split
    · rename_i hsup
      obtain ⟨k, hk, hkid, hkv, u, hu, huid, huobj⟩ := hrec.keeps
      rw [markUnlistedSnapshotVersionsSuperseded, ← huid, versionOwner?_eq hk hu]
      show (recordArchiveVersion cat _ e _ _).1.files.map _ = _
      have hjobs : activeUpload (recordArchiveVersion cat scope.vaultId e (scope.clock.version e)
          scope.scanId).1 k.id = activeUpload cat owner := by
        rw [activeUpload, hrec.jobs, hkid]
        rfl
      rw [hjobs, huid, hkid]
      have hunique := fun f (hf : f ∈ (recordArchiveVersion cat scope.vaultId e
          (scope.clock.version e) scope.scanId).1.files) w hw hid =>
        Catalog.version_eq_of_id_eq _ (f := f) (w := w) hf hk hw hu hid
      rw [hrec.files] at hunique ⊢
      rw [map_map]
      refine map_congr_left fun f hf => ?_
      have hsuper : supersedes cat scope e owner f.id =
          (decide (f.id = owner) && !activeUpload cat owner) := by
        simp [supersedes, hsup]
      show f.withVersions ((f.versions.map _ ++ _).map _) = _
      rw [map_append, map_map, mergedFile, hsuper]
      congr 2
      · refine map_congr_left fun w hw => ?_
        refine supersede_recordedRow fun hno hid => hno ?_
        -- the kept row is the one that was recorded
        obtain ⟨hfk, hwu⟩ := hunique _ (mem_map_of_mem hf) _
          (mem_append_left _ (mem_map_of_mem hw))
          (recordedRow_id.trans (hid.trans huid.symm))
        rw [← hfk] at hkv
        rw [← hwu, recordedRow_isObject] at huobj
        exact ⟨hkv, huobj⟩
      · refine (map_congr_left fun w hw => if_neg ?_).trans (map_id _)
        rintro ⟨-, -, -, hun, -⟩
        split at hw
        · rw [unseen_of_checked (hrec.discovered w hw).2.1] at hun
          cases hun
        · cases hw
    · rename_i hsup
      rw [hrec.files]
      refine map_congr_left fun f _ => ?_
      have hsuper : supersedes cat scope e owner f.id = false := by simp [supersedes, hsup]
      rw [mergedFile, hsuper, map_congr_left fun w _ => mergeRow_false f w]
  · rw [mergeVersion]
    split
    · rw [markUnlistedSnapshotVersionsSuperseded]
      split
      · exact hrec.jobs
      · exact hrec.jobs
    · exact hrec.jobs

/-! ### Owners while a listing is merged -/

namespace MergeStep

variable {owner : FileId} {minted : List VaultFile} {new : List ArchiveVersion}

section

variable (h : MergeStep cat scope e cat' owner minted new)

include h

lemma mem_files {g : VaultFile} :
    g ∈ cat'.files ↔ ∃ f, (f ∈ cat.files ∨ f ∈ minted) ∧ mergedFile cat scope e owner new f = g := by
  rw [h.files, mem_map]
  refine exists_congr fun f => and_congr_left fun _ => ?_
  exact mem_append

lemma historicalFile? (p : Path) :
    cat'.historicalFile? scope.vaultId p =
      (cat.historicalFile? scope.vaultId p).map (mergedFile cat scope e owner new) := by
  have hrows : ∀ f : VaultFile, (mergedFile cat scope e owner new f).historyAt scope.vaultId p =
      (f.historyAt scope.vaultId p).map fun x => (x.1, mergedFile cat scope e owner new x.2) := by
    intro f
    show (if f.vaultId = scope.vaultId ∧ f.status = .active then _ else _) = _
    rw [VaultFile.historyAt]
    split
    · rw [map_map]
      rfl
    · rfl
  have hminted : minted.flatMap (VaultFile.historyAt scope.vaultId p) = [] := by
    rw [flatMap_eq_nil_iff]
    intro g hg
    simp [VaultFile.historyAt, (h.blank g hg).1.pathHistory]
  have hall : cat'.files.flatMap (VaultFile.historyAt scope.vaultId p) =
      (cat.files.flatMap (VaultFile.historyAt scope.vaultId p)).map
        fun x => (x.1, mergedFile cat scope e owner new x.2) := by
    rw [h.files, flatMap_map, flatMap_congr fun f _ => hrows f, ← map_flatMap,
      flatMap_append, hminted, append_nil]
  rw [Catalog.historicalFile?, hall, latest_map, Catalog.historicalFile?, Option.map_map,
    Option.map_map]
  rfl

lemma new_row (he : codec.path? e.objectKey = some e.path) {e' : ListedVersion}
    (he' : codec.path? e'.objectKey = some e'.path) {gu : VaultFile × ArchiveVersion}
    (hat : cat.versionAt? scope.vaultId e'.objectKey e'.versionId = none)
    (hat' : cat'.versionAt? scope.vaultId e'.objectKey e'.versionId = some gu) :
    e.path = e'.path ∧ cat.versionAt? scope.vaultId e.objectKey e.versionId = none ∧
      gu.1.id = owner := by
  obtain ⟨hg, hv, hu, hobj⟩ := cat'.versionAt?_eq_some_iff.mp hat'
  obtain ⟨f, hf, hfg⟩ := h.mem_files.mp hg
  rw [← hfg] at hu hv ⊢
  rcases mem_append.mp hu with hu | hu
  · obtain ⟨w, hw, hwu⟩ := mem_map.mp hu
    rw [← hwu, mergeRow_isObject] at hobj
    rcases hf with hf | hf
    · rw [cat.versionAt?_eq_none_iff.mp hat f hf hv w hw] at hobj
      cases hobj
    · rw [(h.blank f hf).1.versions] at hw
      cases hw
  · split at hu
    · rename_i hid
      obtain ⟨-, -, hobj', hnone⟩ := h.discovered _ hu
      simp only [ArchiveVersion.isObject, Bool.and_eq_true, decide_eq_true_eq] at hobj hobj'
      have hkey : e.objectKey = e'.objectKey := hobj'.1.symm.trans hobj.1
      rw [hkey, he'] at he
      exact ⟨(Option.some.inj he).symm, hnone, hid⟩
    · cases hu

lemma cloudFile?_some {p : Path} (hf : cat.cloudFile? scope.vaultId p = some f) :
    (cat'.cloudFile? scope.vaultId p).map VaultFile.id = some f.id := by
  rw [Catalog.cloudFile?] at hf
  cases hat : cat.fileAt? scope.vaultId p with
  | some g =>
      rw [hat] at hf
      obtain rfl : g = f := Option.some.inj hf
      obtain ⟨hmem, hv, hp⟩ := Catalog.mem_of_fileAt? hat
      have hat' : cat'.fileAt? scope.vaultId p = some (mergedFile cat scope e owner new g) :=
        Catalog.fileAt?_eq_some_iff.mpr ⟨h.mem_files.mpr ⟨g, Or.inl hmem, rfl⟩, hv, hp⟩
      rw [Catalog.cloudFile?, hat']
      rfl
  | none =>
      rw [hat] at hf
      have hat' : cat'.fileAt? scope.vaultId p = none := by
        cases hat' : cat'.fileAt? scope.vaultId p with
        | none => rfl
        | some g =>
            obtain ⟨hg, hv, hp⟩ := Catalog.mem_of_fileAt? hat'
            obtain ⟨k, hk | hk, rfl⟩ := h.mem_files.mp hg
            · exact (Catalog.not_currentPath_of_fileAt?_none hat hk hv hp).elim
            · -- a minted file holds a path that belonged to nobody
              obtain ⟨hb, -, hnone⟩ := h.blank k hk
              cases hp.symm.trans hb.currentPath
              rw [Catalog.cloudFile?, hat] at hnone
              cases hf.symm.trans hnone
      rw [Catalog.cloudFile?, hat']
      show (cat'.historicalFile? scope.vaultId p).map VaultFile.id = some f.id
      rw [h.historicalFile?, show cat.historicalFile? scope.vaultId p = some f from hf]
      rfl

/-- A cloud path without file gets the minted one at most. -/
lemma cloudFile?_none {p : Path} {g : VaultFile} (hnone : cat.cloudFile? scope.vaultId p = none)
    (hg : cat'.cloudFile? scope.vaultId p = some g) : g.id = owner ∧ minted ≠ [] := by
  rw [Catalog.cloudFile?] at hnone
  cases hat : cat.fileAt? scope.vaultId p with
  | some f => simp [hat] at hnone
  | none =>
      rw [hat] at hnone
      have hhist : cat.historicalFile? scope.vaultId p = none := hnone
      rw [Catalog.cloudFile?] at hg
      split at hg
      · rename_i k hk
        cases hg
        obtain ⟨hmem, hv, hp⟩ := Catalog.mem_of_fileAt? hk
        obtain ⟨f, hf | hf, rfl⟩ := h.mem_files.mp hmem
        · exact (Catalog.not_currentPath_of_fileAt?_none hat hf hv hp).elim
        · exact ⟨(h.blank f hf).2.1, ne_nil_of_mem hf⟩
      · rw [h.historicalFile?, hhist] at hg
        cases hg

/-- A listed version that has its file keeps it. -/
lemma ownerOf_some (he : codec.path? e.objectKey = some e.path) {e' : ListedVersion}
    (he' : codec.path? e'.objectKey = some e'.path) {file : FileId}
    (hown : cat.ownerOf scope.vaultId e' = some file) :
    cat'.ownerOf scope.vaultId e' = some file := by
  cases hat : cat.versionAt? scope.vaultId e'.objectKey e'.versionId with
  | some fw =>
      obtain ⟨hf, hv, hw, hobj⟩ := cat.versionAt?_eq_some_iff.mp hat
      rw [Catalog.ownerOf, hat] at hown
      have hat' : cat'.versionAt? scope.vaultId e'.objectKey e'.versionId =
          some (mergedFile cat scope e owner new fw.1,
            mergeRow scope (supersedes cat scope e owner fw.1.id) e fw.1.vaultId fw.2) := by
        refine cat'.versionAt?_eq_some_iff.mpr ⟨h.mem_files.mpr ⟨fw.1, Or.inl hf, rfl⟩, hv, ?_, ?_⟩
        · exact mem_append_left _ (mem_map_of_mem hw)
        · rw [mergeRow_isObject]
          exact hobj
      rw [Catalog.ownerOf, hat']
      exact hown
  | none =>
      have hcloud : (cat.cloudFile? scope.vaultId e'.path).map VaultFile.id = some file := by
        rw [Catalog.ownerOf, hat] at hown
        exact hown
      obtain ⟨f, hf, rfl⟩ := Option.map_eq_some_iff.mp hcloud
      cases hat' : cat'.versionAt? scope.vaultId e'.objectKey e'.versionId with
      | none =>
          rw [Catalog.ownerOf, hat']
          exact h.cloudFile?_some hf
      | some gu =>
          obtain ⟨hpath, hnone, hid⟩ := h.new_row he he' hat hat'
          rw [Catalog.ownerOf, hat']
          rcases h.owned with ⟨hsome, -⟩ | ⟨hno, -⟩
          · rw [Catalog.ownerOf, hnone, hpath] at hsome
            have : some f.id = some owner := by
              rw [← hsome, hf]
              rfl
            rw [this, ← hid]
          · rw [Catalog.ownerOf, hnone, hpath, hf] at hno
            cases hno

/-- A listed version without file gets a file nobody had. -/
lemma ownerOf_none (he : codec.path? e.objectKey = some e.path) {e' : ListedVersion}
    (he' : codec.path? e'.objectKey = some e'.path) {file : FileId}
    (hown : cat.ownerOf scope.vaultId e' = none)
    (hown' : cat'.ownerOf scope.vaultId e' = some file) : ∀ f ∈ cat.files, f.id ≠ file := by
  have hat : cat.versionAt? scope.vaultId e'.objectKey e'.versionId = none := by
    cases hat : cat.versionAt? scope.vaultId e'.objectKey e'.versionId with
    | none => rfl
    | some fw => simp [Catalog.ownerOf, hat] at hown
  have hcloud : cat.cloudFile? scope.vaultId e'.path = none := by
    rw [Catalog.ownerOf, hat] at hown
    exact Option.map_eq_none_iff.mp hown
  cases hat' : cat'.versionAt? scope.vaultId e'.objectKey e'.versionId with
  | some gu =>
      obtain ⟨hpath, hnone, hid⟩ := h.new_row he he' hat hat'
      rw [Catalog.ownerOf, hat'] at hown'
      cases hown'
      rcases h.owned with ⟨hsome, -⟩ | ⟨-, hfresh⟩
      · rw [Catalog.ownerOf, hnone, hpath, hcloud] at hsome
        cases hsome
      · rw [hid]
        exact hfresh
  | none =>
      rw [Catalog.ownerOf, hat'] at hown'
      obtain ⟨g, hg, rfl⟩ := Option.map_eq_some_iff.mp hown'
      obtain ⟨hid, hminted⟩ := h.cloudFile?_none hcloud hg
      rcases h.owned with ⟨-, hnil⟩ | ⟨-, hfresh⟩
      · exact absurd hnil hminted
      · rw [hid]
        exact hfresh

end

end MergeStep

/-! ### The committed versions -/

/-- The listed version takes rows of the file out of the archive, as the catalog stands before
the merge. -/
def supersedesFile (cat : Catalog) (scope : MergeScope) (e : ListedVersion) (file : FileId) :
    Bool :=
  e.path ∈ scope.superseded && cat.ownerOf scope.vaultId e = some file && !activeUpload cat file

/-- A row after the versions `done` were merged. -/
def mergedRow (cat : Catalog) (scope : MergeScope) (done : List ListedVersion) (f : VaultFile)
    (w : ArchiveVersion) : ArchiveVersion :=
  done.foldl (fun w e => mergeRow scope (supersedesFile cat scope e f.id) e f.vaultId w) w

/-- A row this scan has seen. -/
def SeenBy (scanId : Stamp) (w : ArchiveVersion) : Prop :=
  w.availability = .available ∧ w.availabilityCheckedAt = some scanId

/-- **The catalog while a listing is merged**: the old rows with the versions `done` merged, and
new rows and files this scan has seen. -/
structure Merged (cat : Catalog) (codec : KeyCodec) (scope : MergeScope)
    (done : List ListedVersion) (cur : Catalog) : Prop where
  files : ∃ (rows : VaultFile → List ArchiveVersion) (minted : List VaultFile),
    cur.files = cat.files.map
      (fun f => f.withVersions (f.versions.map (mergedRow cat scope done f) ++ rows f)) ++ minted ∧
    (∀ f ∈ cat.files, ∀ w ∈ rows f, SeenBy scope.scanId w) ∧
    ∀ g ∈ minted, ∀ w ∈ g.versions, SeenBy scope.scanId w
  jobs : cur.jobs = cat.jobs
  owned : ∀ e, codec.path? e.objectKey = some e.path → ∀ file,
    cat.ownerOf scope.vaultId e = some file → cur.ownerOf scope.vaultId e = some file
  unowned : ∀ e, codec.path? e.objectKey = some e.path → ∀ file,
    cat.ownerOf scope.vaultId e = none → cur.ownerOf scope.vaultId e = some file →
      ∀ f ∈ cat.files, f.id ≠ file

lemma Merged.start (cat : Catalog) (codec : KeyCodec) (scope : MergeScope) :
    Merged cat codec scope [] cat where
  files := by
    refine ⟨fun _ => [], [], ?_, by simp, by simp⟩
    rw [append_nil]
    refine ((map_congr_left fun f _ => ?_).trans (map_id _)).symm
    show f.withVersions (f.versions.map id ++ []) = f
    rw [map_id, append_nil]
    rfl
  jobs := rfl
  owned _ _ _ h := h
  unowned e _ file h h' := absurd (h.symm.trans h') (by simp)

lemma SeenBy.mergeRow {super : Bool} {vault : VaultId}
    (h : SeenBy scope.scanId w) : SeenBy scope.scanId (mergeRow scope super e vault w) := by
  rw [Frostvault.mergeRow]
  split
  · exact ⟨rfl, rfl⟩
  · rw [if_neg]
    · exact h
    · rintro ⟨-, -, hun⟩
      rw [unseen_of_checked h.2] at hun
      cases hun

section

variable (h : Merged cat codec scope done cur)

include h

/-- The owner a step picks, seen from the files before the merge. -/
lemma Merged.owner_iff {owner : FileId} {minted : List VaultFile} {new : List ArchiveVersion}
    (he : codec.path? e.objectKey = some e.path)
    (hstep : MergeStep cur scope e cur' owner minted new) (hf : f ∈ cat.files) :
    f.id = owner ↔ cat.ownerOf scope.vaultId e = some f.id := by
  obtain ⟨rows, old, hfiles, -, -⟩ := h.files
  rcases hstep.owned with ⟨hown, -⟩ | ⟨hown, hfresh⟩
  · constructor
    · rintro rfl
      cases hcat : cat.ownerOf scope.vaultId e with
      | none => exact absurd rfl (h.unowned e he _ hcat hown f hf)
      | some id =>
          rw [h.owned e he id hcat] at hown
          exact hown
    · intro hcat
      rw [h.owned e he _ hcat] at hown
      exact Option.some.inj hown
  · constructor
    · rintro rfl
      have hmem : f.withVersions (f.versions.map (mergedRow cat scope done f) ++ rows f) ∈
          cur.files := by
        rw [hfiles]
        exact mem_append_left _ (mem_map_of_mem hf)
      have hne := hfresh _ hmem
      exact absurd rfl hne
    · intro hcat
      rw [h.owned e he _ hcat] at hown
      cases hown

lemma Merged.step (he : codec.path? e.objectKey = some e.path) :
    Merged cat codec scope (done ++ [e]) (mergeVersion scope cur e) := by
  obtain ⟨owner, minted, new, hstep⟩ := mergeVersion_spec cur scope e
  obtain ⟨rows, old, hfiles, hrows, hold⟩ := h.files
  have hnew : ∀ w ∈ new, SeenBy scope.scanId w := fun w hw =>
    ⟨(hstep.discovered w hw).1, (hstep.discovered w hw).2.1⟩
  have hactive : ∀ id, activeUpload cur id = activeUpload cat id := fun id => by
    rw [activeUpload, h.jobs]
    rfl
  refine ⟨⟨fun f => (rows f).map (mergeRow scope (supersedes cur scope e owner f.id) e f.vaultId) ++
    if f.id = owner then new else [], (old ++ minted).map (mergedFile cur scope e owner new),
    ?_, ?_, ?_⟩, hstep.jobs.trans h.jobs, ?_, ?_⟩
  · rw [hstep.files, hfiles, append_assoc, map_append, map_map]
    congr 1
    refine map_congr_left fun f hf => ?_
    have hsuper : supersedes cur scope e owner f.id = supersedesFile cat scope e f.id := by
      have hown := h.owner_iff he hstep hf
      rw [supersedes, supersedesFile]
      by_cases hid : f.id = owner
      · rw [decide_eq_true hid, decide_eq_true (hown.mp hid), ← hid, hactive]
      · rw [decide_eq_false hid, decide_eq_false fun ho => hid (hown.mpr ho)]
        simp
    show f.withVersions ((f.versions.map _ ++ rows f).map (mergeRow scope
      (supersedes cur scope e owner f.id) e f.vaultId) ++ _) = _
    rw [map_append, map_map, append_assoc]
    congr 2
    refine map_congr_left fun w _ => ?_
    rw [mergedRow, foldl_append, foldl_cons, foldl_nil, ← mergedRow, hsuper]
    rfl
  · intro f hf w hw
    rcases mem_append.mp hw with hw | hw
    · obtain ⟨u, hu, rfl⟩ := mem_map.mp hw
      exact (hrows f hf u hu).mergeRow
    · split at hw
      · exact hnew w hw
      · cases hw
  · intro g hg w hw
    obtain ⟨k, hk, rfl⟩ := mem_map.mp hg
    rcases mem_append.mp hw with hw | hw
    · obtain ⟨u, hu, rfl⟩ := mem_map.mp hw
      rcases mem_append.mp hk with hk | hk
      · exact (hold k hk u hu).mergeRow
      · rw [(hstep.blank k hk).1.versions] at hu
        cases hu
    · split at hw
      · exact hnew w hw
      · cases hw
  · intro e' he' file hown
    exact hstep.ownerOf_some he he' (h.owned e' he' file hown)
  · intro e' he' file hown hown' f hf
    cases hcur : cur.ownerOf scope.vaultId e' with
    | none =>
        have hmem : f.withVersions (f.versions.map (mergedRow cat scope done f) ++ rows f) ∈
            cur.files := by
          rw [hfiles]
          exact mem_append_left _ (mem_map_of_mem hf)
        have hne := hstep.ownerOf_none he he' hcur hown' _ hmem
        exact hne
    | some id =>
        rw [hstep.ownerOf_some he he' hcur] at hown'
        obtain rfl := Option.some.inj hown'
        exact h.unowned e' he' id hown hcur f hf

lemma merged_batch {batch : List ListedVersion}
    (hb : ∀ e ∈ batch, codec.path? e.objectKey = some e.path) :
    Merged cat codec scope (done ++ batch) (mergeBatch scope cur batch) := by
  induction batch generalizing done cur with
  | nil => simpa [mergeBatch] using h
  | cons e es ih =>
      have := ih (h.step (hb e mem_cons_self)) fun e' he' => hb e' (mem_cons_of_mem _ he')
      rwa [append_assoc] at this

/-- **Merging the write batches** of a listing, one after the other. -/
lemma merged_batches {batches : List (List ListedVersion)}
    (hb : ∀ b ∈ batches, ∀ e ∈ b, codec.path? e.objectKey = some e.path) :
    Merged cat codec scope (done ++ batches.flatten) (batches.foldl (mergeBatch scope) cur) := by
  induction batches generalizing done cur with
  | nil => simpa using h
  | cons b bs ih =>
      have := ih (merged_batch h (hb b mem_cons_self))
        fun b' hb' => hb b' (mem_cons_of_mem _ hb')
      rwa [append_assoc] at this

end

/-! ### A row after the merge -/

lemma mergedRow_isObject {key : ObjectKey} {n : ProviderVersionId} :
    (mergedRow cat scope done f w).isObject key n = w.isObject key n := by
  induction done using List.reverseRecOn with
  | nil => rfl
  | append_singleton es e ih =>
      rw [mergedRow, foldl_append, foldl_cons, foldl_nil, ← mergedRow,
        mergeRow_isObject, ih]

/-- A row of the Vault that a merged version names was seen. -/
lemma mergedRow_of_listed (hv : f.vaultId = scope.vaultId)
    (h : ∃ e ∈ done, w.isObject e.objectKey e.versionId) :
    SeenBy scope.scanId (mergedRow cat scope done f w) := by
  induction done using List.reverseRecOn with
  | nil => simp at h
  | append_singleton es e ih =>
      rw [mergedRow, foldl_append, foldl_cons, foldl_nil, ← mergedRow]
      obtain ⟨e', he', hobj⟩ := h
      rcases mem_append.mp he' with he' | he'
      · exact (ih ⟨e', he', hobj⟩).mergeRow
      · obtain rfl := mem_singleton.mp he'
        have hobj' : (mergedRow cat scope es f w).isObject e'.objectKey e'.versionId :=
          mergedRow_isObject.trans hobj
        rw [mergeRow, if_pos ⟨hv, hobj'⟩]
        exact ⟨rfl, rfl⟩

/-- A row that no merged version names is kept, or superseded with its file. -/
lemma mergedRow_of_unlisted (h : ∀ e ∈ done, w.isObject e.objectKey e.versionId = false) :
    mergedRow cat scope done f w =
      if w.inArchive = true ∧ w.unseen scope.scanId scope.scanId ∧
          ∃ e ∈ done, supersedesFile cat scope e f.id = true then
        w.setAvailability .purged scope.scanId
      else w := by
  induction done using List.reverseRecOn with
  | nil => simp [mergedRow]
  | append_singleton es e ih =>
      have hno : ¬(f.vaultId = scope.vaultId ∧
          (mergedRow cat scope es f w).isObject e.objectKey e.versionId) := by
        rintro ⟨-, hobj⟩
        rw [mergedRow_isObject, h e (mem_append_right _ mem_cons_self)] at hobj
        cases hobj
      rw [mergedRow, foldl_append, foldl_cons, foldl_nil, ← mergedRow, mergeRow,
        if_neg hno, ih fun e he => h e (mem_append_left _ he)]
      by_cases hold : w.inArchive ∧ w.unseen scope.scanId scope.scanId ∧
          ∃ e ∈ es, supersedesFile cat scope e f.id
      · -- superseded before, so it is out of the archive already
        rw [if_pos hold]
        obtain ⟨harch, hun, e', he', hs⟩ := hold
        rw [if_neg, if_pos]
        · exact ⟨harch, hun, e', mem_append_left _ he', hs⟩
        · rintro ⟨-, harch', -⟩
          cases harch'
      · rw [if_neg hold]
        refine if_congr ⟨?_, ?_⟩ rfl rfl
        · rintro ⟨hs, harch, hun⟩
          exact ⟨harch, hun, e, mem_append_right _ mem_cons_self, hs⟩
        · rintro ⟨harch, hun, e', he', hs⟩
          rcases mem_append.mp he' with he' | he'
          · exact absurd ⟨harch, hun, e', he', hs⟩ hold
          · rw [mem_singleton.mp he'] at hs
            exact ⟨hs, harch, hun⟩

end Frostvault
