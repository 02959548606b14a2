import Frostvault.CloudScan.Versions

/-!
The numbers of Archive Versions (`record_archive_version` of `app/catalog.py`,
`_publish_upload_receipt` and `_verify_reconnected_cloud` of `app/storage.py`).

The order of the numbers says which version of a file is its current snapshot.  Uploads are
numbered from the top, and discoveries from the bottom once the file has a verified keeper; a
publication and a reconnect move a row to the top.

* `recordVersion`: the whole of `record_archive_version`, with its origin and its pinned owner;
* `VersionsStep`, `recordVersion_step`: what a call does to the rows of one file;
* `promoteVersion`, `renumberReconnected`: the two moves to the top;
* `numbersDistinct_run`: no mix of these gives two rows of a file one number;
* `discovery_elects_nothing`: what a file with a keeper has after any discoveries.
-/

namespace Frostvault

open List

variable {cat cat' : Catalog} {v : VaultId}

/-! ### Recording a version -/

/-- The arguments of `record_archive_version`. -/
structure VersionObservation where
  path : Path
  objectKey : ObjectKey
  versionId : ProviderVersionId
  size : Option ℕ
  storageClass : Option StorageClass
  etag : Option String
  uploadedAt : Stamp
  observedAt : Stamp
  scanId : Stamp
  origin : VersionOrigin
  /-- The owner a publication pins. -/
  vaultFileId : Option FileId

/-- A row that is seen again. -/
def ArchiveVersion.seenBy (w : ArchiveVersion) (o : VersionObservation) : ArchiveVersion :=
  { w with
    availability := .available
    availabilityCheckedAt := some o.scanId
    storageClass := o.storageClass
    etag := o.etag
    storageClassSource :=
      if o.storageClass.any (· ≠ "") ∧ o.storageClass ≠ w.storageClass ∧
          w.storageClassSource ≠ .manual then .discovered
      else w.storageClassSource }

/-- The number of a new row. -/
def newNumber (origin : VersionOrigin) (ws : List ArchiveVersion) : ℤ :=
  if origin = .discovered then discoveredNumber ws else maxVersionNumber ws + 1

/-- The row of a version nobody recorded before. -/
def newVersion (id : RowId) (o : VersionObservation) (ws : List ArchiveVersion) :
    ArchiveVersion where
  id := id
  versionNumber := newNumber o.origin ws
  objectKey := o.objectKey
  providerVersionId := some o.versionId
  size := o.size
  storageClass := o.storageClass
  plaintextSha256 := none
  integrity := .unverified
  availability := .available
  availabilityCheckedAt := some o.scanId
  restoreState := none
  discoveredAt := o.observedAt
  etag := o.etag
  uploadedAt := some o.uploadedAt
  origin := o.origin
  storageClassSource :=
    if o.origin = .upload then .upload
    else if o.origin = .discovered then .discovered
    else .unknown

/-- A pinned owner is an active file of the Vault that holds the path now. -/
def Catalog.pinHolds (cat : Catalog) (v : VaultId) (o : VersionObservation) : Bool :=
  o.vaultFileId.all fun id => cat.files.any fun f =>
    f.id = id && f.vaultId = v && f.status = .active && f.currentPath = some o.path

/-- The file of a new row: the pinned one, or the one the path belongs to. -/
def recordOwner (cat : Catalog) (v : VaultId) (o : VersionObservation) : Catalog × FileId :=
  match o.vaultFileId with
  | some id => (cat, id)
  | none => resolveCloudPathFile cat v o.path o.observedAt

variable {f : VaultFile} {g : VaultFile → List ArchiveVersion} {o : VersionObservation}
  {row : RowId}

/-- The owner is a file of the Vault. -/
lemma recordOwner_vaultId (hp : cat.pinHolds v o)
    (hf : f ∈ (recordOwner cat v o).1.files) (hid : f.id = (recordOwner cat v o).2) :
    f.vaultId = v := by
  unfold recordOwner at hf hid
  split at hf
  · rename_i id hpin
    simp only [hpin] at hid
    simp only [Catalog.pinHolds, hpin, Option.all_some, any_eq_true, Bool.and_eq_true,
      decide_eq_true_eq] at hp
    obtain ⟨g, hg, ⟨⟨hgid, hgv⟩, -⟩, -⟩ := hp
    rw [cat.eq_of_id_eq hf hg (hid.trans hgid.symm)]
    exact hgv
  · rename_i hpin
    simp only [hpin] at hid
    exact resolveCloudPathFile_vaultId hf hid

lemma recordOwner_versions {w : ArchiveVersion}
    (hf : f ∈ (recordOwner cat v o).1.files) (hw : w ∈ f.versions) : f ∈ cat.files := by
  unfold recordOwner at hf
  split at hf
  · exact hf
  · exact resolveCloudPathFile_versions hf hw

/-- A version nobody recorded may be inserted. -/
lemma insertable_newVersion (hp : cat.pinHolds v o)
    (h : cat.versionAt? v o.objectKey o.versionId = none) (f : VaultFile)
    (hf : f ∈ (recordOwner cat v o).1.files) (hid : f.id = (recordOwner cat v o).2) :
    (recordOwner cat v o).1.Insertable f
      (newVersion (recordOwner cat v o).1.freshRowId o f.versions) := by
  intro g hg u hu
  refine ⟨(Catalog.rowId_ne_freshRowId _ hg hu).symm, fun hvv hkey n hn hun => ?_⟩
  have hgv : g.vaultId = v := hvv.symm.trans (recordOwner_vaultId hp hf hid)
  have hno := cat.versionAt?_eq_none_iff.mp h g (recordOwner_versions hg hu) hgv u hu
  cases hn
  have hkey' : u.objectKey = o.objectKey := hkey.symm
  have hun' : u.providerVersionId = some o.versionId := hun
  have hobj : u.isObject o.objectKey o.versionId := by
    rw [ArchiveVersion.isObject, hkey', hun']
    simp
  rw [hno] at hobj
  cases hobj

/-- `record_archive_version`; `none` is an exception, on a pinned owner that does not hold the
path any more or does not own the row. -/
def recordVersion (cat : Catalog) (v : VaultId) (o : VersionObservation) :
    Option (Catalog × RowId) :=
  if hp : cat.pinHolds v o = true then
    match h : cat.versionAt? v o.objectKey o.versionId with
    | some (f, w) =>
        if o.vaultFileId.any (· ≠ f.id) then none
        else some (cat.mapVersions (fun _ u => if u.id = w.id then u.seenBy o else u)
          ⟨fun _ _ => by split <;> rfl, fun _ _ => by split <;> rfl,
            fun _ _ => by split <;> rfl⟩, w.id)
    | none =>
        let r := recordOwner cat v o
        some (r.1.insertVersion r.2 (fun f => newVersion r.1.freshRowId o f.versions)
          (insertable_newVersion hp h), r.1.freshRowId)
  else none

/-- Recording a version that has a row. -/
lemma recordVersion_of_seen (hp : cat.pinHolds v o) {w : ArchiveVersion}
    (h : cat.versionAt? v o.objectKey o.versionId = some (f, w))
    (hpin : o.vaultFileId.any (· ≠ f.id) = false) :
    recordVersion cat v o =
      some (cat.mapVersions (fun _ u => if u.id = w.id then u.seenBy o else u)
        ⟨fun _ _ => by split <;> rfl, fun _ _ => by split <;> rfl, fun _ _ => by split <;> rfl⟩,
        w.id) := by
  unfold recordVersion
  rw [dif_pos hp]
  split
  · rename_i g u hgu
    cases h.symm.trans hgu
    rw [if_neg (by rw [hpin]; exact Bool.false_ne_true)]
  · rename_i hnone
    cases h.symm.trans hnone

/-- Recording a version nobody recorded before. -/
lemma recordVersion_of_new (hp : cat.pinHolds v o)
    (h : cat.versionAt? v o.objectKey o.versionId = none) :
    recordVersion cat v o =
      some ((recordOwner cat v o).1.insertVersion (recordOwner cat v o).2
        (fun f => newVersion (recordOwner cat v o).1.freshRowId o f.versions)
        (insertable_newVersion hp h), (recordOwner cat v o).1.freshRowId) := by
  unfold recordVersion
  rw [dif_pos hp]
  split
  · rename_i hgu
    cases h.symm.trans hgu
  · rfl

/-- A call that does not raise saw a row again or added one. -/
lemma recordVersion_cases (h : recordVersion cat v o = some (cat', row)) :
    (∃ f ∈ cat.files, f.vaultId = v ∧ ∃ w ∈ f.versions,
      w.isObject o.objectKey o.versionId ∧
      ∃ hg, cat' = cat.mapVersions (fun _ u => if u.id = w.id then u.seenBy o else u) hg) ∨
    ∃ hnew, cat' = (recordOwner cat v o).1.insertVersion (recordOwner cat v o).2
      (fun f => newVersion (recordOwner cat v o).1.freshRowId o f.versions) hnew := by
  by_cases hp : cat.pinHolds v o
  · cases hat : cat.versionAt? v o.objectKey o.versionId with
    | some fw =>
        obtain ⟨hf, hv, hw, hobj⟩ := cat.versionAt?_eq_some_iff.mp hat
        cases hpin : o.vaultFileId.any (· ≠ fw.1.id) with
        | true =>
            unfold recordVersion at h
            rw [dif_pos hp] at h
            split at h
            · rename_i g u hgu
              cases hat.symm.trans hgu
              rw [if_pos hpin] at h
              cases h
            · rename_i hnone
              cases hat.symm.trans hnone
        | false =>
            rw [recordVersion_of_seen hp hat hpin] at h
            cases h
            exact .inl ⟨fw.1, hf, hv, fw.2, hw, hobj, _, rfl⟩
    | none =>
        rw [recordVersion_of_new hp hat] at h
        cases h
        exact .inr ⟨_, rfl⟩
  · rw [recordVersion, dif_neg hp] at h
    cases h

/-! ### The rows of one file -/

/-- The rows of the file with an id; none when there is no such file. -/
def Catalog.versionsOf (cat : Catalog) (id : FileId) : List ArchiveVersion :=
  ((cat.file? id).map VaultFile.versions).getD []

lemma Catalog.versionsOf_eq (cat : Catalog) (hf : f ∈ cat.files) :
    cat.versionsOf f.id = f.versions := by
  rw [versionsOf, cat.file?_eq_of_mem hf]
  rfl

/-- What a call in the Vault `v` does to the rows of one file, a file of the Vault `owner`. -/
inductive VersionsStep (v : VaultId) (o : VersionObservation) (owner : Option VaultId)
    (ws : List ArchiveVersion) : List ArchiveVersion → Prop
  /-- The call is about another file. -/
  | same : VersionsStep v o owner ws ws
  /-- The exact object version has a row. -/
  | seen (id : RowId)
      (hobj : ∀ u ∈ ws, u.id = id → owner = some v ∧ u.isObject o.objectKey o.versionId = true) :
      VersionsStep v o owner ws (ws.map fun u => if u.id = id then u.seenBy o else u)
  /-- A new row. -/
  | added (id : RowId) : VersionsStep v o owner ws (ws ++ [newVersion id o ws])

/-- The Vault of the file with an id. -/
def Catalog.vaultOf (cat : Catalog) (id : FileId) : Option VaultId :=
  (cat.file? id).map VaultFile.vaultId

lemma file?_withVersions (base cat' : Catalog)
    (hfiles : cat'.files = base.files.map fun f => f.withVersions (g f)) (id : FileId) :
    cat'.file? id = (base.file? id).map fun f => f.withVersions (g f) := by
  rw [Catalog.file?, hfiles, find?_map]
  rfl

lemma versionsOf_map (base cat' : Catalog)
    (hfiles : cat'.files = base.files.map fun f => f.withVersions (g f)) (id : FileId) :
    cat'.versionsOf id = ((base.file? id).map g).getD [] := by
  rw [Catalog.versionsOf, file?_withVersions base cat' hfiles, Option.map_map]
  rfl

lemma vaultOf_map (base cat' : Catalog)
    (hfiles : cat'.files = base.files.map fun f => f.withVersions (g f)) (id : FileId) :
    cat'.vaultOf id = base.vaultOf id := by
  rw [Catalog.vaultOf, file?_withVersions base cat' hfiles, Option.map_map]
  rfl

/-- Looking the owner up mints a file without rows at most. -/
lemma recordOwner_file? (cat : Catalog) (v : VaultId) (o : VersionObservation) (id : FileId) :
    (recordOwner cat v o).1.versionsOf id = cat.versionsOf id ∧
      ∀ f, cat.file? id = some f → (recordOwner cat v o).1.file? id = some f := by
  unfold recordOwner
  split
  · exact ⟨rfl, fun _ h => h⟩
  · obtain ⟨f, -, heq⟩ | ⟨-, hat, heq⟩ := resolveCloudPathFile_spec cat v o.path o.observedAt
    · rw [heq]
      exact ⟨rfl, fun _ h => h⟩
    · rw [heq]
      simp only [Catalog.versionsOf, Catalog.file?, Catalog.insertFile, find?_append]
      cases cat.files.find? fun f => f.id = id with
      | some f => exact ⟨rfl, fun _ h => h⟩
      | none =>
          constructor
          · simp only [Option.none_or, find?_singleton]
            split <;> rfl
          · intro f h
            cases h

/-- **One call, file by file.** -/
theorem recordVersion_step (h : recordVersion cat v o = some (cat', row)) (id : FileId) :
    VersionsStep v o (cat.vaultOf id) (cat.versionsOf id) (cat'.versionsOf id) := by
  obtain ⟨f, hf, hfv, w, hw, hobj, hg, rfl⟩ | ⟨hnew, rfl⟩ := recordVersion_cases h
  · rw [versionsOf_map cat (cat.mapVersions _ hg) rfl]
    cases hfile : cat.file? id with
    | none =>
        simp only [Catalog.versionsOf, hfile]
        exact .same
    | some g =>
        obtain ⟨hgm, -⟩ := Catalog.mem_of_file? hfile
        simp only [Catalog.versionsOf, Catalog.vaultOf, hfile, Option.map_some, Option.getD_some]
        refine .seen w.id fun u hu hid => ?_
        obtain ⟨rfl, rfl⟩ := cat.version_eq_of_id_eq hgm hf hu hw hid
        exact ⟨congrArg some hfv, hobj⟩
  · rw [versionsOf_map (recordOwner cat v o).1 (Catalog.insertVersion _ _ _ hnew) rfl,
      ← (recordOwner_file? cat v o id).1]
    simp only [Catalog.versionsOf]
    cases hfile : (recordOwner cat v o).1.file? id with
    | none => exact .same
    | some g =>
        simp only [Option.map_some, Option.getD_some]
        split
        · exact .added _
        · rw [append_nil]
          exact .same

lemma recordVersion_vaultOf (h : recordVersion cat v o = some (cat', row)) (hf : f ∈ cat.files) :
    cat'.vaultOf f.id = some f.vaultId := by
  have hown := (recordOwner_file? cat v o f.id).2 f (cat.file?_eq_of_mem hf)
  obtain ⟨_, -, -, w, -, -, hg, rfl⟩ | ⟨hnew, rfl⟩ := recordVersion_cases h
  · rw [vaultOf_map cat (cat.mapVersions _ hg) rfl, Catalog.vaultOf, cat.file?_eq_of_mem hf]
    rfl
  · rw [vaultOf_map (recordOwner cat v o).1 (Catalog.insertVersion _ _ _ hnew) rfl,
      Catalog.vaultOf, hown]
    rfl

/-! ### Two ends of the numbers -/

section Ends

variable {ws : List ArchiveVersion} {w : ArchiveVersion}

/-- No row is numbered above the greatest number. -/
lemma le_maxVersionNumber (hw : w ∈ ws) : w.versionNumber ≤ maxVersionNumber ws := by
  have hmem := mem_map_of_mem (f := ArchiveVersion.versionNumber) hw
  cases hns : ws.map ArchiveVersion.versionNumber with
  | nil =>
      rw [hns] at hmem
      cases hmem
  | cons n ns =>
      rw [hns] at hmem
      have hmax : (n :: ns).max? = some (maxVersionNumber ws) := by
        rw [max?_cons', maxVersionNumber, hns]
      exact (max?_eq_some_iff.mp hmax).2 _ hmem

/-- No row is numbered below the least number. -/
lemma minVersionNumber_le (hw : w ∈ ws) : minVersionNumber ws ≤ w.versionNumber := by
  have hmem := mem_map_of_mem (f := ArchiveVersion.versionNumber) hw
  cases hns : ws.map ArchiveVersion.versionNumber with
  | nil =>
      rw [hns] at hmem
      cases hmem
  | cons n ns =>
      rw [hns] at hmem
      have hmin : (n :: ns).min? = some (minVersionNumber ws) := by
        rw [min?_cons', minVersionNumber, hns]
      exact (min?_eq_some_iff.mp hmin).2 _ hmem

/-- A verified row that is there. -/
def ArchiveVersion.keeps (w : ArchiveVersion) : Bool :=
  w.integrity = .verified && w.availability = .available

lemma newNumber_lt (hk : ws.any ArchiveVersion.keeps) (hw : w ∈ ws) :
    newNumber .discovered ws < w.versionNumber := by
  have hle := minVersionNumber_le hw
  have hnum : newNumber .discovered ws = min 0 (minVersionNumber ws) - 1 := by
    rw [newNumber, if_pos rfl, discoveredNumber]
    exact if_pos hk
  omega

lemma newNumber_ne (origin : VersionOrigin) (hw : w ∈ ws) :
    w.versionNumber ≠ newNumber origin ws := by
  have hmax := le_maxVersionNumber hw
  have hmin := minVersionNumber_le hw
  unfold newNumber discoveredNumber
  split
  · split <;> omega
  · omega

end Ends

/-! ### Two moves to the top -/

/-- A row that a publication moves to the top of its file. -/
def ArchiveVersion.promoted (w : ArchiveVersion) (n : ℤ) (uploadedAt : Stamp) : ArchiveVersion :=
  { w with
    versionNumber := n
    origin := .upload
    uploadedAt := some uploadedAt }

/-- The promotion in `_publish_upload_receipt`: the discovered row of the published version is
numbered from the top.  `sent` says that a started intent of the file names the row. -/
def promoteVersion (cat : Catalog) (file : FileId) (row : RowId) (uploadedAt : Stamp)
    (sent : Bool) : Catalog :=
  cat.mapVersions (fun f u =>
      if u.id = row ∧ f.id = file ∧ u.origin = .discovered ∧ sent = true then
        u.promoted (maxVersionNumber f.versions + 1) uploadedAt
      else u)
    ⟨fun _ _ => by split <;> rfl, fun _ _ => by split <;> rfl, fun _ _ => by split <;> rfl⟩

/-- A row `_verify_reconnected_cloud` read: verified, and the newest of its file. -/
def ArchiveVersion.reconnected (w : ArchiveVersion) (top : ℤ) (digest : Digest) :
    ArchiveVersion :=
  { w with
    integrity := .verified
    plaintextSha256 := some digest
    versionNumber := if w.versionNumber < top then top + 1 else w.versionNumber }

/-- The end of `_verify_reconnected_cloud`: `mark_version_verified`, and the number of the row
from the top unless it is there. -/
def renumberReconnected (cat : Catalog) (row : RowId) (digest : Digest) : Catalog :=
  cat.mapVersions (fun f u =>
      if u.id = row then u.reconnected (maxVersionNumber f.versions) digest else u)
    ⟨fun _ _ => by split <;> rfl, fun _ _ => by split <;> rfl, fun _ _ => by split <;> rfl⟩

/-! ### The numbers of a file stay distinct -/

/-- `archive_versions_file_number_uq`. -/
def Catalog.NumbersDistinct (cat : Catalog) : Prop :=
  ∀ f ∈ cat.files, (f.versions.map ArchiveVersion.versionNumber).Nodup

/-- The index, by the id of the file. -/
lemma Catalog.numbersDistinct_iff :
    cat.NumbersDistinct ↔
      ∀ id, ((cat.versionsOf id).map ArchiveVersion.versionNumber).Nodup := by
  constructor
  · intro hd id
    cases hfile : cat.file? id with
    | none => simp [Catalog.versionsOf, hfile]
    | some f =>
        obtain ⟨hf, rfl⟩ := Catalog.mem_of_file? hfile
        rw [cat.versionsOf_eq hf]
        exact hd f hf
  · intro hd f hf
    rw [← cat.versionsOf_eq hf]
    exact hd f.id

/-- The rows of a file have different ids. -/
lemma versionsOf_ids_nodup (cat : Catalog) (id : FileId) :
    ((cat.versionsOf id).map ArchiveVersion.id).Nodup := by
  cases hfile : cat.file? id with
  | none => simp [Catalog.versionsOf, hfile]
  | some f =>
      obtain ⟨hf, rfl⟩ := Catalog.mem_of_file? hfile
      rw [cat.versionsOf_eq hf]
      have hkeys : f.versionKeys.Pairwise KeysDistinct :=
        (pairwise_flatMap.mp cat.versions_unique).1 f hf
      rw [VaultFile.versionKeys, pairwise_map] at hkeys
      exact pairwise_map.mpr (hkeys.imp fun h => h.1)

/-- Moving one row above all others keeps the numbers apart. -/
lemma nodup_raise {ws : List ArchiveVersion} (hid : (ws.map ArchiveVersion.id).Nodup)
    (hnd : (ws.map ArchiveVersion.versionNumber).Nodup)
    {g : ArchiveVersion → ArchiveVersion}
    (hkeep : ∀ u ∈ ws, u.id ≠ row → (g u).versionNumber = u.versionNumber)
    (hraise : ∀ u ∈ ws, u.id = row → (g u).versionNumber = u.versionNumber ∨
      maxVersionNumber ws < (g u).versionNumber) :
    ((ws.map g).map ArchiveVersion.versionNumber).Nodup := by
  rw [map_map, List.Nodup, pairwise_map]
  rw [List.Nodup, pairwise_map] at hid hnd
  refine (hid.and hnd).imp_of_mem fun {a b} ha hb hab => ?_
  obtain ⟨hne, hnum⟩ := hab
  have hamax := le_maxVersionNumber ha
  have hbmax := le_maxVersionNumber hb
  show (g a).versionNumber ≠ (g b).versionNumber
  by_cases har : a.id = row
  · have hb' := hkeep b hb fun hbr => hne (har.trans hbr.symm)
    rcases hraise a ha har with ha' | ha' <;> omega
  · have ha' := hkeep a ha har
    by_cases hbr : b.id = row
    · rcases hraise b hb hbr with hb' | hb' <;> omega
    · have hb' := hkeep b hb hbr
      omega

/-- A row that is seen again keeps its number. -/
lemma VersionsStep.numbers_nodup {owner : Option VaultId}
    {ws ws' : List ArchiveVersion} (h : VersionsStep v o owner ws ws')
    (hnd : (ws.map ArchiveVersion.versionNumber).Nodup) :
    (ws'.map ArchiveVersion.versionNumber).Nodup := by
  cases h with
  | same => exact hnd
  | seen id hobj =>
      have hnum : ∀ u : ArchiveVersion,
          (if u.id = id then u.seenBy o else u).versionNumber = u.versionNumber := by
        intro u
        split <;> rfl
      simpa only [map_map, Function.comp_def, hnum] using hnd
  | added id =>
      rw [map_append, map_singleton, nodup_append]
      refine ⟨hnd, nodup_singleton _, ?_⟩
      intro n hn m hm
      obtain ⟨w, hw, rfl⟩ := mem_map.mp hn
      rw [mem_singleton.mp hm]
      exact newNumber_ne o.origin hw

lemma recordVersion_numbersDistinct
    (h : recordVersion cat v o = some (cat', row)) (hd : cat.NumbersDistinct) :
    cat'.NumbersDistinct := by
  rw [Catalog.numbersDistinct_iff] at hd ⊢
  exact fun id => (recordVersion_step h id).numbers_nodup (hd id)

/-- A rewriting that moves one row of a file at most, to the top, keeps the numbers apart. -/
lemma mapVersions_numbersDistinct {g : VaultFile → ArchiveVersion → ArchiveVersion}
    (hg : Catalog.KeepsKeys g) (row : RowId)
    (hkeep : ∀ f u, u.id ≠ row → (g f u).versionNumber = u.versionNumber)
    (hraise : ∀ f u, u.id = row → (g f u).versionNumber = u.versionNumber ∨
      maxVersionNumber f.versions < (g f u).versionNumber)
    (hd : cat.NumbersDistinct) : (cat.mapVersions g hg).NumbersDistinct := by
  intro f' hf'
  obtain ⟨f, hf, rfl⟩ := mem_map.mp hf'
  have hids := versionsOf_ids_nodup cat f.id
  rw [cat.versionsOf_eq hf] at hids
  exact nodup_raise hids (hd f hf) (fun u _ h => hkeep f u h) fun u _ h => hraise f u h

/-- The writers of version numbers. -/
inductive VersionCall
  | record (v : VaultId) (o : VersionObservation)
  | promote (file : FileId) (row : RowId) (uploadedAt : Stamp) (sent : Bool)
  | reconnect (row : RowId) (digest : Digest)

/-- One call; a call that raises is rolled back. -/
def VersionCall.run (cat : Catalog) : VersionCall → Catalog
  | .record v o => ((recordVersion cat v o).map Prod.fst).getD cat
  | .promote file row uploadedAt sent => promoteVersion cat file row uploadedAt sent
  | .reconnect row digest => renumberReconnected cat row digest

/-- One call keeps the numbers apart. -/
lemma VersionCall.run_numbersDistinct (c : VersionCall) (hd : cat.NumbersDistinct) :
    (c.run cat).NumbersDistinct := by
  cases c with
  | record v o =>
      cases h : recordVersion cat v o with
      | none => simpa only [VersionCall.run, h, Option.map_none, Option.getD_none] using hd
      | some r =>
          simp only [VersionCall.run, h, Option.map_some, Option.getD_some]
          exact recordVersion_numbersDistinct h hd
  | promote file row uploadedAt sent =>
      rw [VersionCall.run, promoteVersion]
      refine mapVersions_numbersDistinct _ row (fun f u hne => ?_) (fun f u heq => ?_) hd
      · rw [if_neg fun h => hne h.1]
      · split
        · exact .inr (Int.lt_succ _)
        · exact .inl rfl
  | reconnect row digest =>
      rw [VersionCall.run, renumberReconnected]
      refine mapVersions_numbersDistinct _ row (fun f u hne => ?_) (fun f u heq => ?_) hd
      · rw [if_neg hne]
      · rw [if_pos heq, ArchiveVersion.reconnected]
        split
        · exact .inr (Int.lt_succ _)
        · exact .inl rfl

/-- **No mix of discoveries, uploads, publications and reconnects gives two rows of a file one
number.** -/
theorem numbersDistinct_run (calls : List VersionCall) (hd : cat.NumbersDistinct) :
    (calls.foldl VersionCall.run cat).NumbersDistinct := by
  induction calls generalizing cat with
  | nil => exact hd
  | cons c cs ih => exact ih (c.run_numbersDistinct hd)

/-! ### Discoveries on a file with a keeper -/

/-- What a row keeps when calls see it again. -/
structure SeenRow (owner : VaultId) (calls : List (VaultId × VersionObservation))
    (w w' : ArchiveVersion) : Prop where
  id : w'.id = w.id
  versionNumber : w'.versionNumber = w.versionNumber
  objectKey : w'.objectKey = w.objectKey
  providerVersionId : w'.providerVersionId = w.providerVersionId
  integrity : w'.integrity = w.integrity
  availability : w'.availability = w.availability ∨ w'.availability = .available ∧
    ∃ c ∈ calls, c.1 = owner ∧ w.isObject c.2.objectKey c.2.versionId = true

/-- The rows `ws` of a file of the Vault `owner` became `ws'`: old rows were seen again, and
new ones lie below, the newest lowest. -/
structure Discovered (owner : VaultId) (calls : List (VaultId × VersionObservation))
    (ws kept news : List ArchiveVersion) : Prop where
  seen : List.Forall₂ (SeenRow owner calls) ws kept
  below : ∀ n ∈ news, ∀ w ∈ kept, n.versionNumber < w.versionNumber
  descending : news.Pairwise fun a b => b.versionNumber < a.versionNumber
  unverified : ∀ n ∈ news, n.integrity = .unverified

section Discovered

variable {owner : VaultId} {calls : List (VaultId × VersionObservation)}
  {ws kept news : List ArchiveVersion}

lemma SeenRow.refl (w : ArchiveVersion) : SeenRow owner calls w w :=
  ⟨rfl, rfl, rfl, rfl, rfl, .inl rfl⟩

lemma Discovered.start (owner : VaultId) (ws : List ArchiveVersion) :
    Discovered owner [] ws ws [] where
  seen := forall₂_same.mpr fun w _ => .refl w
  below := by simp
  descending := .nil
  unverified := by simp

lemma SeenRow.keeps {w w' : ArchiveVersion} (h : SeenRow owner calls w w')
    (hk : w.keeps) : w'.keeps := by
  simp only [ArchiveVersion.keeps, Bool.and_eq_true, decide_eq_true_eq] at hk ⊢
  refine ⟨h.integrity.trans hk.1, ?_⟩
  rcases h.availability with ha | ⟨ha, -⟩
  · exact ha.trans hk.2
  · exact ha

variable {c : VaultId × VersionObservation}

/-- One more call that may have seen the row. -/
lemma SeenRow.seenBy {w w' : ArchiveVersion} (id : RowId) (h : SeenRow owner calls w w')
    (hobj : w'.id = id → owner = c.1 ∧ w'.isObject c.2.objectKey c.2.versionId) :
    SeenRow owner (calls ++ [c]) w (if w'.id = id then w'.seenBy c.2 else w') := by
  by_cases hid : w'.id = id
  · rw [if_pos hid]
    obtain ⟨howner, hnamed⟩ := hobj hid
    refine ⟨h.id, h.versionNumber, h.objectKey, h.providerVersionId, h.integrity,
      .inr ⟨rfl, c, by simp, howner.symm, ?_⟩⟩
    rwa [ArchiveVersion.isObject, h.objectKey, h.providerVersionId] at hnamed
  · rw [if_neg hid]
    refine ⟨h.id, h.versionNumber, h.objectKey, h.providerVersionId, h.integrity, ?_⟩
    rcases h.availability with ha | ⟨ha, c', hc', hnamed⟩
    · exact .inl ha
    · exact .inr ⟨ha, c', mem_append_left _ hc', hnamed⟩

lemma forall₂_seenBy (id : RowId) (h : List.Forall₂ (SeenRow owner calls) ws kept)
    (hobj : ∀ u ∈ kept, u.id = id →
      owner = c.1 ∧ u.isObject c.2.objectKey c.2.versionId) :
    List.Forall₂ (SeenRow owner (calls ++ [c])) ws
      (kept.map fun u => if u.id = id then u.seenBy c.2 else u) := by
  induction h with
  | nil => exact .nil
  | cons hw _ ih =>
      rw [forall_mem_cons] at hobj
      exact .cons (hw.seenBy id hobj.1) (ih hobj.2)

section

variable (h : Discovered owner calls ws kept news)

include h

lemma Discovered.grow (c : VaultId × VersionObservation) :
    Discovered owner (calls ++ [c]) ws kept news where
  seen := h.seen.imp fun _ _ hs =>
    ⟨hs.id, hs.versionNumber, hs.objectKey, hs.providerVersionId, hs.integrity,
      hs.availability.imp_right fun ⟨ha, c', hc', hn⟩ =>
        ⟨ha, c', mem_append_left _ hc', hn⟩⟩
  below := h.below
  descending := h.descending
  unverified := h.unverified

lemma Discovered.any_keeps (hk : ws.any ArchiveVersion.keeps) :
    kept.any ArchiveVersion.keeps := by
  have hseen := h.seen
  clear h
  induction hseen with
  | nil => exact hk
  | cons hw _ ih =>
      rw [any_cons, Bool.or_eq_true] at hk ⊢
      exact hk.imp hw.keeps ih

/-- **One discovery.** -/
lemma Discovered.step (hk : ws.any ArchiveVersion.keeps) (horigin : c.2.origin = .discovered)
    {ws' : List ArchiveVersion} (hs : VersionsStep c.1 c.2 (some owner) (kept ++ news) ws') :
    ∃ kept' news', ws' = kept' ++ news' ∧ Discovered owner (calls ++ [c]) ws kept' news' := by
  cases hs with
  | same => exact ⟨kept, news, rfl, h.grow c⟩
  | seen id hobj =>
      set g : ArchiveVersion → ArchiveVersion :=
        fun u => if u.id = id then u.seenBy c.2 else u with hg
      have hnum : ∀ u, (g u).versionNumber = u.versionNumber := by
        intro u
        rw [hg]
        dsimp only
        split <;> rfl
      have hint : ∀ u, (g u).integrity = u.integrity := by
        intro u
        rw [hg]
        dsimp only
        split <;> rfl
      refine ⟨kept.map g, news.map g, map_append, ?_, ?_, ?_, ?_⟩
      · refine forall₂_seenBy id h.seen fun u hu hid => ?_
        obtain ⟨howner, hnamed⟩ := hobj u (mem_append_left _ hu) hid
        exact ⟨Option.some.inj howner, hnamed⟩
      · simp only [forall_mem_map, hnum]
        exact h.below
      · simp only [pairwise_map, hnum]
        exact h.descending
      · simp only [forall_mem_map, hint]
        exact h.unverified
  | added id =>
      have hlt : ∀ w ∈ kept ++ news, (newVersion id c.2 (kept ++ news)).versionNumber <
          w.versionNumber := by
        intro w hw
        have hany : (kept ++ news).any ArchiveVersion.keeps := by
          rw [any_append, h.any_keeps hk, Bool.true_or]
        have := newNumber_lt hany hw
        rwa [← horigin] at this
      refine ⟨kept, news ++ [newVersion id c.2 (kept ++ news)], append_assoc .., ?_⟩
      have hgrow := h.grow c
      refine ⟨hgrow.seen, ?_, ?_, ?_⟩
      · intro n hn w hw
        rcases mem_append.mp hn with hn | hn
        · exact h.below n hn w hw
        · rw [mem_singleton.mp hn]
          exact hlt w (mem_append_left _ hw)
      · refine pairwise_append.mpr ⟨h.descending, pairwise_singleton _ _, ?_⟩
        intro a ha b hb
        rw [mem_singleton.mp hb]
        exact hlt a (mem_append_right _ ha)
      · intro n hn
        rcases mem_append.mp hn with hn | hn
        · exact h.unverified n hn
        · rw [mem_singleton.mp hn]
          rfl

lemma Discovered.map_kept {β : Type} {g : ArchiveVersion → β}
    (hg : ∀ w w', SeenRow owner calls w w' → g w' = g w) : kept.map g = ws.map g := by
  have hseen := h.seen
  clear h
  induction hseen with
  | nil => rfl
  | cons hw _ ih => rw [map_cons, map_cons, hg _ _ hw, ih]

end

/-- The newest row goes by ids and numbers. -/
lemma newest_forall₂ {us us' : List ArchiveVersion}
    (h : List.Forall₂ (fun u u' => u'.id = u.id ∧ u'.versionNumber = u.versionNumber) us us') :
    Option.Rel (fun u u' => u'.id = u.id ∧ u'.versionNumber = u.versionNumber)
      (newest us) (newest us') := by
  induction h with
  | nil => exact .none
  | cons hu _ ih =>
      rename_i u u' us us' _
      rw [newest, newest]
      revert ih
      cases newest us with
      | none =>
          cases newest us' with
          | none => exact fun _ => .some hu
          | some x =>
              intro hnone
              cases hnone
      | some y =>
          cases newest us' with
          | none =>
              intro hnone
              cases hnone
          | some x =>
              rintro ⟨hx⟩
              dsimp only
              rw [hu.2, hx.2]
              split
              · exact .some hx
              · exact .some hu

lemma Discovered.newest_not_mem (h : Discovered owner calls ws kept news)
    (hk : ws.any ArchiveVersion.keeps) {p : ArchiveVersion → Bool}
    (hp : ∀ u : ArchiveVersion, u.keeps → p u) {n : ArchiveVersion} (hn : n ∈ news) :
    newest ((kept ++ news).filter p) ≠ some n := by
  intro hnewest
  obtain ⟨k, hkept, hkeeps⟩ := any_eq_true.mp (h.any_keeps hk)
  have hle : k.versionNumber ≤ n.versionNumber :=
    newest_le hnewest k (mem_filter.mpr ⟨mem_append_left _ hkept, hp k hkeeps⟩)
  have hlt := h.below n hn k hkept
  omega

/-- The newest keeper stays, unless a lost keeper is seen again. -/
lemma Discovered.newest_keeper (h : Discovered owner calls ws kept news)
    (hlost : ∀ w ∈ ws, w.integrity = .verified → w.availability ≠ .available →
      ∀ c ∈ calls, c.1 = owner → w.isObject c.2.objectKey c.2.versionId = false) :
    (newest ((kept ++ news).filter ArchiveVersion.keeps)).map ArchiveVersion.id =
      (newest (ws.filter ArchiveVersion.keeps)).map ArchiveVersion.id := by
  have hnews : news.filter ArchiveVersion.keeps = [] := by
    refine filter_eq_nil_iff.mpr fun n hn => ?_
    simp [ArchiveVersion.keeps, h.unverified n hn]
  rw [filter_append, hnews, append_nil]
  have hrows : List.Forall₂ (fun w w' => (w.keeps ↔ w'.keeps) ∧ w'.id = w.id ∧
      w'.versionNumber = w.versionNumber) ws kept := by
    refine ((forall₂_and_left _ _).mpr ⟨hlost, h.seen⟩).imp ?_
    rintro w w' ⟨hw, hs⟩
    refine ⟨⟨hs.keeps, fun hk' => ?_⟩, hs.id, hs.versionNumber⟩
    simp only [ArchiveVersion.keeps, Bool.and_eq_true, decide_eq_true_eq] at hk' ⊢
    have hint := hs.integrity.symm.trans hk'.1
    refine ⟨hint, ?_⟩
    rcases hs.availability with ha | ⟨-, c, hc, howner, hnamed⟩
    · exact ha.symm.trans hk'.2
    · by_contra hne
      rw [hw hint hne c hc howner] at hnamed
      cases hnamed
  have hfilter := rel_filter (fun _ _ hr => hr.1) hrows
  have hnewest := newest_forall₂ (hfilter.imp fun _ _ hr => hr.2)
  revert hnewest
  cases newest (ws.filter ArchiveVersion.keeps) with
  | none =>
      cases newest (kept.filter ArchiveVersion.keeps) with
      | none => exact fun _ => rfl
      | some x => nofun
  | some y =>
      cases newest (kept.filter ArchiveVersion.keeps) with
      | none => nofun
      | some x =>
          rintro ⟨hx⟩
          exact congrArg some hx.1

end Discovered

/-- Calls of `record_archive_version`, one after the other; each in a Vault. -/
def recordAll (cat : Catalog) (calls : List (VaultId × VersionObservation)) : Catalog :=
  calls.foldl (fun cat c => (VersionCall.record c.1 c.2).run cat) cat

/-- **Any number of discoveries.** -/
lemma recordAll_discovered (hf : f ∈ cat.files) (hk : f.versions.any ArchiveVersion.keeps)
    (calls : List (VaultId × VersionObservation))
    (horigin : ∀ c ∈ calls, c.2.origin = .discovered) :
    ∃ f' ∈ (recordAll cat calls).files, f'.id = f.id ∧ f'.vaultId = f.vaultId ∧
      ∃ kept news, f'.versions = kept ++ news ∧
        Discovered f.vaultId calls f.versions kept news := by
  induction calls using List.reverseRecOn with
  | nil => exact ⟨f, hf, rfl, rfl, f.versions, [], by simp, .start _ _⟩
  | append_singleton calls c ih =>
      obtain ⟨g, hg, hid, hvault, kept, news, hvs, hdisc⟩ :=
        ih fun c' hc' => horigin c' (mem_append_left _ hc')
      rw [recordAll, foldl_concat, ← recordAll, VersionCall.run]
      cases hrec : recordVersion (recordAll cat calls) c.1 c.2 with
      | none => exact ⟨g, hg, hid, hvault, kept, news, hvs, hdisc.grow c⟩
      | some r =>
          have hstep := recordVersion_step hrec g.id
          rw [Catalog.vaultOf, Catalog.file?_eq_of_mem _ hg, Option.map_some, hvault,
            Catalog.versionsOf_eq _ hg, hvs] at hstep
          obtain ⟨kept', news', hvs', hdisc'⟩ := hdisc.step hk (horigin c (by simp)) hstep
          have hvault' := recordVersion_vaultOf hrec hg
          obtain ⟨g', hfile, hgv⟩ := Option.map_eq_some_iff.mp hvault'
          obtain ⟨hg', hid'⟩ := Catalog.mem_of_file? hfile
          refine ⟨g', hg', hid'.trans hid, hgv.trans hvault, kept', news', ?_, hdisc'⟩
          rw [← hvs', ← hid', Catalog.versionsOf_eq _ hg']

/-! ### What nobody elects -/

/-- The version `queue_jobs` picks for an action when the request names none. -/
def VaultFile.queueTarget (f : VaultFile) (action : JobAction) : Option ArchiveVersion :=
  newest (f.versions.filter fun w =>
    w.availability ≠ .missing && w.availability ≠ .purged &&
      (action ≠ .recover && action ≠ .storageClass ||
        w.availability = .available && (action ≠ .recover || w.integrity = .verified)))

/-- **Discovery elects nothing.**  After any discoveries a file with a keeper has its old rows
under their old numbers and the new rows below them, each below those found before it.  No new
row is its latest version, its newest verified available one or what a Job would be queued
for; and the newest verified available row changes only when a call sees a verified row again
that was not available. -/
theorem discovery_elects_nothing (cat : Catalog) (hd : cat.NumbersDistinct)
    (calls : List (VaultId × VersionObservation))
    (horigin : ∀ c ∈ calls, c.2.origin = .discovered) (f : VaultFile) (hf : f ∈ cat.files)
    (hkeeper : f.onlyCloudCopy.isSome = true) :
    (recordAll cat calls).NumbersDistinct ∧
    ∃ f' ∈ (recordAll cat calls).files, f'.id = f.id ∧
      ∃ kept news, f'.versions = kept ++ news ∧
        kept.map ArchiveVersion.id = f.versions.map ArchiveVersion.id ∧
        kept.map ArchiveVersion.versionNumber = f.versions.map ArchiveVersion.versionNumber ∧
        (∀ n ∈ news, ∀ w ∈ kept, n.versionNumber < w.versionNumber) ∧
        (news.Pairwise fun a b => b.versionNumber < a.versionNumber) ∧
        (∀ n ∈ news, f'.latestVersion ≠ some n ∧ f'.onlyCloudCopy ≠ some n.id ∧
          ∀ action, f'.queueTarget action ≠ some n) ∧
        ((∀ w ∈ f.versions, w.integrity = .verified → w.availability ≠ .available →
            ∀ c ∈ calls, c.1 = f.vaultId →
              w.isObject c.2.objectKey c.2.versionId = false) →
          f'.onlyCloudCopy = f.onlyCloudCopy) := by
  have hk : f.versions.any ArchiveVersion.keeps = true := by
    rw [VaultFile.onlyCloudCopy, Option.isSome_map] at hkeeper
    obtain ⟨k, hnewest⟩ := Option.isSome_iff_exists.mp hkeeper
    obtain ⟨hmem, hkeeps⟩ := mem_filter.mp (newest_mem hnewest)
    exact any_eq_true.mpr ⟨k, hmem, hkeeps⟩
  obtain ⟨f', hf', hid, -, kept, news, hvs, hdisc⟩ := recordAll_discovered hf hk calls horigin
  have hnums : (recordAll cat calls).NumbersDistinct := by
    have hrun := numbersDistinct_run (calls.map fun c => .record c.1 c.2) hd
    rwa [foldl_map] at hrun
  refine ⟨hnums, f', hf', hid, kept, news, hvs, ?_, ?_, hdisc.below, hdisc.descending, ?_, ?_⟩
  · exact hdisc.map_kept fun _ _ hs => hs.id
  · exact hdisc.map_kept fun _ _ hs => hs.versionNumber
  · intro n hn
    refine ⟨?_, ?_, fun action => ?_⟩
    · rw [VaultFile.latestVersion, hvs]
      exact hdisc.newest_not_mem hk (fun u hu => by simp_all [ArchiveVersion.keeps]) hn
    · intro honly
      obtain ⟨w, hnewest, hwid⟩ := Option.map_eq_some_iff.mp honly
      obtain ⟨hw, hkeeps⟩ := mem_filter.mp (newest_mem hnewest)
      have hn' : n ∈ f'.versions := hvs ▸ mem_append_right _ hn
      obtain ⟨-, rfl⟩ := Catalog.version_eq_of_id_eq _ hf' hf' hw hn' hwid
      simp [hdisc.unverified w hn] at hkeeps
    · rw [VaultFile.queueTarget, hvs]
      exact hdisc.newest_not_mem hk (fun u hu => by simp_all [ArchiveVersion.keeps]) hn
  · intro hlost
    rw [VaultFile.onlyCloudCopy, hvs]
    exact hdisc.newest_keeper hlost

/-- A file at `a` with a verified version, and a newer one that is missing in the bucket. -/
def lostNewerFile : VaultFile :=
  ⟨1, 0, .active, some ['a'], 0, [], none,
    [⟨1, 1, 0, some 1, none, none, none, .verified, .available, some 1, none, 1, none, none,
      .upload, .upload⟩,
    ⟨2, 2, 0, some 2, none, none, none, .verified, .missing, some 1, none, 1, none, none,
      .upload, .upload⟩], []⟩

/-- The catalog of that file. -/
def lostNewerCatalog : Catalog where
  files := [lostNewerFile]
  jobs := []
  items := []
  ids_nodup := by simp
  paths_unique := by simp
  versions_unique := by simp [VaultFile.versionKeys, KeysDistinct, lostNewerFile]
  jobIds_nodup := nodup_nil

/-- A scan lists the object version `n` of the key of `a`. -/
def listsVersion (n : ProviderVersionId) : VaultId × VersionObservation :=
  (0, ⟨['a'], 0, n, none, none, none, 3, 4, 4, .discovered, none⟩)

instance (cat : Catalog) : Decidable cat.NumbersDistinct :=
  inferInstanceAs (Decidable (∀ f ∈ cat.files, _))

/-- Two versions nobody recorded, and the keeper seen again, leave the keeper. -/
theorem discovery_elects_nothing_fixture :
    (recordAll lostNewerCatalog
        [listsVersion 3, listsVersion 1, listsVersion 4]).NumbersDistinct ∧
      ∃ f' ∈ (recordAll lostNewerCatalog [listsVersion 3, listsVersion 1, listsVersion 4]).files,
        f'.id = 1 ∧ f'.onlyCloudCopy = some 1 := by
  obtain ⟨hnums, f', hf', hid, -, -, -, -, -, -, -, -, hsame⟩ :=
    discovery_elects_nothing lostNewerCatalog (by decide)
      [listsVersion 3, listsVersion 1, listsVersion 4] (by decide) lostNewerFile
      (mem_singleton_self _) (by decide)
  exact ⟨hnums, f', hf', hid, (hsame (by decide)).trans (by decide)⟩

/-- The newer version is listed again: it is available, and so the newest keeper. -/
theorem seen_again_elects_version :
    ¬ ∀ (cat : Catalog) (calls : List (VaultId × VersionObservation)), cat.NumbersDistinct →
      (∀ c ∈ calls, c.2.origin = .discovered) →
      ∀ f ∈ cat.files, f.onlyCloudCopy.isSome = true →
        ∀ f' ∈ (recordAll cat calls).files, f'.id = f.id →
          f'.onlyCloudCopy = f.onlyCloudCopy := by
  intro hall
  have h := hall lostNewerCatalog [listsVersion 2] (by decide) (by decide) lostNewerFile
    (mem_singleton_self _) (by decide)
  exact absurd h (by decide)

end Frostvault
