import Frostvault.Observation.Identities

/-!
Archive Versions in the catalog (`app/catalog.py`): an object version is looked up by its exact
identity, and recorded under the file its path belongs to.

* `Catalog.versionAt?`: the row of an exact object version;
* `Catalog.insertVersion`: a new row, with its keys;
* `resolveCloudPathFile`: the file of a cloud path, by its current path or its Path History;
* `recordArchiveVersion`: what a scan writes for a listed version;
* `recordArchiveVersion_files`: the rows it leaves, file by file.
-/

namespace Frostvault

open List

variable {cat cat' : Catalog} {v : VaultId}

/-! ### Rows by their identity -/

/-- The row is the exact object version. -/
def ArchiveVersion.isObject (w : ArchiveVersion) (key : ObjectKey) (n : ProviderVersionId) : Bool :=
  w.objectKey = key && w.providerVersionId = some n

/-- A file with other Archive Versions. -/
def VaultFile.withVersions (f : VaultFile) (ws : List ArchiveVersion) : VaultFile :=
  { f with versions := ws }

variable {f g : VaultFile} {scanId : Stamp} {w : ArchiveVersion}

namespace Catalog

/-- `WHERE vault_id=%s AND object_key=%s AND provider_version_id=%s`. -/
def versionAt? (cat : Catalog) (v : VaultId) (key : ObjectKey) (n : ProviderVersionId) :
    Option (VaultFile × ArchiveVersion) :=
  cat.files.findSome? fun f =>
    if f.vaultId = v then (f.versions.find? fun w => w.isObject key n).map fun w => (f, w)
    else none

/-- Two rows with one key are one row of one file. -/
lemma version_unique (cat : Catalog) {u : ArchiveVersion} (hf : f ∈ cat.files) (hg : g ∈ cat.files)
    (hw : w ∈ f.versions) (hu : u ∈ g.versions)
    (h : ¬KeysDistinct ⟨w.id, f.vaultId, w.objectKey, w.providerVersionId⟩
      ⟨u.id, g.vaultId, u.objectKey, u.providerVersionId⟩) : f = g ∧ w = u := by
  obtain ⟨hrows, hfiles⟩ := pairwise_flatMap.mp cat.versions_unique
  have hfg : f = g := by
    by_contra hne
    have hsymm : Std.Symm fun a b : VaultFile =>
        ∀ x ∈ a.versionKeys, ∀ y ∈ b.versionKeys, KeysDistinct x y :=
      ⟨fun a b hab x hx y hy => Std.Symm.symm _ _ (hab y hy x hx)⟩
    exact h (hfiles.forall hf hg hne _ (mem_map_of_mem hw) _ (mem_map_of_mem hu))
  subst hfg
  refine ⟨rfl, ?_⟩
  by_contra hne
  have hpair := pairwise_map.mp (hrows f hf)
  have hsymm : Std.Symm fun a b : ArchiveVersion =>
      KeysDistinct ⟨a.id, f.vaultId, a.objectKey, a.providerVersionId⟩
        ⟨b.id, f.vaultId, b.objectKey, b.providerVersionId⟩ :=
    ⟨fun a b hab => Std.Symm.symm _ _ hab⟩
  exact h (hpair.forall hw hu hne)

lemma version_eq_of_id_eq (cat : Catalog) {u : ArchiveVersion} (hf : f ∈ cat.files)
    (hg : g ∈ cat.files) (hw : w ∈ f.versions) (hu : u ∈ g.versions) (h : w.id = u.id) :
    f = g ∧ w = u :=
  cat.version_unique hf hg hw hu fun hd => hd.1 h

variable {n : ProviderVersionId}

lemma version_eq_of_isObject (cat : Catalog) {u : ArchiveVersion} (hf : f ∈ cat.files)
    (hg : g ∈ cat.files) (hw : w ∈ f.versions) (hu : u ∈ g.versions) (hv : f.vaultId = g.vaultId)
    {key : ObjectKey} (h : w.isObject key n) (h' : u.isObject key n) : f = g ∧ w = u := by
  simp only [ArchiveVersion.isObject, Bool.and_eq_true, decide_eq_true_eq] at h h'
  refine cat.version_unique hf hg hw hu fun hd => ?_
  exact hd.2 hv (h.1.trans h'.1.symm) n h.2 h'.2

/-- The lookup finds the row of the object version, if there is one. -/
lemma versionAt?_eq_some_iff (cat : Catalog) {key : ObjectKey} :
    cat.versionAt? v key n = some (f, w) ↔
      f ∈ cat.files ∧ f.vaultId = v ∧ w ∈ f.versions ∧ w.isObject key n := by
  have hsound : ∀ g u, cat.versionAt? v key n = some (g, u) →
      g ∈ cat.files ∧ g.vaultId = v ∧ u ∈ g.versions ∧ u.isObject key n := by
    intro g u h
    obtain ⟨f', hf', hsome⟩ := exists_of_findSome?_eq_some h
    split at hsome
    · rename_i hv
      obtain ⟨u', hu', heq⟩ := Option.map_eq_some_iff.mp hsome
      cases heq
      exact ⟨hf', hv, mem_of_find?_eq_some hu', by simpa using find?_some hu'⟩
    · cases hsome
  constructor
  · exact hsound f w
  · rintro ⟨hf, hv, hw, hobj⟩
    cases h : cat.versionAt? v key n with
    | none =>
        have hno := findSome?_eq_none_iff.mp h f hf
        rw [if_pos hv, Option.map_eq_none_iff, find?_eq_none] at hno
        exact absurd hobj (hno w hw)
    | some gu =>
        obtain ⟨g, u⟩ := gu
        obtain ⟨hg, hgv, hu, hobj'⟩ := hsound g u h
        obtain ⟨rfl, rfl⟩ := cat.version_eq_of_isObject hf hg hw hu (hv.trans hgv.symm) hobj hobj'
        rfl

/-- The lookup finds nothing where no row is the object version. -/
lemma versionAt?_eq_none_iff (cat : Catalog) {key : ObjectKey} :
    cat.versionAt? v key n = none ↔
      ∀ f ∈ cat.files, f.vaultId = v → ∀ w ∈ f.versions, w.isObject key n = false := by
  constructor
  · intro h f hf hv w hw
    by_contra hobj
    rw [(cat.versionAt?_eq_some_iff).mpr ⟨hf, hv, hw, Bool.not_eq_false _ ▸ hobj⟩] at h
    cases h
  · intro h
    cases hat : cat.versionAt? v key n with
    | none => rfl
    | some fw =>
        obtain ⟨hf, hv, hw, hobj⟩ := cat.versionAt?_eq_some_iff.mp hat
        exact absurd hobj (by simp [h fw.1 hf hv fw.2 hw])

/-- The next `uuid4` of a version row. -/
def freshRowId (cat : Catalog) : RowId :=
  fresh ((cat.files.flatMap VaultFile.versions).map ArchiveVersion.id)

lemma rowId_ne_freshRowId (cat : Catalog) (hf : f ∈ cat.files) (hw : w ∈ f.versions) :
    w.id ≠ cat.freshRowId :=
  Nat.ne_of_lt (lt_fresh (mem_map_of_mem (mem_flatMap.mpr ⟨f, hf, hw⟩)))

/-- A row that may be inserted: its keys are not taken. -/
def Insertable (cat : Catalog) (f : VaultFile) (w : ArchiveVersion) : Prop :=
  ∀ g ∈ cat.files, ∀ u ∈ g.versions,
    KeysDistinct ⟨w.id, f.vaultId, w.objectKey, w.providerVersionId⟩
      ⟨u.id, g.vaultId, u.objectKey, u.providerVersionId⟩

/-- Insert a row for the file with the given id. -/
def insertVersion (cat : Catalog) (file : FileId) (row : VaultFile → ArchiveVersion)
    (hnew : ∀ f ∈ cat.files, f.id = file → cat.Insertable f (row f)) : Catalog where
  files := cat.files.map fun f =>
    f.withVersions (f.versions ++ if f.id = file then [row f] else [])
  jobs := cat.jobs
  items := cat.items
  ids_nodup := by
    rw [map_map]
    exact cat.ids_nodup
  paths_unique := by
    rw [pairwise_map]
    exact cat.paths_unique
  versions_unique := by
    obtain ⟨hrows, hfiles⟩ := pairwise_flatMap.mp cat.versions_unique
    -- a key after the insert is an old one or the new one
    have hkeys : ∀ f ∈ cat.files, ∀ k ∈ (f.withVersions
        (f.versions ++ if f.id = file then [row f] else [])).versionKeys,
        k ∈ f.versionKeys ∨ f.id = file ∧
          k = ⟨(row f).id, f.vaultId, (row f).objectKey, (row f).providerVersionId⟩ := by
      intro f _ k hk
      rw [VaultFile.versionKeys, VaultFile.withVersions, map_append] at hk
      rcases mem_append.mp hk with hk | hk
      · exact Or.inl hk
      · split at hk
        · rename_i hid
          exact Or.inr ⟨hid, by simpa using hk⟩
        · cases hk
    have hold : ∀ f ∈ cat.files, f.id = file → ∀ g ∈ cat.files, ∀ k ∈ g.versionKeys,
        KeysDistinct ⟨(row f).id, f.vaultId, (row f).objectKey, (row f).providerVersionId⟩ k := by
      intro f hf hid g hg k hk
      obtain ⟨u, hu, rfl⟩ := mem_map.mp hk
      exact hnew f hf hid g hg u hu
    rw [pairwise_flatMap]
    refine ⟨?_, ?_⟩
    · intro f' hf'
      obtain ⟨f, hf, rfl⟩ := mem_map.mp hf'
      rw [VaultFile.versionKeys, VaultFile.withVersions, map_append, pairwise_append]
      refine ⟨hrows f hf, ?_, ?_⟩
      · split <;> simp
      · intro k hk k' hk'
        split at hk'
        · rename_i hid
          obtain rfl : k' = _ := mem_singleton.mp hk'
          exact Std.Symm.symm _ _ (hold f hf hid f hf k hk)
        · cases hk'
    · rw [pairwise_map]
      have hids : cat.files.Pairwise fun a b => a.id ≠ b.id := pairwise_map.mp cat.ids_nodup
      refine (hids.and hfiles).imp_of_mem fun {a b} ha hb ⟨hne, hab⟩ k hk k' hk' => ?_
      rcases hkeys a ha k hk with hk | ⟨hid, rfl⟩
      · rcases hkeys b hb k' hk' with hk' | ⟨hid', rfl⟩
        · exact hab k hk k' hk'
        · exact Std.Symm.symm _ _ (hold b hb hid' a ha k hk)
      · rcases hkeys b hb k' hk' with hk' | ⟨hid', rfl⟩
        · exact hold a ha hid b hb k' hk'
        · exact absurd (hid.trans hid'.symm) hne
  jobIds_nodup := cat.jobIds_nodup

end Catalog

/-! ### The file of a cloud path -/

/-- The element with the greatest stamp. -/
def latest {α : Type*} : List (Stamp × α) → Option (Stamp × α)
  | [] => none
  | x :: xs =>
      match latest xs with
      | none => some x
      | some y => if x.1 < y.1 then some y else some x

lemma latest_mem {α : Type*} {xs : List (Stamp × α)} {x : Stamp × α} (h : latest xs = some x) :
    x ∈ xs := by
  induction xs generalizing x with
  | nil => simp [latest] at h
  | cons y ys ih =>
      cases hy : latest ys with
      | none =>
          simp only [latest, hy, Option.some.injEq] at h
          simp [h]
      | some z =>
          simp only [latest, hy] at h
          split at h <;> cases h
          · exact mem_cons_of_mem _ (ih hy)
          · exact mem_cons_self

lemma latest_map {α β : Type*} (g : α → β) (xs : List (Stamp × α)) :
    latest (xs.map fun x => (x.1, g x.2)) = (latest xs).map fun x => (x.1, g x.2) := by
  induction xs with
  | nil => rfl
  | cons y ys ih =>
      rw [map_cons, latest, ih, latest]
      cases latest ys with
      | none => rfl
      | some z =>
          simp only [Option.map_some]
          split <;> rfl

/-- The closed rows of `file_paths` of an active file of the Vault, for a path. -/
def VaultFile.historyAt (v : VaultId) (p : Path) (f : VaultFile) : List (Stamp × VaultFile) :=
  if f.vaultId = v ∧ f.status = .active then
    (f.pathHistory.filter fun r => r.path = p).map fun r => (r.validFrom, f)
  else []

/-- The active file that held a path last, `ORDER BY fp.valid_from DESC LIMIT 1`. -/
def Catalog.historicalFile? (cat : Catalog) (v : VaultId) (p : Path) : Option VaultFile :=
  (latest (cat.files.flatMap (VaultFile.historyAt v p))).map Prod.snd

/-- The lookups of `_resolve_cloud_path_file`: the current path, then Path History. -/
def Catalog.cloudFile? (cat : Catalog) (v : VaultId) (p : Path) : Option VaultFile :=
  match cat.fileAt? v p with
  | some f => some f
  | none => cat.historicalFile? v p

/-- `_resolve_cloud_path_file`. -/
def resolveCloudPathFile (cat : Catalog) (v : VaultId) (p : Path) (createdAt : Stamp) :
    Catalog × FileId :=
  match cat.cloudFile? v p with
  | some f => (cat, f.id)
  | none => getOrCreateFile cat v p createdAt

/-! ### Recording a listed version -/

/-- One version of a listing: `(logical_path, version_id, object_key, size, storage_class, etag,
timestamp)`. -/
structure ListedVersion where
  path : Path
  versionId : ProviderVersionId
  objectKey : ObjectKey
  size : Option ℕ
  storageClass : StorageClass
  etag : String
  timestamp : Stamp
deriving DecidableEq, Repr

/-- A row that is seen again. -/
def ArchiveVersion.seenAgain (w : ArchiveVersion) (e : ListedVersion) (scanId : Stamp) :
    ArchiveVersion :=
  { w with
    availability := .available
    availabilityCheckedAt := some scanId
    storageClass := some e.storageClass
    etag := some e.etag
    storageClassSource :=
      if e.storageClass ≠ "" ∧ some e.storageClass ≠ w.storageClass ∧
          w.storageClassSource ≠ .manual then .discovered
      else w.storageClassSource }

/-- `COALESCE(MAX(version_number), 0)`. -/
def maxVersionNumber (ws : List ArchiveVersion) : ℤ :=
  match ws.map ArchiveVersion.versionNumber with
  | [] => 0
  | n :: ns => ns.foldl max n

/-- `MIN(version_number)`, or 0. -/
def minVersionNumber (ws : List ArchiveVersion) : ℤ :=
  match ws.map ArchiveVersion.versionNumber with
  | [] => 0
  | n :: ns => ns.foldl min n

/-- The number of a discovered version: an observation never elects itself over a verified
keeper. -/
def discoveredNumber (ws : List ArchiveVersion) : ℤ :=
  if (ws.any fun w => w.integrity = .verified && w.availability = .available) = true then
    min 0 (minVersionNumber ws) - 1
  else maxVersionNumber ws + 1

/-- The row of a version nobody recorded before. -/
def discoveredVersion (id : RowId) (e : ListedVersion) (observedAt scanId : Stamp)
    (f : VaultFile) : ArchiveVersion where
  id := id
  versionNumber := discoveredNumber f.versions
  objectKey := e.objectKey
  providerVersionId := some e.versionId
  size := e.size
  storageClass := some e.storageClass
  plaintextSha256 := none
  integrity := .unverified
  availability := .available
  availabilityCheckedAt := some scanId
  restoreState := none
  discoveredAt := observedAt
  etag := some e.etag
  uploadedAt := some e.timestamp
  origin := .discovered
  storageClassSource := .discovered

lemma resolveCloudPathFile_spec (cat : Catalog) (v : VaultId) (p : Path) (at_ : Stamp) :
    (∃ f, cat.cloudFile? v p = some f ∧ resolveCloudPathFile cat v p at_ = (cat, f.id)) ∨
    (cat.cloudFile? v p = none ∧ ∃ h : cat.fileAt? v p = none,
      resolveCloudPathFile cat v p at_ = (cat.insertFile v p at_ h, cat.freshId)) := by
  cases hc : cat.cloudFile? v p with
  | some f => exact Or.inl ⟨f, rfl, by simp only [resolveCloudPathFile, hc]⟩
  | none =>
      have hat : cat.fileAt? v p = none := by
        cases hat : cat.fileAt? v p with
        | none => rfl
        | some f => simp [Catalog.cloudFile?, hat] at hc
      refine Or.inr ⟨rfl, hat, ?_⟩
      simp only [resolveCloudPathFile, hc, getOrCreateFile]
      split
      · rename_i f hf
        cases hf.symm.trans hat
      · rfl

/-- A cloud path is looked up among the files of the Vault. -/
lemma Catalog.mem_of_cloudFile? {p : Path} (h : cat.cloudFile? v p = some f) :
    f ∈ cat.files ∧ f.vaultId = v := by
  rw [Catalog.cloudFile?] at h
  split at h
  · rename_i g hg
    cases h
    obtain ⟨hmem, hv, -⟩ := Catalog.mem_of_fileAt? hg
    exact ⟨hmem, hv⟩
  · obtain ⟨x, hx, rfl⟩ := Option.map_eq_some_iff.mp h
    obtain ⟨g, hg, hxg⟩ := mem_flatMap.mp (latest_mem hx)
    rw [VaultFile.historyAt] at hxg
    split at hxg
    · rename_i hv
      obtain ⟨r, -, rfl⟩ := mem_map.mp hxg
      exact ⟨hg, hv.1⟩
    · cases hxg

/-- The file a resolved path belongs to is a file of the Vault. -/
lemma resolveCloudPathFile_vaultId {p : Path} {at_ : Stamp}
    (hf : f ∈ (resolveCloudPathFile cat v p at_).1.files)
    (hid : f.id = (resolveCloudPathFile cat v p at_).2) : f.vaultId = v := by
  rcases resolveCloudPathFile_spec cat v p at_ with ⟨g, hg, heq⟩ | ⟨-, hat, heq⟩
  · rw [heq] at hf hid
    obtain ⟨hmem, hv⟩ := Catalog.mem_of_cloudFile? hg
    rw [cat.eq_of_id_eq hf hmem hid]
    exact hv
  · rw [heq] at hf hid
    rcases mem_append.mp hf with hf | hf
    · exact absurd hid (cat.id_ne_freshId hf)
    · rw [mem_singleton.mp hf]

lemma resolveCloudPathFile_versions {p : Path} {at_ : Stamp}
    (hf : f ∈ (resolveCloudPathFile cat v p at_).1.files) (hw : w ∈ f.versions) :
    f ∈ cat.files := by
  rcases resolveCloudPathFile_spec cat v p at_ with ⟨g, -, heq⟩ | ⟨-, hat, heq⟩
  · rwa [heq] at hf
  · rw [heq] at hf
    rcases mem_append.mp hf with hf | hf
    · exact hf
    · rw [mem_singleton.mp hf] at hw
      cases hw

variable {e : ListedVersion}

lemma insertable_discoveredVersion (at_ scanId : Stamp)
    (h : cat.versionAt? v e.objectKey e.versionId = none) (f : VaultFile)
    (hf : f ∈ (resolveCloudPathFile cat v e.path at_).1.files)
    (hid : f.id = (resolveCloudPathFile cat v e.path at_).2) :
    (resolveCloudPathFile cat v e.path at_).1.Insertable f
      (discoveredVersion (resolveCloudPathFile cat v e.path at_).1.freshRowId e at_ scanId f) := by
  intro g hg u hu
  refine ⟨(Catalog.rowId_ne_freshRowId _ hg hu).symm, fun hvv hkey n hn hun => ?_⟩
  have hgv : g.vaultId = v := hvv.symm.trans (resolveCloudPathFile_vaultId hf hid)
  have hno := cat.versionAt?_eq_none_iff.mp h g (resolveCloudPathFile_versions hg hu) hgv u hu
  cases hn
  have hkey' : u.objectKey = e.objectKey := hkey.symm
  have hun' : u.providerVersionId = some e.versionId := hun
  have hobj : u.isObject e.objectKey e.versionId := by
    rw [ArchiveVersion.isObject, hkey', hun']
    simp
  rw [hno] at hobj
  cases hobj

/-- `record_archive_version`, as a scan calls it: the row of the exact version is seen again,
or a discovered version is recorded. -/
def recordArchiveVersion (cat : Catalog) (v : VaultId) (e : ListedVersion)
    (observedAt scanId : Stamp) : Catalog × RowId :=
  match h : cat.versionAt? v e.objectKey e.versionId with
  | some (_, w) =>
      (cat.mapVersions (fun _ u => if u.id = w.id then u.seenAgain e scanId else u)
        ⟨fun _ _ => by split <;> rfl, fun _ _ => by split <;> rfl, fun _ _ => by split <;> rfl⟩,
        w.id)
  | none =>
      let r := resolveCloudPathFile cat v e.path observedAt
      (r.1.insertVersion r.2 (discoveredVersion r.1.freshRowId e observedAt scanId)
        (insertable_discoveredVersion _ _ h), r.1.freshRowId)

lemma recordArchiveVersion_of_seen (h : cat.versionAt? v e.objectKey e.versionId = some (f, w))
    (at_ scanId : Stamp) :
    recordArchiveVersion cat v e at_ scanId =
      (cat.mapVersions (fun _ u => if u.id = w.id then u.seenAgain e scanId else u)
        ⟨fun _ _ => by split <;> rfl, fun _ _ => by split <;> rfl, fun _ _ => by split <;> rfl⟩,
        w.id) := by
  unfold recordArchiveVersion
  split
  · rename_i g u hgu
    cases h.symm.trans hgu
    rfl
  · rename_i hnone
    cases h.symm.trans hnone

lemma recordArchiveVersion_of_new (h : cat.versionAt? v e.objectKey e.versionId = none)
    (at_ scanId : Stamp) :
    recordArchiveVersion cat v e at_ scanId =
      ((resolveCloudPathFile cat v e.path at_).1.insertVersion
        (resolveCloudPathFile cat v e.path at_).2
        (discoveredVersion (resolveCloudPathFile cat v e.path at_).1.freshRowId e at_ scanId)
        (insertable_discoveredVersion at_ scanId h),
        (resolveCloudPathFile cat v e.path at_).1.freshRowId) := by
  unfold recordArchiveVersion
  split
  · rename_i hgu
    cases h.symm.trans hgu
  · rfl

/-! ### What recording leaves -/

/-- The file a listed version is recorded under: the one that has its row, or the one its path
belongs to. -/
def Catalog.ownerOf (cat : Catalog) (v : VaultId) (e : ListedVersion) : Option FileId :=
  match cat.versionAt? v e.objectKey e.versionId with
  | some (f, _) => some f.id
  | none => (cat.cloudFile? v e.path).map VaultFile.id

/-- A row after a version was recorded. -/
def recordedRow (v : VaultId) (e : ListedVersion) (scanId : Stamp) (f : VaultFile)
    (w : ArchiveVersion) : ArchiveVersion :=
  if f.vaultId = v ∧ w.isObject e.objectKey e.versionId = true then w.seenAgain e scanId else w

/-- A catalog with a version recorded: `minted` are the new files, `new` the new rows. -/
structure Recorded (cat : Catalog) (v : VaultId) (e : ListedVersion) (scanId : Stamp)
    (cat' : Catalog) (kept : RowId) (owner : FileId) (minted : List VaultFile)
    (new : List ArchiveVersion) : Prop where
  files : cat'.files = (cat.files ++ minted).map fun f =>
    f.withVersions (f.versions.map (recordedRow v e scanId f) ++ if f.id = owner then new else [])
  jobs : cat'.jobs = cat.jobs
  blank : ∀ g ∈ minted, Blank v e.path g ∧ g.id = owner ∧ cat.cloudFile? v e.path = none
  discovered : ∀ w ∈ new, w.availability = .available ∧ w.availabilityCheckedAt = some scanId ∧
    w.isObject e.objectKey e.versionId = true ∧ cat.versionAt? v e.objectKey e.versionId = none
  owned : cat.ownerOf v e = some owner ∧ minted = [] ∨
    cat.ownerOf v e = none ∧ ∀ f ∈ cat.files, f.id ≠ owner
  keeps : ∃ f ∈ cat'.files, f.id = owner ∧ f.vaultId = v ∧ ∃ w ∈ f.versions,
    w.id = kept ∧ w.isObject e.objectKey e.versionId = true

lemma recordedRow_isObject {e' : ListedVersion} :
    (recordedRow v e scanId f w).isObject e'.objectKey e'.versionId =
      w.isObject e'.objectKey e'.versionId := by
  rw [recordedRow]
  split <;> rfl

lemma recordedRow_id :
    (recordedRow v e scanId f w).id = w.id := by
  rw [recordedRow]
  split <;> rfl

lemma recorded_of_seen {at_ : Stamp} (h : cat.versionAt? v e.objectKey e.versionId = some (f, w)) :
    Recorded cat v e scanId (recordArchiveVersion cat v e at_ scanId).1
      (recordArchiveVersion cat v e at_ scanId).2 f.id [] [] := by
  obtain ⟨hf, hv, hw, hobj⟩ := cat.versionAt?_eq_some_iff.mp h
  have hrec := recordArchiveVersion_of_seen h at_ scanId
  -- the id of the row and its identity say the same
  have hrow : ∀ g ∈ cat.files, ∀ u ∈ g.versions,
      (if u.id = w.id then u.seenAgain e scanId else u) = recordedRow v e scanId g u := by
    intro g hg u hu
    rw [recordedRow]
    refine if_congr ⟨fun hid => ?_, fun hobj' => ?_⟩ rfl rfl
    · obtain ⟨rfl, rfl⟩ := cat.version_eq_of_id_eq hg hf hu hw hid
      exact ⟨hv, hobj⟩
    · obtain ⟨-, rfl⟩ := cat.version_eq_of_isObject hg hf hu hw (hobj'.1.trans hv.symm) hobj'.2 hobj
      rfl
  have hfiles : (recordArchiveVersion cat v e at_ scanId).1.files =
      (cat.files ++ []).map fun g : VaultFile => g.withVersions
        (g.versions.map (recordedRow v e scanId g) ++ if g.id = f.id then [] else []) := by
    rw [hrec, append_nil]
    refine map_congr_left fun g hg => ?_
    show VaultFile.withVersions g _ = _
    rw [ite_self, append_nil]
    congr 1
    exact map_congr_left fun u hu => hrow g hg u hu
  refine ⟨hfiles, by rw [hrec]; rfl, by simp, by simp, Or.inl ⟨?_, rfl⟩, ?_⟩
  · rw [Catalog.ownerOf, h]
  · have hmem := mem_map_of_mem (f := fun g : VaultFile => g.withVersions
      (g.versions.map (recordedRow v e scanId g) ++ if g.id = f.id then [] else []))
      (mem_append_left [] hf)
    rw [← hfiles] at hmem
    refine ⟨_, hmem, rfl, hv, recordedRow v e scanId f w, ?_, ?_, ?_⟩
    · exact mem_append_left _ (mem_map_of_mem hw)
    · rw [recordedRow_id, hrec]
    · rw [recordedRow_isObject]
      exact hobj

lemma recordedRow_of_none (h : cat.versionAt? v e.objectKey e.versionId = none) (hf : f ∈ cat.files)
    (hw : w ∈ f.versions) : recordedRow v e scanId f w = w := by
  rw [recordedRow, if_neg]
  rintro ⟨hv, hobj⟩
  rw [cat.versionAt?_eq_none_iff.mp h f hf hv w hw] at hobj
  cases hobj

/-- An insert for the file `g`, read as a recording. -/
lemma recorded_of_insert {at_ : Stamp} {minted : List VaultFile} {base : Catalog} {owner : FileId}
    (h : cat.versionAt? v e.objectKey e.versionId = none) (hbase : base.files = cat.files ++ minted)
    (hjobs : base.jobs = cat.jobs) (hg : g ∈ base.files) (hgid : g.id = owner) (hgv : g.vaultId = v)
    (hblank : ∀ k ∈ minted, Blank v e.path k ∧ k.id = owner ∧ cat.cloudFile? v e.path = none)
    (hown : cat.ownerOf v e = some owner ∧ minted = [] ∨
      cat.ownerOf v e = none ∧ ∀ f ∈ cat.files, f.id ≠ owner)
    (hnew : ∀ f ∈ base.files, f.id = owner →
      base.Insertable f (discoveredVersion base.freshRowId e at_ scanId f)) :
    Recorded cat v e scanId
      (base.insertVersion owner (discoveredVersion base.freshRowId e at_ scanId) hnew)
      base.freshRowId owner minted [discoveredVersion base.freshRowId e at_ scanId g] where
  files := by
    show base.files.map _ = _
    rw [← hbase]
    refine map_congr_left fun f hf => ?_
    have hold : f.versions.map (recordedRow v e scanId f) = f.versions := by
      rw [hbase] at hf
      rcases mem_append.mp hf with hf | hf
      · exact (map_congr_left fun w hw => recordedRow_of_none h hf hw).trans (map_id _)
      · rw [(hblank f hf).1.versions, map_nil]
    rw [hold]
    congr 2
    split
    · rename_i hid
      rw [base.eq_of_id_eq hf hg (hid.trans hgid.symm)]
    · rfl
  jobs := hjobs
  blank := hblank
  discovered w hw := by
    rw [mem_singleton.mp hw]
    exact ⟨rfl, rfl, by simp [ArchiveVersion.isObject, discoveredVersion], h⟩
  owned := hown
  keeps := by
    refine ⟨_, mem_map_of_mem hg, hgid, hgv,
      discoveredVersion base.freshRowId e at_ scanId g, ?_, rfl, ?_⟩
    · rw [if_pos hgid]
      exact mem_append_right _ mem_cons_self
    · simp [ArchiveVersion.isObject, discoveredVersion]

/-- **Recording a listed version**, whether it has a row or not. -/
lemma recordArchiveVersion_spec (cat : Catalog) (v : VaultId) (e : ListedVersion)
    (at_ scanId : Stamp) :
    ∃ owner minted new, Recorded cat v e scanId (recordArchiveVersion cat v e at_ scanId).1
      (recordArchiveVersion cat v e at_ scanId).2 owner minted new := by
  cases h : cat.versionAt? v e.objectKey e.versionId with
  | some fw => exact ⟨_, _, _, recorded_of_seen h⟩
  | none =>
      have hrec := recordArchiveVersion_of_new h at_ scanId
      have hnew := insertable_discoveredVersion at_ scanId h
      have hown : cat.ownerOf v e = (cat.cloudFile? v e.path).map VaultFile.id := by
        rw [Catalog.ownerOf, h]
      rw [hrec]
      rcases resolveCloudPathFile_spec cat v e.path at_ with ⟨g, hg, heq⟩ | ⟨hnone, hat, heq⟩
      · obtain ⟨hmem, hgv⟩ := Catalog.mem_of_cloudFile? hg
        refine ⟨_, [], _, recorded_of_insert (g := g) h ?_ ?_ ?_ ?_ hgv (by simp) (Or.inl ?_) hnew⟩
        · rw [heq, append_nil]
        · rw [heq]
        · rw [heq]
          exact hmem
        · rw [heq]
        · rw [hown, hg, heq]
          exact ⟨rfl, rfl⟩
      · refine ⟨_, [⟨cat.freshId, v, .active, some e.path, at_, [], none, [], []⟩], _,
          recorded_of_insert (g := ⟨cat.freshId, v, .active, some e.path, at_, [], none, [], []⟩)
            h ?_ ?_ ?_ ?_ rfl ?_ (Or.inr ?_) hnew⟩
        · rw [heq]
          rfl
        · rw [heq]
          rfl
        · rw [heq]
          exact mem_append_right _ mem_cons_self
        · rw [heq]
        · intro k hk
          rw [mem_singleton.mp hk, heq]
          exact ⟨⟨rfl, rfl, rfl, rfl, rfl, rfl⟩, rfl, hnone⟩
        · rw [hown, hnone, heq]
          exact ⟨rfl, fun f hf => cat.id_ne_freshId hf⟩

end Frostvault
