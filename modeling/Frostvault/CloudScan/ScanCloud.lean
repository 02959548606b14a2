import Frostvault.CloudScan.Versions

/-!
The cloud scan (`scan_cloud` of `app/storage.py`).

A scan reads the whole listing of a Vault, decides which paths have lost their keeper, and
merges the listed versions into the catalog in bounded write batches.  Before each batch it
asks whether it still is the newest scan; a superseded scan returns where it is.

* `Listing`, `readListing`: the decoded listing, cut into write batches;
* `markUnlistedSnapshotVersionsSuperseded`, `markUnseenArchiveVersionsMissing`: the two ways a
  scan takes a row out of the archive;
* `scanCloud`: the scan;
* `committedBatches`: the batches a scan merges before it is superseded.
-/

namespace Frostvault

/-! ### The listing -/

/-- An item of `list_object_versions`, a version or a delete marker. -/
structure ObjectItem where
  key : ObjectKey
  versionId : ProviderVersionId
  size : Option ℕ
  storageClass : Option StorageClass
  etag : Option String
  lastModified : Option Stamp
deriving DecidableEq, Repr

/-- One delete marker of a listing: `(logical_path, version_id, object_key, timestamp)`. -/
structure ListedMarker where
  path : Path
  versionId : ProviderVersionId
  objectKey : ObjectKey
  timestamp : Stamp
deriving DecidableEq, Repr

/-- How the keys of a Vault are read: `object_key_to_path`, and the keys that end in a slash. -/
structure KeyCodec where
  path? : ObjectKey → Option Path
  isFolder : ObjectKey → Bool

/-- A listing as a scan merges it: decoded, in some order and cut into write batches. -/
structure Listing (codec : KeyCodec) where
  batches : List (List ListedVersion)
  markerBatches : List (List ListedMarker)
  invalidKeys : Bool
  decoded : ∀ b ∈ batches, ∀ e ∈ b, codec.path? e.objectKey = some e.path

/-- All versions of a listing. -/
def Listing.versions {codec : KeyCodec} (listing : Listing codec) : List ListedVersion :=
  listing.batches.flatten

/-- `str.strip('"')`. -/
def stripQuotes (s : String) : String :=
  String.ofList (((s.toList.dropWhile (· = '"')).reverse.dropWhile (· = '"')).reverse)

/-- `convert_page` on a version. -/
def convertVersion (codec : KeyCodec) (scanId : Stamp) (i : ObjectItem) : Option ListedVersion :=
  (codec.path? i.key).map fun p =>
    ⟨p, i.versionId, i.key, i.size, i.storageClass.getD "STANDARD", stripQuotes (i.etag.getD ""),
      i.lastModified.getD scanId⟩

/-- `convert_page` on a delete marker. -/
def convertMarker (codec : KeyCodec) (scanId : Stamp) (i : ObjectItem) : Option ListedMarker :=
  (codec.path? i.key).map fun p => ⟨p, i.versionId, i.key, i.lastModified.getD scanId⟩

/-- An unrecognised key that is no folder. -/
def invalidKey (codec : KeyCodec) (i : ObjectItem) : Bool :=
  (codec.path? i.key).isNone && !codec.isFolder i.key

/-- The order of the merge: path, time, key, version. -/
def mergeOrder (a b : Path × Stamp × ObjectKey × ProviderVersionId) : Bool :=
  a.1 < b.1 || (a.1 = b.1 && (a.2.1 < b.2.1 || (a.2.1 = b.2.1 && (a.2.2.1 < b.2.2.1 ||
    (a.2.2.1 = b.2.2.1 && a.2.2.2 ≤ b.2.2.2)))))

/-- `CLOUD_SCAN_WRITE_BATCH_SIZE`. -/
def cloudScanWriteBatchSize : ℕ := 250

/-- `for offset in range(0, len(l), SIZE): l[offset : offset + SIZE]`. -/
def writeBatches {α : Type} (l : List α) : List (List α) :=
  (List.range ((l.length + (cloudScanWriteBatchSize - 1)) / cloudScanWriteBatchSize)).map fun i =>
    (l.drop (i * cloudScanWriteBatchSize)).take cloudScanWriteBatchSize

lemma mem_of_mem_writeBatches {α : Type} {l b : List α} {x : α} (hb : b ∈ writeBatches l)
    (hx : x ∈ b) : x ∈ l := by
  obtain ⟨i, -, rfl⟩ := List.mem_map.mp hb
  exact List.mem_of_mem_drop (List.mem_of_mem_take hx)

/-- The listing a scan reads from the pages of the provider. -/
def readListing (codec : KeyCodec) (scanId : Stamp) (versions markers : List ObjectItem) :
    Listing codec where
  batches := writeBatches ((versions.filterMap (convertVersion codec scanId)).insertionSort
    fun a b => mergeOrder (a.path, a.timestamp, a.objectKey, a.versionId)
      (b.path, b.timestamp, b.objectKey, b.versionId) = true)
  markerBatches := writeBatches ((markers.filterMap (convertMarker codec scanId)).insertionSort
    fun a b => mergeOrder (a.path, a.timestamp, a.objectKey, a.versionId)
      (b.path, b.timestamp, b.objectKey, b.versionId) = true)
  invalidKeys := (versions ++ markers).any (invalidKey codec)
  decoded b hb e he := by
    have hmem := (List.mem_insertionSort _).mp (mem_of_mem_writeBatches hb he)
    obtain ⟨i, -, hi⟩ := List.mem_filterMap.mp hmem
    obtain ⟨p, hp, rfl⟩ := Option.map_eq_some_iff.mp hi
    exact hp

/-! ### Rows a scan takes out -/

/-- The file has an upload that is not terminal. -/
def activeUpload (cat : Catalog) (file : FileId) : Bool :=
  cat.jobs.any fun j => j.vaultFileId = file && j.action = .upload && !j.status.terminal

/-- The row was not seen by this scan and was there when it started. -/
def ArchiveVersion.unseen (w : ArchiveVersion) (scanId startedAt : Stamp) : Bool :=
  w.availabilityCheckedAt ≠ some scanId && w.discoveredAt ≤ startedAt

/-- `availability NOT IN ('missing', 'purged')`. -/
def ArchiveVersion.inArchive (w : ArchiveVersion) : Bool :=
  w.availability ≠ .missing && w.availability ≠ .purged

/-- `SET availability=%s, availability_checked_at=%s`. -/
def ArchiveVersion.setAvailability (w : ArchiveVersion) (a : Availability) (at_ : Stamp) :
    ArchiveVersion :=
  { w with availability := a, availabilityCheckedAt := some at_ }

/-- The file of a version row. -/
def Catalog.versionOwner? (cat : Catalog) (id : RowId) : Option VaultFile :=
  cat.files.find? fun f => f.versions.any fun w => w.id = id

/-- `mark_unlisted_snapshot_versions_superseded`. -/
def markUnlistedSnapshotVersionsSuperseded (cat : Catalog) (kept : RowId)
    (scanId startedAt : Stamp) : Catalog :=
  match cat.versionOwner? kept with
  | none => cat
  | some owner =>
      cat.mapVersions
        (fun f w =>
          if f.id = owner.id ∧ w.id ≠ kept ∧ w.inArchive ∧ w.unseen scanId startedAt ∧
              activeUpload cat owner.id = false then
            w.setAvailability .purged scanId
          else w)
        ⟨fun _ _ => by split <;> rfl, fun _ _ => by split <;> rfl, fun _ _ => by split <;> rfl⟩

/-- `mark_unseen_archive_versions_missing`: the catalog after it, and the rows that left the
archive unexpectedly. -/
def markUnseenArchiveVersionsMissing (cat : Catalog) (v : VaultId) (scanId startedAt : Stamp) :
    Catalog × List RowId :=
  (cat.mapVersions
    (fun f w =>
      if f.vaultId = v ∧ w.unseen scanId startedAt ∧ w.availability ≠ .purged ∧
          activeUpload cat f.id = false then
        w.setAvailability .missing scanId
      else w)
    ⟨fun _ _ => by split <;> rfl, fun _ _ => by split <;> rfl, fun _ _ => by split <;> rfl⟩,
    (cat.files.filter fun f => f.vaultId = v && !activeUpload cat f.id).flatMap fun f =>
      (f.versions.filter fun w => w.unseen scanId startedAt && w.inArchive).map ArchiveVersion.id)

/-! ### The merge -/

/-- The row a file keeps: the newest one that is in the archive. -/
def VaultFile.keeper? (f : VaultFile) : Option ArchiveVersion :=
  newest (f.versions.filter ArchiveVersion.inArchive)

/-- The path has lost its keeper: the row its file keeps is not among the listed versions. -/
def staleKeeper (cat : Catalog) (v : VaultId) (listed : List ListedVersion) (p : Path) : Bool :=
  ((cat.fileAt? v p).bind VaultFile.keeper?).any fun k =>
    listed.all fun e => e.path ≠ p || !k.isObject e.objectKey e.versionId

/-- `stale_keeper_paths`. -/
def staleKeeperPaths (cat : Catalog) (v : VaultId) (listed : List ListedVersion) : List Path :=
  (listed.map ListedVersion.path).dedup.filter (staleKeeper cat v listed)

/-- The answers of `now_iso()`, one for each entry that is recorded. -/
structure ScanClock where
  version : ListedVersion → Stamp
  marker : ListedMarker → Stamp

/-- What a scan knows while it merges: the Vault, its id, the time of each record, and the paths
whose other versions it supersedes. -/
structure MergeScope where
  vaultId : VaultId
  scanId : Stamp
  clock : ScanClock
  superseded : List Path

/-- One listed version, recorded. -/
def mergeVersion (scope : MergeScope) (cat : Catalog) (e : ListedVersion) : Catalog :=
  let r := recordArchiveVersion cat scope.vaultId e (scope.clock.version e) scope.scanId
  if e.path ∈ scope.superseded then
    markUnlistedSnapshotVersionsSuperseded r.1 r.2 scope.scanId scope.scanId
  else r.1

/-- One write batch. -/
def mergeBatch (scope : MergeScope) (cat : Catalog) (batch : List ListedVersion) : Catalog :=
  batch.foldl (mergeVersion scope) cat

/-- `record_delete_marker`. -/
def recordDeleteMarker (cat : Catalog) (v : VaultId) (m : ListedMarker) (observedAt : Stamp) :
    Catalog :=
  let r := resolveCloudPathFile cat v m.path observedAt
  let isMarker := fun d : DeleteMarker =>
    d.objectKey = m.objectKey && d.providerVersionId = m.versionId
  let known := r.1.files.any fun f => f.vaultId = v && f.deleteMarkers.any isMarker
  let id := Catalog.fresh ((r.1.files.flatMap VaultFile.deleteMarkers).map DeleteMarker.id)
  r.1.mapFiles
    (fun f => { f with deleteMarkers :=
      if known then f.deleteMarkers.map fun d =>
        if f.vaultId = v ∧ isMarker d then { d with discoveredAt := observedAt } else d
      else if f.id = r.2 then
        f.deleteMarkers ++ [⟨id, m.objectKey, m.versionId, m.timestamp, observedAt⟩]
      else f.deleteMarkers })
    (fun _ => rfl) (fun _ => rfl) (fun _ => rfl) fun _ => List.Sublist.refl _

/-! ### The scan -/

/-- `for offset in range(..): if not _cloud_scan_still_current(..): return`: the batches that
are written before the scan is superseded; `current` answers the checks in turn. -/
def committedBatches {α : Type} (current : ℕ → Bool) : ℕ → List α → List α
  | _, [] => []
  | i, b :: bs => if current i then b :: committedBatches current (i + 1) bs else []

/-- What a scan knows about a Vault once it has read its listing. -/
def mergeScope {codec : KeyCodec} (cat : Catalog) (v : VaultId) (scanId : Stamp)
    (clock : ScanClock) (listing : Listing codec) : MergeScope where
  vaultId := v
  scanId := scanId
  clock := clock
  superseded := if listing.invalidKeys then [] else staleKeeperPaths cat v listing.versions

/-- What a scan leaves. -/
structure ScanResult where
  catalog : Catalog
  newlyMissing : List RowId

/-- `scan_cloud`, from the listing on, as the periodic scan calls it.  The checks of `_cloud_scan_still_current` are numbered:
one before each write batch of versions, one before each batch of markers, and the last one
before unseen versions go missing. -/
def scanCloud {codec : KeyCodec} (cat : Catalog) (v : VaultId) (scanId : Stamp)
    (clock : ScanClock) (listing : Listing codec) (current : ℕ → Bool) : ScanResult :=
  let n := listing.batches.length
  let m := listing.markerBatches.length
  let scope := mergeScope cat v scanId clock listing
  let merged := (committedBatches current 0 listing.batches).foldl (mergeBatch scope) cat
  if (committedBatches current 0 listing.batches).length < n then ⟨merged, []⟩
  else
    let marked := (committedBatches current n listing.markerBatches).foldl
      (fun cat batch => batch.foldl (fun cat m => recordDeleteMarker cat v m (clock.marker m)) cat)
      merged
    if (committedBatches current n listing.markerBatches).length < m then ⟨marked, []⟩
    else if listing.invalidKeys || !current (n + m) then ⟨marked, []⟩
    else
      let done := markUnseenArchiveVersionsMissing marked v scanId scanId
      ⟨done.1, done.2⟩

end Frostvault
