import Frostvault.Provider.Listing
import Mathlib.Data.List.Dedup

/-!
The authority of a snapshot cleanup (`app/services/snapshot_cleanup.py`, the tables of
`migrations/versions/0064_upload_provenance.py`): what the database must say before an exact
version may be removed in favour of a verified keeper.

Object keys are numbers here; `expected_cloud_key` and the path below the prefix of a Vault are
parameters.  Digests are valid ones, of 32 bytes.

* `CleanupDb`: the tables, with the inventories that were pinned and the proofs;
* `keeperOf`, `hasLineage`: the keeper, and a version the application wrote itself;
* `requireNamespaceOwner`, `requireVersionOwner`: keys and versions of other files;
* `pinLookup`: the inventory an attempt works with;
* `persistProof`, `persistPurge`: the transactions that write.
-/

namespace Frostvault

open Checks

/-! ### Rows -/

/-- A row of `snapshot_cleanup_inventories`. -/
structure CleanupInventory where
  jobId : JobId
  keeperId : Option RowId
  target : UploadTarget
  /-- `inventory_json`, by object key. -/
  inventory : List (ObjectKey × Inventory)
  createdAt : Stamp
  completedAt : Option Stamp
deriving DecidableEq, Repr

/-- `snapshot_cleanup_proof_method`. -/
inductive ProofMethod
  | exactGetDuplicate | independentLineage
deriving DecidableEq, Repr

/-- A row of `snapshot_cleanup_proofs`. -/
structure CleanupProof where
  vaultFileId : FileId
  bucket : String
  provider : String
  objectKey : ObjectKey
  versionId : ProviderVersionId
  keeperId : RowId
  sha256 : Digest
  size : ℕ
  method : ProofMethod
  provedAt : Stamp
  deletedAt : Option Stamp
deriving DecidableEq, Repr

/-- A row of `vault_class_moves`. -/
structure ClassMove where
  jobId : JobId
  token : ℕ
  sourceArchiveId : RowId
  sourceVersionId : ProviderVersionId
  objectKey : ObjectKey
  size : ℕ
  sha256 : Digest
  destinationVersionId : Option ProviderVersionId
  compositeChecksum : Option String
  destinationArchiveId : Option RowId
  copyStarted : Bool
  sourceDeleted : Bool
deriving DecidableEq, Repr

/-- The tables of a cleanup. -/
structure CleanupDb where
  upload : UploadDb
  /-- `archive_versions.upload_snapshot_json`. -/
  snapshots : RowId → Option UploadSnapshot
  inventories : List CleanupInventory
  proofs : List CleanupProof
  moves : List ClassMove
  /-- `snapshot_reconciliation_blocks.vault_file_id`. -/
  blocks : List FileId

/-- How keys are spelled: `expected_cloud_key` of a prefix and a path, and the path of a key
that starts with the prefix and a slash. -/
structure KeyNames where
  keyOf : String → Path → ObjectKey
  pathUnder : String → ObjectKey → Option Path

namespace CleanupDb

/-- A file by its id. -/
def file? (db : CleanupDb) (id : FileId) : Option VaultFile := db.upload.cat.file? id

/-- `SELECT .. FROM archive_versions WHERE vault_file_id=%s`. -/
def versions (db : CleanupDb) (file : FileId) : List ArchiveVersion :=
  ((db.file? file).map VaultFile.versions).getD []

/-- `SELECT path FROM file_paths WHERE vault_file_id=%s`. -/
def paths (db : CleanupDb) (file : FileId) : List Path :=
  ((db.file? file).map fun f => f.currentPath.toList ++ f.pathHistory.map PathRow.path).getD []

/-- `SELECT * FROM delete_markers WHERE vault_file_id=%s ORDER BY id`. -/
def markers (db : CleanupDb) (file : FileId) : List DeleteMarker :=
  (((db.file? file).map VaultFile.deleteMarkers).getD []).insertionSort fun a b => a.id ≤ b.id

/-- The digests Jobs captured for a version. -/
def expectedDigests (db : CleanupDb) (file : FileId) (version : RowId) : List Digest :=
  db.upload.cat.jobs.filterMap fun j =>
    if j.archiveVersionId = some version ∧ j.vaultFileId = file ∧
        (j.action = .upload ∨ j.action = .rename) then j.uploadPlaintextSha256 else none

end CleanupDb

/-- A bucket and a provider, where they are given, are those of a target. -/
def UploadTarget.inScope (t : UploadTarget) (bucket provider : Option String) : Bool :=
  bucket.all (· = t.bucket) && provider.all (· = t.provider)

/-! ### Lineage -/

/-- The intent wrote this version: pinned namespace, same snapshot, new identity, exact
receipt. -/
def intentWrote (db : CleanupDb) (row : ArchiveVersion) (bucket provider : Option String)
    (i : UploadIntent) : Outcome Bool := do
  require (row.integrity = .verified →
    row.plaintextSha256 = some i.snapshot.plaintextSha256) (.blocked .proofMismatch)
  match row.providerVersionId with
  | none => pure false
  | some version =>
      if i.target.inScope bucket provider && i.target.key = row.objectKey &&
          db.snapshots row.id = some i.snapshot && version ∉ i.inventory.versions then do
        let saved ← receipt db.upload i.id
        match saved with
        | none => pure false
        | some r =>
            if r.versionId = some version then
              match r.proof version i.snapshot with
              | none => throw (.blocked .proofMismatch)
              | some proof => pure (proof || row.integrity = .verified)
            else pure false
      else pure false

/-- The first intent that wrote the version decides. -/
def anyIntentWrote (db : CleanupDb) (row : ArchiveVersion) (bucket provider : Option String) :
    List UploadIntent → Outcome Bool
  | [] => pure false
  | i :: is => do
      if ← intentWrote db row bucket provider i then pure true
      else anyIntentWrote db row bucket provider is

/-- A class move made the version from a verified source with the same bytes. -/
def movedFromVerified (db : CleanupDb) (row : ArchiveVersion) (file : FileId) (vault : VaultId) :
    Bool :=
  db.moves.any fun m =>
    m.destinationArchiveId = some row.id && m.destinationVersionId.isSome &&
      m.destinationVersionId = row.providerVersionId && m.objectKey = row.objectKey &&
      m.copyStarted && some m.size = row.size && some m.sha256 = row.plaintextSha256 &&
      (db.versions file).any (fun s => s.id = m.sourceArchiveId && s.integrity = .verified &&
        s.plaintextSha256 = some m.sha256) &&
      (db.upload.cat.job? m.jobId).any fun j =>
        j.vaultFileId = file && j.vaultId = vault && j.action = .storageClass

/-- `_has_lineage` of a version of the file. -/
def hasLineage (db : CleanupDb) (row : ArchiveVersion) (file : FileId) (vault : VaultId)
    (bucket provider : Option String) : Outcome Bool :=
  match db.upload.intents.filter fun i =>
    i.archiveVersionId = some row.id && i.vaultFileId = file with
  | i :: is => do
      require (row.integrity ≠ .mismatch) (.blocked .proofMismatch)
      anyIntentWrote db row bucket provider (i :: is)
  | [] =>
      if row.integrity ≠ .verified ∨ row.plaintextSha256 = none then pure false
      else if db.inventories.any fun b =>
          b.keeperId = some row.id && !b.target.inScope bucket provider then pure false
      else do
        require (∀ d ∈ db.expectedDigests file row.id, row.plaintextSha256 = some d)
          (.blocked .proofMismatch)
        if row.origin = .upload ∧ db.expectedDigests file row.id ≠ [] then pure true
        else pure (movedFromVerified db row file vault)

/-- Some version of the list has lineage. -/
def anyLineage (db : CleanupDb) (file : FileId) (vault : VaultId)
    (bucket provider : Option String) : List ArchiveVersion → Outcome Bool
  | [] => pure false
  | row :: rows => do
      if ← hasLineage db row file vault bucket provider then pure true
      else anyLineage db file vault bucket provider rows

/-! ### The keeper -/

/-- The row of the keeper. -/
structure Keeper where
  row : ArchiveVersion
  snapshot : Option UploadSnapshot
  providerVersionId : ProviderVersionId
  size : ℕ
  sha256 : Digest
deriving DecidableEq, Repr

/-- The version a keeper id names, with the columns a keeper must have. -/
def keeperRow (db : CleanupDb) (job : WorkerJob) (keeperId : RowId) : Option Keeper := do
  let f ← db.file? job.row.vaultFileId
  guard (f.vaultId = job.row.vaultId)
  let row ← f.versions.find? fun w => w.id = keeperId
  guard (row.integrity = .verified ∧ row.availability = .available ∧
    row.providerVersionId ≠ some nullVersionId)
  let version ← row.providerVersionId
  let size ← row.size
  let sha256 ← row.plaintextSha256
  pure ⟨row, db.snapshots keeperId, version, size, sha256⟩

/-- The newest verified and available version of a file. -/
def CleanupDb.newestVerified (db : CleanupDb) (file : FileId) : Option RowId :=
  (db.file? file).bind VaultFile.onlyCloudCopy

/-- `_keeper`. -/
def keeperOf (names : KeyNames) (db : CleanupDb) (job : WorkerJob) (keeperId : RowId)
    (provider : String) : Outcome Keeper :=
  match keeperRow db job keeperId with
  | none => .error (.blocked .keeperMissing)
  | some keeper => do
      require (keeper.row.objectKey = names.keyOf job.s3Prefix job.row.path)
        (.blocked .identityChanged)
      require (keeper.snapshot.all fun s => s.plaintextSha256 = keeper.sha256)
        (.blocked .proofMismatch)
      require (∀ d ∈ db.expectedDigests job.row.vaultFileId keeperId, d = keeper.sha256)
        (.blocked .proofMismatch)
      require ((∀ i ∈ db.upload.intents, i.archiveVersionId = some keeperId →
          i.target.inScope (some job.s3Bucket) (some provider) = true) ∧
        ∀ b ∈ db.inventories, b.keeperId = some keeperId →
          b.target.inScope (some job.s3Bucket) (some provider) = true)
        (.blocked .identityChanged)
      let newer := (db.versions job.row.vaultFileId).filter fun w =>
        keeper.row.versionNumber < w.versionNumber && w.availability = .available
      let superseded ← anyLineage db job.row.vaultFileId job.row.vaultId (some job.s3Bucket)
        (some provider) newer
      -- a stale recovery is no authority over a later attempt
      require (superseded = false) (.blocked .targetSuperseded)
      require (db.newestVerified job.row.vaultFileId = some keeperId)
        (.blocked .targetSuperseded)
      pure keeper

/-- A keeper is the newest verified and available version. -/
lemma keeperOf_newest {names : KeyNames} {db : CleanupDb} {job : WorkerJob} {keeperId : RowId}
    {provider : String} {keeper : Keeper}
    (hkeeper : keeperOf names db job keeperId provider = .ok keeper) :
    db.newestVerified job.row.vaultFileId = some keeperId := by
  unfold keeperOf at hkeeper
  split at hkeeper
  · cases hkeeper
  · simp only [bind_eq_ok_iff, require_eq_ok_iff, pure_eq_ok_iff] at hkeeper
    obtain ⟨-, -, -, -, -, -, -, -, -, -, -, -, -, hnewest, -⟩ := hkeeper
    exact hnewest

/-! ### Owners -/

/-- No other file holds a path of the Vault. -/
def pathUnclaimed (db : CleanupDb) (vault : VaultId) (file : FileId) (p : Path) : Prop :=
  ∀ f ∈ db.upload.cat.files, f.vaultId = vault → f.currentPath = some p → f.id = file

instance (db : CleanupDb) (vault : VaultId) (file : FileId) (p : Path) :
    Decidable (pathUnclaimed db vault file p) :=
  inferInstanceAs (Decidable (∀ _ ∈ _, _))

/-- The key lies below the prefix, at a path no other file holds. -/
def keyOwned (names : KeyNames) (db : CleanupDb) (job : WorkerJob) (key : ObjectKey) : Prop :=
  ∃ p ∈ names.pathUnder job.s3Prefix key, pathUnclaimed db job.row.vaultId job.row.vaultFileId p

instance (names : KeyNames) (db : CleanupDb) (job : WorkerJob) (key : ObjectKey) :
    Decidable (keyOwned names db job key) :=
  inferInstanceAs (Decidable (∃ _ ∈ _, _))

/-- `_require_namespace_owner`. -/
def requireNamespaceOwner (names : KeyNames) (db : CleanupDb) (job : WorkerJob)
    (keys : List ObjectKey) : Outcome Unit :=
  require (∀ k ∈ keys, keyOwned names db job k) (.blocked .identityChanged)

/-- `_require_version_owner`. -/
def requireVersionOwner (db : CleanupDb) (job : WorkerJob) (key : ObjectKey)
    (version : ProviderVersionId) : Outcome Unit :=
  require (∀ f ∈ db.upload.cat.files, f.vaultId = job.row.vaultId → f.id ≠ job.row.vaultFileId →
    ∀ w ∈ f.versions, ¬(w.objectKey = key ∧ w.providerVersionId = some version))
    (.blocked .identityChanged)

/-- `ensure_job_claim_owned_in_transaction`. -/
def requireClaim (db : CleanupDb) (job : WorkerJob) : Outcome Unit :=
  require (claimOwned db.upload job = true) .leaseLost

/-! ### The pinned inventory -/

/-- A send of the file is not accounted for, and not this Job's. -/
def unboundSend (db : CleanupDb) (job : WorkerJob) : Bool :=
  db.upload.intents.any fun i =>
    i.vaultFileId = job.row.vaultFileId && i.outstanding &&
      !db.upload.intentJobs.any fun b => b.2 = i.id && b.1 = job.row.id

/-- The Job an inventory is kept for: the one that prepared the intent. -/
def inventoryJob (db : CleanupDb) (job : WorkerJob) : JobId :=
  match loadForJob db.upload job.row.id with
  | some i => i.originalJobId
  | none => job.row.id

/-- The unfinished inventories of a keeper. -/
def priorInventories (db : CleanupDb) (job : WorkerJob) (keeperId : RowId) :
    List CleanupInventory :=
  db.inventories.filter fun b =>
    b.completedAt.isNone && (b.keeperId = some keeperId ||
      (b.keeperId.isNone && (db.upload.cat.job? b.jobId).any fun j =>
        j.archiveVersionId = some keeperId && j.vaultFileId = job.row.vaultFileId))

/-- The keys of the file: that of its keeper, those of its versions, and those of its paths. -/
def namespaceKeys (names : KeyNames) (db : CleanupDb) (job : WorkerJob)
    (rows : List ArchiveVersion) : List ObjectKey :=
  ((names.keyOf job.s3Prefix job.row.path :: rows.map ArchiveVersion.objectKey ++
    (db.paths job.row.vaultFileId).map (names.keyOf job.s3Prefix)).dedup).insertionSort (· ≤ ·)

lemma namespaceKeys_nodup (names : KeyNames) (db : CleanupDb) (job : WorkerJob)
    (rows : List ArchiveVersion) : (namespaceKeys names db job rows).Nodup :=
  (List.perm_insertionSort _ _).nodup_iff.mpr (List.nodup_dedup _)

/-- What the first transaction of `pin_inventory` finds: an inventory, or what is to be
pinned. -/
inductive Pinning
  | found (b : CleanupInventory)
  | fresh (target : UploadTarget) (keys : List ObjectKey)
deriving DecidableEq, Repr

/-- The first transaction of `pin_inventory`. -/
def pinLookup (names : KeyNames) (db : CleanupDb) (job : WorkerJob) (keeperId : RowId)
    (provider : String) : Outcome Pinning := do
  require (unboundSend db job = false) (.blocked .ambiguousSend)
  match db.inventories.find? fun b => b.jobId = inventoryJob db job with
  | some old => pure (.found old)
  | none =>
      match priorInventories db job keeperId with
      | b :: bs => do
          require (∀ b' ∈ bs, b'.target = b.target ∧ b'.inventory = b.inventory)
            (.blocked .inventoryChanged)
          pure (.found b)
      | [] => do
          let pinned ← target db.upload job (names.keyOf job.s3Prefix job.row.path) provider
          let rows := (db.versions job.row.vaultFileId).filter fun w => w.availability ≠ .purged
          pure (.fresh pinned (namespaceKeys names db job rows))

/-- The second transaction of `pin_inventory`. -/
def saveInventory (db : CleanupDb) (job : WorkerJob) (pinned : UploadTarget)
    (baseline : List (ObjectKey × Inventory)) (now : Stamp) :
    Outcome (CleanupInventory × CleanupDb) := do
  requireTarget db.upload job pinned
  requireClaim db job
  let id := inventoryJob db job
  match db.inventories.find? fun b => b.jobId = id with
  | some old => pure (old, db)
  | none =>
      let b : CleanupInventory := ⟨id, none, pinned, baseline, now, none⟩
      pure (b, { db with inventories := db.inventories ++ [b] })

/-- Bind an inventory to a keeper, unless it has another one. -/
def CleanupInventory.bind (keeperId : RowId) (jobId : JobId) (b : CleanupInventory) :
    CleanupInventory :=
  if b.jobId = jobId ∧ (b.keeperId = none ∨ b.keeperId = some keeperId) then
    { b with keeperId := some keeperId }
  else b

/-- `bind_keeper`. -/
def bindKeeper (db : CleanupDb) (job : WorkerJob) (pinned : UploadTarget) (keeperId : RowId)
    (batch : JobId) : Outcome (Unit × CleanupDb) := do
  requireTarget db.upload job pinned
  requireClaim db job
  require (db.inventories.any fun b =>
      b.jobId = batch && (b.keeperId.isNone || b.keeperId = some keeperId))
    (.blocked .identityChanged)
  pure ((), { db with inventories := db.inventories.map (CleanupInventory.bind keeperId batch) })

/-! ### Proofs -/

/-- The primary key of a proof: the exact version of a file at a provider. -/
structure ProofKey where
  vaultFileId : FileId
  bucket : String
  provider : String
  objectKey : ObjectKey
  versionId : ProviderVersionId
deriving DecidableEq, Repr

def CleanupProof.key (p : CleanupProof) : ProofKey :=
  ⟨p.vaultFileId, p.bucket, p.provider, p.objectKey, p.versionId⟩

/-- The primary key of a proof of this Job's file. -/
def proofKey (job : WorkerJob) (provider : String) (key : ObjectKey)
    (version : ProviderVersionId) : ProofKey :=
  ⟨job.row.vaultFileId, job.s3Bucket, provider, key, version⟩

/-- A proof of the version names this keeper and its digest. -/
def CleanupDb.proved (db : CleanupDb) (k : ProofKey) (keeperId : RowId) (sha256 : Digest) : Bool :=
  db.proofs.any fun p => p.key = k && p.keeperId = keeperId && p.sha256 = sha256

/-- A proof written over the row with its key, unless that one's version was deleted. -/
def upsertProof (proofs : List CleanupProof) (p : CleanupProof) : List CleanupProof :=
  if proofs.any fun q => q.key = p.key then
    proofs.map fun q => if q.key = p.key ∧ q.deletedAt = none then
      { p with deletedAt := q.deletedAt } else q
  else proofs ++ [p]

/-- `persist_proof`. -/
def persistProof (names : KeyNames) (db : CleanupDb) (job : WorkerJob) (pinned : UploadTarget)
    (keys : List ObjectKey) (keeperId : RowId) (keeper : Keeper) (provider : String)
    (key : ObjectKey) (version : ProviderVersionId) (method : ProofMethod) (now : Stamp) :
    Outcome (Unit × CleanupDb) := do
  requireTarget db.upload job pinned
  requireNamespaceOwner names db job keys
  requireVersionOwner db job key version
  requireClaim db job
  let current ← keeperOf names db job keeperId provider
  require (current = keeper) (.blocked .identityChanged)
  pure ((), { db with
    proofs := upsertProof db.proofs
      { vaultFileId := job.row.vaultFileId
        bucket := job.s3Bucket
        provider := provider
        objectKey := key
        versionId := version
        keeperId := keeperId
        sha256 := keeper.sha256
        size := keeper.size
        method := method
        provedAt := now
        deletedAt := none } })

/-! ### The final transaction -/

/-- The proved versions the last listing does not show. -/
def provedAbsent (db : CleanupDb) (job : WorkerJob) (keeperId : RowId) (keeper : Keeper)
    (provider : String) (final : List (ObjectKey × Inventory)) (key : ObjectKey)
    (version : ProviderVersionId) : Bool :=
  db.proved (proofKey job provider key version) keeperId keeper.sha256 &&
    (final.lookup key).any fun inv => version ∉ inv.versions

/-- `mark_versions_purged`, of one row. -/
def ArchiveVersion.purge (now : Stamp) (w : ArchiveVersion) : ArchiveVersion :=
  { w with
    availability := .purged
    availabilityCheckedAt := some now }

/-- Purge the given versions. -/
def purgeVersions (cat : Catalog) (ids : List RowId) (now : Stamp) : Catalog :=
  cat.mapVersions (fun _ w => if w.id ∈ ids then w.purge now else w)
    ⟨fun _ w => by split <;> rfl, fun _ w => by split <;> rfl, fun _ w => by split <;> rfl⟩

/-- Drop the given delete markers of a file. -/
def dropMarkers (cat : Catalog) (file : FileId) (ids : List RowId) : Catalog :=
  cat.mapFiles
    (fun f => if f.id = file then
      { f with deleteMarkers := f.deleteMarkers.filter fun m => m.id ∉ ids } else f)
    (fun f => by split <;> rfl) (fun f => by split <;> rfl) (fun f => by split <;> rfl)
    fun f => by split <;> exact List.Sublist.refl _

/-- `persist_purge`. -/
def persistPurge (names : KeyNames) (db : CleanupDb) (job : WorkerJob) (pinned : UploadTarget)
    (keys : List ObjectKey) (keeperId : RowId) (keeper : Keeper) (provider : String)
    (rows : List ArchiveVersion) (markers : List DeleteMarker) (batch : JobId)
    (final : List (ObjectKey × Inventory)) (now : Stamp) : Outcome (Unit × CleanupDb) := do
  requireTarget db.upload job pinned
  requireNamespaceOwner names db job keys
  requireClaim db job
  let current ← keeperOf names db job keeperId provider
  require (current = keeper) (.blocked .identityChanged)
  require (db.markers job.row.vaultFileId = markers) (.blocked .inventoryChanged)
  let stale := markers.filter fun m => (final.lookup m.objectKey).any fun inv => inv.markers = []
  let absent := provedAbsent db job keeperId keeper provider final
  let purged := rows.filter fun r => r.providerVersionId.any (absent r.objectKey)
  let cat := purgeVersions (dropMarkers db.upload.cat job.row.vaultFileId
    (stale.map DeleteMarker.id)) (purged.map ArchiveVersion.id) now
  pure ((), { db with
    upload := settleKeeper { db.upload with cat := cat } job.row.vaultFileId keeperId
    proofs := db.proofs.map fun p =>
      if p.vaultFileId = job.row.vaultFileId ∧ p.bucket = job.s3Bucket ∧ p.provider = provider ∧
          absent p.objectKey p.versionId = true then
        { p with deletedAt := p.deletedAt.or (some now) } else p
    inventories := db.inventories.map fun b =>
      if b.jobId = batch then { b with completedAt := b.completedAt.or (some now) } else b
    blocks := db.blocks.filter fun f => f ≠ job.row.vaultFileId })

end Frostvault
