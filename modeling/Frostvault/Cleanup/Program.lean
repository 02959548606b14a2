import Frostvault.Cleanup.Authority
import Frostvault.Upload.Reconcile

/-!
The cleanup of superseded snapshots (`cleanup`, `pin_inventory` and `exact_duplicate` of
`app/services/snapshot_cleanup.py`), as a program that shares the database and the bucket with
others.

Every provider call is an action, and so is every transaction, except the one around a
deletion: there every statement is an action, for under `READ COMMITTED` each of them sees
another moment.  That transaction holds the locks of the Vault row and of the Job row until the
call returns (`CleanupWorld.held`).

The provider is a parameter: what it answers in each state of the bucket, and what a deletion
makes of that state.

* `S3Client`, `CleanupWorld`, `CleanupEvent`: the provider, the world, and what is recorded;
* `pinInventory`, `exactDuplicate`, `proveVersion`, `deleteVersion`: the parts;
* `cleanup`: the program.
-/

namespace Frostvault

open Effects

/-! ### The world -/

/-- What `cleanup` raises: `UploadBlocked`, `JobLeaseLost`, `OperationCancelled`,
`SourceVolumeUnavailable`, or the exception of a provider call. -/
inductive CleanupError
  | blocked (reason : BlockReason)
  | leaseLost
  | cancelled
  | volumeUnavailable
  | provider (e : ProviderError)
deriving DecidableEq, Repr

/-- The exception of a database function. -/
def UploadError.raised : UploadError → CleanupError
  | .blocked reason => .blocked reason
  | .leaseLost => .leaseLost

/-- The exception of a guarded listing. -/
def ReadError.cleanupError : ReadError → CleanupError
  | .blocked reason => .blocked reason
  | .provider e => .provider e

/-- The reply to a GET of an exact version; the body as its reads return it. -/
structure GetReply where
  versionId : Option ProviderVersionId
  deleteMarker : Bool
  contentLength : Option ℕ
  /-- The metadata carry an upload or a move token. -/
  tagged : Bool
  body : Option (List (Except ProviderError (List UInt8)))

/-- A provider over the states `β` of its bucket. -/
structure S3Client (β : Type) where
  /-- `provider_identity`. -/
  identity : String
  versionPages : β → ObjectKey → List (Except ProviderError VersionPage)
  /-- `_bucket_still_ready`. -/
  bucketReady : β → Bool
  get : β → ObjectKey → ProviderVersionId → Except ProviderError GetReply
  delete : β → ObjectKey → ProviderVersionId → Except ProviderError Unit × β
  sha256 : List UInt8 → Digest

/-- What `_validate_enrolled_scan_root` finds. -/
inductive RootState
  | enrolled | unreadable | changed
deriving DecidableEq, Repr

/-- The world of a cleanup. -/
structure CleanupWorld (β : Type) where
  db : CleanupDb
  bucket : β
  now : Stamp
  /-- What `ensure_job_active` raises, if anything. -/
  interrupted : Option CleanupError
  /-- `job_cancelled`. -/
  jobCancelled : Bool
  /-- `local_operations_allowed`. -/
  volumeAllows : Bool
  root : RootState
  /-- The transaction around a deletion is open. -/
  held : Bool

/-- What a cleanup records.  A deletion is recorded with the tables at the moment of the call
and with what the cleanup holds: its keeper, its inventory, and the listing it expects. -/
inductive CleanupEvent
  | checked
  /-- The inventories are looked up, in these tables. -/
  | pinRead (db : CleanupDb)
  /-- An inventory is written to these tables. -/
  | pinSaved (db : CleanupDb) (now : Stamp)
  | listed (key : ObjectKey) (r : Except CleanupError Inventory)
  | got (key : ObjectKey) (version : ProviderVersionId)
  | proved (key : ObjectKey) (version : ProviderVersionId)
  /-- The keeper is checked in the transaction around a deletion. -/
  | keeperChecked (db : CleanupDb) (r : Except CleanupError Unit)
  | deleted (key : ObjectKey) (version : ProviderVersionId) (keeper : Keeper)
      (batch : CleanupInventory) (expected : List (ObjectKey × Inventory)) (db : CleanupDb)
  | purged

variable {β : Type}

/-- The programs of this module. -/
abbrev Cleaning (β : Type) := Prog (CleanupWorld β) CleanupEvent CleanupError

/-! ### Single actions -/

/-- A read of the database. -/
def readDb {α : Type} (f : CleanupDb → Outcome α) : Cleaning β α :=
  .ask (fun _ => .checked) fun w => (f w.db).mapError UploadError.raised

/-- A transaction that writes. -/
def writeDb {α : Type} (event : CleanupEvent) (f : CleanupDb → Stamp → Outcome (α × CleanupDb)) :
    Cleaning β α :=
  .commit (fun _ => event) fun w =>
    ((f w.db w.now).map fun r => (r.1, { w with db := r.2 })).mapError UploadError.raised

/-- `ensure_job_active`. -/
def ensureActive : Cleaning β Unit :=
  .ask (fun _ => .checked) fun w =>
    match w.interrupted with
    | none => .ok ()
    | some e => .error e

/-- The Source Volume, and the root on it. -/
def sourceState (w : CleanupWorld β) : Except CleanupError Unit :=
  if w.volumeAllows = false then .error .volumeUnavailable
  else
    match w.root with
    | .enrolled => .ok ()
    | .unreadable => .error .volumeUnavailable
    | .changed => .error (.blocked .identityChanged)

/-- `_require_upload_source_identity`. -/
def requireSource (job : WorkerJob) : Cleaning β Unit := do
  ensureActive
  .ask (fun _ => .checked) fun w =>
    if (w.db.upload.vaults job.row.vaultId).any fun v => v.sourceRoot = job.sourceRoot then
      sourceState w
    else .error (.blocked .identityChanged)

/-- `inventory` of one key. -/
def listKey (S : S3Client β) (key : ObjectKey) : Cleaning β Inventory :=
  .ask (.listed key) fun w =>
    (inventory key (S.bucketReady w.bucket) (S.versionPages w.bucket key)).mapError
      ReadError.cleanupError

/-- `{key: inventory(..) for key in sorted(keys)}`. -/
def listKeys (S : S3Client β) : List ObjectKey → Cleaning β (List (ObjectKey × Inventory))
  | [] => pure []
  | key :: keys => do
      let inv ← listKey S key
      let rest ← listKeys S keys
      pure ((key, inv) :: rest)

/-! ### The pinned inventory -/

/-- The first transaction of `pin_inventory`. -/
def readPinning (S : S3Client β) (names : KeyNames) (job : WorkerJob) (keeperId : RowId) :
    Cleaning β Pinning :=
  .act (fun w => .pinRead w.db) id fun w =>
    .ofExcept ((pinLookup names w.db job keeperId S.identity).mapError UploadError.raised)

/-- The last transaction of `pin_inventory`. -/
def savePinned (job : WorkerJob) (pinned : UploadTarget)
    (baseline : List (ObjectKey × Inventory)) : Cleaning β CleanupInventory :=
  .commit (fun w => .pinSaved w.db w.now) fun w =>
    ((saveInventory w.db job pinned baseline w.now).map fun r =>
      (r.1, { w with db := r.2 })).mapError UploadError.raised

/-- `pin_inventory`. -/
def pinInventory (S : S3Client β) (names : KeyNames) (job : WorkerJob) (keeperId : RowId) :
    Cleaning β CleanupInventory := do
  let pinning ← readPinning S names job keeperId
  match pinning with
  | .found batch => pure batch
  | .fresh pinned keys => do
      readDb fun db => requireNamespaceOwner names db job keys
      let baseline ← listKeys S keys
      let again ← listKeys S keys
      .require (baseline = again) (.blocked .inventoryChanged)
      savePinned job pinned baseline

/-! ### Exact duplicates -/

/-- The reads of a body; every exception of one is `proof_unavailable`. -/
def readChunks (size : ℕ) :
    List (Except ProviderError (List UInt8)) → List UInt8 → Cleaning β (List UInt8)
  | [], bytes => do
      ensureActive
      pure bytes
  | .error _ :: _, _ => do
      ensureActive
      .raise (.blocked .proofUnavailable)
  | .ok chunk :: chunks, bytes => do
      ensureActive
      if chunk = [] then pure bytes
      else do
        .require (bytes.length + chunk.length ≤ size) (.blocked .orphanDifferent)
        readChunks size chunks (bytes ++ chunk)

/-- `exact_duplicate`. -/
def exactDuplicate (S : S3Client β) (key : ObjectKey) (version : ProviderVersionId)
    (digest : Digest) (size : ℕ) : Cleaning β Unit := do
  let reply ← Prog.ask (fun _ => .got key version) fun w =>
    (S.get w.bucket key version).mapError fun _ => .blocked .proofUnavailable
  match reply.body with
  | none => .raise (.blocked .proofUnavailable)
  | some chunks => do
      .require (reply.versionId = some version ∧ reply.deleteMarker = false ∧
        reply.contentLength = some size) (.blocked .proofUnavailable)
      .require (reply.tagged = false) (.blocked .ambiguousReceipt)
      let bytes ← readChunks size chunks []
      .require (bytes.length = size) (.blocked .proofUnavailable)
      .require (S.sha256 bytes = digest) (.blocked .orphanDifferent)

/-! ### Proofs -/

/-- What a cleanup has read and pinned when its loops start. -/
structure CleanupPlan where
  keeperId : RowId
  keeper : Keeper
  provider : String
  target : UploadTarget
  keys : List ObjectKey
  rows : List ArchiveVersion
  markers : List DeleteMarker
  batch : CleanupInventory

/-- The keeper's exact version. -/
def CleanupPlan.kept (plan : CleanupPlan) : ObjectKey × ProviderVersionId :=
  (plan.keeper.row.objectKey, plan.keeper.providerVersionId)

/-- What a proof loop round reads: whether there is a proof already, and lineage. -/
def proofState (names : KeyNames) (job : WorkerJob) (plan : CleanupPlan) (key : ObjectKey)
    (version : ProviderVersionId) (db : CleanupDb) : Outcome (Bool × Bool) := do
  requireNamespaceOwner names db job plan.keys
  requireVersionOwner db job key version
  let proof := db.proofs.find? fun p => p.key = proofKey job plan.provider key version
  let known := plan.rows.find? fun r => r.objectKey = key && r.providerVersionId = some version
  let lineage ← match known with
    | none => pure false
    | some row =>
        hasLineage db row job.row.vaultFileId job.row.vaultId (some job.s3Bucket)
          (some plan.provider)
  pure (proof.any fun p => p.keeperId = plan.keeperId && p.sha256 = plan.keeper.sha256 &&
    p.size = plan.keeper.size, lineage)

/-- One round of the proof loop. -/
def proveVersion (S : S3Client β) (names : KeyNames) (job : WorkerJob) (plan : CleanupPlan)
    (key : ObjectKey) (version : ProviderVersionId) : Cleaning β Unit := do
  ensureActive
  let (proof, lineage) ← readDb (proofState names job plan key version)
  if proof then pure ()
  else do
    if lineage then pure ()
    else exactDuplicate S key version plan.keeper.sha256 plan.keeper.size
    writeDb (.proved key version) fun db now =>
      persistProof names db job plan.target plan.keys plan.keeperId plan.keeper plan.provider
        key version (if lineage then .independentLineage else .exactGetDuplicate) now

/-- The proof loop. -/
def proveVersions (S : S3Client β) (names : KeyNames) (job : WorkerJob) (plan : CleanupPlan) :
    List (ObjectKey × ProviderVersionId) → Cleaning β Unit
  | [] => pure ()
  | c :: cs => do
      proveVersion S names job plan c.1 c.2
      proveVersions S names job plan cs

/-! ### Deletions -/

/-- `require_target` of the transaction around a deletion: from here on the locks are held. -/
def lockTarget (job : WorkerJob) (pinned : UploadTarget) : Cleaning β Unit :=
  .commit (fun _ => .checked) fun w =>
    ((requireTarget w.db.upload job pinned).map fun u => (u, { w with held := true })).mapError
      UploadError.raised

/-- The keeper is still the one the cleanup started with. -/
def checkKeeper (names : KeyNames) (job : WorkerJob) (plan : CleanupPlan) : Cleaning β Unit :=
  .act (fun w => .keeperChecked w.db (result w.db)) id fun w => .ofExcept (result w.db)
where
  result (db : CleanupDb) : Except CleanupError Unit :=
    match keeperOf names db job plan.keeperId plan.provider with
    | .error e => .error e.raised
    | .ok keeper => if keeper = plan.keeper then .ok () else .error (.blocked .identityChanged)

/-- `_delete_s3_version`: a version that is gone already is fine.  The locks go with the
transaction. -/
def deleteCall (S : S3Client β) (plan : CleanupPlan) (expected : List (ObjectKey × Inventory))
    (key : ObjectKey) (version : ProviderVersionId) : Cleaning β Unit :=
  .act (fun w => .deleted key version plan.keeper plan.batch expected w.db)
    (fun w => { w with
      bucket := (S.delete w.bucket key version).2
      held := false })
    fun w => match (S.delete w.bucket key version).1 with
      | .ok () | .error .notFound => pure ()
      | .error e => .raise (.provider e)

/-- The transaction around a deletion. -/
def deleteLocked (S : S3Client β) (names : KeyNames) (job : WorkerJob) (plan : CleanupPlan)
    (expected : List (ObjectKey × Inventory)) (key : ObjectKey) (version : ProviderVersionId) :
    Cleaning β Unit := do
  lockTarget job plan.target
  readDb fun db => requireNamespaceOwner names db job plan.keys
  readDb fun db => requireVersionOwner db job key version
  readDb fun db => requireClaim db job
  checkKeeper names job plan
  .ask (fun _ => .checked) sourceState
  .ask (fun _ => .checked) fun w => if w.jobCancelled then .error .cancelled else .ok ()
  let proof ← readDb fun db => .ok
    (db.proved (proofKey job plan.provider key version) plan.keeperId plan.keeper.sha256)
  .require (proof = true ∧ (key, version) ≠ plan.kept) (.blocked .ambiguousReceipt)
  deleteCall S plan expected key version

/-- One round of the deletion loop. -/
def deleteVersion (S : S3Client β) (names : KeyNames) (job : WorkerJob) (plan : CleanupPlan)
    (expected : List (ObjectKey × Inventory)) (key : ObjectKey) (version : ProviderVersionId) :
    Cleaning β Unit := do
  ensureActive
  let observed ← listKeys S plan.keys
  .require (observed = expected) (.blocked .inventoryChanged)
  deleteLocked S names job plan expected key version

/-- `expected[key]["versions"].remove(version)`. -/
def removeVersion (key : ObjectKey) (version : ProviderVersionId)
    (expected : List (ObjectKey × Inventory)) : List (ObjectKey × Inventory) :=
  expected.map fun e => if e.1 = key then (key, { e.2 with versions := e.2.versions.erase version })
    else e

/-- The deletion loop; it returns the listing that is left. -/
def deleteVersions (S : S3Client β) (names : KeyNames) (job : WorkerJob) (plan : CleanupPlan) :
    List (ObjectKey × Inventory) → List (ObjectKey × ProviderVersionId) →
      Cleaning β (List (ObjectKey × Inventory))
  | expected, [] => pure expected
  | expected, c :: cs => do
      deleteVersion S names job plan expected c.1 c.2
      deleteVersions S names job plan (removeVersion c.1 c.2 expected) cs

/-! ### The program -/

/-- The reads of the first transaction. -/
structure CleanupStart where
  keeper : Keeper
  target : UploadTarget
  rows : List ArchiveVersion
  keys : List ObjectKey
  markers : List DeleteMarker

/-- The versions of the file that are not the keeper and not purged. -/
def otherRows (db : CleanupDb) (job : WorkerJob) (keeperId : RowId) : List ArchiveVersion :=
  (db.versions job.row.vaultFileId).filter fun w =>
    w.id ≠ keeperId && w.availability ≠ .purged

/-- The first transaction. -/
def readStart (names : KeyNames) (job : WorkerJob) (keeperId : RowId) (provider : String)
    (db : CleanupDb) : Outcome CleanupStart := do
  let keeper ← keeperOf names db job keeperId provider
  let pinned ← target db.upload job keeper.row.objectKey provider
  let rows := otherRows db job keeperId
  pure ⟨keeper, pinned, rows, namespaceKeys names db job rows, db.markers job.row.vaultFileId⟩

/-- The pinned listing of a key. -/
def CleanupInventory.at (b : CleanupInventory) (key : ObjectKey) : Inventory :=
  (b.inventory.lookup key).getD ⟨[], []⟩

/-- The versions a listing may show: those pinned, and the keeper. -/
def admitted (plan : CleanupPlan) (key : ObjectKey) : List ProviderVersionId :=
  if key = plan.kept.1 then plan.kept.2 :: (plan.batch.at key).versions
  else (plan.batch.at key).versions

/-- A listing against the pinned one: nothing new, and what is missing was proved. -/
def checkBaseline (job : WorkerJob) (plan : CleanupPlan) :
    List (ObjectKey × Inventory) → Cleaning β Unit
  | [] => pure ()
  | (key, inv) :: rest => do
      .require ((∀ v ∈ inv.versions, v ∈ admitted plan key) ∧
        inv.markers = (plan.batch.at key).markers) (.blocked .inventoryChanged)
      readDb fun db => Checks.require
        (∀ v ∈ (plan.batch.at key).versions, v ∉ inv.versions →
          db.proved (proofKey job plan.provider key v) plan.keeperId plan.keeper.sha256 = true)
        (.blocked .inventoryChanged)
      checkBaseline job plan rest

/-- The versions to delete: all but the keeper. -/
def candidates (plan : CleanupPlan) (expected : List (ObjectKey × Inventory)) :
    List (ObjectKey × ProviderVersionId) :=
  (expected.flatMap fun e => e.2.versions.map fun v => (e.1, v)).filter (· ≠ plan.kept)

/-- `cleanup`, from the pinned inventory on. -/
def runPlan (S : S3Client β) (names : KeyNames) (job : WorkerJob) (plan : CleanupPlan) :
    Cleaning β JobId := do
  writeDb .checked fun db _ => bindKeeper db job plan.target plan.keeperId plan.batch.jobId
  readDb fun db => requireTarget db.upload job plan.batch.target
  .require (plan.provider = plan.batch.target.provider ∧
    SameSet (plan.batch.inventory.map Prod.fst) plan.keys) (.blocked .identityChanged)
  let expected ← listKeys S plan.keys
  .require ((expected.lookup plan.kept.1).any fun inv => plan.kept.2 ∈ inv.versions)
    (.blocked .keeperMissing)
  checkBaseline job plan expected
  .require (∀ e ∈ expected, e.2.markers = []) (.blocked .markersPresent)
  let again ← listKeys S plan.keys
  .require (expected = again) (.blocked .inventoryChanged)
  proveVersions S names job plan (candidates plan expected)
  let left ← deleteVersions S names job plan expected (candidates plan expected)
  ensureActive
  let final ← listKeys S plan.keys
  .require (final = left ∧ (∀ e ∈ final, e.1 ≠ plan.kept.1 → e.2.versions = []) ∧
    (final.lookup plan.kept.1).any fun inv => inv.versions = [plan.kept.2])
    (.blocked .inventoryChanged)
  requireSource job
  writeDb .purged fun db now => persistPurge names db job plan.target plan.keys plan.keeperId
    plan.keeper plan.provider plan.rows plan.markers plan.batch.jobId final now
  pure plan.batch.jobId

/-- What the rest of a cleanup goes by. -/
def CleanupStart.plan (start : CleanupStart) (keeperId : RowId) (provider : String)
    (batch : CleanupInventory) : CleanupPlan where
  keeperId := keeperId
  keeper := start.keeper
  provider := provider
  target := start.target
  keys := start.keys
  rows := start.rows
  markers := start.markers
  batch := batch

/-- `cleanup`. -/
def cleanup (S : S3Client β) (names : KeyNames) (job : WorkerJob) (keeperId : RowId) :
    Cleaning β JobId := do
  requireSource job
  let start ← readDb (readStart names job keeperId S.identity)
  let batch ← pinInventory S names job keeperId
  runPlan S names job (start.plan keeperId S.identity batch)

end Frostvault
