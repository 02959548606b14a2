import Frostvault.CloudScan.CloudOps
import Frostvault.Cleanup.Program
import Frostvault.Lib.LockFence

/-!
A cloud-only hold fences the steps of a running upload Job (`target`, `require_target` and
`mark_send_started` of `app/services/upload_provenance.py`, the deletion of
`app/services/snapshot_cleanup.py`, `_publish_upload_receipt` and `persist_verification` of
`app/storage.py`).

An observation of content that reappeared holds the file back: its Local Copy names the only
version in the cloud.  Here every statement of a transaction is a step, and others commit between
any two of them.  Every unit of the Job takes the row of its Vault before it reads the hold, and
keeps it until its effect.  An observation takes it before it commits, with one exception: at the
end of a free-space Job the replacement is observed behind the row of this Job alone.  What keeps
that one off the file is the fence itself, which lets no unit pass beside another open Job.

* `targetTxn`, `unitTxn`, `requireTargetTxn`: the fence, statement by statement;
* `markSendStartedTxn`, `publishTxn`, `verifyTxn`, `deleteTxn`: the units with an effect;
* `observeTxn`, `observeReplacedTxn`: observations;
* `Spares`: what is committed while somebody else holds the row of a Vault or of a Job;
* `alone_targetTxn`, `alone_markSendStartedTxn`: alone, a unit is the function of the journal;
* `hold_fences_upload`: no effect of a Job happens while its file is held back.
-/

namespace Frostvault

open Checks LockFence

/-! ### The statements of the fence -/

/-- What the units of an upload Job do to the outside, or to what others rely on. -/
inductive FencedEffect
  | sendStarted (job : WorkerJob) (intent : IntentId)
  | published (job : WorkerJob) (version : ProviderVersionId)
  | verified (job : WorkerJob) (row : RowId)
  /-- `_delete_s3_version` is called. -/
  | deletes (job : WorkerJob) (key : ObjectKey) (version : ProviderVersionId)

/-- The Job of an effect. -/
def FencedEffect.job : FencedEffect → WorkerJob
  | .sendStarted job _ | .published job _ | .verified job _ | .deletes job _ _ => job

/-- The rows that are locked: those of Vaults and of Jobs. -/
inductive FenceRow
  | vault (v : VaultId)
  | job (id : JobId)
deriving DecidableEq

/-- Transactions with these rows as locks. -/
abbrev FenceTxn := Txn CleanupDb FenceRow FencedEffect

/-- A write to the tables of the journal. -/
def onUpload (g : UploadDb → UploadDb) (db : CleanupDb) : CleanupDb :=
  { db with upload := g db.upload }

/-- A write to the catalog. -/
def onCatalog (g : Catalog → Catalog) (db : CleanupDb) : CleanupDb :=
  { db with upload := { db.upload with cat := g db.upload.cat } }

/-- The Local Copy is held by `cloud_only_version_id`. -/
def VaultFile.held (f : VaultFile) : Bool :=
  (f.localCopy.bind LocalCopy.cloudOnlyVersionId).isSome

/-- `target`, statement by statement: the row of the Vault is locked by the first. -/
def targetTxn (job : WorkerJob) (key : ObjectKey) (provider : String)
    (next : UploadTarget → FenceTxn) : FenceTxn :=
  .lock (.vault job.row.vaultId) <|
  .select fun vaults =>
  .selectSome (fun db => (requireJob db.upload job).toOption) fun _ =>
  .select fun files =>
  .select fun jobs =>
  let current := jobs.upload.cat.job? job.row.id
  .check (current.all fun j => j.status ≠ .cancelled) <|
  .check (current.all fun j => j.status ≠ .failed ∧ j.status ≠ .completed) <|
  match vaults.upload.vaults job.row.vaultId, targetFile files.upload job, current with
  | some vault, some file, some current =>
      .check (file.status = .active ∧ current.vaultFileId = job.row.vaultFileId ∧
        current.path = job.row.path ∧ file.currentPath = some job.row.path ∧
        vault.sourceRoot = job.sourceRoot ∧ vault.s3Bucket = job.s3Bucket ∧
        vault.s3Prefix = job.s3Prefix) <|
      .check (vault.enabled ∧ vault.decommissionState = .active ∧
        vault.relocationState = .ready ∧ vault.rootReleased = false) <|
      .select fun others =>
      .select fun copies =>
      .check (incompatible others.upload job = false) <|
      .check ((copies.file? job.row.vaultFileId).any VaultFile.held = false) <|
      next
        { vaultId := job.row.vaultId
          vaultFileId := job.row.vaultFileId
          bucket := vault.s3Bucket
          s3Prefix := vault.s3Prefix
          key := key
          provider := provider
          path := job.row.path
          pathSince := file.pathSince
          sourceRoot := vault.sourceRoot
          rootIdentity := vault.rootIdentity
          rootIdentityVersion := vault.rootIdentityVersion }
  | _, _, _ => .rollback

/-- `require_target`. -/
def requireTargetTxn (job : WorkerJob) (pinned : UploadTarget) (next : FenceTxn) : FenceTxn :=
  targetTxn job pinned.key pinned.provider fun current => .check (current = pinned) next

/-- `_upload_catalog_unit`, around a callback. -/
def unitTxn (names : KeyNames) (job : WorkerJob) (mutation : FenceTxn) : FenceTxn :=
  targetTxn job (names.keyOf job.s3Prefix job.row.path) "db-fence" fun _ =>
  .select fun db => .check (claimOwned db.upload job = true) mutation

/-! ### The units with an effect -/

/-- `mark_send_started` in its unit. -/
def markSendStartedTxn (names : KeyNames) (job : WorkerJob) (intent : UploadIntent) : FenceTxn :=
  unitTxn names job <|
  requireTargetTxn job intent.target <|
  .selectSome (fun db => (receipt db.upload intent.id).toOption) fun r =>
  .check (r = none) <|
  .select fun db =>
  .check ((db.upload.intent? intent.id).any fun i => !i.sendStarted) <|
  .write (some (.sendStarted job intent.id))
    (onUpload fun db => db.updateIntent intent.id (UploadIntent.setSendStarted true)
      (UploadIntent.setSendStarted_id true) (UploadIntent.setSendStarted_token true))
  .commit

/-- What `_publish_upload_receipt` records for a response. -/
def publishedVersion (job : WorkerJob) (intent : UploadIntent) (response : UploadResponse)
    (version : ProviderVersionId) (stamp : Stamp) : VersionObservation where
  path := job.row.path
  objectKey := intent.target.key
  versionId := version
  size := some intent.snapshot.size
  storageClass := some (response.storageClass.getD "STANDARD")
  etag := some (stripQuotes (response.etag.getD ""))
  uploadedAt := intent.createdAt
  observedAt := stamp
  scanId := stamp
  origin := .upload
  vaultFileId := some job.row.vaultFileId

/-- The writes of `_publish_upload_receipt`: the version, its snapshot, the links, and the
promotion of a row a scan had discovered. -/
def publishWrites (job : WorkerJob) (intent : UploadIntent) (o : VersionObservation)
    (db : CleanupDb) : CleanupDb :=
  match recordVersion db.upload.cat job.row.vaultId o with
  | none => db
  | some (cat, row) =>
      let linked := (linkJobVersion (setUploadSnapshot { db.upload with cat := cat } job.row.id
        intent.snapshot) job.row.id row).updateIntent intent.id (UploadIntent.linkVersion row)
          (fun _ => UploadIntent.linkVersion_id _ _) fun _ => UploadIntent.linkVersion_token _ _
      let sent := (linked.intent? intent.id).any fun i => i.archiveVersionId = some row &&
        i.vaultFileId = job.row.vaultFileId && i.sendStarted && i.snapshot = intent.snapshot
      { db with
        upload := { linked with
          cat := promoteVersion linked.cat job.row.vaultFileId row intent.createdAt sent }
        snapshots := Function.update db.snapshots row (some intent.snapshot) }

/-- `_publish_upload_receipt`. -/
def publishTxn (names : KeyNames) (job : WorkerJob) (intent : UploadIntent)
    (response : UploadResponse) (stamp : Stamp) : FenceTxn :=
  match response.versionId with
  | none => .rollback
  | some version =>
      .check (version ≠ nullVersionId ∧ version ∉ intent.inventory.versions) <|
      unitTxn names job <|
      requireTargetTxn job intent.target <|
      let o := publishedVersion job intent response version stamp
      .selectSome (fun db => recordVersion db.upload.cat job.row.vaultId o) fun _ =>
      .write (some (.published job version)) (publishWrites job intent o) .commit

/-- The columns of a Local Copy that `persist_verification` compares. -/
structure CopyGeneration where
  size : Option ℕ
  mtimeNs : Option ℤ
  plaintextSha256 : Option Digest
  matchedArchiveVersionId : Option RowId
  observedAt : Stamp
  contentObservedAt : Option Stamp
deriving DecidableEq

/-- The columns as a row has them. -/
def LocalCopy.generation (lc : LocalCopy) : CopyGeneration :=
  ⟨lc.size, lc.mtimeNs, lc.plaintextSha256, lc.matchedArchiveVersionId, lc.observedAt,
    lc.contentObservedAt⟩

/-- What `_complete_verified_upload` brings to its transaction. -/
structure Completion where
  version : RowId
  uploadDigest : Digest
  markVerified : Bool
  /-- `local_before`. -/
  before : Option CopyGeneration
  /-- Size and modification time, when the observation was stable. -/
  stat : Option (ℕ × ℤ)
  observedDigest : Option Digest
  matchesSnapshot : Bool
  verifiedAt : Stamp

/-- The entry a completion publishes for its file. -/
def Completion.entry (c : Completion) (path : Path) (stat : ℕ × ℤ) : LocalEntry :=
  ⟨path, .regular, some stat.1, some stat.2, c.verifiedAt⟩

/-- The local half of `persist_verification`; `protection_pending` is left out. -/
def publishLocalTxn (vaults : VaultTable) (job : WorkerJob) (c : Completion) : FenceTxn :=
  .select fun db =>
  let current := ((db.file? job.row.vaultFileId).bind VaultFile.localCopy).map
    LocalCopy.generation
  match c.stat with
  | none => .commit
  | some stat =>
      if current ≠ c.before then .commit
      else
        let observed := fun cat => observeLocalCopy vaults cat job.row.vaultId
          (c.entry job.row.path stat) none none
        .selectSome (fun db => observed db.upload.cat) fun _ =>
        .write none (onCatalog fun cat => (observed cat).getD cat) <|
        match c.observedDigest with
        | none => .commit
        | some digest =>
            .write none (onCatalog fun cat => setLocalFingerprint cat job.row.vaultId
              job.row.path digest (if c.matchesSnapshot then some c.version else none)) .commit

/-- `persist_verification`. -/
def verifyTxn (names : KeyNames) (vaults : VaultTable) (job : WorkerJob) (c : Completion) :
    FenceTxn :=
  unitTxn names job <|
  if c.markVerified then
    .write (some (.verified job c.version))
      (onCatalog fun cat => markVersionVerified cat c.version c.uploadDigest)
      (publishLocalTxn vaults job c)
  else publishLocalTxn vaults job c

/-- The transaction around a deletion; `ready` says that the volume, its root and the Job let it
go on. -/
def deleteTxn (names : KeyNames) (job : WorkerJob) (plan : CleanupPlan) (ready : Bool)
    (key : ObjectKey) (version : ProviderVersionId) : FenceTxn :=
  requireTargetTxn job plan.target <|
  .selectSome (fun db => (requireNamespaceOwner names db job plan.keys).toOption) fun _ =>
  .selectSome (fun db => (requireVersionOwner db job key version).toOption) fun _ =>
  .selectSome (fun db => (requireClaim db job).toOption) fun _ =>
  .selectSome (fun db => (keeperOf names db job plan.keeperId plan.provider).toOption) fun k =>
  .check (k = plan.keeper) <|
  .check (ready = true) <|
  .select fun db =>
  .check (db.proved (proofKey job plan.provider key version) plan.keeperId
    plan.keeper.sha256 = true ∧ (key, version) ≠ plan.kept) <|
  .call (.deletes job key version) .commit

/-! ### Observations -/

/-- A batch of observations: the identities take the row of the Vault first. -/
def observeTxn (vaults : VaultTable) (v : VaultId) (entries : List LocalEntry)
    (seenAt : Option Stamp) : FenceTxn :=
  let observed := fun cat => observeLocalCopiesBatch vaults cat v entries seenAt
  .lock (.vault v) <|
  .selectSome (fun db => observed db.upload.cat) fun _ =>
  .write none (onCatalog fun cat => (observed cat).getD cat) .commit

/-- The row that `ensure_job_claim_owned_in_transaction` renews. -/
def renewedJob (db : UploadDb) (job : WorkerJob) : Option Job :=
  db.cat.jobs.find? fun j =>
    j.id = job.row.id && j.claimToken = some job.token && !j.status.terminal

/-- The end of `process_free_space` where the path has content again: the renewal keeps the row
of the Job until the commit, and no row of a Vault is taken.  A Job keeps its action and its file,
so both are read from its row. -/
def observeReplacedTxn (job : WorkerJob) (t : FileType) (size : Option ℕ) (mtimeNs : Option ℤ)
    (observedAt : Stamp) : FenceTxn :=
  .lock (.job job.row.id) <|
  .selectSome (fun db => renewedJob db.upload job) fun row =>
  .check (row.action = .freeSpace) <|
  .write none (onCatalog fun cat =>
    observeReplacedLocalCopy cat row.vaultFileId t size mtimeNs observedAt) .commit

/-! ### What is committed beside a lock -/

/-- The open free-space Jobs, each with its file. -/
def Catalog.releases (cat : Catalog) : List (JobId × FileId) :=
  (cat.jobs.filter fun j => j.action = .freeSpace && !j.status.terminal).map fun j =>
    (j.id, j.vaultFileId)

section Spares

variable (uploads : JobId → Prop)

/-- A free-space Job is open on the file; `uploads` has the Jobs that upload. -/
def Releasing (db : CleanupDb) (id : FileId) : Prop :=
  ∃ k, ¬uploads k ∧ (k, id) ∈ db.upload.cat.releases

/-- The files of the Vault stay, and none of them becomes held. -/
def KeepsFiles (l : VaultId) (db db' : CleanupDb) : Prop :=
  ∀ id f, db.file? id = some f → f.vaultId = l →
    ∃ f', db'.file? id = some f' ∧ f'.vaultId = l ∧ (f.held = false → f'.held = false)

/-- While somebody holds the row of a Vault, its files stay, no free-space Job is opened on one of
them, and only a file that has one becomes held.  While somebody holds the row of a free-space
Job, it stays open. -/
def Spares : FenceRow → CleanupDb → CleanupDb → Prop
  | .vault l, db, db' => ∀ id f, db.file? id = some f → f.vaultId = l →
      (Releasing uploads db' id → Releasing uploads db id) ∧
      ∃ f', db'.file? id = some f' ∧ f'.vaultId = l ∧
        (f.held = false → f'.held = false ∨ Releasing uploads db id)
  | .job k, db, db' =>
      ∀ id, (k, id) ∈ db.upload.cat.releases → (k, id) ∈ db'.upload.cat.releases

/-- The file of the Job is in the Vault of the Job, its Local Copy is not held, and no free-space
Job is open on it. -/
def FreeToSend (job : WorkerJob) (db : CleanupDb) : Prop :=
  ¬Releasing uploads db job.row.vaultFileId ∧
    ∃ f, db.file? job.row.vaultFileId = some f ∧ f.vaultId = job.row.vaultId ∧ f.held = false

end Spares

variable {uploads : JobId → Prop} {l v : VaultId} {r : FenceRow} {db db' db'' : CleanupDb}
  {job : WorkerJob}

lemma Spares.refl (r : FenceRow) (db : CleanupDb) : Spares uploads r db db := by
  cases r with
  | vault l => exact fun _ f h hl => ⟨fun h => h, f, h, hl, .inl⟩
  | job k => exact fun _ h => h

lemma Spares.trans (r : FenceRow) (a b c : CleanupDb) (hab : Spares uploads r a b)
    (hbc : Spares uploads r b c) : Spares uploads r a c := by
  cases r with
  | vault l =>
      intro id f hf hl
      obtain ⟨hopen, f', hf', hl', hheld⟩ := hab id f hf hl
      obtain ⟨hopen', f'', hf'', hl'', hheld'⟩ := hbc id f' hf' hl'
      refine ⟨fun h => hopen (hopen' h), f'', hf'', hl'', fun h => ?_⟩
      rcases hheld h with h | h
      · exact (hheld' h).imp_right hopen
      · exact .inr h
  | job k => exact fun id h => hbc id (hab id h)

lemma FreeToSend.spares (h : FreeToSend uploads job db)
    (hs : Spares uploads (.vault job.row.vaultId) db db') : FreeToSend uploads job db' := by
  obtain ⟨hopen, f, hf, hv, hheld⟩ := h
  obtain ⟨hopen', f', hf', hv', hheld'⟩ := hs _ f hf hv
  exact ⟨fun h => hopen (hopen' h), f', hf', hv', (hheld' hheld).resolve_right hopen⟩

/-- The free-space Jobs stand as they did. -/
lemma Spares.of_keepsFiles (hjobs : db'.upload.cat.releases = db.upload.cat.releases)
    (hfiles : ∀ l, r = .vault l → KeepsFiles l db db') : Spares uploads r db db' := by
  cases r with
  | vault l =>
      intro id f hf hl
      obtain ⟨f', hf', hl', hheld⟩ := hfiles l rfl id f hf hl
      refine ⟨fun ⟨k, hk, hmem⟩ => ⟨k, hk, hjobs ▸ hmem⟩, f', hf', hl', fun h => .inl (hheld h)⟩
  | job k => exact fun id h => hjobs ▸ h

/-- A Local Copy is written behind the row of an open free-space Job of its file. -/
lemma Spares.of_releasing {id : FileId} (hrel : Releasing uploads db id)
    (hjobs : db'.upload.cat.releases = db.upload.cat.releases)
    (hfiles : ∀ i f, db.file? i = some f → ∃ f', db'.file? i = some f' ∧
      f'.vaultId = f.vaultId ∧ (i ≠ id → f'.held = f.held)) : Spares uploads r db db' := by
  cases r with
  | vault l =>
      intro i f hf hl
      obtain ⟨f', hf', hv', hheld⟩ := hfiles i f hf
      refine ⟨fun ⟨k, hk, hmem⟩ => ⟨k, hk, hjobs ▸ hmem⟩, f', hf', hv'.trans hl, fun h => ?_⟩
      by_cases hi : i = id
      · exact .inr (hi ▸ hrel)
      · exact .inl ((hheld hi).trans h)
  | job k => exact fun id h => hjobs ▸ h

lemma KeepsFiles.refl (l : VaultId) (db : CleanupDb) : KeepsFiles l db db :=
  fun _ f h hl => ⟨f, h, hl, id⟩

lemma KeepsFiles.trans {a b c : CleanupDb} (hab : KeepsFiles l a b) (hbc : KeepsFiles l b c) :
    KeepsFiles l a c := by
  intro id f hf hl
  obtain ⟨f', hf', hl', hheld⟩ := hab id f hf hl
  obtain ⟨f'', hf'', hl'', hheld'⟩ := hbc id f' hf' hl'
  exact ⟨f'', hf'', hl'', fun h => hheld' (hheld h)⟩

/-- The files of the Vault are rewritten, none of them into a held one. -/
lemma KeepsFiles.of_file? {g : VaultFile → VaultFile}
    (hfile : ∀ id f, db.file? id = some f → db'.file? id = some (g f))
    (hg : ∀ f, f.vaultId = l → (g f).vaultId = l ∧ (f.held = false → (g f).held = false)) :
    KeepsFiles l db db' :=
  fun id f hf hl => ⟨g f, hfile id f hf, hg f hl⟩

lemma KeepsFiles.of_files (h : db'.upload.cat.files = db.upload.cat.files) :
    KeepsFiles l db db' := by
  refine .of_file? (g := id) (fun id f hf => ?_) fun f hl => ⟨hl, id⟩
  rw [CleanupDb.file?, Catalog.file?, h]
  exact hf

variable {cat cat' : Catalog} {pinned : UploadTarget}

/-- A lookup after the files were rewritten, and others added. -/
lemma file?_of_map {created : List VaultFile} {g : VaultFile → VaultFile}
    (hfiles : cat'.files = (cat.files ++ created).map g) (hid : ∀ f, (g f).id = f.id) {id : FileId}
    {f : VaultFile} (hf : cat.file? id = some f) :
    cat'.file? id = some (g f) := by
  obtain ⟨hmem, hfid⟩ := Catalog.mem_of_file? hf
  have hmem' : g f ∈ cat'.files := by
    rw [hfiles]
    exact List.mem_map_of_mem (List.mem_append_left _ hmem)
  have := cat'.file?_eq_of_mem hmem'
  rwa [hid, hfid] at this

lemma file?_mapLocalCopies (cat : Catalog) (g : VaultFile → Option LocalCopy) {id : FileId}
    {f : VaultFile} (hf : cat.file? id = some f) :
    (cat.mapLocalCopies g).file? id = some (f.withCopy (g f)) := by
  have hfiles : (cat.mapLocalCopies g).files =
      (cat.files ++ []).map fun f : VaultFile => f.withCopy (g f) := by
    rw [List.append_nil]
    rfl
  exact file?_of_map hfiles (fun _ => rfl) hf

/-- The rows of the versions are rewritten. -/
lemma KeepsFiles.of_withVersions {g : VaultFile → List ArchiveVersion} (base : Catalog)
    (hbase : ∀ id f, db.file? id = some f → base.file? id = some f)
    (hfiles : db'.upload.cat.files = base.files.map fun f => f.withVersions (g f)) :
    KeepsFiles l db db' := by
  refine .of_file? (g := fun f => f.withVersions (g f)) (fun id f hf => ?_)
    fun f hl => ⟨hl, id⟩
  rw [CleanupDb.file?, file?_withVersions base _ hfiles, hbase id f hf]
  rfl

/-- The Local Copies are rewritten, and no file of the Vault becomes held. -/
lemma KeepsFiles.of_withCopy (created : List VaultFile) {g : VaultFile → Option LocalCopy}
    (hfiles : db'.upload.cat.files =
      (db.upload.cat.files ++ created).map fun f => f.withCopy (g f))
    (hg : ∀ f ∈ db.upload.cat.files, f.vaultId = l → f.held = false →
      (f.withCopy (g f)).held = false) : KeepsFiles l db db' := by
  intro id f hf hl
  have hmem := (Catalog.mem_of_file? hf).1
  exact ⟨_, file?_of_map hfiles (fun _ => rfl) hf, hl, hg f hmem hl⟩

/-! ### What the writes leave alone -/

/-- A write that concerns one Vault keeps the files of all others, and the free-space Jobs. -/
structure WritesIn (v : VaultId) (f : CleanupDb → CleanupDb) : Prop where
  releases : ∀ db, (f db).upload.cat.releases = db.upload.cat.releases
  files : ∀ l, l ≠ v → ∀ db, KeepsFiles l db (f db)

lemma WritesIn.spares {f : CleanupDb → CleanupDb} (h : WritesIn v f) (r : FenceRow)
    (hr : r ≠ .vault v) (db : CleanupDb) : Spares uploads r db (f db) :=
  .of_keepsFiles (h.releases db) fun l heq => h.files l (fun hlv => hr (hlv ▸ heq)) db

/-- Jobs are rewritten, and no free-space Job is closed or opened. -/
lemma releases_of_map {g : Job → Job} (hjobs : cat'.jobs = cat.jobs.map g)
    (hid : ∀ j, (g j).id = j.id) (hfile : ∀ j, (g j).vaultFileId = j.vaultFileId)
    (haction : ∀ j, (g j).action = j.action)
    (hopen : ∀ j ∈ cat.jobs, j.action = .freeSpace → (g j).status = j.status) :
    cat'.releases = cat.releases := by
  rw [Catalog.releases, hjobs, List.filter_map, List.map_map, Catalog.releases]
  rw [List.filter_congr (q := fun j => j.action = .freeSpace && !j.status.terminal)
    fun j hj => ?_]
  · refine List.map_congr_left fun j _ => ?_
    rw [Function.comp_apply, hid, hfile]
  · by_cases hact : j.action = .freeSpace
    · rw [Function.comp_apply, haction, hopen j hj hact]
    · simp [haction, hact]

/-- Revoked deletions are no free-space Jobs. -/
lemma releases_cancelReappearedDeletions {vaults : VaultTable} {ids : List FileId}
    (h : cancelReappearedDeletions vaults cat v ids = some cat') :
    cat'.releases = cat.releases := by
  refine cancelReappearedDeletions_induction (P := fun c => c.releases = cat.releases) rfl ?_ h
  intro c gid c' hc hcancel
  obtain rfl := cancelCloudDeletion_eq hcancel
  have hr := rewrites_cancelRows c (purgeGroup c v gid)
  refine (releases_of_map hr.jobs hr.job_id hr.job_file hr.job_action fun j hj hact => ?_).trans hc
  rw [cancelJob, if_neg]
  intro hin
  obtain ⟨k, hk, hid⟩ := List.mem_map.mp hin
  obtain ⟨hk, hpurge⟩ := List.mem_filter.mp hk
  rw [c.job_eq_of_id_eq hk hj hid] at hpurge
  simp [hact] at hpurge

/-- An observation writes in the Vault it is made in. -/
lemma writesIn_observeLocalCopy (vaults : VaultTable) (e : LocalEntry)
    (seenAt recoveredAt : Option Stamp) :
    WritesIn v (onCatalog fun cat =>
      (observeLocalCopy vaults cat v e seenAt recoveredAt).getD cat) := by
  refine ⟨fun db => ?_, fun l hl db => ?_⟩
  · cases hobs : observeLocalCopy vaults db.upload.cat v e seenAt recoveredAt with
    | none => simp only [onCatalog, hobs, Option.getD_none]
    | some cat =>
        obtain ⟨created, hext, -⟩ := getOrCreateFile_spec db.upload.cat v e.path e.observedAt
        simp only [onCatalog, hobs, Option.getD_some]
        refine (releases_cancelReappearedDeletions hobs).trans ?_
        exact congrArg (fun jobs => (List.filter _ jobs).map _) hext.jobs
  cases hobs : observeLocalCopy vaults db.upload.cat v e seenAt recoveredAt with
  | none => exact .of_files (by simp [onCatalog, hobs])
  | some cat =>
      obtain ⟨created, hext, hres⟩ := getOrCreateFile_spec db.upload.cat v e.path e.observedAt
      have hfiles := (cancelReappearedDeletions_spec hobs).1
      refine .of_withCopy created (g := fun f =>
        if f.id = (getOrCreateFile db.upload.cat v e.path e.observedAt).2 then
          let lc := observedCopy f.localCopy
            (if recoveredAt.isNone then f.onlyCloudCopy else none) e seenAt
          some { lc with recoveredAt := recoveredAt.orElse fun _ => lc.recoveredAt }
        else f.localCopy) ?_ fun f hf hfl hheld => ?_
      · rw [← hext.files]
        simp only [onCatalog, hobs, Option.getD_some]
        exact hfiles
      · have hne : f.id ≠ (getOrCreateFile db.upload.cat v e.path e.observedAt).2 := by
          intro hid
          have hf' : f ∈ (getOrCreateFile db.upload.cat v e.path e.observedAt).1.files := by
            rw [hext.files]
            exact List.mem_append_left _ hf
          exact hl (hfl.symm.trans (hres.currentPath hf' hid).1)
        rw [if_neg hne]
        exact hheld

/-- Nor does a batch close or open one. -/
lemma releases_observeLocalCopiesBatch {vaults : VaultTable} {entries : List LocalEntry}
    {seenAt : Option Stamp} (h : observeLocalCopiesBatch vaults cat v entries seenAt = some cat') :
    cat'.releases = cat.releases := by
  unfold observeLocalCopiesBatch at h
  split at h
  · rw [Option.some.inj h]
  · rename_i e es hes
    obtain ⟨created, hext, -⟩ :=
      resolveOrCreateFiles_spec cat v ((e :: es).map LocalEntry.path) e.observedAt
    refine (releases_cancelReappearedDeletions h).trans ?_
    exact congrArg (fun jobs => (List.filter _ jobs).map _) hext.jobs

lemma writesIn_observeLocalCopiesBatch (vaults : VaultTable) (entries : List LocalEntry)
    (seenAt : Option Stamp) :
    WritesIn v (onCatalog fun cat =>
      (observeLocalCopiesBatch vaults cat v entries seenAt).getD cat) := by
  refine ⟨fun db => ?_, fun l hl db => ?_⟩
  · cases hobs : observeLocalCopiesBatch vaults db.upload.cat v entries seenAt with
    | none => simp only [onCatalog, hobs, Option.getD_none]
    | some cat =>
        simp only [onCatalog, hobs, Option.getD_some]
        exact releases_observeLocalCopiesBatch hobs
  cases hobs : observeLocalCopiesBatch vaults db.upload.cat v entries seenAt with
  | none => exact .of_files (by simp [onCatalog, hobs])
  | some cat =>
      obtain ⟨created, -, -, hfiles, -⟩ := observeLocalCopiesBatch_spec hobs
      refine .of_withCopy created (g := batchCopy v entries seenAt) ?_
        fun f hf hfl hheld => ?_
      · simpa only [onCatalog, hobs, Option.getD_some] using hfiles
      · have hcopy : batchCopy v entries seenAt f = f.localCopy := by
          rw [batchCopy, entryFor, if_neg fun h => hl (hfl.symm.trans h)]
        rw [hcopy]
        exact hheld

/-- A fingerprint is written in its Vault. -/
lemma writesIn_setLocalFingerprint (p : Path) (digest : Digest) (matched : Option RowId) :
    WritesIn v (onCatalog fun cat => setLocalFingerprint cat v p digest matched) := by
  refine ⟨fun _ => rfl, fun l hl db => ?_⟩
  refine .of_withCopy [] (by rw [List.append_nil]; rfl) fun f hf hfl hheld => ?_
  rw [if_neg fun h => hl (hfl.symm.trans h.1)]
  exact hheld

/-- A replaced Local Copy is the only one written. -/
lemma spares_observeReplacedLocalCopy {id : FileId} (t : FileType) (size : Option ℕ)
    (mtimeNs : Option ℤ) (observedAt : Stamp) (h : Releasing uploads db id) :
    Spares uploads r db
      (onCatalog (fun cat => observeReplacedLocalCopy cat id t size mtimeNs observedAt) db) := by
  refine .of_releasing h rfl fun i f hf => ?_
  refine ⟨_, file?_mapLocalCopies _ _ hf, rfl, fun hi => ?_⟩
  have hid : f.id ≠ id := fun hfid => hi ((Catalog.mem_of_file? hf).2.symm.trans hfid)
  rw [if_neg hid]
  rfl

/-- Marking a version verified touches no Local Copy. -/
lemma writesIn_markVersionVerified (row : RowId) (digest : Digest) :
    WritesIn v (onCatalog fun cat => markVersionVerified cat row digest) :=
  ⟨fun _ => rfl, fun _ _ db => .of_withVersions db.upload.cat (fun _ _ h => h) rfl⟩

/-- Recording a version touches no Local Copy. -/
lemma keepsFiles_recordVersion {o : VersionObservation} {row : RowId}
    (h : recordVersion db.upload.cat v o = some (cat, row)) :
    KeepsFiles l db (onCatalog (fun _ => cat) db) := by
  obtain ⟨f, -, -, w, -, -, hg, rfl⟩ | ⟨hnew, rfl⟩ := recordVersion_cases h
  · exact .of_withVersions db.upload.cat (fun _ _ h => h) rfl
  · exact .of_withVersions (recordOwner db.upload.cat v o).1
      (fun id f hf => (recordOwner_file? db.upload.cat v o id).2 f hf) rfl

lemma releases_recordVersion {o : VersionObservation} {row : RowId}
    (h : recordVersion cat v o = some (cat', row)) : cat'.releases = cat.releases := by
  obtain ⟨f, -, -, w, -, -, hg, rfl⟩ | ⟨hnew, rfl⟩ := recordVersion_cases h
  · rfl
  · change (recordOwner cat v o).1.releases = cat.releases
    unfold recordOwner
    split
    · rfl
    · obtain ⟨f, -, heq⟩ | ⟨-, hat, heq⟩ := resolveCloudPathFile_spec cat v o.path o.observedAt
      · rw [heq]
      · rw [heq]
        rfl

lemma releases_updateJob (db : UploadDb) {id : JobId} (g : Job → Job) (hid : ∀ j, (g j).id = j.id)
    (hfile : ∀ j, (g j).vaultFileId = j.vaultFileId) (haction : ∀ j, (g j).action = j.action)
    (hstatus : ∀ j, (g j).status = j.status) :
    (db.updateJob id g hid).cat.releases = db.cat.releases := by
  refine releases_of_map (g := fun j => if j.id = id then g j else j) rfl (fun j => ?_)
    (fun j => ?_) (fun j => ?_) fun j _ _ => ?_
  · split <;> simp [hid]
  · split <;> simp [hfile]
  · split <;> simp [haction]
  · split <;> simp [hstatus]

/-- Neither does the rest of a publication. -/
lemma writesIn_publishWrites (intent : UploadIntent) (o : VersionObservation) :
    WritesIn v (publishWrites job intent o) := by
  refine ⟨fun db => ?_, fun l _ db => ?_⟩
  · unfold publishWrites
    split
    · rfl
    · rename_i cat row hrec
      refine Eq.trans ?_ (releases_recordVersion hrec)
      refine (releases_updateJob _ (Job.linkVersion row) (fun _ => rfl) (fun _ => rfl)
        (fun _ => rfl) fun _ => rfl).trans ?_
      exact releases_updateJob { db.upload with cat := cat }
        (Job.setUploadSnapshot intent.snapshot) (fun _ => rfl) (fun _ => rfl) (fun _ => rfl)
        fun _ => rfl
  · unfold publishWrites
    split
    · exact .refl l db
    · rename_i cat row hrec
      refine (keepsFiles_recordVersion hrec).trans ?_
      exact .of_withVersions cat (fun _ _ h => h) rfl

/-! ### Alone -/

variable {names : KeyNames} {vaults : VaultTable} {key : ObjectKey} {provider : String}
  {next : UploadTarget → FenceTxn} {t : FenceTxn}

/-- The file the fence reads is in the Vault of the Job. -/
lemma file?_of_targetFile {f : VaultFile} (h : targetFile db.upload job = some f) :
    db.file? job.row.vaultFileId = some f ∧ f.vaultId = job.row.vaultId := by
  have hmem := List.mem_of_find?_eq_some h
  have hf := List.find?_some h
  simp only [Bool.and_eq_true, decide_eq_true_eq] at hf
  obtain ⟨⟨hid, hv⟩, -⟩ := hf
  refine ⟨?_, hv⟩
  rw [← hid]
  exact db.upload.cat.file?_eq_of_mem hmem

lemma ite_none_bind {α β : Type} {p : Prop} [Decidable p] {x : Option α} {g : α → Option β} :
    (if p then x else none).bind g = if p then x.bind g else none := by
  split <;> rfl

lemma ite_none_map {α β : Type} {p : Prop} [Decidable p] {x : Option α} {g : α → β} :
    (if p then x else none).map g = if p then x.map g else none := by
  split <;> rfl

/-- **Alone, the statements of the fence are `target`.** -/
theorem alone_targetTxn : (targetTxn job key provider next).alone db =
    (target db.upload job key provider).toOption.bind fun t => (next t).alone db := by
  unfold targetTxn target
  simp only [Txn.alone_lock, Txn.alone_select, Txn.alone_selectSome, Txn.alone_check,
    toOption_bind, toOption_require, ite_none_bind, Option.bind_some,
    Option.bind_assoc]
  refine congrArg _ (funext fun _ => if_congr Iff.rfl (if_congr Iff.rfl ?_ rfl) rfl)
  cases hvault : db.upload.vaults job.row.vaultId with
  | none => rfl
  | some vault =>
      cases hfile : targetFile db.upload job with
      | none => rfl
      | some file =>
          cases hcurrent : db.upload.cat.job? job.row.id with
          | none => rfl
          | some current =>
              obtain ⟨hf, -⟩ := file?_of_targetFile hfile
              have hheld : (db.file? job.row.vaultFileId).any VaultFile.held = false ↔
                  file.localCopy.bind LocalCopy.cloudOnlyVersionId = none := by
                rw [hf, Option.any_some, VaultFile.held, Option.isSome_eq_false_iff,
                  Option.isNone_iff_eq_none]
              simp only [Txn.alone_select, Txn.alone_check, toOption_bind,
                toOption_require, ite_none_bind, Option.bind_some, hheld]
              rfl

lemma alone_requireTargetTxn :
    (requireTargetTxn job pinned t).alone db =
      (requireTarget db.upload job pinned).toOption.bind fun _ => t.alone db := by
  rw [requireTargetTxn, alone_targetTxn, requireTarget]
  simp only [Txn.alone_check, toOption_bind, toOption_require, ite_none_bind,
    Option.bind_some, Option.bind_assoc]

/-- **Alone, the unit of `mark_send_started` is the function of the journal.** -/
theorem alone_markSendStartedTxn (intent : UploadIntent) :
    (markSendStartedTxn names job intent).alone db =
      (uploadCatalogUnit db.upload job (names.keyOf job.s3Prefix job.row.path)
        (markSendStarted db.upload job intent)).toOption.map fun upload =>
          { db with upload := upload } := by
  rw [markSendStartedTxn, unitTxn, alone_targetTxn, uploadCatalogUnit, markSendStarted]
  simp only [Txn.alone_select, Txn.alone_selectSome, Txn.alone_check, Txn.alone_write,
    Txn.alone_commit, alone_requireTargetTxn, toOption_bind, toOption_require,
    ite_none_bind, ite_none_map, Option.bind_some, Option.map_bind, Function.comp_def]
  rfl

/-! ### The units, one by one -/

/-- A transaction that the others can live with, and whose effects happen while the file of
their Job is not held. -/
def FenceSound (uploads : JobId → Prop) (t : FenceTxn) : Prop :=
  ∀ s, t.Safe (Spares uploads) (fun e s => FreeToSend uploads e.job s) [] [] [] s

/-- What a unit does once it passed the fence: it writes in the Vault of the Job, and its
effects are those of the Job. -/
def JobPart (job : WorkerJob) (t : FenceTxn) : Prop :=
  t.All (WritesIn job.row.vaultId) fun e => e.job = job

/-- What comes after the fence is all the fence does. -/
lemma jobPart_targetTxn (h : ∀ t, JobPart job (next t)) :
    JobPart job (targetTxn job key provider next) := by
  refine Txn.All.select fun vaults => Txn.All.selectSome fun _ => Txn.All.select fun files =>
    Txn.All.select fun jobs => Txn.All.check (Txn.All.check ?_)
  split
  · refine Txn.All.check (Txn.All.check (Txn.All.select fun others => Txn.All.select fun copies =>
      Txn.All.check (Txn.All.check ?_)))
    exact h _
  · trivial

lemma jobPart_requireTargetTxn (h : JobPart job t) :
    JobPart job (requireTargetTxn job pinned t) :=
  jobPart_targetTxn fun _ => Txn.All.check h

/-- Behind the row of its Vault, a unit whose file is free to be sent is safe. -/
lemma JobPart.safe {ls : List FenceRow} (h : JobPart job t) (hl : .vault job.row.vaultId ∈ ls)
    (hfree : FreeToSend uploads job db) :
    t.Safe (Spares uploads) (fun e s => FreeToSend uploads e.job s) ls [] [] db := by
  have hpart : t.All (fun f => ∀ r, r ≠ .vault job.row.vaultId → ∀ s, Spares uploads r s (f s))
      fun e => e.job = job := h.mono fun _ hf => hf.spares
  refine Txn.All.safe Spares.refl Spares.trans (K := FreeToSend uploads job)
    (fun _ _ hfree hs => hfree.spares hs) (fun e he s hs => ?_) hpart hl
    (fun _ hf => nomatch hf) (fun _ he => nomatch he) hfree
  rw [he]
  exact hs

section

variable (hup : uploads job.row.id)

include hup

/-- No other Job is open on the file, and an upload is no free-space Job. -/
lemma not_releasing_of_incompatible (h : incompatible db.upload job = false) :
    ¬Releasing uploads db job.row.vaultFileId := by
  rintro ⟨k, hk, hmem⟩
  obtain ⟨j, hj, heq⟩ := List.mem_map.mp hmem
  obtain ⟨hj, hopen⟩ := List.mem_filter.mp hj
  obtain ⟨rfl, hfile⟩ := Prod.mk.inj heq
  have hne : j.id ≠ job.row.id := fun hid => hk (hid ▸ hup)
  simp only [Bool.and_eq_true, decide_eq_true_eq] at hopen
  have := List.any_eq_false.mp h j hj
  simp [hfile, hne, hopen.2] at this

/-- **The fence.**  The row of the Vault is taken before the file, the other Jobs and the hold are
read, so that what was read still stands at every later effect. -/
lemma fenceSound_targetTxn (h : ∀ t, JobPart job (next t)) :
    FenceSound uploads (targetTxn job key provider next) := by
  intro s
  have hlock : FenceRow.vault job.row.vaultId ∈ [FenceRow.vault job.row.vaultId] :=
    List.mem_cons_self
  refine Txn.Safe.lock fun s₀ _ => Txn.Safe.select fun s₁ _ =>
    Txn.Safe.selectSome fun s₂ _ _ _ => Txn.Safe.select fun s₃ _ =>
    Txn.Safe.select fun s₄ h₄ => ?_
  simp only [applied_nil]
  refine Txn.Safe.check fun _ => Txn.Safe.check fun _ => ?_
  split
  · rename_i vault file current hvault hfile hcurrent
    refine Txn.Safe.check fun _ => Txn.Safe.check fun _ => Txn.Safe.select fun s₅ h₅ =>
      Txn.Safe.select fun s₆ h₆ => ?_
    simp only [applied_nil]
    refine Txn.Safe.check fun halone => Txn.Safe.check fun hheld => ?_
    obtain ⟨hf, hv⟩ := file?_of_targetFile hfile
    -- from each read to the next others commit beside the lock
    obtain ⟨-, f₅, hf₅, hv₅, -⟩ :=
      Spares.trans _ _ _ _ (h₄ _ hlock) (h₅ _ hlock) _ file hf hv
    obtain ⟨hopen, f, hf₆, hv₆, -⟩ := h₆ _ hlock _ f₅ hf₅ hv₅
    rw [hf₆, Option.any_some] at hheld
    refine (h _).safe hlock ⟨fun hrel => ?_, f, hf₆, hv₆, hheld⟩
    exact not_releasing_of_incompatible hup halone (hopen hrel)
  · trivial

lemma fenceSound_requireTargetTxn (h : JobPart job t) :
    FenceSound uploads (requireTargetTxn job pinned t) :=
  fenceSound_targetTxn hup fun _ => Txn.All.check h

lemma fenceSound_unitTxn (h : JobPart job t) :
    FenceSound uploads (unitTxn names job t) :=
  fenceSound_targetTxn hup fun _ => Txn.All.select fun _ => Txn.All.check h

lemma fenceSound_markSendStartedTxn (intent : UploadIntent) :
    FenceSound uploads (markSendStartedTxn names job intent) := by
  refine fenceSound_unitTxn hup (jobPart_requireTargetTxn (Txn.All.selectSome fun _ =>
    Txn.All.check (Txn.All.select fun _ => Txn.All.check (Txn.All.writeWith ?_ rfl trivial))))
  exact ⟨fun _ => rfl, fun _ _ _ => .of_files rfl⟩

lemma fenceSound_publishTxn (intent : UploadIntent) (response : UploadResponse) (stamp : Stamp) :
    FenceSound uploads (publishTxn names job intent response stamp) := by
  intro s
  unfold publishTxn
  split
  · trivial
  · refine Txn.Safe.check fun _ => fenceSound_unitTxn hup ?_ s
    exact jobPart_requireTargetTxn (Txn.All.selectSome fun _ =>
      Txn.All.writeWith (writesIn_publishWrites intent _) rfl trivial)

end

lemma jobPart_publishLocalTxn (c : Completion) : JobPart job (publishLocalTxn vaults job c) := by
  refine Txn.All.select fun db => ?_
  dsimp only
  split
  · trivial
  · split
    · trivial
    · refine Txn.All.selectSome fun _ =>
        Txn.All.write (writesIn_observeLocalCopy vaults _ _ _) ?_
      split
      · trivial
      · exact Txn.All.write (writesIn_setLocalFingerprint _ _ _) trivial

lemma fenceSound_verifyTxn (hup : uploads job.row.id) (c : Completion) :
    FenceSound uploads (verifyTxn names vaults job c) := by
  refine fenceSound_unitTxn hup ?_
  split
  · exact Txn.All.writeWith (writesIn_markVersionVerified _ _) rfl (jobPart_publishLocalTxn c)
  · exact jobPart_publishLocalTxn c

lemma fenceSound_deleteTxn (hup : uploads job.row.id) (plan : CleanupPlan) (ready : Bool)
    (version : ProviderVersionId) :
    FenceSound uploads (deleteTxn names job plan ready key version) := by
  unfold deleteTxn
  refine fenceSound_requireTargetTxn hup ?_
  refine Txn.All.selectSome fun _ => Txn.All.selectSome fun _ => ?_
  refine Txn.All.selectSome fun _ => Txn.All.selectSome fun _ => ?_
  exact Txn.All.check (Txn.All.check (Txn.All.select fun _ => Txn.All.check ⟨rfl, trivial⟩))

lemma fenceSound_observeTxn (entries : List LocalEntry) (seenAt : Option Stamp) :
    FenceSound uploads (observeTxn vaults v entries seenAt) := by
  intro s
  refine Txn.All.safe_of_silent Spares.refl Spares.trans (Txn.All.selectSome fun _ => ?_)
  exact Txn.All.write (writesIn_observeLocalCopiesBatch vaults entries seenAt).spares trivial

/-- **Without the row of the Vault**: the renewed row says that the free-space Job is open, it
stays so until the commit, and with it open no unit passes the fence of the file. -/
lemma fenceSound_observeReplacedTxn (hup : ¬uploads job.row.id) (t : FileType) (size : Option ℕ)
    (mtimeNs : Option ℤ) (observedAt : Stamp) :
    FenceSound uploads (observeReplacedTxn job t size mtimeNs observedAt) := by
  intro s
  have hlock : FenceRow.job job.row.id ∈ [FenceRow.job job.row.id] := List.mem_cons_self
  refine Txn.Safe.lock fun s₀ _ => Txn.Safe.selectSome fun s₁ row _ hrow =>
    Txn.Safe.check fun hact => ?_
  have hmem := List.mem_of_find?_eq_some hrow
  have hfound := List.find?_some hrow
  simp only [Bool.and_eq_true, decide_eq_true_eq] at hfound
  have hopen : (job.row.id, row.vaultFileId) ∈ s₁.upload.cat.releases := by
    refine List.mem_map.mpr ⟨row, List.mem_filter.mpr ⟨hmem, ?_⟩, by rw [hfound.1.1]⟩
    simpa [hact] using hfound.2
  refine Txn.Safe.writeCommit Spares.trans fun s₂ h₂ r _ => ?_
  exact spares_observeReplacedLocalCopy t size mtimeNs observedAt ⟨_, hup, h₂ _ hlock _ hopen⟩

/-! ### The Job and the observers -/

/-- Whoever runs a transaction: a unit of an upload Job, an observation, the end of a free-space
Job, or anybody else who keeps what the locks of the others promise. -/
inductive FenceParty (uploads : JobId → Prop)
  | markSendStarted (job : WorkerJob) (intent : UploadIntent) (h : uploads job.row.id)
  | publish (job : WorkerJob) (intent : UploadIntent) (response : UploadResponse) (stamp : Stamp)
      (h : uploads job.row.id)
  | verify (job : WorkerJob) (completion : Completion) (h : uploads job.row.id)
  | delete (job : WorkerJob) (plan : CleanupPlan) (ready : Bool) (key : ObjectKey)
      (version : ProviderVersionId) (h : uploads job.row.id)
  | observe (v : VaultId) (entries : List LocalEntry) (seenAt : Option Stamp)
  | observeReplaced (job : WorkerJob) (t : FileType) (size : Option ℕ) (mtimeNs : Option ℤ)
      (observedAt : Stamp) (h : ¬uploads job.row.id)
  | other (t : FenceTxn) (h : ∀ s, t.Safe (Spares uploads) (fun _ _ => False) [] [] [] s)

/-- The transaction of a party. -/
def FenceParty.program (names : KeyNames) (vaults : VaultTable) : FenceParty uploads → FenceTxn
  | .markSendStarted job intent _ => markSendStartedTxn names job intent
  | .publish job intent response stamp _ => publishTxn names job intent response stamp
  | .verify job completion _ => verifyTxn names vaults job completion
  | .delete job plan ready key version _ => deleteTxn names job plan ready key version
  | .observe v entries seenAt => observeTxn vaults v entries seenAt
  | .observeReplaced job t size mtimeNs observedAt _ =>
      observeReplacedTxn job t size mtimeNs observedAt
  | .other t _ => t

lemma fenceSound_program (p : FenceParty uploads) :
    FenceSound uploads (p.program names vaults) := by
  cases p with
  | markSendStarted job intent hup => exact fenceSound_markSendStartedTxn hup intent
  | publish job intent response stamp hup => exact fenceSound_publishTxn hup intent response stamp
  | verify job completion hup => exact fenceSound_verifyTxn hup completion
  | delete job plan ready key version hup => exact fenceSound_deleteTxn hup plan ready version
  | observe v entries seenAt => exact fenceSound_observeTxn entries seenAt
  | observeReplaced job t size mtimeNs observedAt hup =>
      exact fenceSound_observeReplacedTxn hup t size mtimeNs observedAt
  | other t h => exact fun s => (h s).mono fun _ _ => False.elim

/-- One statement of one of the open transactions. -/
def fenceStep (uploads : JobId → Prop) (names : KeyNames) (vaults : VaultTable) :
    World CleanupDb FenceRow FencedEffect → LockFence.Act (FenceParty uploads) →
      Option (World CleanupDb FenceRow FencedEffect) :=
  LockFence.step (FenceParty.program names vaults)

/-- **A hold fences the Job.**  Whatever transactions run beside the units of upload Jobs, in
every interleaving of their statements: no send is marked as started, no version published or
marked verified and no deletion called, nor is one of these committed, while the Local Copy of
the file is held.  So from the commit that holds a file back, and for as long as it stays held,
nothing more happens for this file. -/
theorem hold_fences_upload (uploads : JobId → Prop) (names : KeyNames) (vaults : VaultTable)
    {acts : List (LockFence.Act (FenceParty uploads))} {w : World CleanupDb FenceRow FencedEffect}
    (h : Runs.run (fenceStep uploads names vaults) (World.idle db) acts = some w) :
    (∀ x ∈ w.log, ∃ f, x.2.file? x.1.job.row.vaultFileId = some f ∧
      f.vaultId = x.1.job.row.vaultId ∧ f.localCopy.bind LocalCopy.cloudOnlyVersionId = none) ∧
    ∀ as bs u file, acts = as ++ bs →
      Runs.run (fenceStep uploads names vaults) (World.idle db) as = some u →
      (∀ cs s, cs <+: bs → Runs.run (fenceStep uploads names vaults) u cs = some s →
        (s.committed.file? file).any VaultFile.held = true) →
      ∃ new, w.log = u.log ++ new ∧ ∀ x ∈ new, x.1.job.row.vaultFileId ≠ file := by
  have hlog : ∀ x ∈ w.log, FreeToSend uploads x.1.job x.2 :=
    safe_run Spares.refl Spares.trans fenceSound_program h
  refine ⟨fun x hx => ?_, fun as bs u file hacts hu hheld => ?_⟩
  · obtain ⟨-, f, hf, hv, hfree⟩ := hlog x hx
    exact ⟨f, hf, hv, by simpa [VaultFile.held] using hfree⟩
  · obtain ⟨u', hu', hw⟩ := Runs.run_append.mp (hacts ▸ h)
    cases hu.symm.trans hu'
    obtain ⟨new, hnew, hwhen⟩ := log_run hw
    refine ⟨new, hnew, fun x hx hfile => ?_⟩
    obtain ⟨cs, s, hcs, hs, heq⟩ := hwhen x hx
    obtain ⟨-, f, hf, -, hfree⟩ := hlog x (hnew ▸ List.mem_append_right _ hx)
    have hstill := hheld cs s hcs hs
    rw [← heq, ← hfile, hf, Option.any_some, hfree] at hstill
    cases hstill

/-- An upload of the path `a` that its worker has claimed. -/
def claimedUploadRow : Job where
  id := 5
  vaultId := 0
  vaultFileId := 0
  path := ['a']
  action := .upload
  status := .uploading
  origin := .manual
  groupId := none
  requestedAt := 0
  pendingUntil := none
  claimToken := some 1
  claimExpiresAt := none

def claimedUpload : WorkerJob := ⟨claimedUploadRow, 1, "/v", "b", "p"⟩

/-- A free-space Job of the path `b`, whose content was replaced meanwhile. -/
def claimedRelease : WorkerJob :=
  ⟨{ claimedUploadRow with
      id := 9
      vaultFileId := 1
      path := ['b']
      action := .freeSpace
      status := .cleaning
      claimToken := some 2 }, 2, "/v", "b", "p"⟩

/-- The intent of the upload, prepared. -/
def claimedIntent : UploadIntent where
  id := 0
  token := 1
  vaultId := 0
  vaultFileId := 0
  originalJobId := 5
  target := ⟨0, 0, "b", "p", 0, "s3", ['a'], 0, "/v", none, none⟩
  snapshot := ⟨1, 7, "FULL_OBJECT", "c", 8, ["c"]⟩
  requested := .readBack
  inventory := ⟨[], []⟩
  sendStarted := false
  archiveVersionId := none
  settled := false
  createdAt := 0

/-- Two files that are gone from the disk; the cloud has the only copy of each. -/
def goneLocally : CleanupDb where
  upload :=
    { cat :=
        { files := [⟨0, 0, .active, some ['a'], 0, [],
            some ⟨.missing, .regular, some 1, some 1, some 7, none, none, none, 0, none, none⟩,
            [⟨1, 1, 0, some 11, some 1, none, some 7, .verified, .available, none, none, 0, none,
              none, .upload, .upload⟩], []⟩,
            ⟨1, 0, .active, some ['b'], 0, [],
              some ⟨.missing, .regular, some 1, some 1, some 8, none, none, none, 0, none, none⟩,
              [⟨2, 1, 1, some 12, some 1, none, some 8, .verified, .available, none, none, 0, none,
                none, .upload, .upload⟩], []⟩]
          jobs := [claimedUploadRow, claimedRelease.row]
          items := []
          ids_nodup := by decide
          paths_unique := by simp [PathsDistinct]
          versions_unique := by simp [VaultFile.versionKeys, KeysDistinct]
          jobIds_nodup := by decide }
      vaults := fun _ => some ⟨"/v", "b", "p", true, .active, .ready, false, none, none⟩
      remediations := []
      intents := [claimedIntent]
      intentJobs := [(5, 0)]
      receipts := []
      nextUuid := 2
      intentIds_nodup := by decide
      tokens_nodup := by decide
      uuids_lt := by decide
      intentJobs_nodup := by decide }
  snapshots := fun _ => none
  inventories := []
  proofs := []
  moves := []
  blocks := []

/-- The only name of a Vault. -/
def soleName : KeyNames := ⟨fun _ _ => 0, fun _ key => if key = 0 then some ['a'] else none⟩

/-- While the start of the send is marked, the free-space Job holds its own file back without the
row of the Vault, and content reappears at `a`: its observation waits for the row and holds the
file back.  The verification that follows raises. -/
def reappearedRun : List (LockFence.Act (FenceParty fun id => id = 5)) :=
  [.start 1 (.markSendStarted claimedUpload claimedIntent rfl)] ++ List.replicate 3 (.exec 1) ++
    [.start 4 (.observeReplaced claimedRelease .regular (some 3) (some 3) 5 (by decide))] ++
    List.replicate 4 (.exec 4) ++
    [.start 2 (.observe 0 [⟨['a'], .regular, some 2, some 2, 5⟩] none)] ++
    List.replicate 16 (.exec 1) ++ List.replicate 4 (.exec 2) ++
    [.start 3 (.verify claimedUpload ⟨1, 7, true, none, none, none, false, 6⟩ rfl)] ++
    List.replicate 8 (.exec 3)

theorem hold_fences_upload_reappeared :
    ∃ w, Runs.run (fenceStep (fun id => id = 5) soleName fun _ => none) (World.idle goneLocally)
        reappearedRun = some w ∧
      (w.committed.file? 0).any VaultFile.held = true ∧
      (w.committed.file? 1).any VaultFile.held = true ∧ w.sessions.length = 0 ∧
      w.log.length = 2 ∧
      ∀ x ∈ w.log, ∃ f, x.2.file? x.1.job.row.vaultFileId = some f ∧
        f.vaultId = x.1.job.row.vaultId ∧
        f.localCopy.bind LocalCopy.cloudOnlyVersionId = none := by
  have hrun : ((Runs.run (fenceStep (fun id => id = 5) soleName fun _ => none)
      (World.idle goneLocally) reappearedRun).map fun w =>
        ((w.committed.file? 0).any VaultFile.held, (w.committed.file? 1).any VaultFile.held,
          w.sessions.length, w.log.length)) = some (true, true, 0, 2) := by
    rfl
  obtain ⟨w, hw, hends⟩ := Option.map_eq_some_iff.mp hrun
  obtain ⟨hheld, hheld', hopen, hlog⟩ : _ ∧ _ ∧ _ ∧ _ := by simpa using hends
  exact ⟨w, hw, hheld, hheld', by rw [hopen]; rfl, hlog, (hold_fences_upload _ _ _ hw).1⟩

end Frostvault
