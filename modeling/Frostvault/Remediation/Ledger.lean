import Frostvault.Cleanup.Authority
import Frostvault.Observation.Admission

/-!
The ledger of upload remediation (`migrations/versions/0065_upload_remediation.py`,
`app/services/upload_remediation.py`): an episode for every send whose outcome is not settled,
over the upload journal.

The journal (`UploadDb`) looks at some columns of the episodes; `Ledger.sees` says that they are
the columns of the rows kept here.  A function that raises returns an error, and its
transaction is rolled back.  The events the operations append for the browser are left out.

* `Episode`: a row of `upload_remediations` with its originals and its attempts;
* `Ledger.mapEpisodes`, `Ledger.insertEpisode`: how rows are written;
* `Ledger.unresolved`: the rows of a file that are open, oldest first;
* `Ledger.void`: `_void`.
-/

namespace Frostvault

open Checks

/-! ### Rows -/

/-- `POLL_SECONDS`. -/
def pollSeconds : ℕ := 10

/-- `TARGET_BATCH`. -/
def targetBatch : ℕ := 10

/-- `_later`. -/
def later (stamp : Stamp) : Stamp := stamp + pollSeconds

/-- `upload_remediations.reason`: a reason of `REMEDIES`, or one the ledger gives itself. -/
inductive EpisodeReason
  | remedy (r : BlockReason)
  | transient | operationFailed | retryBudgetExhausted
deriving DecidableEq, Repr

/-- The reason, when it is in `REMEDIES`. -/
def EpisodeReason.named : EpisodeReason → Option BlockReason
  | .remedy r => some r
  | _ => none

/-- `upload_remediations.target_json`. -/
structure EpisodeTarget where
  vaultId : VaultId
  vaultFileId : FileId
  bucket : String
  s3Prefix : String
  key : ObjectKey
  /-- Only the target of an intent has one. -/
  provider : Option String
  path : Path
  pathSince : Option Stamp
  sourceRoot : String
  rootIdentity : Option String
  rootIdentityVersion : Option String
deriving DecidableEq, Repr

/-- The target an intent has pinned. -/
def UploadTarget.episode (t : UploadTarget) : EpisodeTarget where
  vaultId := t.vaultId
  vaultFileId := t.vaultFileId
  bucket := t.bucket
  s3Prefix := t.s3Prefix
  key := t.key
  provider := some t.provider
  path := t.path
  pathSince := some t.pathSince
  sourceRoot := t.sourceRoot
  rootIdentity := t.rootIdentity
  rootIdentityVersion := t.rootIdentityVersion

/-- What an obligation is about: `'intent:'||id` or `'version:'||id`. -/
inductive ExactTarget
  | intent (id : IntentId)
  | version (id : RowId)
deriving DecidableEq, Repr

/-- What is appended to the key of an obligation that is not the first one. -/
inductive Recurrence
  | cleanup (updatedAt : Stamp)
  | failure (job : JobId)
  | obligation (at_ : Stamp)
deriving DecidableEq, Repr

/-- `upload_remediations.target_key`. -/
structure TargetKey where
  target : ExactTarget
  recurrence : Option Recurrence
deriving DecidableEq, Repr

/-- A row of `upload_remediations`, with the rows of `upload_remediation_originals` and
`upload_remediation_jobs` that point at it. -/
structure Episode where
  id : RemediationId
  targetKey : TargetKey
  vaultId : VaultId
  vaultFileId : FileId
  intentId : Option IntentId
  archiveVersionId : Option RowId
  /-- `none` is the empty object, for a target that could not be read. -/
  target : Option EpisodeTarget
  expectedSha256 : Option Digest
  snapshot : Option UploadSnapshot
  requestedMode : VerificationMode
  size : ℕ
  state : RemediationState
  phase : RemediationPhase
  reason : Option EpisodeReason
  retryCount : ℕ
  dueAt : Stamp
  currentJobId : Option JobId
  resolvedByJobId : Option JobId
  createdAt : Stamp
  updatedAt : Stamp
  resolvedAt : Option Stamp
  cleanupInventoryJobId : Option JobId
  originals : List JobId
  jobs : List JobId
deriving DecidableEq, Repr

/-- The columns the upload journal looks at. -/
def Episode.remediation (e : Episode) : Remediation where
  id := e.id
  vaultId := e.vaultId
  vaultFileId := e.vaultFileId
  intentId := e.intentId
  archiveVersionId := e.archiveVersionId
  bucket := e.target.map EpisodeTarget.bucket
  s3Prefix := e.target.map EpisodeTarget.s3Prefix
  sourceRoot := e.target.map EpisodeTarget.sourceRoot
  rootIdentity := e.target.bind EpisodeTarget.rootIdentity
  rootIdentityVersion := e.target.bind EpisodeTarget.rootIdentityVersion
  expectedSha256 := e.expectedSha256
  snapshot := e.snapshot
  requestedMode := e.requestedMode
  state := e.state
  phase := e.phase
  reason := e.reason.bind EpisodeReason.named
  currentJobId := e.currentJobId
  originals := e.originals
  jobs := e.jobs

/-- The row gets another state and reason. -/
def Episode.park (stamp : Stamp) (state : RemediationState) (reason : Option EpisodeReason)
    (e : Episode) : Episode :=
  { e with
    state := state
    reason := reason
    updatedAt := stamp }

/-- The columns of `jobs` that only the ledger reads. -/
structure JobColumns where
  retryCount : ℕ
  retryAfter : Option Stamp
  totalBytes : Option ℕ
  updatedAt : Stamp
deriving DecidableEq, Repr

/-- The columns of `archive_versions` that only the ledger reads. -/
structure VersionColumns where
  uploadSnapshot : Option UploadSnapshot
  uploadVerificationRequested : Option VerificationMode
deriving DecidableEq, Repr

/-- A row of `snapshot_reconciliation_blocks`. -/
structure ReconciliationBlock where
  vaultFileId : FileId
  reason : BlockReason
  updatedAt : Stamp
deriving DecidableEq, Repr

/-- A row of `snapshot_cleanup_inventories`. -/
structure CleanupCheckpoint where
  jobId : JobId
  keeperId : Option RowId
  completedAt : Option Stamp
deriving DecidableEq, Repr

/-- A row of `upload_remediation_discovery`. -/
structure DiscoveryRow where
  jobId : JobId
  vaultId : VaultId
  discoveredAt : Stamp
  rejectedReason : Option BlockReason
deriving DecidableEq, Repr

/-- A row of `upload_remediation_facts`. -/
structure RemediationFact where
  target : ExactTarget
  vaultId : VaultId
  vaultFileId : FileId
  intentId : Option IntentId
  archiveVersionId : Option RowId
  discoveredAt : Stamp
  dueAt : Stamp
deriving DecidableEq, Repr

/-- **The ledger** over the upload journal. -/
structure Ledger where
  db : UploadDb
  episodes : List Episode
  jobColumns : JobId → JobColumns
  versionColumns : RowId → VersionColumns
  blocks : List ReconciliationBlock
  cleanups : List CleanupCheckpoint
  discovery : List DiscoveryRow
  facts : List RemediationFact
  /-- Vaults with a `last_error` of the component `source`. -/
  sourceErrors : List VaultId
  /-- The policy of the Vault uploads the path by itself. -/
  autoUploads : VaultId → Path → Bool
  sees : db.remediations = episodes.map Episode.remediation
  ids_nodup : (episodes.map Episode.id).Nodup

/-- What an operation raises: an error of the upload journal, a `RuntimeError` of `transition`
by its text, the violation of a unique index, or the `ValueError` of `queue_jobs`. -/
inductive LedgerError
  | upload (e : UploadError)
  | staleAttempt | completedHistory | cleanupPostcondition
  | uniqueViolation
  | unsupportedOrigin
deriving DecidableEq, Repr

/-- An operation of the ledger: it raises, or returns. -/
abbrev LedgerOutcome (α : Type) := Except LedgerError α

/-- A function of the upload journal raises through. -/
def lifted {α : Type} (x : Outcome α) : LedgerOutcome α := x.mapError .upload

namespace Ledger

/-! ### Writing rows -/

/-- Rewrite every row, its id kept. -/
def mapEpisodes (L : Ledger) (g : Episode → Episode) (hid : ∀ e, (g e).id = e.id) : Ledger :=
  { L with
    db := { L.db with remediations := (L.episodes.map g).map Episode.remediation }
    episodes := L.episodes.map g
    sees := rfl
    ids_nodup := by
      rw [List.map_map, show Episode.id ∘ g = Episode.id from funext hid]
      exact L.ids_nodup }

/-- `UPDATE upload_remediations .. WHERE id=%s`. -/
def updateEpisode (L : Ledger) (id : RemediationId) (g : Episode → Episode)
    (hid : ∀ e, (g e).id = e.id) : Ledger :=
  L.mapEpisodes (fun e => if e.id = id then g e else e) fun e => by split <;> simp [hid]

/-- The journal after a function that leaves the episodes alone. -/
def withJournal (L : Ledger) (db : UploadDb) : Ledger :=
  { L with db := { db with remediations := L.db.remediations } }

/-- The next `uuid4` is taken. -/
def drawUuid (db : UploadDb) : UploadDb :=
  { db with
    nextUuid := db.nextUuid + 1
    uuids_lt := fun i hi =>
      ⟨Nat.lt_succ_of_lt (db.uuids_lt i hi).1, Nat.lt_succ_of_lt (db.uuids_lt i hi).2⟩ }

/-- Two rows break a unique index: the primary key, that of the keys, of the current or of the
resolving Jobs, or, both open, that of the intents or of the versions. -/
def Clashes (e e' : Episode) : Prop :=
  e.id = e'.id ∨ e.targetKey = e'.targetKey ∨
    (e.currentJobId.isSome ∧ e.currentJobId = e'.currentJobId) ∨
    (e.resolvedByJobId.isSome ∧ e.resolvedByJobId = e'.resolvedByJobId) ∨
    (e.state ≠ .resolved ∧ e'.state ≠ .resolved ∧
      ((e.intentId.isSome ∧ e.intentId = e'.intentId) ∨
        (e.archiveVersionId.isSome ∧ e.archiveVersionId = e'.archiveVersionId)))

instance (e e' : Episode) : Decidable (Clashes e e') := by
  unfold Clashes
  infer_instance

/-- `INSERT INTO upload_remediations`, with the id the supply gives. -/
def insertEpisode (L : Ledger) (row : RemediationId → Episode) :
    LedgerOutcome (Ledger × Episode) :=
  let e := row L.db.nextUuid
  if h : ∀ e' ∈ L.episodes, ¬Clashes e e' then
    .ok ({ L with
      db := { drawUuid L.db with
        remediations := (L.episodes ++ [e]).map Episode.remediation }
      episodes := L.episodes ++ [e]
      sees := rfl
      ids_nodup := by
        rw [List.map_append, List.nodup_append]
        refine ⟨L.ids_nodup, by simp, ?_⟩
        intro a ha b hb
        obtain ⟨e', he', rfl⟩ := List.mem_map.mp ha
        rw [List.mem_singleton.mp hb]
        exact fun heq => h e' he' (.inl heq.symm) }, e)
  else .error .uniqueViolation

/-- `UPDATE upload_remediations .. WHERE id=%s` that writes indexed columns. -/
def writeEpisode (L : Ledger) (id : RemediationId) (g : Episode → Episode)
    (hid : ∀ e, (g e).id = e.id) : LedgerOutcome Ledger := do
  require (∀ e ∈ L.episodes, e.id = id → ∀ e' ∈ L.episodes, e'.id ≠ id → ¬Clashes (g e) e')
    .uniqueViolation
  pure (L.updateEpisode id g hid)

/-! ### Reading rows -/

/-- A row by its id. -/
def episode? (L : Ledger) (id : RemediationId) : Option Episode :=
  L.episodes.find? fun e => e.id = id

lemma episode?_of_mem {L : Ledger} {e : Episode} (he : e ∈ L.episodes) :
    L.episode? e.id = some e := by
  cases h : L.episode? e.id with
  | none =>
      have := List.find?_eq_none.mp h e he
      simp at this
  | some e' =>
      have hid : e'.id = e.id := by simpa using List.find?_some h
      rw [List.inj_on_of_nodup_map L.ids_nodup (List.mem_of_find?_eq_some h) he hid]

/-- The episode a Job is an attempt of. -/
def episodeOf? (L : Ledger) (job : JobId) : Option Episode :=
  L.episodes.find? fun e => e.jobs.contains job

/-- A version of a Vault with the file it belongs to. -/
def versionIn? (L : Ledger) (v : VaultId) (id : RowId) : Option (VaultFile × ArchiveVersion) :=
  L.db.cat.files.findSome? fun f =>
    if f.vaultId = v then (f.versions.find? fun w => w.id = id).map fun w => (f, w) else none

/-- A file of a Vault. -/
def fileIn? (L : Ledger) (v : VaultId) (id : FileId) : Option VaultFile :=
  L.db.cat.files.find? fun f => f.id = id && f.vaultId = v

/-- The block of a file. -/
def block? (L : Ledger) (file : FileId) : Option ReconciliationBlock :=
  L.blocks.find? fun b => b.vaultFileId = file

/-- `ORDER BY created_at,id`. -/
def Older (e e' : Episode) : Prop :=
  e.createdAt < e'.createdAt ∨ e.createdAt = e'.createdAt ∧ e.id ≤ e'.id

instance : DecidableRel Older := fun e e' => by
  unfold Older
  infer_instance

/-- The rows of a file that are not resolved, oldest first. -/
def unresolved (L : Ledger) (file : FileId) : List Episode :=
  (L.episodes.filter fun e => e.vaultFileId = file && e.state ≠ .resolved).insertionSort Older

lemma mem_unresolved {L : Ledger} {file : FileId} {e : Episode} :
    e ∈ L.unresolved file ↔ e ∈ L.episodes ∧ e.vaultFileId = file ∧ e.state ≠ .resolved := by
  simp [unresolved, List.mem_insertionSort]

end Ledger

/-! ### Episodes that are void -/

/-- `unsent`. -/
def unsent (db : UploadDb) (intent : Option IntentId) : Bool :=
  intent.any fun i => db.intents.any fun u =>
    u.id = i && !u.sendStarted && u.archiveVersionId.isNone

/-- `_void`: the send of the episode is proven never to have landed and has not restarted. -/
def Ledger.void (L : Ledger) (e : Episode) : Bool :=
  provenAbsent L.db e.intentId && unsent L.db e.intentId

end Frostvault
