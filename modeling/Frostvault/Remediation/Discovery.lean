import Frostvault.Remediation.Ledger

/-!
Discovery of obligations (`app/services/upload_remediation_discovery.py`, and `capture_failure`
and `discover_file` of `app/services/upload_remediation.py`): rows of the catalog and of the
upload journal only, never the provider and never the disk.

* `captureIntent`, `captureFile`: `capture`, a fact to look at later;
* `enroll`: the episode of an exact intent or version, found again, blocked or inserted;
* `drain`, `discoverFile`: facts and failed originals become episodes.

`expected_cloud_key` is `names.keyOf`.  A digest is well formed; a snapshot is read when its row
is, so it never fails to parse.
-/

namespace Frostvault

open Checks

namespace Ledger

/-! ### `capture` -/

/-- `INSERT INTO upload_remediation_facts .. ON CONFLICT (target_key) DO NOTHING`. -/
def addFact (facts : List RemediationFact) (f : RemediationFact) : List RemediationFact :=
  if facts.any fun g => g.target = f.target then facts else facts ++ [f]

/-- `capture` of a send that has started. -/
def captureIntent (L : Ledger) (stamp : Stamp) (id : IntentId) : Ledger :=
  match L.db.intent? id with
  | some i =>
      if i.sendStarted && (L.fileIn? i.vaultId i.vaultFileId).isSome then
        { L with
          facts := addFact L.facts ⟨.intent i.id, i.vaultId, i.vaultFileId, some i.id,
            i.archiveVersionId, stamp, stamp⟩ }
      else L
  | none => L

/-- The facts of a version: one for each of its sends that are not settled, or its own. -/
def factsOf (L : Ledger) (stamp : Stamp) (f : VaultFile) (w : ArchiveVersion) :
    List RemediationFact :=
  match L.db.intents.filter fun i => i.archiveVersionId = some w.id && i.vaultId = f.vaultId &&
      i.vaultFileId = f.id && i.sendStarted && !i.settled with
  | [] => [⟨.version w.id, f.vaultId, f.id, none, some w.id, stamp, stamp⟩]
  | is => is.map fun i => ⟨.intent i.id, f.vaultId, f.id, some i.id, some w.id, stamp, stamp⟩

/-- The facts after `capture` of a file: those of its current snapshot are added. -/
def capturedFacts (L : Ledger) (stamp : Stamp) (file : FileId) : List RemediationFact :=
  match L.db.cat.file? file with
  | some f =>
      (f.versions.filter fun w => f.onlyCloudCopy = some w.id).foldl
        (fun facts w => (L.factsOf stamp f w).foldl addFact facts) L.facts
  | none => L.facts

/-- `capture` of a file. -/
def captureFile (L : Ledger) (stamp : Stamp) (file : FileId) : Ledger :=
  { L with facts := L.capturedFacts stamp file }

/-- `capture_failure`: an original with materialized facts, never an attempt of the ledger. -/
def captureFailure (L : Ledger) (job : JobId) (stamp : Stamp) : Ledger :=
  match L.db.cat.job? job with
  | some j =>
      if j.action = .upload ∧ j.status = .failed ∧ j.uploadReconcileOnly = false ∧
          L.episodeOf? job = none ∧
          (j.archiveVersionId.isSome ∨ (loadForJob L.db job).any UploadIntent.sendStarted) ∧
          ¬ L.discovery.any (fun q => q.jobId = job)
      then { L with discovery := L.discovery ++ [⟨job, j.vaultId, stamp, none⟩] }
      else L
  | none => L

/-! ### `enroll` -/

/-- `_reject`. -/
def reject (L : Ledger) (original : Option Job) (stamp : Stamp) (reason : BlockReason) : Ledger :=
  match original with
  | none => L
  | some j =>
      if L.discovery.any fun q => q.jobId = j.id then
        { L with
          discovery := L.discovery.map fun q =>
            if q.jobId = j.id then { q with rejectedReason := some reason } else q }
      else { L with discovery := L.discovery ++ [⟨j.id, j.vaultId, stamp, some reason⟩] }

/-- What an obligation rests on: an intent, a version, or both, and the file they are of. -/
structure Evidence where
  intent : Option UploadIntent
  version : Option ArchiveVersion
  file : VaultFile

/-- The intent and the version id a discovery starts from.  A settled intent is finished
provenance: what is left is an obligation of its version. -/
def startingPoint (L : Ledger) (original : Option Job) (v : VaultId) (intentId : Option IntentId)
    (versionId : Option RowId) : Option UploadIntent × Option RowId :=
  match original with
  | some j => (loadForJob L.db j.id, j.archiveVersionId)
  | none =>
      match (intentId.bind L.db.intent?).filter fun i => i.vaultId = v with
      | some i =>
          if i.settled then (none, i.archiveVersionId <|> versionId) else (some i, versionId)
      | none => (none, versionId)

/-- The newest send of a version; for a discovery without original, one that is not settled. -/
def sendOf (L : Ledger) (original : Option Job) (f : VaultFile) (w : ArchiveVersion) :
    Option UploadIntent :=
  (L.db.intents.filter fun i => i.archiveVersionId = some w.id && i.vaultId = f.vaultId &&
    i.vaultFileId = f.id && i.sendStarted && (original.isSome || !i.settled)).foldl
    (fun best i => match best with
      | some b => if b.createdAt < i.createdAt then some i else some b
      | none => some i) none

/-- The evidence of a discovery, or why it is rejected. -/
def evidence (L : Ledger) (original : Option Job) (v : VaultId) (intentId : Option IntentId)
    (versionId : Option RowId) : Except BlockReason Evidence := do
  let (intent, versionId) := L.startingPoint original v intentId versionId
  require (∀ i ∈ intent, ∀ w ∈ i.archiveVersionId, ∀ j ∈ original,
    j.archiveVersionId.all fun w' => w' = w) .proofMismatch
  let version := (intent.bind UploadIntent.archiveVersionId <|> versionId).bind (L.versionIn? v)
  let intent := intent <|> version.bind fun fw => L.sendOf original fw.1 fw.2
  require (version.isSome ∨ intent.any UploadIntent.sendStarted) .expectedEvidenceMissing
  let file := (intent.map UploadIntent.vaultFileId <|> version.map fun fw => fw.1.id).bind
    (L.fileIn? v)
  match file with
  | some f => do
      require ((∀ i ∈ intent, i.vaultId = v) ∧ (∀ fw ∈ version, fw.1.id = f.id) ∧
        ∀ j ∈ original, j.vaultFileId = f.id) .identityChanged
      pure ⟨intent, version.map Prod.snd, f⟩
  | none => throw .identityChanged

/-- Successful ordinary writes do not need redundant Jobs. -/
def needless (L : Ledger) (original : Option Job) (ev : Evidence) : Bool :=
  original.isNone && ev.version.all (fun w => w.integrity ≠ .unverified) &&
    ev.intent.all UploadIntent.settled && (L.block? ev.file.id).isNone

/-- The columns of an obligation. -/
structure Obligation where
  target : ExactTarget
  pinned : Option EpisodeTarget
  expectedSha256 : Option Digest
  snapshot : Option UploadSnapshot
  requestedMode : VerificationMode
  size : ℕ
  reason : Option BlockReason
  cancelled : Bool
  budget : ℕ
deriving DecidableEq, Repr

/-- `upload_plaintext_sha256` of the first ordinary upload that is linked to the version, with
the verification it asked for. -/
def firstProof (L : Ledger) (file : FileId) (w : RowId) : Option (Digest × VerificationMode) :=
  (L.db.cat.jobs.filter fun j => j.vaultFileId = file && j.archiveVersionId = some w &&
    j.action = .upload && !j.uploadReconcileOnly && j.uploadPlaintextSha256.isSome).foldl
    (fun best j => match best with
      | some b => if j.id < b.id then some j else some b
      | none => some j) none |>.bind fun j =>
    j.uploadPlaintextSha256.map fun d => (d, j.uploadVerificationRequested.getD .readBack)

/-- The snapshot the obligation was frozen with. -/
def frozenSnapshot (L : Ledger) (original : Option Job) (ev : Evidence) : Option UploadSnapshot :=
  match ev.intent with
  | some i => some i.snapshot
  | none => (ev.version.bind fun w => (L.versionColumns w.id).uploadSnapshot) <|>
      original.bind Job.uploadSnapshot

/-- The verification that was asked for. -/
def frozenMode (L : Ledger) (original : Option Job) (ev : Evidence) : VerificationMode :=
  match ev.intent with
  | some i => i.requested
  | none => ((ev.version.bind fun w => (L.versionColumns w.id).uploadVerificationRequested) <|>
      original.bind Job.uploadVerificationRequested).getD .readBack

/-- The digest that is expected, and the verification asked for with it. -/
def expectation (L : Ledger) (original : Option Job) (ev : Evidence) :
    Option Digest × VerificationMode :=
  let mode := L.frozenMode original ev
  match L.frozenSnapshot original ev, original, ev.version with
  | some s, _, _ => (some s.plaintextSha256, mode)
  | none, some j, _ => (j.uploadPlaintextSha256, mode)
  | none, none, some w =>
      if w.integrity = .verified then (w.plaintextSha256, mode)
      else
        match L.firstProof ev.file.id w.id with
        | some (d, m) => if w.origin = .upload then (some d, m) else (none, mode)
        | none => (none, mode)
  | none, none, none => (none, mode)

/-- The size of the obligation. -/
def frozenSize (L : Ledger) (original : Option Job) (ev : Evidence) : ℕ :=
  match L.frozenSnapshot original ev, ev.version, original with
  | some s, _, _ => s.size
  | none, some w, _ => w.size.getD 0
  | none, none, some j => ((L.jobColumns j.id).totalBytes).getD 0
  | none, none, none => 0

/-- The target that is pinned: that of the intent, when it can be read, or that of the version. -/
def pinnedTarget (original : Option Job) (v : VaultId) (vault : VaultRow) (ev : Evidence) :
    Option EpisodeTarget :=
  match ev.intent, ev.version with
  | some i, _ =>
      if i.target.vaultId = v ∧ i.target.vaultFileId = ev.file.id ∧ i.target.path ≠ [] then
        some i.target.episode
      else none
  | none, some w =>
      some
        { vaultId := v
          vaultFileId := ev.file.id
          bucket := vault.s3Bucket
          s3Prefix := vault.s3Prefix
          key := w.objectKey
          provider := none
          path := (original.map Job.path <|> ev.file.currentPath).getD []
          pathSince := ev.file.currentPath.map fun _ => ev.file.pathSince
          sourceRoot := vault.sourceRoot
          rootIdentity := vault.rootIdentity
          rootIdentityVersion := vault.rootIdentityVersion }
  | none, none => none

/-- Why the frozen proof and its digest cannot be trusted. -/
def proofReason (L : Ledger) (original : Option Job) (ev : Evidence) : Option BlockReason :=
  let expected := (L.expectation original ev).1
  if original.any (fun j => j.uploadPlaintextSha256.isSome && j.uploadPlaintextSha256 ≠ expected) ||
      ev.version.any (fun w => w.integrity = .verified && w.plaintextSha256 ≠ expected) then
    some .proofMismatch
  else if (L.frozenSnapshot original ev).any fun s => ev.version.any fun w => w.size ≠ some s.size
  then some .proofMismatch
  else if expected = none then some .expectedEvidenceMissing
  else none

/-- Why the target itself is not the one to reconcile; it overrides the proof. -/
def targetReason (names : KeyNames) (original : Option Job) (v : VaultId) (vault : VaultRow)
    (ev : Evidence) : Option BlockReason :=
  match ev.intent, ev.version, pinnedTarget original v vault ev with
  | some _, _, none => some .proofMismatch
  | none, some w, some t =>
      if w.objectKey ≠ names.keyOf vault.s3Prefix t.path then some .identityChanged else none
  | _, _, _ => none

/-- A newer verified and available version of the file. -/
def superseded (f : VaultFile) (w : ArchiveVersion) : Bool :=
  f.versions.any fun u =>
    u.integrity = .verified && u.availability = .available && w.versionNumber < u.versionNumber

/-- The reason an obligation is blocked for, as the checks of `enroll` leave it. -/
def blockedFor (names : KeyNames) (L : Ledger) (original : Option Job) (v : VaultId)
    (vault : VaultRow) (ev : Evidence) : Option BlockReason :=
  let reason := targetReason names original v vault ev <|> L.proofReason original ev
  let reason :=
    if ev.file.currentPath = none ∨
        ev.file.currentPath ≠ (pinnedTarget original v vault ev).map EpisodeTarget.path then
      reason <|> some .identityChanged
    else reason
  match ev.version with
  | some w =>
      if w.availability = .purged ∨ superseded ev.file w then reason <|> some .targetSuperseded
      else if w.integrity = .mismatch then some .proofMismatch
      else reason
  | none => reason

/-- The target belongs to an upload that was cancelled. -/
def cancelledTarget (L : Ledger) (ev : Evidence) : Bool :=
  L.db.cat.jobs.any fun j => j.vaultFileId = ev.file.id && j.action = .upload &&
    j.status = .cancelled &&
      ((ev.version.any fun w => j.archiveVersionId = some w.id) ||
        ev.intent.any fun i => L.db.intentJobs.contains (j.id, i.id))

/-- The obligation `enroll` computes. -/
def obligation (names : KeyNames) (L : Ledger) (original : Option Job) (v : VaultId)
    (vault : VaultRow) (ev : Evidence) : Obligation where
  target := match ev.intent, ev.version with
    | some i, _ => .intent i.id
    | none, some w => .version w.id
    -- the evidence always has one of them
    | none, none => .version 0
  pinned := pinnedTarget original v vault ev
  expectedSha256 := (L.expectation original ev).1
  snapshot := L.frozenSnapshot original ev
  requestedMode := (L.expectation original ev).2
  size := L.frozenSize original ev
  reason := L.blockedFor names original v vault ev
  cancelled := L.cancelledTarget ev
  budget := (original.map fun j => (L.jobColumns j.id).retryCount).getD 0

/-- The attempts an automatic remediation may make. -/
def retryBudget : ℕ := 8

/-- The state of a new episode. -/
def Obligation.state (o : Obligation) : RemediationState :=
  if o.cancelled then .cancelled
  else if o.reason.isSome ∨ retryBudget ≤ o.budget then .blocked
  else .pending

/-- The reason of a new episode. -/
def Obligation.storedReason (o : Obligation) : Option EpisodeReason :=
  if retryBudget ≤ o.budget ∧ o.reason = none ∧ o.cancelled = false then
    some .retryBudgetExhausted
  else o.reason.map .remedy

/-- The row is about the same bytes at the same place. -/
def Obligation.Same (o : Obligation) (e : Episode) : Prop :=
  e.expectedSha256 = o.expectedSha256 ∧ e.snapshot = o.snapshot ∧ e.target = o.pinned ∧
    e.requestedMode = o.requestedMode ∧ e.size = o.size

instance (o : Obligation) (e : Episode) : Decidable (o.Same e) := by
  unfold Obligation.Same
  infer_instance

/-- The rows of the file with the target, the intent or the version, newest first. -/
def candidates (ev : Evidence) (o : Obligation) (rows : List Episode) : List Episode :=
  (rows.filter fun e => e.vaultFileId = ev.file.id &&
    (e.targetKey = ⟨o.target, none⟩ || (ev.intent.any fun i => e.intentId = some i.id) ||
      ev.version.any fun w => e.archiveVersionId = some w.id)).insertionSort fun e e' => Older e' e

/-- A completed episode resolves only failures that precede its success. -/
def Covers (L : Ledger) (original : Option Job) (ev : Evidence) (o : Obligation)
    (e : Episode) : Prop :=
  o.Same e ∧ o.storedReason = none ∧
    (∀ j ∈ original, e.resolvedAt.any fun at_ => (L.jobColumns j.id).updatedAt ≤ at_) ∧
    (original.isSome ∨ L.block? ev.file.id = none)

instance (L : Ledger) (original : Option Job) (ev : Evidence) (o : Obligation) (e : Episode) :
    Decidable (L.Covers original ev o e) := by
  unfold Covers
  infer_instance

/-- What `enroll` finds for an obligation. -/
inductive Settlement
  /-- The open row is about other bytes, or the proof is wrong. -/
  | mismatch (e : Episode)
  | block (e : Episode) (reason : EpisodeReason)
  | keep (e : Episode)
  | fresh

/-- An open row is kept or blocked, a completed one may cover the failure, else there is a new
one. -/
def settlement (L : Ledger) (original : Option Job) (ev : Evidence) (o : Obligation)
    (rows : List Episode) : Settlement :=
  match (candidates ev o rows).find? fun e => e.state ≠ .resolved with
  | some e =>
      if ¬o.Same e ∨ o.reason = some .proofMismatch then .mismatch e
      else
        match o.storedReason with
        | some r => .block e r
        | none => .keep e
  | none =>
      match (candidates ev o rows).find? fun e => L.Covers original ev o e with
      | some e => .keep e
      | none => .fresh

/-- A new row. -/
def newEpisode (L : Ledger) (original : Option Job) (v : VaultId) (stamp : Stamp) (ev : Evidence)
    (o : Obligation) (rows : List Episode) (id : RemediationId) : Episode where
  id := id
  targetKey := ⟨o.target,
    if candidates ev o rows = [] then none
    else
      -- a new obligation, the completed episodes stay as they are
      match L.block? ev.file.id, original with
      | some b, _ => some (.cleanup b.updatedAt)
      | none, some j => some (.failure j.id)
      | none, none => some (.obligation stamp)⟩
  vaultId := v
  vaultFileId := ev.file.id
  intentId := ev.intent.map UploadIntent.id
  archiveVersionId := ev.version.map ArchiveVersion.id
  target := o.pinned
  expectedSha256 := o.expectedSha256
  snapshot := o.snapshot
  requestedMode := o.requestedMode
  size := o.size
  state := o.state
  phase := if ev.version.any fun w => w.integrity = .verified then .cleanup else .verification
  reason := o.storedReason
  retryCount := o.budget
  dueAt := stamp
  currentJobId := none
  resolvedByJobId := none
  createdAt := stamp
  updatedAt := stamp
  resolvedAt := none
  cleanupInventoryJobId := none
  originals := []
  jobs := []

/-- The original is linked to its episode, or rejected. -/
def linkOriginal (L : Ledger) (original : Option Job) (stamp : Stamp) (o : Obligation)
    (id : RemediationId) : Ledger :=
  match original with
  | none => L
  | some j =>
      if o.reason = some .proofMismatch then L.reject original stamp .proofMismatch
      else if L.episodes.any fun e => e.originals.contains j.id then L
      else L.updateEpisode id (fun e => { e with originals := e.originals ++ [j.id] })
        fun _ => rfl

/-- The row is blocked for a reason, unless it is cancelled. -/
def blockEpisode (stamp : Stamp) (reason : EpisodeReason) (e : Episode) : Episode :=
  if e.state = .cancelled then e else e.park stamp .blocked (some reason)

@[simp] lemma blockEpisode_id (stamp : Stamp) (reason : EpisodeReason) (e : Episode) :
    (blockEpisode stamp reason e).id = e.id := by
  unfold blockEpisode
  split <;> rfl

/-- `enroll` once the obligation is known. -/
def enrollObligation (L : Ledger) (original : Option Job) (v : VaultId) (stamp : Stamp)
    (ev : Evidence) (o : Obligation) : LedgerOutcome (Ledger × Option RemediationId) :=
  match L.settlement original ev o L.episodes with
  | .mismatch e =>
      .ok ((L.updateEpisode e.id (blockEpisode stamp (.remedy .proofMismatch))
        (blockEpisode_id _ _)).reject original stamp .proofMismatch, some e.id)
  | .block e r =>
      .ok ((L.updateEpisode e.id (blockEpisode stamp r)
        (blockEpisode_id _ _)).linkOriginal original stamp o e.id, some e.id)
  | .keep e => .ok (L.linkOriginal original stamp o e.id, some e.id)
  | .fresh => do
      let (L, e) ← L.insertEpisode (L.newEpisode original v stamp ev o L.episodes)
      pure (L.linkOriginal original stamp o e.id, some e.id)

/-- **`enroll`**; the row it returns by its id. -/
def enroll (names : KeyNames) (L : Ledger) (original : Option Job) (v : VaultId)
    (vault : VaultRow) (stamp : Stamp) (intentId : Option IntentId) (versionId : Option RowId) :
    LedgerOutcome (Ledger × Option RemediationId) :=
  if original.any fun j => j.uploadReconcileOnly || j.status ≠ .failed then .ok (L, none)
  else
    match original.bind fun j => L.episodes.find? fun e => e.originals.contains j.id with
    | some e => .ok (L, some e.id)
    | none =>
        match L.evidence original v intentId versionId with
        | .error r => .ok (L.reject original stamp r, none)
        | .ok ev =>
            if L.needless original ev then .ok (L, none)
            else L.enrollObligation original v stamp ev (obligation names L original v vault ev)

/-! ### `drain` and `discover_file` -/

/-- `ORDER BY due_at,target_key`; an intent's key sorts before a version's. -/
def FactOrder (f g : RemediationFact) : Prop :=
  f.dueAt < g.dueAt ∨ f.dueAt = g.dueAt ∧
    match f.target, g.target with
    | .intent i, .intent j => i ≤ j
    | .intent _, .version _ => True
    | .version _, .intent _ => False
    | .version i, .version j => i ≤ j

instance : DecidableRel FactOrder := fun f g => by
  unfold FactOrder
  cases f.target <;> cases g.target <;> infer_instance

/-- One fact.  An expired lease still belongs to its active Job. -/
def drainFact (names : KeyNames) (v : VaultId) (vault : VaultRow) (stamp : Stamp) (L : Ledger)
    (f : RemediationFact) : LedgerOutcome Ledger :=
  if hasPendingJob L.db.cat f.vaultFileId then
    .ok { L with
      facts := L.facts.map fun g =>
        if g.target = f.target then { g with dueAt := later stamp } else g }
  else do
    let (L, _) ← enroll names L none v vault stamp f.intentId f.archiveVersionId
    pure { L with facts := L.facts.filter fun g => g.target ≠ f.target }

/-- The facts of the Vault, or of one of its files, that are due. -/
def dueFacts (L : Ledger) (v : VaultId) (stamp : Stamp) (limit : ℕ) (file : Option FileId) :
    List RemediationFact :=
  ((L.facts.filter fun f => f.vaultId = v && f.dueAt ≤ stamp &&
    file.all fun id => f.vaultFileId = id).insertionSort FactOrder).take limit

/-- **`drain`**. -/
def drain (names : KeyNames) (L : Ledger) (v : VaultId) (vault : VaultRow) (stamp : Stamp)
    (limit : ℕ) (file : Option FileId) : LedgerOutcome Ledger :=
  (L.dueFacts v stamp limit file).foldlM (drainFact names v vault stamp) L

/-- The failed originals of a file that have no episode. -/
def failedOriginals (L : Ledger) (file : FileId) : List Job :=
  ((L.db.cat.jobs.filter fun j => j.vaultFileId = file && j.action = .upload &&
    j.status = .failed && !j.uploadReconcileOnly &&
    (L.episodes.all fun e => !e.originals.contains j.id) &&
    (L.discovery.all fun q => q.jobId ≠ j.id || q.rejectedReason.isNone) &&
    (j.archiveVersionId.isSome || L.db.intents.any fun i =>
      i.originalJobId = j.id && i.sendStarted)).insertionSort fun j j' => j.id ≤ j'.id).take
    targetBatch

/-- One original. -/
def enrollOriginal (names : KeyNames) (v : VaultId) (vault : VaultRow) (stamp : Stamp) (L : Ledger)
    (j : Job) : LedgerOutcome Ledger := do
  let (L, _) ← enroll names L (some j) v vault stamp none none
  pure L

/-- **`discover_file`**. -/
def discoverFile (names : KeyNames) (L : Ledger) (v : VaultId) (vault : VaultRow) (file : FileId)
    (stamp : Stamp) : LedgerOutcome Ledger := do
  let L ← (L.failedOriginals file).foldlM (enrollOriginal names v vault stamp) L
  let L := if (L.block? file).isSome then L.captureFile stamp file else L
  L.drain names v vault stamp targetBatch (some file)

/-! ### Discovery only writes the ledger -/

/-- The tables that are not the ledger's are the same. -/
structure SameTables (L L' : Ledger) : Prop where
  cat : L'.db.cat = L.db.cat
  vaults : L'.db.vaults = L.db.vaults
  intents : L'.db.intents = L.db.intents
  intentJobs : L'.db.intentJobs = L.db.intentJobs
  receipts : L'.db.receipts = L.db.receipts
  sourceErrors : L'.sourceErrors = L.sourceErrors
  autoUploads : L'.autoUploads = L.autoUploads
  jobColumns : L'.jobColumns = L.jobColumns
  versionColumns : L'.versionColumns = L.versionColumns
  blocks : L'.blocks = L.blocks

lemma SameTables.refl (L : Ledger) : SameTables L L := by
  constructor <;> rfl

lemma SameTables.trans {L L' L'' : Ledger} (h : SameTables L L') (h' : SameTables L' L'') :
    SameTables L L'' :=
  ⟨h'.cat.trans h.cat, h'.vaults.trans h.vaults, h'.intents.trans h.intents,
    h'.intentJobs.trans h.intentJobs, h'.receipts.trans h.receipts,
    h'.sourceErrors.trans h.sourceErrors, h'.autoUploads.trans h.autoUploads,
    h'.jobColumns.trans h.jobColumns, h'.versionColumns.trans h.versionColumns,
    h'.blocks.trans h.blocks⟩

lemma sameTables_updateEpisode (L : Ledger) (id : RemediationId) (g : Episode → Episode)
    (hid : ∀ e, (g e).id = e.id) : SameTables L (L.updateEpisode id g hid) := by
  constructor <;> rfl

lemma sameTables_reject (L : Ledger) (original : Option Job) (stamp : Stamp)
    (reason : BlockReason) : SameTables L (L.reject original stamp reason) := by
  unfold reject
  cases original with
  | none => exact .refl L
  | some j =>
      dsimp only
      split <;> constructor <;> rfl

lemma sameTables_linkOriginal (L : Ledger) (original : Option Job) (stamp : Stamp)
    (o : Obligation) (id : RemediationId) :
    SameTables L (L.linkOriginal original stamp o id) := by
  unfold linkOriginal
  cases original with
  | none => exact .refl L
  | some j =>
      dsimp only
      split
      · exact L.sameTables_reject _ _ _
      · split
        · exact .refl L
        · exact L.sameTables_updateEpisode _ _ _

lemma sameTables_insertEpisode {L : Ledger} {row : RemediationId → Episode}
    {r : Ledger × Episode} (h : L.insertEpisode row = .ok r) : SameTables L r.1 := by
  unfold insertEpisode at h
  dsimp only at h
  split at h
  · rw [← Except.ok.inj h]
    constructor <;> rfl
  · cases h

lemma sameTables_captureFile (L : Ledger) (stamp : Stamp) (file : FileId) :
    SameTables L (L.captureFile stamp file) := by
  constructor <;> rfl

variable {names : KeyNames} {L L' : Ledger} {v : VaultId} {vault : VaultRow} {stamp : Stamp}

lemma sameTables_enrollObligation {original : Option Job} {ev : Evidence} {o : Obligation}
    {r : Ledger × Option RemediationId}
    (h : L.enrollObligation original v stamp ev o = .ok r) : SameTables L r.1 := by
  unfold enrollObligation at h
  split at h
  · rw [← Except.ok.inj h]
    exact (L.sameTables_updateEpisode _ _ _).trans (sameTables_reject _ _ _ _)
  · rw [← Except.ok.inj h]
    exact (L.sameTables_updateEpisode _ _ _).trans (sameTables_linkOriginal _ _ _ _ _)
  · rw [← Except.ok.inj h]
    exact L.sameTables_linkOriginal _ _ _ _
  · obtain ⟨a, ha, hr⟩ := bind_eq_ok_iff.mp h
    rw [← pure_eq_ok_iff.mp hr]
    exact (sameTables_insertEpisode ha).trans (sameTables_linkOriginal _ _ _ _ _)

/-- `enroll` writes episodes and its inbox only. -/
lemma sameTables_enroll {original : Option Job} {intentId : Option IntentId}
    {versionId : Option RowId} {r : Ledger × Option RemediationId}
    (h : enroll names L original v vault stamp intentId versionId = .ok r) :
    SameTables L r.1 := by
  unfold enroll at h
  split at h
  · rw [← Except.ok.inj h]
    exact .refl L
  · split at h
    · rw [← Except.ok.inj h]
      exact .refl L
    · split at h
      · rw [← Except.ok.inj h]
        exact L.sameTables_reject _ _ _
      · split at h
        · rw [← Except.ok.inj h]
          exact .refl L
        · exact sameTables_enrollObligation h

lemma sameTables_drainFact {f : RemediationFact}
    (h : drainFact names v vault stamp L f = .ok L') : SameTables L L' := by
  unfold drainFact at h
  split at h
  · rw [← Except.ok.inj h]
    constructor <;> rfl
  · obtain ⟨a, ha, hr⟩ := bind_eq_ok_iff.mp h
    rw [← pure_eq_ok_iff.mp hr]
    refine (sameTables_enroll ha).trans ?_
    constructor <;> rfl

/-- What holds of every round of a loop, holds of the loop. -/
lemma foldlM_related {α : Type} {R : Ledger → Ledger → Prop} (hrefl : ∀ L, R L L)
    (htrans : ∀ {L M N}, R L M → R M N → R L N) {f : Ledger → α → LedgerOutcome Ledger}
    (hf : ∀ L a L', f L a = .ok L' → R L L') {as : List α} (h : as.foldlM f L = .ok L') :
    R L L' := by
  induction as generalizing L with
  | nil =>
      rw [← pure_eq_ok_iff.mp h]
      exact hrefl L
  | cons a as ih =>
      rw [List.foldlM_cons] at h
      obtain ⟨L₁, hL₁, hrest⟩ := bind_eq_ok_iff.mp h
      exact htrans (hf L a L₁ hL₁) (ih hrest)

lemma sameTables_enrollOriginal {j : Job}
    (h : enrollOriginal names v vault stamp L j = .ok L') : SameTables L L' := by
  obtain ⟨a, ha, hr⟩ := bind_eq_ok_iff.mp h
  rw [← pure_eq_ok_iff.mp hr]
  exact sameTables_enroll ha

/-- **Discovery only writes the ledger.** -/
lemma sameTables_discoverFile {file : FileId}
    (h : L.discoverFile names v vault file stamp = .ok L') : SameTables L L' := by
  obtain ⟨L₁, hL₁, h⟩ := bind_eq_ok_iff.mp h
  have hfirst : SameTables L L₁ :=
    foldlM_related .refl .trans (fun _ _ _ => sameTables_enrollOriginal) hL₁
  have hdrain : ∀ L₂, L₂.drain names v vault stamp targetBatch (some file) = .ok L' →
      SameTables L₂ L' := fun L₂ hL₂ =>
    foldlM_related .refl .trans (fun _ _ _ => sameTables_drainFact) hL₂
  dsimp only at h
  split at h
  · exact hfirst.trans ((L₁.sameTables_captureFile stamp file).trans (hdrain _ h))
  · exact hfirst.trans (hdrain _ h)

end Ledger

end Frostvault
