import Frostvault.LocalFiles.Recovery

/-!
Local releases (`_process_free_space` and the free-space branch of
`_reconcile_interrupted_jobs_impl` of `app/storage.py`, `restore_claimed_local_copy` of
`app/services/local_files.py`).

The worker confirms the exact version with the provider, claims the file by renaming it to a
temporary name, hashes it, and unlinks it in the transaction that checks the catalog again; when
anything fails the claim is linked back.  A restart finds the claims of a file by a pattern made
of its name.

* `releaseTarget`, `checkedLocalReleaseTarget`: what may be released;
* `restoreClaimedLocalCopy`: the way back;
* `processFreeSpace`: the worker;
* `reconcileFreeSpace`: the restart.
-/

namespace Frostvault

open Effects Directory

/-! ### What may be released -/

/-- What a release pins of its version and of the Local Copy. -/
structure ReleaseTarget where
  fileId : FileId
  versionId : RowId
  objectKey : ObjectKey
  providerVersionId : ProviderVersionId
  cloudSize : Option ℕ
  sha256 : Digest
  localSize : Option ℕ
  localMtimeNs : Option ℤ
deriving DecidableEq, Repr

/-- The target of a Job, when the catalog has verifiable local and cloud copies of its file. -/
def releaseTarget (cat : Catalog) (job : JobId) : Option ReleaseTarget := do
  let row ← cat.job? job
  let version ← row.archiveVersionId.bind cat.version?
  let file ← cat.file? row.vaultFileId
  let lc ← file.localCopy
  let latest ← file.latestVersion
  let sha ← version.plaintextSha256
  let providerVersionId ← version.providerVersionId
  if lc.presence = .present ∧ lc.fileType = .regular ∧ version.integrity = .verified ∧
      version.availability = .available ∧ lc.matchedArchiveVersionId = some version.id ∧
      lc.plaintextSha256 = some sha ∧ lc.cloudOnlyVersionId = none ∧ version.id = latest.id then
    some ⟨file.id, version.id, version.objectKey, providerVersionId, version.size, sha, lc.size,
      lc.mtimeNs⟩
  else none

/-- `_checked_local_release_target`. -/
def checkedLocalReleaseTarget (w : LocalWorld) (job : JobId) : Except LocalError ReleaseTarget :=
  match w.releaseAllowed with
  | .error e => .error e
  | .ok () => match releaseTarget w.cat job with
    | none => .error (.refused "The file no longer has verifiable local and cloud copies")
    | some t => .ok t

/-- `head_object`. -/
def headObject (key : ObjectKey) (version : ProviderVersionId) : Working HeadReply :=
  .ask (fun reply => .headed key version reply) fun w => w.head key version

/-- The reply confirms the exact version, and its size. -/
def HeadReply.confirms (reply : HeadReply) (t : ReleaseTarget) : Bool :=
  !reply.deleteMarker && reply.versionId = some t.providerVersionId &&
    reply.contentLength.isSome && reply.contentLength = t.cloudSize

/-! ### Claims -/

/-- The claim of an entry. -/
def claimOf (p : Place) (hex : FileName) : Place := ⟨p.dir, cleanupTemporary p.name hex⟩

/-- The link, and what follows it. -/
def linkBack (claimed target : Place) : Working Bool := do
  let r ← (link claimed target).outcome
  match r with
  | .ok () => do
      unlink claimed
      pure true
  | .error .occupied => pure false
  | .error _ => do
      let still ← lexists claimed
      if still then pure false
      else .raise (.refused "Cleanup claim disappeared while restoring local content")

/-- `restore_claimed_local_copy`. -/
def restoreClaimedLocalCopy (claimed target : Place) : Working Bool := do
  let there ← lexists claimed
  if there then linkBack claimed target else pure true

/-! ### The worker -/

/-- The transaction of `_process_free_space`: the catalog is checked again and the claim is
unlinked. -/
def releaseClaim (job : LocalJob) (target : ReleaseTarget) (claimed : Place) (digest : Digest)
    (st : FileStat) : Working Unit :=
  .commit (fun w => if (released w).isOk then .removed claimed else .checked) fun w =>
    (released w).map fun w' => ((), w')
where
  /-- The world after it. -/
  released (w : LocalWorld) : Except LocalError LocalWorld := do
    let cat ← renewedClaim w job
    let fresh ← checkedLocalReleaseTarget w job.id
    if fresh.versionId = target.versionId ∧ fresh.objectKey = target.objectKey ∧
        fresh.providerVersionId = target.providerVersionId ∧ fresh.cloudSize = some st.size ∧
        fresh.sha256 = digest ∧ fresh.localSize = some st.size ∧
        fresh.localMtimeNs = some st.mtimeNs then
      LocalWorld.unlinked { w with cat := cat } claimed
    else .error (.refused "Cleanup blocked: protection changed while claiming the file")

/-- The body of the `try`. -/
def releaseClaimed (job : LocalJob) (target : ReleaseTarget) (claimed : Place) : Working Unit := do
  let (digest, st) ← hashStableRegularFile claimed
  .require (some st.size = target.localSize ∧ some st.mtimeNs = target.localMtimeNs ∧
    digest = target.sha256) (.refused "Local file changed since fingerprinting")
  ensureJobActive job
  releaseClaim job target claimed digest st

/-- The row of an entry whose content is not that of the version. -/
def observedContent (cat : Catalog) (file : FileId) (at_ : Stamp) : Catalog :=
  cat.mapLocalCopies fun f =>
    if f.id = file then f.localCopy.map fun lc => { lc with contentObservedAt := some at_ }
    else f.localCopy

/-- The digest of what is there, when it is a file. -/
def regularDigest (p : Place) (n : FileNode) : Working (Option Digest) :=
  if n.kind = .regular then do
    let (digest, _) ← hashStableRegularFile p
    pure (some digest)
  else pure none

/-- `_repair_failed_local_release`. -/
def repairFailedLocalRelease (vaults : VaultTable) (job : LocalJob) (target : ReleaseTarget)
    (p : Place) (replacement : Bool) : Working Unit := do
  let valid ← look fun w => .ok w.sourceUnchanged
  .require (valid = true) (.refused "Source Volume changed during local release repair")
  let n ← lstat p
  let digest ← regularDigest p n
  .commit (fun _ => .checked) fun w => match repaired n digest w with
    | some cat => .ok ((), { w with cat := cat })
    | none => .error (.refused "Deletion has started or is no longer cancellable")
where
  /-- The catalog after its transaction. -/
  repaired (n : FileNode) (digest : Option Digest) (w : LocalWorld) : Option Catalog := do
    guard w.sourceUnchanged
    let entry : LocalEntry := ⟨job.path, n.kind.fileType, some n.size, some n.mtimeNs, w.now⟩
    let (cat, file) ← if replacement then
        some (observeReplacedLocalCopy w.cat target.fileId n.kind.fileType (some n.size)
          (some n.mtimeNs) w.now, target.fileId)
      else do
        let cat ← observeLocalCopy vaults w.cat job.vaultId entry none none
        let f ← cat.fileAt? job.vaultId job.path
        some (cat, f.id)
    let cat := if digest = some target.sha256 then cat else observedContent cat file w.now
    match digest with
    | none => some cat
    | some d => some (setLocalFingerprint cat job.vaultId job.path d
        (if d = target.sha256 then some target.versionId else none))

/-- The exception branch: the claim is linked back, and the exception goes on. -/
def salvage (vaults : VaultTable) (job : LocalJob) (target : ReleaseTarget) (claimed p : Place)
    (e : LocalError) : Working Unit := do
  let restored ← restoreClaimedLocalCopy claimed p
  if restored then
    repairFailedLocalRelease vaults job target p false
    .raise e
  else
    let _ ← (repairFailedLocalRelease vaults job target p true).outcome
    .raise (.refused "Cleanup stopped; original content was preserved")

/-- The last transaction: the Local Copy is missing, or what replaced it is recorded. -/
def recordRelease (job : LocalJob) (target : ReleaseTarget) (left : Option FileNode) :
    Working Unit :=
  .commit (fun _ => .checked) fun w => (renewedClaim w job).map fun cat => ((), { w with
    cat := match left with
      | none => markLocalCopyMissing cat target.fileId w.now
      | some n => observeReplacedLocalCopy cat target.fileId n.kind.fileType (some n.size)
          (some n.mtimeNs) w.now })

/-- The target of a release. -/
def readReleaseTarget (job : LocalJob) : Working ReleaseTarget :=
  look fun w => checkedLocalReleaseTarget w job.id

/-- `process_free_space` and `_process_free_space`. -/
def processFreeSpace (vaults : VaultTable) (job : LocalJob) (n : Naming) : Working Unit := do
  ensureJobActive job
  ensureJobActive job
  let target ← readReleaseTarget job
  let _ ← setJob job .cleaning
  ensureJobActive job
  let reply ← headObject target.objectKey target.providerVersionId
  .require (reply.confirms target = true)
    (.refused "Cleanup blocked: exact S3 version or size no longer matches")
  ensureJobActive job
  let p ← locate job.vaultId job.path
  rename p (claimOf p n.hex)
  (releaseClaimed job target (claimOf p n.hex)).handle
    (salvage vaults job target (claimOf p n.hex) p)
  ensureJobActive job
  let left ← look fun w => .ok (w.files.lookup p)
  recordRelease job target left
  let _ ← setJob job .completed
  pure ()

/-! ### The restart -/

/-- `Path.exists`, which follows symbolic links. -/
def LocalWorld.exists_ (w : LocalWorld) (p : Place) : Bool :=
  (w.files.lookup p).any fun n => n.kind ≠ .symlink || w.resolves p

/-- The loop over the claims that were found: it says whether one was linked back. -/
def restoreFirst (target : Place) : List FileName → Working Bool
  | [] => pure false
  | c :: cs => do
      let restored ← restoreClaimedLocalCopy ⟨target.dir, c⟩ target
      if restored then
        let there ← lexists target
        if there then pure true else restoreFirst target cs
      else restoreFirst target cs

/-- The Local Copy of a Job's file is gone. -/
def markMissing (job : LocalJob) (at_ : Stamp) : Working Unit :=
  .commit (fun _ => .checked) fun w =>
    .ok ((), { w with cat := markLocalCopyMissing w.cat job.vaultFileId at_ })

/-- The decision after the loop over the claims. -/
def afterClaims (job : LocalJob) (target : Place) (at_ : Stamp) (found : List FileName)
    (restored : Bool) : Working Unit :=
  if restored then do
    let _ ← transition job.id .queued none at_
    pure ()
  else do
    let remaining ← look fun w => .ok (found.filter fun c => w.exists_ ⟨target.dir, c⟩)
    match remaining with
    | c :: _ => do
        let _ ← transition job.id .failed (some ⟨target.dir, c⟩) at_
        pure ()
    | [] => do
        markMissing job at_
        let _ ← transition job.id .completed none at_
        pure ()

/-- The free-space branch, once the entry is known to be absent. -/
def reconcileClaims (job : LocalJob) (target : Place) (at_ : Stamp) : Working Unit := do
  let found ← look fun w => .ok (foundClaims w.files target)
  let restored ← restoreFirst target found
  afterClaims job target at_ found restored

/-- The branch once the original entry is known. -/
def decideAt (job : LocalJob) (at_ : Stamp) (target : Place) : Working Unit := do
  let there ← lexists target
  if there then
    let _ ← transition job.id .queued none at_
    pure ()
  else reconcileClaims job target at_

/-- The body of the `try`. -/
def decideFreeSpace (job : LocalJob) (at_ : Stamp) : Working Unit := do
  let isDir ← look fun w => .ok (w.rootIsDir job.vaultId)
  .require (isDir = true) (.refused "Source folder is unavailable")
  let target ← locate job.vaultId job.path
  decideAt job at_ target

/-- The free-space branch of `_reconcile_interrupted_jobs_impl`. -/
def reconcileFreeSpace (job : LocalJob) (at_ : Stamp) : Working Unit := do
  let allowed ← look fun w => .ok (w.access job.vaultId)
  if allowed then orFailed job at_ (decideFreeSpace job at_) else pure ()

end Frostvault
