import Frostvault.Deletion.PurgeWorker
import Frostvault.Leases.JobTable
import Frostvault.Lib.Effects
import Frostvault.LocalFiles.Temporaries
import Frostvault.Upload.Provenance

/-!
The world of the workers that touch local files (`app/storage.py`,
`app/services/local_files.py`).

A worker shares the files of the Source Volumes with whoever writes to them, and the database
with the other workers; between two of its calls or transactions anything may happen.  What the
operating system, the provider and the Source Volumes answer is part of the world, so it may
change at any time.

* `FileNode`, `Download`, `LocalWorld`, `LocalEvent`: the entries, the downloads of the
  recoveries, the world and what is recorded of an action;
* `ensureJobActive`, `setJob`, `locate`: the actions every worker takes;
* `hashStableRegularFile`, `lexists`, `unlink`, `link`, `rename`: the calls on files.
-/

namespace Frostvault

open Effects Directory

/-! ### Files -/

/-- What a directory entry is. -/
inductive NodeKind
  | regular | symlink | directory | other
deriving DecidableEq, Repr

/-- `file_type`. -/
def NodeKind.fileType : NodeKind → FileType
  | .regular => .regular
  | .symlink => .symlink
  | .directory | .other => .other

/-- Who put an entry where it is. -/
inductive Author
  | application | other
deriving DecidableEq, Repr

/-- What `stat` says of a file. -/
structure FileStat where
  inode : ℕ
  size : ℕ
  mtimeNs : ℤ
  ctimeNs : ℤ
deriving DecidableEq, Repr

/-- A file, with the digest of its bytes. -/
structure FileNode extends FileStat where
  kind : NodeKind
  sha256 : Digest
  author : Author
deriving DecidableEq, Repr

/-- How a recovery names its download: the `uuid4`, and the characters the provider's client adds
while it fills the file. -/
structure Naming where
  hex : FileName
  ext : FileName
  hex_uuid : IsUuid hex
  ext_length : ext.length = 8
  ext_alphanum : ∀ c ∈ ext, c.isAlphanum = true

/-- The download of a recovery. -/
structure Download extends Naming where
  job : JobId
  destination : Place

namespace Download

/-- The temporary of the recovery. -/
def temporary (d : Download) : Place := ⟨d.destination.dir, restoreTemporary d.destination.name d.hex⟩

/-- The name the client fills it under. -/
def filling (d : Download) : Place :=
  ⟨d.destination.dir, restorePartial d.destination.name d.hex d.ext⟩

/-- A temporary has a longer name than its destination. -/
lemma temporary_ne (d : Download) : d.destination ≠ d.temporary := by
  intro h
  have hlen := congrArg (fun p : Place => p.name.length) h
  simp only [temporary, restoreTemporary, temporaryName, List.length_cons, List.length_append]
    at hlen
  omega

lemma filling_ne (d : Download) : d.destination ≠ d.filling := by
  intro h
  have hlen := congrArg (fun p : Place => p.name.length) h
  simp only [filling, restorePartial, restoreTemporary, temporaryName, List.length_cons,
    List.length_append] at hlen
  omega

/-- The files of a download. -/
def files (d : Download) : List Place := [d.temporary, d.filling]

end Download

/-! ### The world -/

/-- What a recovery pins of its version. -/
structure RecoverTarget where
  versionId : RowId
  sha256 : Digest
deriving DecidableEq, Repr

/-- What a recovery of an archived version waits for. -/
inductive RestoreWait
  | approval | restore
deriving DecidableEq, Repr

/-- The status it waits in. -/
def RestoreWait.status : RestoreWait → JobStatus
  | .approval => .pendingApproval
  | .restore => .restoring

/-- Why a worker stops. -/
inductive LocalError
  | cancelled
  | leaseLost
  /-- `RuntimeError` and `ValueError` of the functions themselves. -/
  | refused (message : String)
  /-- `FileNotFoundError`. -/
  | notFound
  /-- `FileExistsError`. -/
  | occupied
  /-- Any other `OSError`. -/
  | os
  | provider
deriving DecidableEq, Repr

/-- The answer of `HeadObject` for an exact version. -/
structure HeadReply where
  deleteMarker : Bool
  versionId : Option ProviderVersionId
  contentLength : Option ℕ
deriving DecidableEq, Repr

/-- What the workers share, and what they are answered. -/
structure LocalWorld where
  files : Files FileNode
  cat : Catalog
  now : Stamp
  /-- The downloads of the recoveries there are, or were. -/
  downloads : List Download
  /-- What `ensure_job_active` raises on account of this process. -/
  interrupted : Option LocalError
  /-- `safe_local_entry_path`. -/
  entryPath : VaultId → Path → Option Place
  /-- `vault_local_access(..).local_operations_allowed`. -/
  access : VaultId → Bool
  /-- `source_root.is_dir()`. -/
  rootIsDir : VaultId → Bool
  /-- The reads that fail, or find that the file changes. -/
  unreadable : Place → Bool
  /-- The calls on an entry the operating system refuses. -/
  refuses : Place → Bool
  /-- The symbolic links that lead somewhere. -/
  resolves : Place → Bool
  /-- What the provider's client downloads. -/
  fetched : Except LocalError FileNode
  /-- What a recovery waits for, if it has to. -/
  waits : Option RestoreWait
  /-- `head_object`. -/
  head : ObjectKey → ProviderVersionId → Except LocalError HeadReply
  /-- `local_release_is_confirmed`, and the policy of an automatic release. -/
  releaseAllowed : Except LocalError Unit
  /-- The Vault and the Source Volume are those of the Job. -/
  sourceUnchanged : Bool

/-- What is recorded of an action. -/
inductive LocalEvent
  | checked
  | located (p : Place)
  /-- The version a recovery or its restart is about. -/
  | targeted (target : RecoverTarget)
  | statusSet (job : JobId) (status : JobStatus)
  | created (p : Place)
  | hashed (p : Place) (sha256 : Digest)
  | moved (source target : Place)
  | linked (source target : Place)
  | removed (p : Place)
  /-- The abandoned downloads of a directory are removed. -/
  | swept (dir : ℕ)
  | headed (key : ObjectKey) (version : ProviderVersionId) (reply : Except LocalError HeadReply)
  /-- The transaction that publishes a recovery. -/
  | recorded (target : RecoverTarget)
  /-- A restart completes a recovery, and records it. -/
  | adopted (job : JobId) (target : RecoverTarget) (found : FileStat)
  /-- A restart decision that changed a Job, with the claim its message names. -/
  | reconciled (job : JobId) (status : JobStatus) (named : Option Place)
deriving Repr

/-- The programs of the workers. -/
abbrev Working := Prog LocalWorld LocalEvent LocalError

/-- The Job as its worker holds it. -/
structure LocalJob where
  id : JobId
  vaultId : VaultId
  vaultFileId : FileId
  path : Path
  token : ℕ
deriving DecidableEq, Repr

/-! ### The actions of every worker -/

/-- A step that only looks. -/
def look {α : Type} (f : LocalWorld → Except LocalError α) : Working α := .ask (fun _ => .checked) f

/-- The lease of the Job, renewed; `none` when it is lost. -/
def renewedClaim (w : LocalWorld) (job : LocalJob) : Except LocalError Catalog :=
  match w.interrupted with
  | some e => .error e
  | none =>
      if (w.cat.job? job.id).any fun j => j.ownedBy job.token w.now then
        .ok (renewJobClaim w.cat job.id job.token w.now (claimExpiryAt w.now))
      else .error .leaseLost

/-- `ensure_job_active`. -/
def ensureJobActive (job : LocalJob) : Working Unit :=
  .commit (fun _ => .checked) fun w =>
    (renewedClaim w job).map fun cat => ((), { w with cat := cat })

/-- `status=..` under a claim: a status that is held extends it, the others give it back. -/
def setOwnedStatus (cat : Catalog) (job : LocalJob) (status : JobStatus) (now : Stamp) : Catalog :=
  cat.mapJobs (fun j =>
    if j.id = job.id ∧ j.ownedBy job.token now then
      if status.leaseHeld then
        { j with
          status := status
          claimExpiresAt := some (claimExpiryAt now) }
      else j.settle status
    else j) fun j => by
      split
      · split <;> rfl
      · rfl

/-- `set_job`: it says whether it had an effect. -/
def setJob (job : LocalJob) (status : JobStatus) : Working Bool :=
  .commit (fun _ => .statusSet job.id status) fun w =>
    if w.interrupted = some .leaseLost then .ok (false, w)
    else .ok ((w.cat.job? job.id).any fun j => j.ownedBy job.token w.now,
      { w with cat := setOwnedStatus w.cat job status w.now })

/-- `safe_local_entry_path`. -/
def locate (v : VaultId) (path : Path) : Working Place :=
  .ask (fun | .ok p => .located p | .error _ => .checked) fun w => match w.entryPath v path with
    | some p => .ok p
    | none => .error (.refused "Path is outside the allowed folder")

/-! ### Calls on files -/

/-- `os.path.lexists`. -/
def lexists (p : Place) : Working Bool := look fun w => .ok (w.files.lookup p).isSome

/-- `lstat`. -/
def lstat (p : Place) : Working FileNode :=
  look fun w => match w.files.lookup p with
    | some n => .ok n
    | none => .error .notFound

/-- `hash_stable_regular_file`: the file is read at one moment, or the call raises. -/
def hashStableRegularFile (p : Place) : Working (Digest × FileStat) :=
  .act (fun w => match read w with
      | .ok r => .hashed p r.1
      | .error _ => .checked) id fun w => .ofExcept (read w)
where
  /-- What the read answers. -/
  read (w : LocalWorld) : Except LocalError (Digest × FileStat) :=
    match w.files.lookup p with
    | none => .error .notFound
    | some n =>
        if n.kind ≠ .regular then .error (.refused "Local file is not a regular file")
        else if w.unreadable p then .error (.refused "Local file changed since fingerprinting")
        else .ok (n.sha256, n.toFileStat)

/-- `_local_stat_unchanged`. -/
def statUnchanged (p : Place) (previous : FileStat) : Working Bool :=
  look fun w => .ok ((w.files.lookup p).any fun n => n.toFileStat = previous)

/-- What an `unlink` does to the files. -/
def LocalWorld.unlinked (w : LocalWorld) (p : Place) : Except LocalError LocalWorld :=
  match w.files.lookup p with
  | none => .error .notFound
  | some n =>
      if w.refuses p ∨ n.kind = .directory then .error .os
      else .ok { w with files := w.files.erase p }

/-- `unlink`. -/
def unlink (p : Place) : Working Unit :=
  .commit (fun _ => .removed p) fun w => (w.unlinked p).map fun w' => ((), w')

/-- `unlink(missing_ok=True)`. -/
def unlinkMissingOk (p : Place) : Working Unit :=
  .commit (fun _ => .removed p) fun w => match w.unlinked p with
    | .ok w' => .ok ((), w')
    | .error .notFound => .ok ((), w)
    | .error e => .error e

/-- What a hard link does to the files; a directory has none. -/
def LocalWorld.linkedTo (w : LocalWorld) (source target : Place) : Except LocalError LocalWorld :=
  match w.files.lookup source with
  | none => .error .notFound
  | some n =>
      if (w.files.lookup target).isSome then .error .occupied
      else if w.refuses target ∨ n.kind = .directory then .error .os
      else .ok { w with files := w.files.insert target n }

/-- `os.link`. -/
def link (source target : Place) : Working Unit :=
  .commit (fun w => if (w.linkedTo source target).isOk then .linked source target else .checked)
    fun w => (w.linkedTo source target).map fun w' => ((), w')

/-- `rename` and `replace`: an entry at the target is replaced, unless it is a directory. -/
def LocalWorld.renamed (w : LocalWorld) (source target : Place) : Except LocalError LocalWorld :=
  match w.files.lookup source with
  | none => .error .notFound
  | some _ =>
      if w.refuses target ∨ (w.files.lookup target).any (fun n => n.kind = .directory) then
        .error .os
      else .ok { w with files := move w.files source target }

/-- `rename`. -/
def rename (source target : Place) : Working Unit :=
  .commit (fun _ => .moved source target) fun w => (w.renamed source target).map fun w' => ((), w')

end Frostvault
