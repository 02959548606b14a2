import Frostvault.Lib.Savepoints
import Frostvault.Paths.Tables

/-!
The confirmation of a rename, statement by statement (`confirm_file_rename` of
`app/catalog.py`).

The missing file takes over path and Local Copy of a provisional file with the same content.
Six conditional statements do it, each with a predicate that describes the pair as the previous
statements left it; one that does not touch exactly one row takes the session back to the
savepoint, and the function raises.

What the predicates and the list of candidates see is a parameter, one function for each of
them, for they read what other sessions have committed by then.  That is how a confirmation
fails at any of its statements.

* `pairPredicate`: `_rename_pair_predicate`;
* `renameStatements`: the six statements;
* `Tables.confirmFileRename`: the function;
* `confirmFileRename_ok`: it goes through;
* `confirmFileRename_cases`: it raises and leaves the session as it was, or all six statements
  touched one row.
-/

namespace Frostvault

open Table

/-! ### The candidate -/

/-- A file with one of its paths and its Local Copy. -/
structure JoinedRow where
  file : FileRow
  path : FilePathRow
  copy : LocalCopy
deriving DecidableEq, Repr

/-- The missing file and the provisional one, as they were loaded. -/
structure RenameSnapshot where
  missing : JoinedRow
  provisional : JoinedRow
deriving DecidableEq, Repr

namespace Tables

/-- `vault_files` joined with `file_paths` and `local_copies`. -/
def joined (t : Tables) : List JoinedRow :=
  (t.joinPaths fun f r => r.vaultId = f.vaultId).flatMap fun row =>
    (t.copies.filter fun c => c.vaultFileId = row.1.id).map fun c => ⟨row.1, row.2, c.copy⟩

/-- A regular file of the Vault with a fingerprint, known by its current path. -/
def isRenameRow (v : VaultId) (presence : Presence) (row : JoinedRow) : Bool :=
  row.path.validTo.isNone && row.file.vaultId = v && row.file.status = .active &&
    row.copy.fileType = .regular && row.copy.plaintextSha256.isSome &&
    row.copy.presence = presence && row.copy.cloudOnlyVersionId.isNone

/-- `_load_rename_candidate`. -/
def loadRenameCandidate (t : Tables) (v : VaultId) (id : FileId) (newPath : Path) :
    Option RenameSnapshot :=
  ((t.joined.filter fun m => isRenameRow v .missing m && m.file.id = id).flatMap fun m =>
    (t.joined.filter fun p => isRenameRow v .present p && p.file.id ≠ m.file.id &&
      p.path.path = newPath && p.copy.plaintextSha256 = m.copy.plaintextSha256).map
        fun p => ⟨m, p⟩).head?

/-- A Job of the file is not terminal. -/
def hasPendingJob (t : Tables) (id : FileId) : Bool :=
  t.jobs.any fun j => j.vaultFileId = id && !j.status.terminal

/-- `list_rename_candidates` for one digest. -/
def listRenameCandidates (t : Tables) (v : VaultId) (digest : Option Digest) :
    Option RenameSnapshot :=
  let rows := t.joined.filter fun row => row.copy.plaintextSha256 = digest
  match rows.filter (isRenameRow v .missing), rows.filter (isRenameRow v .present) with
  | [m], [p] =>
      if (m.copy.observedAt - p.copy.observedAt) + (p.copy.observedAt - m.copy.observedAt) ≤
            autoRenameWindow ∧
          p.file.id ∉ t.versions ∧ t.hasPendingJob p.file.id = false ∧
          t.hasPendingJob m.file.id = false
      then some ⟨m, p⟩ else none
  | _, _ => none

/-! ### The predicate of the pair -/

/-- `_file_snapshot_conditions`. -/
def fileMatches (f : FileRow) (id : FileId) (v : VaultId) (status : FileStatus)
    (retiredAt : Option Stamp) : Bool :=
  f.id = id && f.vaultId = v && f.status = status && f.retiredAt = retiredAt

/-- A state of a path: its name, `valid_from` and `valid_to`. -/
abbrev PathState := Path × Stamp × Option Stamp

/-- `_path_snapshot_conditions`. -/
def pathMatches (r : FilePathRow) (id : FileId) (v : VaultId) (state : PathState) : Bool :=
  r.vaultFileId = id && r.vaultId = v && r.path = state.1 && r.validFrom = state.2.1 &&
    r.validTo = state.2.2

/-- `_local_copy_snapshot_conditions`. -/
def copyMatches (c snapshot : LocalCopy) : Bool :=
  c.presence = snapshot.presence && c.fileType = snapshot.fileType && c.size = snapshot.size &&
    c.mtimeNs = snapshot.mtimeNs && c.plaintextSha256 = snapshot.plaintextSha256 &&
    c.matchedArchiveVersionId = snapshot.matchedArchiveVersionId &&
    c.lastSeenAt = snapshot.lastSeenAt && c.observedAt = snapshot.observedAt

/-- `_rename_pair_predicate`. -/
def pairPredicate (t : Tables) (snap : RenameSnapshot) (v : VaultId) (missingPath : PathState)
    (status : FileStatus) (retiredAt : Option Stamp) (provisionalPath : PathState)
    (copyPresent : Bool) : Bool :=
  (t.joined.any fun row =>
    fileMatches row.file snap.missing.file.id v snap.missing.file.status
        snap.missing.file.retiredAt &&
      pathMatches row.path snap.missing.file.id v missingPath &&
      copyMatches row.copy snap.missing.copy) &&
  ((t.joinPaths fun f r => r.vaultId = f.vaultId).any fun row =>
    fileMatches row.1 snap.provisional.file.id v status retiredAt &&
      pathMatches row.2 snap.provisional.file.id v provisionalPath &&
      row.1.id ∉ t.versions &&
      if copyPresent then
        t.copies.any fun c => c.vaultFileId = row.1.id && copyMatches c.copy snap.provisional.copy
      else !t.copies.any fun c => c.vaultFileId = row.1.id)

/-! ### The six statements -/

/-- The arguments of a confirmation, with the candidate it loaded. -/
structure Rename where
  vaultId : VaultId
  newPath : Path
  changedAt : Stamp
  snap : RenameSnapshot

namespace Rename

/-- `missing_current`. -/
def missingCurrent (c : Rename) : PathState :=
  (c.snap.missing.path.path, c.snap.missing.path.validFrom, none)

/-- `missing_closed`. -/
def missingClosed (c : Rename) : PathState :=
  (c.snap.missing.path.path, c.snap.missing.path.validFrom, some c.changedAt)

/-- `missing_renamed`. -/
def missingRenamed (c : Rename) : PathState := (c.newPath, c.changedAt, none)

/-- `provisional_current`. -/
def provisionalCurrent (c : Rename) : PathState :=
  (c.snap.provisional.path.path, c.snap.provisional.path.validFrom, none)

/-- `provisional_closed`. -/
def provisionalClosed (c : Rename) : PathState :=
  (c.snap.provisional.path.path, c.snap.provisional.path.validFrom, some c.changedAt)

/-- The pair once the provisional file is claimed. -/
def claimedPair (c : Rename) (seen : Tables) (missingPath provisionalPath : PathState)
    (copyPresent : Bool) : Bool :=
  seen.pairPredicate c.snap c.vaultId missingPath .retired (some c.changedAt) provisionalPath
    copyPresent

/-- Retire the provisional file, if the pair is still as it was loaded. -/
def claim (c : Rename) (seen : Tables) (t : Tables) : Tables × ℕ :=
  let r := update
    (fun f : FileRow => f.id = c.snap.provisional.file.id && f.vaultId = c.vaultId &&
      f.status = .active &&
      seen.pairPredicate c.snap c.vaultId c.missingCurrent .active
        c.snap.provisional.file.retiredAt c.provisionalCurrent true)
    (fun f => { f with
      status := .retired
      retiredAt := some c.changedAt }) t.files
  ({ t with files := r.1 }, r.2)

/-- Close the current path of one side. -/
def closePath (c : Rename) (row : JoinedRow) (pair : Bool) (t : Tables) : Tables × ℕ :=
  let r := update
    (fun r : FilePathRow => r.vaultFileId = row.file.id && r.vaultId = c.vaultId &&
      r.path = row.path.path && r.validFrom = row.path.validFrom && r.validTo.isNone && pair)
    (closeRow c.changedAt) t.paths
  ({ t with paths := r.1 }, r.2)

/-- Close the provisional path. -/
def closeProvisional (c : Rename) (seen : Tables) : Tables → Tables × ℕ :=
  c.closePath c.snap.provisional
    (c.claimedPair seen c.missingCurrent c.provisionalCurrent true)

/-- Consume the provisional Local Copy. -/
def consumeCopy (c : Rename) (seen : Tables) (t : Tables) : Tables × ℕ :=
  let r := delete
    (fun lc : CopyRow => lc.vaultFileId = c.snap.provisional.file.id &&
      c.claimedPair seen c.missingCurrent c.provisionalClosed true) t.copies
  ({ t with copies := r.1 }, r.2)

/-- Close the path the missing file had. -/
def closeMissing (c : Rename) (seen : Tables) : Tables → Tables × ℕ :=
  c.closePath c.snap.missing (c.claimedPair seen c.missingCurrent c.provisionalClosed false)

/-- Give the missing file its new path, `ON CONFLICT DO NOTHING`. -/
def insertNewPath (fileIndex : Bool) (c : Rename) (seen : Tables) (t : Tables) : Tables × ℕ :=
  let row : FilePathRow :=
    ⟨c.snap.missing.file.id, c.vaultId, c.newPath, c.changedAt, none⟩
  if c.claimedPair seen c.missingClosed c.provisionalClosed false &&
      seen.pathFree c.vaultId c.newPath && !pathConflicts fileIndex t row then
    ({ t with paths := t.paths ++ [row] }, 1)
  else (t, 0)

/-- The missing Local Copy becomes the provisional one. -/
def takenOver (c : Rename) (lc : LocalCopy) : LocalCopy :=
  let pc := c.snap.provisional.copy
  { lc with
    presence := pc.presence
    fileType := pc.fileType
    size := pc.size
    mtimeNs := pc.mtimeNs
    plaintextSha256 := pc.plaintextSha256
    matchedArchiveVersionId := pc.matchedArchiveVersionId
    lastSeenAt := some (pc.lastSeenAt.getD c.changedAt)
    observedAt := pc.observedAt }

/-- Restore the missing Local Copy. -/
def restoreCopy (c : Rename) (seen : Tables) (t : Tables) : Tables × ℕ :=
  let r := update
    (fun lc : CopyRow => lc.vaultFileId = c.snap.missing.file.id &&
      c.claimedPair seen c.missingRenamed c.provisionalClosed false)
    (fun lc => { lc with copy := c.takenOver lc.copy }) t.copies
  ({ t with copies := r.1 }, r.2)

/-- The statements of a confirmation.  The `n`th predicate sees `see n` of the tables the
statements before it left. -/
def statements (fileIndex : Bool) (see : ℕ → Tables → Tables) (c : Rename) :
    List (Tables → Tables × ℕ) :=
  [fun t => c.claim (see 1 t) t, fun t => c.closeProvisional (see 2 t) t,
    fun t => c.consumeCopy (see 3 t) t, fun t => c.closeMissing (see 4 t) t,
    fun t => c.insertNewPath fileIndex (see 5 t) t, fun t => c.restoreCopy (see 6 t) t]

end Rename

/-! ### The function -/

/-- What the functions of the catalog raise. -/
inductive CatalogError
  | vaultFileNotFound
  /-- An error of the database. -/
  | databaseError
deriving DecidableEq, Repr

/-- `rename_confirmation_cas`. -/
def renameSavepoint : String := "rename_confirmation_cas"

/-- `_reserve_rename_confirmation`: the Vault is active. -/
def reserveRenameConfirmation (t : Tables) (v : VaultId) : Bool :=
  (t.vaults v).any fun vault => vault.decommissionState = .active

/-- `confirm_file_rename`, with what its caller gets and the session it is left with. -/
def confirmFileRename (fileIndex : Bool) (see : ℕ → Tables → Tables) (ses : Session)
    (id : FileId) (newPath : Path) (changedAt : Stamp) (v : VaultId)
    (s : Savepoints.Session Tables) :
    Except CatalogError FileId × Savepoints.Session Tables :=
  if s.current.reserveRenameConfirmation v then
    match s.current.loadRenameCandidate v id newPath with
    | none => (.error .vaultFileNotFound, s)
    | some snap =>
        let listed := (see 0 s.current).listRenameCandidates v snap.missing.copy.plaintextSha256
        if listed.any fun c => c.missing.file.id = id && c.provisional.path.path = newPath then
          let c : Rename := ⟨v, newPath, changedAt, snap⟩
          match Savepoints.compareAndSwap renameSavepoint (c.statements fileIndex see)
              (s.savepoint renameSavepoint) with
          | (.lost, s') => (.error .vaultFileNotFound, s')
          | (.noSavepoint, s') => (.error .databaseError, s')
          | (.done, s') =>
              let marked := s'.current.markPathsDirty ses v
                [snap.missing.path.path, snap.provisional.path.path, newPath]
              match ({ s' with current := marked } :
                  Savepoints.Session Tables).release renameSavepoint with
              | none => (.error .databaseError, s')
              | some s'' => (.ok id, s'')
        else (.error .vaultFileNotFound, s)
  else (.error .vaultFileNotFound, s)

/-- **What a confirmation does.**  It raises and leaves the session as it was, or the six
statements touched one row each and the marks follow. -/
theorem confirmFileRename_cases (fileIndex : Bool) (see : ℕ → Tables → Tables) (ses : Session)
    (id : FileId) (newPath : Path) (changedAt : Stamp) (v : VaultId)
    (s : Savepoints.Session Tables) :
    (confirmFileRename fileIndex see ses id newPath changedAt v s =
        (.error .vaultFileNotFound, s)) ∨
      ∃ snap t, s.current.loadRenameCandidate v id newPath = some snap ∧
        Savepoints.swapAll
          (Rename.statements fileIndex see ⟨v, newPath, changedAt, snap⟩) s.current = some t ∧
        confirmFileRename fileIndex see ses id newPath changedAt v s =
          (.ok id, { s with
            current := t.markPathsDirty ses v
              [snap.missing.path.path, snap.provisional.path.path, newPath] }) := by
  unfold confirmFileRename
  split
  · split
    · exact Or.inl rfl
    · rename_i snap hload
      dsimp only
      split
      · have hchain := Savepoints.compareAndSwap_savepoint s renameSavepoint
          (Rename.statements fileIndex see ⟨v, newPath, changedAt, snap⟩) s.current
        cases hswap : Savepoints.swapAll
            (Rename.statements fileIndex see ⟨v, newPath, changedAt, snap⟩) s.current with
        | none =>
            rw [hswap] at hchain
            left
            rw [show s.savepoint renameSavepoint =
              { s.savepoint renameSavepoint with current := s.current } from rfl, hchain]
        | some t =>
            rw [hswap] at hchain
            right
            refine ⟨snap, t, hload, hswap, ?_⟩
            rw [show s.savepoint renameSavepoint =
              { s.savepoint renameSavepoint with current := s.current } from rfl, hchain]
            dsimp only
            rw [Savepoints.release_savepoint]
      · exact Or.inl rfl
  · exact Or.inl rfl

/-- A confirmation whose candidate is there and whose statements touch one row each. -/
theorem confirmFileRename_ok {fileIndex : Bool} {see : ℕ → Tables → Tables} {ses : Session}
    {id : FileId} {newPath : Path} {changedAt : Stamp} {v : VaultId}
    {s : Savepoints.Session Tables} {snap listed : RenameSnapshot} {t : Tables}
    (hactive : s.current.reserveRenameConfirmation v)
    (hload : s.current.loadRenameCandidate v id newPath = some snap)
    (hlist : (see 0 s.current).listRenameCandidates v snap.missing.copy.plaintextSha256 =
      some listed)
    (hpair : listed.missing.file.id = id ∧ listed.provisional.path.path = newPath)
    (hswap : Savepoints.swapAll
      (Rename.statements fileIndex see ⟨v, newPath, changedAt, snap⟩) s.current = some t) :
    confirmFileRename fileIndex see ses id newPath changedAt v s =
      (.ok id, { s with
        current := t.markPathsDirty ses v
          [snap.missing.path.path, snap.provisional.path.path, newPath] }) := by
  have hchain := Savepoints.compareAndSwap_savepoint s renameSavepoint
    (Rename.statements fileIndex see ⟨v, newPath, changedAt, snap⟩) s.current
  rw [hswap] at hchain
  have hany : (some listed).any (fun c => c.missing.file.id = id &&
      c.provisional.path.path = newPath) := by
    rw [Option.any_some, Bool.and_eq_true, decide_eq_true_eq, decide_eq_true_eq]
    exact hpair
  rw [confirmFileRename, if_pos hactive, hload]
  dsimp only
  rw [hlist, if_pos hany, show s.savepoint renameSavepoint =
    { s.savepoint renameSavepoint with current := s.current } from rfl, hchain]
  dsimp only
  rw [Savepoints.release_savepoint]

end Tables

end Frostvault
