import Frostvault.Lib.Lookahead
import Frostvault.Remediation.Discovery

/-!
Admission of reconcile-only Jobs (`app/services/upload_remediation.py`), and the uploads an open
episode keeps back.

* `suspension`: `_suspension`, why an episode has to wait;
* `admitEpisode`: `admit`, a reconcile-only Job for an episode;
* `interceptUpload`: `intercept_upload`, the oldest live episode of a file takes the place of an
  ordinary upload;
* `queueUploads`: `queue_jobs` with the action `upload`;
* `admitEpisode_eq_some_iff`: **when an episode gets a Job.**
-/

namespace Frostvault

open Checks

/-! ### Rows -/

/-- The Vault is ready for uploads. -/
def VaultRow.Ready (vault : VaultRow) : Prop :=
  vault.enabled ∧ vault.decommissionState = .active ∧ vault.rootReleased = false ∧
    vault.relocationState = .ready

instance (vault : VaultRow) : Decidable vault.Ready := by
  unfold VaultRow.Ready
  infer_instance

/-- The root of the Vault is the one the target was pinned on. -/
def Episode.SameRoot (vault : VaultRow) (e : Episode) : Prop :=
  e.target.map EpisodeTarget.sourceRoot = some vault.sourceRoot ∧
    e.target.bind EpisodeTarget.rootIdentity = vault.rootIdentity ∧
    e.target.bind EpisodeTarget.rootIdentityVersion = vault.rootIdentityVersion

instance (vault : VaultRow) (e : Episode) : Decidable (e.SameRoot vault) := by
  unfold Episode.SameRoot
  infer_instance

/-- The file is active at the path it was pinned at, since then. -/
def Episode.SamePath (f : VaultFile) (e : Episode) : Prop :=
  f.status = .active ∧ f.currentPath = e.target.map EpisodeTarget.path ∧
    some f.pathSince = e.target.bind EpisodeTarget.pathSince

instance (f : VaultFile) (e : Episode) : Decidable (e.SamePath f) := by
  unfold Episode.SamePath
  infer_instance

/-- The reasons an explicit admission does not override. -/
def Episode.stubborn (e : Episode) : Bool :=
  e.reason = some (.remedy .proofMismatch) || e.reason = some (.remedy .expectedEvidenceMissing) ||
    e.reason = some (.remedy .targetSuperseded)

/-- Why the exact version cannot be reconciled. -/
def ArchiveVersion.reconcileBlock (w : ArchiveVersion) : Option BlockReason :=
  if w.availability ≠ .available ∨ w.integrity = .mismatch then
    some (if w.integrity = .mismatch then .proofMismatch
      else if w.availability = .purged then .targetSuperseded
      else .targetUnavailable)
  else none

/-- The row is queued with its new attempt. -/
def Episode.queueWith (stamp : Stamp) (job : JobId) (e : Episode) : Episode :=
  { e with
    state := .queued
    reason := none
    currentJobId := some job
    updatedAt := stamp
    jobs := e.jobs ++ [job] }

namespace Ledger

/-! ### `_suspension` -/

/-- Another send of the file is not settled, and the one of the episode is settled or is none. -/
def otherSend (L : Ledger) (e : Episode) : Bool :=
  (L.db.intents.any fun i => i.vaultFileId = e.vaultFileId && i.sendStarted && !i.settled &&
    some i.id ≠ e.intentId) &&
  e.intentId.all fun id => (L.db.intent? id).any UploadIntent.settled

/-- **`_suspension`**. -/
def suspension (L : Ledger) (e : Episode) (v : VaultId) (vault : VaultRow) (automatic : Bool) :
    Option BlockReason :=
  if ¬vault.Ready then some .vaultSuspended
  else if ¬e.SameRoot vault then some .identityChanged
  else
    match (L.fileIn? v e.vaultFileId).filter fun f => f.currentPath.isSome with
    | none => some .identityChanged
    | some f =>
        if ¬e.SamePath f then some .identityChanged
        else if f.hold.isSome then some .cloudOnlyConflict
        else if L.otherSend e then some .activeOperation
        else if hasPendingJob L.db.cat e.vaultFileId then some .activeOperation
        else if L.db.cat.items.any fun i => i.vaultFileId = e.vaultFileId && i.status = .pending
        then some .pendingDeletion
        else if L.sourceErrors.contains v then some .sourceVolumeUnavailable
        else if automatic ∧
            ¬(e.target.map EpisodeTarget.path).any (fun p => L.autoUploads v p) then
          some .protectionPaused
        else none

/-! ### `admit` -/

/-- The attempt of the episode is not over. -/
def attemptActive (L : Ledger) (e : Episode) : Bool :=
  (e.currentJobId.bind L.db.cat.job?).any fun j => !j.status.terminal

/-- An original of the episode was cancelled. -/
def originalCancelled (L : Ledger) (e : Episode) : Bool :=
  e.originals.any L.db.cat.jobCancelled

/-- The exact version of an episode, when it cannot be reconciled. -/
def versionBlocked (L : Ledger) (e : Episode) : Option BlockReason :=
  (e.archiveVersionId.bind L.db.cat.version?).bind ArchiveVersion.reconcileBlock

/-- The guards of `admit` that change nothing. -/
def admissible (L : Ledger) (e : Episode) (explicit : Bool) : Bool :=
  (e.state = .pending || e.state = .suspended || (e.state = .blocked && explicit)) &&
    !L.void e && !(explicit && e.stubborn) && !L.attemptActive e

/-- The reconcile-only Job of an episode. -/
def reconcileJob (e : Episode) (v : VaultId) (stamp : Stamp) (automatic : Bool) (group : GroupId)
    (n : JobId) : Job where
  id := n
  vaultId := v
  vaultFileId := e.vaultFileId
  path := (e.target.map EpisodeTarget.path).getD []
  action := .upload
  status := .queued
  origin := if automatic then .automatic else .manual
  groupId := some group
  requestedAt := stamp
  pendingUntil := none
  claimToken := none
  claimExpiresAt := none
  archiveVersionId := e.archiveVersionId
  uploadReconcileOnly := true
  uploadPlaintextSha256 := e.expectedSha256
  uploadSnapshot := e.snapshot
  uploadVerificationRequested := some e.requestedMode

/-- The attempt resumes the intent of its episode. -/
def bindAttempt (db : UploadDb) (job : JobId) : Option UploadIntent → LedgerOutcome UploadDb
  | some intent => lifted (bindForResume db job intent)
  | none => .ok db

/-- The Job of an admission is inserted and bound to the intent of the episode. -/
def insertAttempt (L : Ledger) (e : Episode) (v : VaultId) (stamp : Stamp) (automatic : Bool)
    (group : GroupId) : LedgerOutcome (Ledger × Option JobId) :=
  match insertOpenJob L.db.cat e.vaultFileId (reconcileJob e v stamp automatic group)
      fun _ => rfl with
  | (_, none) => .ok (L, none)
  | (cat, some job) => do
      let db' ← bindAttempt { L.db with cat := cat } job (e.intentId.bind L.db.intent?)
      let L : Ledger := { L.withJournal db' with
        jobColumns := Function.update L.jobColumns job ⟨e.retryCount, none, some e.size, stamp⟩ }
      pure (L.updateEpisode e.id (Episode.queueWith stamp job) fun _ => rfl, some job)

/-- **`admit`**; the caller holds the Vault's lock. -/
def admitEpisode (L : Ledger) (id : RemediationId) (v : VaultId) (vault : VaultRow) (stamp : Stamp)
    (automatic explicit : Bool) (group : GroupId) : LedgerOutcome (Ledger × Option JobId) :=
  match L.episode? id with
  | none => .ok (L, none)
  | some e =>
      if !L.admissible e explicit then .ok (L, none)
      else if L.originalCancelled e then
        .ok (L.updateEpisode id (fun e => { e with state := .cancelled, updatedAt := stamp })
          fun _ => rfl, none)
      else
        match L.suspension e v vault automatic with
        | some r => .ok (L.updateEpisode id (fun e =>
            { e.park stamp .suspended (some (.remedy r)) with dueAt := later stamp })
            fun _ => rfl, none)
        | none =>
            match L.versionBlocked e with
            | some r => .ok (L.updateEpisode id (Episode.park stamp .blocked (some (.remedy r)))
                fun _ => rfl, none)
            | none => L.insertAttempt e v stamp automatic group

/-! ### When a Job is admitted -/

variable {names : KeyNames} {L L' : Ledger} {e : Episode} {v : VaultId} {vault : VaultRow}
  {stamp : Stamp} {automatic explicit : Bool} {group : GroupId} {id : RemediationId}

lemma ite_some_eq_none {α : Type} {p : Prop} [Decidable p] {a : α} {o : Option α} :
    (if p then some a else o) = none ↔ ¬p ∧ o = none := by
  by_cases hp : p <;> simp [hp]

/-- **Nothing suspends an episode.** -/
lemma suspension_eq_none_iff : L.suspension e v vault automatic = none ↔
    vault.Ready ∧ e.SameRoot vault ∧
      (∃ f, L.fileIn? v e.vaultFileId = some f ∧ f.currentPath.isSome ∧ e.SamePath f ∧
        f.hold = none) ∧
      L.otherSend e = false ∧ hasPendingJob L.db.cat e.vaultFileId = false ∧
      (∀ i ∈ L.db.cat.items, i.vaultFileId = e.vaultFileId → i.status ≠ .pending) ∧
      v ∉ L.sourceErrors ∧
      (automatic → (e.target.map EpisodeTarget.path).any fun p => L.autoUploads v p) := by
  unfold suspension
  by_cases hready : vault.Ready
  · by_cases hroot : e.SameRoot vault
    · cases hfile : L.fileIn? v e.vaultFileId with
      | none => simp [hready, hroot]
      | some f =>
          by_cases hpath : f.currentPath.isSome
          · by_cases hsame : e.SamePath f
            · simp [hready, hroot, hpath, hsame, Option.filter, ite_some_eq_none]
            · simp [hready, hroot, hpath, hsame, Option.filter]
          · simp [hready, hroot, hpath, Option.filter]
    · simp [hready, hroot]
  · simp [hready]

/-- A Job of the send was cancelled. -/
def sendCancelled (L : Ledger) (i : UploadIntent) : Bool :=
  L.db.cat.jobCancelled i.originalJobId ||
    L.db.intentJobs.any fun b => b.2 = i.id && L.db.cat.jobCancelled b.1

/-- A Job of the episode's send was cancelled. -/
def boundCancelled (L : Ledger) (e : Episode) : Bool :=
  (e.intentId.bind L.db.intent?).any L.sendCancelled

/-- The Jobs the intents come from are there: the foreign key of
`upload_intents.original_job_id`. -/
def OriginalsKnown (L : Ledger) : Prop :=
  ∀ i ∈ L.db.intents, (L.db.cat.job? i.originalJobId).isSome

lemma job?_insertJob {cat : Catalog} {job : JobId → Job} {hid : ∀ n, (job n).id = n} {id : JobId}
    (h : (cat.job? id).isSome) : (cat.insertJob job hid fun _ => []).job? id = cat.job? id := by
  obtain ⟨j, hj⟩ := Option.isSome_iff_exists.mp h
  have hfind : cat.jobs.find? (fun j => j.id = id) = some j := hj
  simp only [Catalog.job?, Catalog.insertJob, List.find?_append, hfind, Option.some_or]

/-- A queued Job that is inserted is not a cancelled one. -/
lemma jobCancelled_insertJob {cat : Catalog} {job : JobId → Job} {hid : ∀ n, (job n).id = n}
    (hstatus : ∀ n, (job n).status = .queued) (id : JobId) :
    (cat.insertJob job hid fun _ => []).jobCancelled id = cat.jobCancelled id := by
  cases hj : cat.job? id with
  | some j =>
      have hsome : (cat.job? id).isSome := by rw [hj]; rfl
      rw [Catalog.jobCancelled, Catalog.jobCancelled, job?_insertJob hsome]
  | none =>
      have hfind : cat.jobs.find? (fun j => j.id = id) = none := hj
      rw [Catalog.jobCancelled, Catalog.jobCancelled, hj]
      simp only [Catalog.job?, Catalog.insertJob, List.find?_append, hfind, Option.none_or,
        List.find?_singleton]
      split <;> simp [hstatus]

lemma lifted_eq_ok_iff {α : Type} {x : Outcome α} {a : α} : lifted x = .ok a ↔ x = .ok a := by
  cases x with
  | error e => simp [lifted, Except.mapError]
  | ok b => simp [lifted, Except.mapError]

lemma cat_bindAttempt {db db' : UploadDb} {job : JobId} {i : Option UploadIntent}
    (h : bindAttempt db job i = .ok db') : db'.cat = db.cat := by
  cases i with
  | none => rw [← Except.ok.inj h]
  | some i =>
      obtain ⟨-, hbind⟩ := require_bind_eq_ok_iff.mp (lifted_eq_ok_iff.mp h)
      rw [← pure_eq_ok_iff.mp hbind]
      unfold UploadDb.bind
      split <;> rfl

/-- The Job of an attempt is inserted, unless the file has another one. -/
lemma cat_insertAttempt {r : Option JobId}
    (h : L.insertAttempt e v stamp automatic group = .ok (L', r)) :
    (r = none ∧ L'.db.cat = L.db.cat) ∨
      (r = some L.db.cat.freshJobId ∧ hasPendingJob L.db.cat e.vaultFileId = false ∧
        L'.db.cat = L.db.cat.insertJob (reconcileJob e v stamp automatic group) (fun _ => rfl)
          fun _ => []) := by
  unfold insertAttempt insertOpenJob at h
  by_cases hpending : hasPendingJob L.db.cat e.vaultFileId
  · rw [if_pos hpending] at h
    cases h
    exact .inl ⟨rfl, rfl⟩
  · rw [if_neg hpending] at h
    obtain ⟨db', hdb', h⟩ := bind_eq_ok_iff.mp h
    cases pure_eq_ok_iff.mp h
    refine .inr ⟨rfl, Bool.eq_false_iff.mpr hpending, ?_⟩
    exact cat_bindAttempt hdb'

/-- **What an admission does to the Jobs**: nothing, or it inserts the Job of the episode. -/
lemma cat_admitEpisode {r : Option JobId}
    (h : L.admitEpisode id v vault stamp automatic explicit group = .ok (L', r)) :
    (r = none ∧ L'.db.cat = L.db.cat) ∨
      ∃ e, L.episode? id = some e ∧ r = some L.db.cat.freshJobId ∧
        hasPendingJob L.db.cat e.vaultFileId = false ∧
        L'.db.cat = L.db.cat.insertJob (reconcileJob e v stamp automatic group) (fun _ => rfl)
          fun _ => [] := by
  unfold admitEpisode at h
  split at h
  · cases h
    exact .inl ⟨rfl, rfl⟩
  · rename_i e he
    split at h
    · cases h
      exact .inl ⟨rfl, rfl⟩
    · split at h
      · cases h
        exact .inl ⟨rfl, rfl⟩
      · split at h
        · cases h
          exact .inl ⟨rfl, rfl⟩
        · split at h
          · cases h
            exact .inl ⟨rfl, rfl⟩
          · obtain hattempt | ⟨hr, hpending, hcat⟩ := cat_insertAttempt h
            · exact .inl hattempt
            · exact .inr ⟨e, he, hr, hpending, hcat⟩

/-- The attempt is bound exactly if no Job of the send was cancelled. -/
lemma bindAttempt_ok_iff (hknown : L.OriginalsKnown) (job : JobId → Job)
    (hid : ∀ n, (job n).id = n) (hstatus : ∀ n, (job n).status = .queued) (n : JobId) :
    (∃ db', bindAttempt { L.db with cat := L.db.cat.insertJob job hid fun _ => [] } n
      (e.intentId.bind L.db.intent?) = .ok db') ↔ L.boundCancelled e = false := by
  cases hi : e.intentId.bind L.db.intent? with
  | none => simp [bindAttempt, boundCancelled, hi]
  | some i =>
      have hmem : i ∈ L.db.intents := by
        obtain ⟨id, -, hfind⟩ := Option.bind_eq_some_iff.mp hi
        exact List.mem_of_find?_eq_some hfind
      have hsome : ((L.db.cat.insertJob job hid fun _ => []).job? i.originalJobId).isSome := by
        rw [job?_insertJob (hknown i hmem)]
        exact hknown i hmem
      have hcancel : (∀ b ∈ L.db.intentJobs, b.2 = i.id → L.db.cat.jobCancelled b.1 = false) ↔
          (L.db.intentJobs.any fun b => b.2 = i.id && L.db.cat.jobCancelled b.1) = false := by
        simp
      simp only [boundCancelled, hi, Option.any_some, sendCancelled, Bool.or_eq_false_iff,
        ← hcancel, bindAttempt, lifted_eq_ok_iff, bindForResume, require_bind_eq_ok_iff, hsome,
        jobCancelled_insertJob hstatus, true_and, pure_eq_ok_iff, exists_and_left,
        exists_eq', and_true]

/-- **When an episode gets a Job**: it may be admitted, nothing suspends it, its version can be
reconciled, and no Job of its send was cancelled. -/
theorem admitEpisode_eq_some_iff (hknown : L.OriginalsKnown) (he : L.episode? id = some e) :
    (∃ L' job, L.admitEpisode id v vault stamp automatic explicit group = .ok (L', some job)) ↔
      L.admissible e explicit ∧ L.originalCancelled e = false ∧
        L.suspension e v vault automatic = none ∧ L.versionBlocked e = none ∧
        L.boundCancelled e = false := by
  unfold admitEpisode
  simp only [he]
  by_cases hopen : L.admissible e explicit
  swap
  · simp [hopen]
  by_cases horiginal : L.originalCancelled e
  · simp [hopen, horiginal]
  cases hsusp : L.suspension e v vault automatic with
  | some r => simp [hopen, horiginal]
  | none =>
      cases hblock : L.versionBlocked e with
      | some r => simp [hopen, horiginal]
      | none =>
          have hpending := (suspension_eq_none_iff.mp hsusp).2.2.2.2.1
          have hattempt : (∃ L' job, L.insertAttempt e v stamp automatic group =
              .ok (L', some job)) ↔ L.boundCancelled e = false := by
            rw [← bindAttempt_ok_iff hknown (reconcileJob e v stamp automatic group)
              (fun _ => rfl) (fun _ => rfl) L.db.cat.freshJobId]
            unfold insertAttempt insertOpenJob
            rw [if_neg (by simp [hpending])]
            constructor
            · rintro ⟨L', job, h⟩
              obtain ⟨db', hdb', -⟩ := bind_eq_ok_iff.mp h
              exact ⟨db', hdb'⟩
            · rintro ⟨db', hdb'⟩
              exact ⟨_, _, bind_eq_ok_iff.mpr ⟨db', hdb', rfl⟩⟩
          simp [hopen, horiginal, hattempt]

/-! ### `intercept_upload` -/

/-- How many rows `intercept_upload` looks at. -/
def interceptLimit : ℕ := 8

/-- The episode that takes the place of an ordinary upload: the first live one of those it looks
at. -/
def intercepting (L : Ledger) (file : FileId) : Option Episode :=
  Lookahead.look L.void interceptLimit (L.unresolved file)

/-- **`intercept_upload`**: whether the ledger handles the uploads of the file, and the Job that
was admitted. -/
def interceptUpload (names : KeyNames) (L : Ledger) (v : VaultId) (vault : VaultRow)
    (file : FileId) (stamp : Stamp) (automatic : Bool) (group : GroupId) :
    LedgerOutcome (Ledger × Bool × Option JobId) := do
  let L ← L.discoverFile names v vault file stamp
  match L.intercepting file with
  | none => pure (L, false, none)
  | some e => do
      let (L, job) ← L.admitEpisode e.id v vault stamp automatic false group
      pure (L, true, job)

/-! ### `queue_jobs` -/

/-- The loop of `queue_jobs` over the candidates of an upload: the ledger, the rows that get an
ordinary Job, and the Jobs that were resumed. -/
structure Found where
  ledger : Ledger
  rows : List QueueRow
  jobIds : List JobId

/-- One candidate. -/
def considerUpload (names : KeyNames) (vault : VaultRow) (q : QueueRequest) (acc : Found)
    (r : QueueRow) : LedgerOutcome Found :=
  if localCopyIsUploadEligible (r.visible acc.ledger.db.cat.jobs) then do
    let (L, handled, job) ← interceptUpload names acc.ledger q.vaultId vault r.file.id
      q.requestedAt (q.origin = .automatic) q.groupId
    if handled then pure ⟨L, acc.rows, acc.jobIds ++ job.toList⟩
    else pure ⟨L, acc.rows ++ [r], acc.jobIds⟩
  else pure acc

/-- The ordinary Job of a row. -/
def insertUpload (q : QueueRequest) (mode : Option VerificationMode) (acc : Ledger × List JobId)
    (r : QueueRow) : Ledger × List JobId :=
  match insertOpenJob acc.1.db.cat r.file.id (q.job mode r) (q.job_id mode r) with
  | (_, none) => acc
  | (cat, some job) =>
      ({ acc.1.withJournal { acc.1.db with cat := cat } with
        jobColumns := Function.update acc.1.jobColumns job
          ⟨0, none, some ((r.file.localCopy.bind LocalCopy.size).getD 0), q.requestedAt⟩ },
        acc.2 ++ [job])

/-- **`queue_jobs`** with the action `upload`: each candidate is intercepted, then the others get
their ordinary Jobs. -/
def queueUploads (names : KeyNames) (mode : Option VerificationMode) (vault : VaultRow)
    (L : Ledger) (q : QueueRequest) : LedgerOutcome (Ledger × List JobId) := do
  require (q.origin = .manual ∨ q.origin = .automatic) .unsupportedOrigin
  let found ← (L.db.cat.files.filterMap (q.row L.db.cat)).foldlM (considerUpload names vault q)
    ⟨L, [], []⟩
  pure (found.rows.foldl (insertUpload q mode) (found.ledger, found.jobIds))

end Ledger

end Frostvault
