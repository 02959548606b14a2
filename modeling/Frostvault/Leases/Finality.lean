import Frostvault.Leases.Statements

/-!
A Job that is over stays as it ended, except for approvals that were decided too early.

Any number of transactions of the writers of `jobs` are open at once, statement by statement.
All but one of the writers keep a terminal status: they re-check it in their `UPDATE`, or hold
the row since they checked it.  `approve_recover` does neither.

* `JobWriter.program_keeps`: what each writer may do to the status of a Job;
* `status_of_step`: only the commit of an approval can change a terminal status;
* `terminal_jobs_final_iff`: terminal statuses are final exactly in the runs in which no
  approval commits over a Job that is over.
-/

namespace Frostvault

open Runs ReadCommitted

/-! ### The system -/

/-- The writers of `jobs`; those of workers are under a claim. -/
inductive JobWriter
  | setJob (k : Worker) (status : JobStatus) (message : JobMessage) (timestamp : Stamp)
  | scheduleUploadRetry (k : Worker) (message : JobMessage) (retryCount : ℕ)
      (retryAfter timestamp : Stamp)
  | holdForApproval (k : Worker) (pendingUntil : Stamp) (estimate : JobTxn.RestoreEstimate)
      (timestamp : Stamp)
  | setJobProgress (k : Worker) (transferredBytes : ℤ) (timestamp : Stamp)
  | renewJobClaim (k : Worker) (now expires : Stamp)
  | claimJob (autoUpload : VaultId → Option Bool) (job : JobId) (token : Token)
      (claimedAt expires now restoreDueBefore : Stamp)
  | claimPurgeGroup (lead : JobId) (token : Token) (claimedAt expires now : Stamp)
      (message messageKey : String) (acquired : Bool)
  | cancelJobGroup (translate : String → String) (v : VaultId) (g : GroupId)
      (action : JobAction) (timestamp : Stamp)
  | approveRecover (v : VaultId) (g : GroupId) (user : ℕ) (timestamp : Stamp)
  | reconcileInterruptedJobs (findings : JobTxn.RestartFindings) (timestamp : Stamp)
  | releasePreflightPurgeClaim (v : VaultId) (g : GroupId) (token : Token) (now : Stamp)
  /-- The first transaction of a purge. -/
  | validateExecution (v : VaultId) (g : GroupId) (verdict : List JobRecord → Option String)
      (timestamp : Stamp)
  /-- The transaction before a batch of a purge. -/
  | validateBatch (v : VaultId) (g : GroupId) (verdict : List JobRecord → Option String)
      (timestamp : Stamp) (token : Token) (expected : List JobId) (now : Stamp)
  /-- The transaction after a batch. -/
  | renewPurgeGroupClaim (v : VaultId) (g : GroupId) (token : Token) (expected : List JobId)
      (now : Stamp)
  | finalizePurge (v : VaultId) (g : GroupId) (token : Token) (expected : List JobId)
      (completed : JobId → Bool) (timestamp : Stamp)

namespace JobWriter

open JobTxn

/-- The transaction of a writer. -/
def program : JobWriter → JobTxn
  | setJob k status message timestamp => setJobTxn k.context k.jobId status message timestamp
  | scheduleUploadRetry k message retryCount retryAfter timestamp =>
      scheduleUploadRetryTxn k.context k.jobId message retryCount retryAfter timestamp
  | holdForApproval k pendingUntil estimate timestamp =>
      holdForApprovalTxn k.context k.jobId pendingUntil estimate timestamp
  | setJobProgress k transferredBytes timestamp =>
      setJobProgressTxn k.jobId k.token transferredBytes timestamp
  | renewJobClaim k now expires => renewJobClaimTxn k.jobId k.token now expires
  | claimJob autoUpload job token claimedAt expires now restoreDueBefore =>
      claimJobTxn autoUpload job token claimedAt expires now restoreDueBefore
  | claimPurgeGroup lead token claimedAt expires now message messageKey acquired =>
      claimPurgeGroupTxn lead token claimedAt expires now message messageKey acquired
  | cancelJobGroup translate v g action timestamp =>
      cancelJobGroupTxn translate v g action timestamp
  | approveRecover v g user timestamp => approveRecoverTxn v g user timestamp
  | reconcileInterruptedJobs findings timestamp =>
      reconcileInterruptedJobsTxn findings timestamp
  | releasePreflightPurgeClaim v g token now => releasePreflightPurgeClaimTxn v g token now
  | validateExecution v g verdict timestamp =>
      validateExecutionTxn v g verdict timestamp .commit
  | validateBatch v g verdict timestamp token expected now =>
      validateExecutionTxn v g verdict timestamp <|
        renewPurgeGroupClaimTxn v g token expected now (claimExpiryAt now) .commit
  | renewPurgeGroupClaim v g token expected now =>
      renewPurgeGroupClaimTxn v g token expected now (claimExpiryAt now) .commit
  | finalizePurge v g token expected completed timestamp =>
      finalizePurgeTxn v g token expected completed timestamp

/-- The writer is an approval. -/
def isApproval : JobWriter → Bool
  | approveRecover _ _ _ _ => true
  | _ => false

end JobWriter

/-- The committed Jobs and the open transactions. -/
abbrev JobStore := World JobRecord.key JobLock JobWriter

/-- One statement, or one visit, of one transaction. -/
abbrev storeStep : JobStore → ReadCommitted.Act JobRecord JobWriter → Option JobStore :=
  ReadCommitted.step JobWriter.program

/-! ### What a writer may do to a status -/

/-- A Job that is over has the status it ended with. -/
def StatusFinal (j j' : JobRecord) : Prop := j.status.terminal → j'.status = j.status

/-- What a writer makes of a Job: an approval queues it, the others keep a terminal status. -/
def JobWriter.Rewrites (a : JobWriter) (j j' : JobRecord) : Prop :=
  if a.isApproval then j'.status = .queued else StatusFinal j j'

instance : IsTrans JobRecord StatusFinal where
  trans j j' j'' h h' ht := by
    have hs := h ht
    rw [h' (hs.symm ▸ ht), hs]

instance (a : JobWriter) : IsTrans JobRecord a.Rewrites where
  trans j j' j'' h h' := by
    unfold JobWriter.Rewrites at h h' ⊢
    split
    · rename_i ha
      rwa [if_pos ha] at h'
    · rename_i ha
      rw [if_neg ha] at h h'
      exact IsTrans.trans j j' j'' h h'

variable {job : JobId}

namespace JobTxn

variable {p : JobRow → Bool} {f : JobRow → JobRow} {hid : ∀ j, (f j).id = j.id}
  {next : List JobRecord → JobTxn} {held : JobId → Option JobRecord}

/-- The Job is held by the transaction, open or with the status the transaction gives it. -/
def Settles (S : JobId → JobStatus) (held : JobId → Option JobRecord) (jobs : List JobId) :
    Prop :=
  ∀ job ∈ jobs, ∃ j, held job = some j ∧ (j.status.terminal = false ∨ j.status = S job)

/-- An `UPDATE` of Jobs that are not over keeps the statuses. -/
lemma keeps_updateJobs (hp : ∀ j : JobRecord, p j.toJobRow → j.status.terminal = false)
    (hnext : ∀ rs, (rs.map JobRecord.key).Nodup → (next rs).Keeps StatusFinal
      (hold JobRecord.key rs held)) : (updateJobs p f hid next).Keeps StatusFinal held := by
  refine ⟨fun j hj _ ht => ?_, fun rs hnodup _ => hnext rs hnodup⟩
  rw [hp j hj] at ht
  cases ht

/-- An `UPDATE` of columns other than the status keeps the statuses. -/
lemma keeps_updateJobs_of_status (hf : ∀ j, (f j).status = j.status)
    (hnext : ∀ rs, (rs.map JobRecord.key).Nodup →
      (∀ r ∈ rs, Written JobRecord.key held (fun j => p j.toJobRow) (JobRecord.mapRow f) r) →
      (next rs).Keeps StatusFinal (hold JobRecord.key rs held)) :
    (updateJobs p f hid next).Keeps StatusFinal held :=
  ⟨fun j _ _ _ => hf j.toJobRow, hnext⟩

@[simp] lemma keeps_finish (R : JobRecord → JobRecord → Prop) (rs : List JobRecord) :
    (finish rs).Keeps R held := trivial

/-- One of the Jobs gets its status by id. -/
lemma keeps_settle {S : JobId → JobStatus} {jobs : List JobId} {rest : JobTxn}
    (hf : ∀ j, (f j).status = S job) (hjob : job ∈ jobs) (hheld : Settles S held jobs)
    (hrest : ∀ held, Settles S held jobs → rest.Keeps StatusFinal held) :
    (updateJobs (fun j => j.id = job) f hid fun _ => rest).Keeps StatusFinal held := by
  refine ⟨fun j hj hcons ht => ?_, fun rs hnodup hrs => hrest _ fun i hi => ?_⟩
  · obtain rfl : j.id = job := of_decide_eq_true hj
    obtain ⟨j', hj', hstatus⟩ := hheld _ hjob
    obtain rfl := hcons j' hj'
    rcases hstatus with hopen | hstatus
    · rw [hopen] at ht
      cases ht
    · exact (hf _).trans hstatus.symm
  · by_cases hmem : i ∈ rs.map JobRecord.key
    · obtain ⟨r, hr, rfl⟩ := List.mem_map.mp hmem
      obtain ⟨j, hj, -, rfl⟩ := hrs r hr
      refine ⟨_, hold_of_mem hnodup hr, .inr ?_⟩
      have hkey : JobRecord.key (JobRecord.mapRow f j) = job := by
        rw [← of_decide_eq_true hj]
        exact hid j.toJobRow
      rw [hkey]
      exact hf j.toJobRow
    · rw [hold_of_notMem hmem]
      exact hheld i hi

variable {rs : List JobRecord}

/-- Rows that were locked are held as they are. -/
lemma held_of_locked {locked : List JobRecord} (hnodup : (locked.map JobRecord.key).Nodup)
    (hsub : rs ⊆ locked) (h : job ∈ ids rs) :
    ∃ j ∈ rs, hold JobRecord.key locked held job = some j := by
  obtain ⟨j, hj, rfl⟩ := List.mem_map.mp h
  exact ⟨j, hj, hold_of_mem hnodup (hsub hj)⟩

/-- Open rows that were locked may be given any status. -/
lemma settles_of_locked {S : JobId → JobStatus} {locked : List JobRecord}
    (hnodup : (locked.map JobRecord.key).Nodup) (hsub : rs ⊆ locked)
    (hopen : ∀ j ∈ rs, j.status.terminal = false) :
    Settles S (hold JobRecord.key locked held) (ids rs) := by
  intro job hjob
  obtain ⟨j, hj, hheld⟩ := held_of_locked hnodup hsub hjob
  exact ⟨j, hheld, .inl (hopen j hj)⟩

lemma open_of_mem_active {j : JobRecord}
    (h : j ∈ rs.filter fun j => !j.status.terminal) : j.status.terminal = false := by
  simpa using (List.mem_filter.mp h).2

/-! ### One lemma for each writer -/

variable {timestamp : Stamp} {rest : JobTxn}

lemma open_of_owned {token : Token} {now : Stamp} {j : JobRecord}
    (h : (j.toJobRow.id = job && j.toJobRow.ownedBy token now)) :
    j.status.terminal = false :=
  JobRow.open_of_ownedBy (Bool.and_eq_true _ _ ▸ h).2

/-- The locks of a Vault do not write. -/
lemma keeps_lockVaultOf (h : rest.Keeps StatusFinal held) :
    (lockVaultOf job rest).Keeps StatusFinal held := by
  intro rows
  cases rows with
  | nil => exact h
  | cons j js => exact h

lemma keeps_setJobTxn (k : Worker) (status : JobStatus) (message : JobMessage) :
    (setJobTxn k.context k.jobId status message timestamp).Keeps StatusFinal held := by
  unfold setJobTxn
  split
  · trivial
  · refine keeps_lockVaultOf fun _ => ?_
    rw [Worker.claimTokenFor_context]
    exact keeps_updateJobs (fun j hj => open_of_owned hj) fun rs _ => keeps_finish _ rs

lemma keeps_scheduleUploadRetryTxn (k : Worker) (message : JobMessage) (retryCount : ℕ)
    (retryAfter : Stamp) :
    (scheduleUploadRetryTxn k.context k.jobId message retryCount retryAfter timestamp).Keeps
      StatusFinal held := by
  unfold scheduleUploadRetryTxn
  split
  · trivial
  · refine keeps_lockVaultOf fun _ => ?_
    rw [Worker.claimTokenFor_context]
    exact keeps_updateJobs (fun j hj => open_of_owned hj) fun rs _ => keeps_finish _ rs

lemma keeps_holdForApprovalTxn (k : Worker) (pendingUntil : Stamp) (estimate : RestoreEstimate) :
    (holdForApprovalTxn k.context k.jobId pendingUntil estimate timestamp).Keeps StatusFinal
      held := by
  refine ⟨fun j hj _ ht => ?_, fun rs _ _ => keeps_finish _ rs⟩
  simp only [Worker.claimTokenFor_context] at hj
  rw [open_of_owned hj] at ht
  cases ht

/-- Jobs that are held open, or were cancelled already, are cancelled. -/
lemma keeps_cancelRows {reason : String} {jobs todo : List JobId} (hsub : todo ⊆ jobs)
    (hheld : Settles (fun _ => .cancelled) held jobs)
    (hrest : ∀ held, rest.Keeps StatusFinal held) :
    (cancelRows reason timestamp rest todo).Keeps StatusFinal held := by
  induction todo generalizing held with
  | nil => exact hrest held
  | cons job todo ih =>
      obtain ⟨hjob, hsub⟩ := List.cons_subset.mp hsub
      exact keeps_settle (fun _ => rfl) hjob hheld fun held hheld => ih hsub hheld

/-- Jobs that are held open, or were finalized already, are finalized. -/
lemma keeps_finalizePurgeJobs {completed : JobId → Bool} {jobs todo : List JobId}
    (hsub : todo ⊆ jobs)
    (hheld : Settles (fun job => if completed job then .completed else .failed) held jobs)
    (hrest : ∀ held, rest.Keeps StatusFinal held) :
    (finalizePurgeJobs completed timestamp rest todo).Keeps StatusFinal held := by
  induction todo generalizing held with
  | nil => exact hrest held
  | cons job todo ih =>
      obtain ⟨hjob, hsub⟩ := List.cons_subset.mp hsub
      exact keeps_settle (fun _ => rfl) hjob hheld fun held hheld => ih hsub hheld

lemma keeps_cancelCloudDeletionTxn (v : VaultId) (g : GroupId) :
    (cancelCloudDeletionTxn v g timestamp).Keeps StatusFinal held := by
  refine ⟨fun _ _ _ _ => rfl, fun rs hnodup _ => ?_⟩
  dsimp only
  split
  · trivial
  · rename_i h
    simp only [not_or, not_exists, not_and] at h
    have hopen : ∀ j ∈ rs, j.status.terminal = false := fun j hj => by
      rw [Decidable.not_not.mp (h.2 j hj).1]
      rfl
    exact keeps_cancelRows (List.Subset.refl _)
      (settles_of_locked hnodup (List.Subset.refl _) hopen) fun _ => trivial

lemma keeps_cancelJobGroupTxn (translate : String → String) (v : VaultId) (g : GroupId)
    (action : JobAction) :
    (cancelJobGroupTxn translate v g action timestamp).Keeps StatusFinal held := by
  unfold cancelJobGroupTxn
  split
  · trivial
  · split
    · exact keeps_cancelCloudDeletionTxn v g
    · intro rows
      dsimp only
      split
      · trivial
      · refine keeps_updateJobs (fun j hj => ?_) fun rs _ => keeps_finish _ rs
        simp only [Bool.and_eq_true, Bool.not_eq_true'] at hj
        exact hj.2

lemma keeps_transitions {ds : List (JobId × RestartDecision)}
    (hrest : ∀ held, rest.Keeps StatusFinal held) :
    (transitions timestamp rest ds).Keeps StatusFinal held := by
  induction ds generalizing held with
  | nil => exact hrest held
  | cons d ds ih =>
      obtain ⟨job, d⟩ := d
      rw [transitions, reconcileJobTransition]
      refine keeps_updateJobs (fun j hj => ?_) fun rs _ => ih
      simp only [Bool.and_eq_true, Bool.not_eq_true'] at hj
      exact hj.2

lemma keeps_failStalePurgesTxn (lead : JobRow) (exc : String)
    (hrest : ∀ held, rest.Keeps StatusFinal held) :
    (failStalePurgesTxn lead exc timestamp rest).Keeps StatusFinal held :=
  fun _ => keeps_transitions hrest

lemma keeps_reconcileCloudPurgeGroup (findings : RestartFindings) (lead : JobRow)
    (hrest : ∀ held, rest.Keeps StatusFinal held) :
    (reconcileCloudPurgeGroup findings lead timestamp rest).Keeps StatusFinal held := by
  unfold reconcileCloudPurgeGroup
  split
  · exact keeps_failStalePurgesTxn lead _ hrest
  · intro active
    dsimp only
    split
    · exact hrest _
    · split
      · exact keeps_failStalePurgesTxn lead _ hrest
      · exact keeps_transitions hrest

/-- The sweep, by induction over the Jobs it picked. -/
lemma keeps_reconcileJobs (findings : RestartFindings) (js : List JobRow)
    (seen : List (VaultId × Option GroupId)) :
    (reconcileJobs findings timestamp seen js).Keeps StatusFinal held := by
  induction js generalizing seen held with
  | nil => trivial
  | cons j js ih =>
      unfold reconcileJobs
      split
      · split
        · exact ih seen
        · exact keeps_reconcileCloudPurgeGroup findings j fun _ => ih _
      · exact keeps_transitions fun _ => ih seen

/-- The rows a purge worker renews are not over. -/
lemma open_of_claimedPurge {v : VaultId} {g : GroupId} {token : Token} {now : Stamp}
    {j : JobRow} (h : JobTable.claimedPurge v g token now j) : j.status.terminal = false := by
  simp only [JobTable.claimedPurge, Bool.and_eq_true, decide_eq_true_eq] at h
  rw [h.1.1.2]
  rfl

/-- A renewal that succeeds holds every expected Job, open. -/
lemma keeps_renewPurgeGroupClaimTxn {v : VaultId} {g : GroupId} {token : Token}
    {expected : List JobId} {now expires : Stamp}
    (hrest : ∀ held, (∀ S, Settles S held expected) → rest.Keeps StatusFinal held) :
    (renewPurgeGroupClaimTxn v g token expected now expires rest).Keeps StatusFinal held := by
  refine keeps_updateJobs_of_status (fun _ => rfl) fun rs hnodup hrs => ?_
  split
  · rename_i h
    refine hrest _ fun S job hjob => ?_
    obtain ⟨r, hr, rfl⟩ := List.mem_map.mp (h.2 job hjob)
    obtain ⟨j, hj, -, rfl⟩ := hrs r hr
    have hopen : (JobRecord.mapRow (fun j => j.extend expires) j).status.terminal = false :=
      open_of_claimedPurge (j := j.toJobRow) hj
    exact ⟨_, hold_of_mem hnodup hr, .inl hopen⟩
  · trivial

lemma keeps_validateExecutionTxn (v : VaultId) (g : GroupId)
    (verdict : List JobRecord → Option String) (hrest : ∀ held, rest.Keeps StatusFinal held) :
    (validateExecutionTxn v g verdict timestamp rest).Keeps StatusFinal held := by
  refine ⟨fun _ _ _ _ => rfl, fun rs hnodup _ => ?_⟩
  dsimp only
  split
  · exact keeps_cancelRows (List.Subset.refl _)
      (settles_of_locked hnodup (List.filter_subset_self _) fun _ => open_of_mem_active) fun _ => trivial
  · exact hrest _

lemma keeps_finalizePurgeTxn (v : VaultId) (g : GroupId) (token : Token)
    (expected : List JobId) (completed : JobId → Bool) :
    (finalizePurgeTxn v g token expected completed timestamp).Keeps StatusFinal held :=
  keeps_renewPurgeGroupClaimTxn fun _ hheld =>
    keeps_finalizePurgeJobs (List.Subset.refl _) (hheld _) fun _ =>
      keeps_updateJobs_of_status (fun _ => rfl) fun rs _ _ => keeps_finish _ rs

lemma keeps_claimPurgeGroupTxn (lead : JobId) (token : Token) (claimedAt expires now : Stamp)
    (message messageKey : String) (acquired : Bool) :
    (claimPurgeGroupTxn lead token claimedAt expires now message messageKey acquired).Keeps
      StatusFinal held := by
  intro leads
  dsimp only
  split
  · trivial
  · split
    · refine ⟨fun _ _ _ _ => rfl, fun rs hnodup _ => ?_⟩
      dsimp only
      split
      · trivial
      · refine ⟨fun j hj hcons ht => ?_, fun rs _ _ => keeps_finish _ rs⟩
        obtain ⟨j', hactive, hj'⟩ := held_of_locked hnodup (List.filter_subset_self _)
          (of_decide_eq_true hj)
        obtain rfl := hcons j' hj'
        rw [open_of_mem_active hactive] at ht
        cases ht
    · trivial

lemma keeps_claimJobTxn (autoUpload : VaultId → Option Bool) (job : JobId) (token : Token)
    (claimedAt expires now due : Stamp) :
    (claimJobTxn autoUpload job token claimedAt expires now due).Keeps StatusFinal held :=
  keeps_updateJobs_of_status (fun _ => rfl) fun rs _ _ => keeps_finish _ rs

lemma keeps_renewJobClaimTxn (job : JobId) (token : Token) (now expires : Stamp) :
    (renewJobClaimTxn job token now expires).Keeps StatusFinal held :=
  keeps_updateJobs (fun _ hj => open_of_owned hj) fun rs _ => keeps_finish _ rs

lemma keeps_setJobProgressTxn (job : JobId) (token : Token) (transferredBytes : ℤ) :
    (setJobProgressTxn job token transferredBytes timestamp).Keeps StatusFinal held :=
  keeps_updateJobs (fun _ hj => open_of_owned hj) fun rs _ => keeps_finish _ rs

lemma keeps_releasePreflightPurgeClaimTxn (v : VaultId) (g : GroupId) (token : Token)
    (now : Stamp) : (releasePreflightPurgeClaimTxn v g token now).Keeps StatusFinal held :=
  keeps_updateJobs (fun _ hj => open_of_claimedPurge hj) fun rs _ => keeps_finish _ rs

lemma keeps_approveRecoverTxn (v : VaultId) (g : GroupId) (user : ℕ) :
    (approveRecoverTxn v g user timestamp).Keeps (fun _ j' => j'.status = .queued) held := by
  intro rows
  dsimp only
  split
  · trivial
  · exact ⟨fun _ _ _ => rfl, fun rs _ _ => keeps_finish _ rs⟩

end JobTxn

/-- **What each writer may do to the status of a Job.** -/
theorem JobWriter.program_keeps (a : JobWriter) : a.program.Keeps a.Rewrites fun _ => none := by
  cases a with
  | setJob k status message timestamp => exact JobTxn.keeps_setJobTxn k status message
  | scheduleUploadRetry k message retryCount retryAfter timestamp =>
      exact JobTxn.keeps_scheduleUploadRetryTxn k message retryCount retryAfter
  | holdForApproval k pendingUntil estimate timestamp =>
      exact JobTxn.keeps_holdForApprovalTxn k pendingUntil estimate
  | setJobProgress k transferredBytes timestamp =>
      exact JobTxn.keeps_setJobProgressTxn k.jobId k.token transferredBytes
  | renewJobClaim k now expires =>
      exact JobTxn.keeps_renewJobClaimTxn k.jobId k.token now expires
  | claimJob autoUpload job token claimedAt expires now due =>
      exact JobTxn.keeps_claimJobTxn autoUpload job token claimedAt expires now due
  | claimPurgeGroup lead token claimedAt expires now message messageKey acquired =>
      exact JobTxn.keeps_claimPurgeGroupTxn lead token claimedAt expires now message messageKey
        acquired
  | cancelJobGroup translate v g action timestamp =>
      exact JobTxn.keeps_cancelJobGroupTxn translate v g action
  | approveRecover v g user timestamp => exact JobTxn.keeps_approveRecoverTxn v g user
  | reconcileInterruptedJobs findings timestamp =>
      exact fun rows => JobTxn.keeps_reconcileJobs findings _ []
  | releasePreflightPurgeClaim v g token now =>
      exact JobTxn.keeps_releasePreflightPurgeClaimTxn v g token now
  | validateExecution v g verdict timestamp =>
      exact JobTxn.keeps_validateExecutionTxn v g verdict fun _ => trivial
  | validateBatch v g verdict timestamp token expected now =>
      exact JobTxn.keeps_validateExecutionTxn v g verdict fun _ =>
        JobTxn.keeps_renewPurgeGroupClaimTxn fun _ _ => trivial
  | renewPurgeGroupClaim v g token expected now =>
      exact JobTxn.keeps_renewPurgeGroupClaimTxn fun _ _ => trivial
  | finalizePurge v g token expected completed timestamp =>
      exact JobTxn.keeps_finalizePurgeTxn v g token expected completed

/-! ### Runs -/

/-- The committed row of an id. -/
def JobStore.row? (w : JobStore) (job : JobId) : Option JobRecord :=
  w.rows.find? fun j => j.id = job

/-- Every Job that is over in the first state has the same status in the second. -/
def FinalBetween (u v : JobStore) : Prop :=
  ∀ job j, u.row? job = some j → j.status.terminal →
    ∃ j', v.row? job = some j' ∧ j'.status = j.status

/-- An approval that commits finds none of the Jobs over that its `UPDATE` matched. -/
def OverridesNone (w : JobStore) (a : ReadCommitted.Act JobRecord JobWriter) : Prop :=
  ∀ s, Commits w a s → s.writer.isApproval → ∀ j ∈ w.rows, (s.held j.id).isSome →
    j.status.terminal = false

/-- The system is sound for what each writer may do. -/
abbrev JobStore.Sound (w : JobStore) : Prop := World.Sound JobWriter.Rewrites w

/-- Ids are unique, so a row is found by its id. -/
lemma JobStore.Sound.row?_eq_some_iff {w : JobStore} (hw : w.Sound)
    {j : JobRecord} : w.row? job = some j ↔ j ∈ w.rows ∧ j.id = job := by
  constructor
  · intro h
    exact ⟨List.mem_of_find?_eq_some h, by simpa using List.find?_some h⟩
  · rintro ⟨hj, rfl⟩
    cases h : w.row? j.id with
    | none => simpa using List.find?_eq_none.mp h j hj
    | some k =>
        have hkey : k.id = j.id := by simpa using List.find?_some h
        rw [hw.eq_of_key_eq (List.mem_of_find?_eq_some h) hj hkey]

lemma JobStore.sound_run {rows : List JobRecord} (hkeys : (rows.map JobRecord.key).Nodup)
    {es : List (ReadCommitted.Act JobRecord JobWriter)} {w : JobStore}
    (h : run storeStep (World.idle rows) es = some w) : w.Sound :=
  run_induction (fun _ _ _ hw hstep => sound_step JobWriter.program_keeps hw hstep)
    (World.sound_idle hkeys) h

section Steps

variable {u v w w' : JobStore} {a : ReadCommitted.Act JobRecord JobWriter}

/-- Only the commit of an approval can change a terminal status. -/
lemma finalBetween_of_step (hw : w.Sound) (ha : OverridesNone w a)
    (h : storeStep w a = some w') : FinalBetween w w' := by
  have hw' : w'.Sound := sound_step JobWriter.program_keeps hw h
  intro job j hrow hterminal
  obtain ⟨hj, rfl⟩ := hw.row?_eq_some_iff.mp hrow
  rcases changed_of_step hw h hj with hkeep | ⟨s, j', hc, hheld, hj', hkey, hrel⟩
  · exact ⟨j, hw'.row?_eq_some_iff.mpr ⟨hkeep, rfl⟩, rfl⟩
  · refine ⟨j', hw'.row?_eq_some_iff.mpr ⟨hj', hkey⟩, ?_⟩
    unfold JobWriter.Rewrites at hrel
    split at hrel
    · rename_i happroval
      rw [ha s hc happroval j hj (by rw [hheld]; rfl)] at hterminal
      cases hterminal
    · exact hrel hterminal

/-- An approval that commits over a Job that is over queues it. -/
lemma overridesNone_of_finalBetween (hw : w.Sound) (h : storeStep w a = some w')
    (hfinal : FinalBetween w w') : OverridesNone w a := by
  have hw' : w'.Sound := sound_step JobWriter.program_keeps hw h
  intro s hc happroval j hj hheld
  obtain ⟨j', hj'⟩ := Option.isSome_iff_exists.mp hheld
  have hs := (World.mem_of_session? hc.session).1
  obtain ⟨j₀, hj₀, hkey, hrel⟩ := hw.held_related s hs _ _ hj'
  have hqueued : j'.status = .queued := by
    unfold JobWriter.Rewrites at hrel
    rwa [if_pos happroval] at hrel
  have hmem : j' ∈ w'.rows := by
    rw [hc.rows_eq h]
    refine List.mem_map.mpr ⟨j, hj, ?_⟩
    rw [Session.sees, hj', Option.getD_some]
  cases hterminal : j.status.terminal with
  | false => rfl
  | true =>
      obtain ⟨j'', hj'', hstatus⟩ := hfinal j.id j (hw.row?_eq_some_iff.mpr ⟨hj, rfl⟩) hterminal
      obtain rfl : j' = j'' := Option.some.inj <|
        (hw'.row?_eq_some_iff.mpr ⟨hmem, hw.held_key s hs _ _ hj'⟩).symm.trans hj''
      rw [← hstatus, hqueued] at hterminal
      cases hterminal

lemma FinalBetween.trans (h : FinalBetween u v) (h' : FinalBetween v w) : FinalBetween u w := by
  intro job j hj hterminal
  obtain ⟨j', hj', hs'⟩ := h job j hj hterminal
  obtain ⟨j'', hj'', hs''⟩ := h' job j' hj' (hs'.symm ▸ hterminal)
  exact ⟨j'', hj'', hs''.trans hs'⟩

end Steps

/-- **Terminal statuses and approvals.**  In a run of any interleaving, every Job that is over
in a committed state has that status in all later ones, exactly when no approval commits over
a Job that is over. -/
theorem terminal_jobs_final_iff (rows : List JobRecord)
    (hkeys : (rows.map JobRecord.key).Nodup) (es : List (ReadCommitted.Act JobRecord JobWriter))
    (w : JobStore) (h : run storeStep (World.idle rows) es = some w) :
    (∀ bs cs u v, bs ++ cs <+: es → run storeStep (World.idle rows) bs = some u →
      run storeStep u cs = some v → FinalBetween u v) ↔
    Along storeStep OverridesNone (World.idle rows) es := by
  rw [along_iff_forall_step h]
  constructor
  · rintro hfinal bs a cs u rfl hu
    obtain ⟨u', hu', hrest⟩ := run_append.mp h
    cases hu.symm.trans hu'
    obtain ⟨v, hstep, -⟩ := run_cons_eq_some.mp hrest
    refine overridesNone_of_finalBetween (JobStore.sound_run hkeys hu) hstep ?_
    exact hfinal bs [a] u v ⟨cs, by simp⟩ hu (run_cons_eq_some.mpr ⟨v, hstep, rfl⟩)
  · rintro hmeets bs cs u v ⟨ds, rfl⟩ hu hv
    have hu' := JobStore.sound_run hkeys hu
    have hinv := run_induction_along (G := OverridesNone)
      (I := fun x => JobStore.Sound x ∧ FinalBetween u x) (fun x a x' hx ha hstep => ?_)
      ⟨hu', fun job j hj _ => ⟨j, hj, rfl⟩⟩ ?_ hv
    · exact hinv.2
    · exact ⟨sound_step JobWriter.program_keeps hx.1 hstep,
        hx.2.trans (finalBetween_of_step hx.1 ha hstep)⟩
    · rw [along_iff_forall_step hv]
      rintro bs' a cs' x rfl hx
      exact hmeets (bs ++ bs') a (cs' ++ ds) x (by simp) (run_append.mpr ⟨u, hu, hx⟩)

/-! ### An approval decided before a cancellation -/

/-- A restore of high impact that waits for its approval. -/
def heldRestore : JobRecord where
  id := 1
  vaultId := 1
  vaultFileId := 1
  path := []
  action := .recover
  status := .pendingApproval
  origin := .manual
  groupId := some 1
  requestedAt := 0
  pendingUntil := some 10
  claimToken := none
  claimExpiresAt := none
  message := ⟨"High-impact Glacier restore held", none, none⟩
  transferredBytes := 0
  totalBytes := 5
  retryCount := 0
  retryAfter := none
  updatedAt := 3
  claimedAt := none
  terminalNotificationStatus := none
  restoreTier := some "Bulk"
  restoreDays := some 7
  estimatedCostEur := some 30
  estimatedHours := some 48
  approvedBy := none
  approvedAt := none

/-- The approval has selected the waiting Jobs. -/
def approvalDecided : List (ReadCommitted.Act JobRecord JobWriter) :=
  [.start 1 (.approveRecover 1 1 7 20), .exec 1]

/-- The Owner cancels the group, from the first statement to the commit. -/
def ownerCancels : List (ReadCommitted.Act JobRecord JobWriter) :=
  .start 2 (.cancelJobGroup (fun key => key) 1 1 .recover 21) :: List.replicate 6 (.exec 2)

/-- The approval updates the Jobs it selected, and commits. -/
def approvalWritten : List (ReadCommitted.Act JobRecord JobWriter) := List.replicate 4 (.exec 1)

/-- A restore that its Owner cancelled is queued again by an approval that was decided before
the cancellation. -/
theorem approval_requeues_cancelled_restore :
    ∃ u v, run storeStep (World.idle [heldRestore]) (approvalDecided ++ ownerCancels) =
        some u ∧ run storeStep u approvalWritten = some v ∧
      (u.row? 1).map (fun j => j.status) = some .cancelled ∧
      (v.row? 1).map (fun j => j.status) = some .queued ∧ ¬ FinalBetween u v := by
  have hrun : (do
      let u ← run storeStep (World.idle [heldRestore]) (approvalDecided ++ ownerCancels)
      let v ← run storeStep u approvalWritten
      some (decide ((u.row? 1).map (fun j => j.status) = some JobStatus.cancelled ∧
        (v.row? 1).map (fun j => j.status) = some JobStatus.queued))) = some true := by decide
  simp only [Option.bind_eq_bind, Option.bind_eq_some_iff, Option.some.injEq,
    decide_eq_true_eq] at hrun
  obtain ⟨u, hu, v, hv, hcancelled, hqueued⟩ := hrun
  refine ⟨u, v, hu, hv, hcancelled, hqueued, fun hfinal => ?_⟩
  obtain ⟨j, hj, hstatus⟩ := Option.map_eq_some_iff.mp hcancelled
  obtain ⟨j', hj', hstatus'⟩ := hfinal 1 j hj (by rw [hstatus]; rfl)
  rw [hj', Option.map_some, hstatus', hstatus] at hqueued
  cases hqueued

/-- A cancellation that comes after the approval committed. -/
theorem cancellation_after_approval_final :
    ∃ w, run storeStep (World.idle [heldRestore])
        (approvalDecided ++ approvalWritten ++ ownerCancels) = some w ∧
      ((∀ bs cs u v, bs ++ cs <+: approvalDecided ++ approvalWritten ++ ownerCancels →
          run storeStep (World.idle [heldRestore]) bs = some u →
          run storeStep u cs = some v → FinalBetween u v) ↔
        Along storeStep OverridesNone (World.idle [heldRestore])
          (approvalDecided ++ approvalWritten ++ ownerCancels)) := by
  obtain ⟨w, hw⟩ := Option.isSome_iff_exists.mp (by decide : (run storeStep
    (World.idle [heldRestore]) (approvalDecided ++ approvalWritten ++ ownerCancels)).isSome)
  exact ⟨w, hw, terminal_jobs_final_iff [heldRestore] (by decide) _ w hw⟩

end Frostvault
