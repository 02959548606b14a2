import Frostvault.Leases.JobTable
import Frostvault.Lib.Leases

/-!
Any number of schedulers and workers on the table of Jobs.

A scheduler claims under a new token and starts a worker with it; the worker, its heartbeat
and the callbacks of its transfers write under that token only.  Restart reconciliation, the
Owner's cancellations and new Jobs come in between.  The times of the steps do not go back.

* `JobWorld.write`: what one action writes to the table;
* `move_of_write`: to the lease of each Job, an action is a move of `Lib/Leases.lean`;
* `ownedBy_of_write`: a write of a worker needs the live claim;
* `lease_exclusive_and_fenced`: at a time at most one token is live, and a worker whose lease
  is not live any more never changes the table again.
-/

namespace Frostvault

open Option Leases

/-! ### The system -/

/-- A worker, as its thread's claim context knows it. -/
structure Worker where
  token : Token
  jobId : JobId
  lost : Bool
deriving DecidableEq, Repr

/-- The context `_job_claim_context` sets up. -/
def Worker.context (k : Worker) : WorkerContext := ⟨some (k.jobId, k.token), k.lost⟩

/-- The table, the time of the last step and every worker that was ever started. -/
structure JobWorld where
  table : JobTable
  clock : Stamp
  workers : List Worker

/-- The tokens that were handed out. -/
def JobWorld.issued (w : JobWorld) : List Token := w.workers.map Worker.token

/-- The worker of a token. -/
def JobWorld.worker? (w : JobWorld) (token : Token) : Option Worker :=
  w.workers.find? fun k => k.token = token

/-- One transaction of a scheduler, a worker, the reconciliation, the Owner or a request. -/
inductive JobAct
  | claim (autoUpload : VaultId → Option Bool) (job : JobId) (token : Token)
      (restoreDueBefore : Stamp)
  | claimGroup (lead : JobId) (token : Token) (message messageKey : String) (acquired : Bool)
  /-- The heartbeat and `ensure_job_active`. -/
  | renew (token : Token)
  /-- `ensure_job_claim_owned_in_transaction`; `interrupted` is the shutdown checkpoint or the
  process's own cancellation signal. -/
  | ensureOwned (token : Token) (interrupted : Bool)
  | setJob (token : Token) (status : JobStatus) (message : JobMessage)
  | retry (token : Token) (message : JobMessage) (retryCount : ℕ) (retryAfter : Stamp)
  /-- `set_job_progress`, on the worker's thread or in a callback of the transfer. -/
  | progress (token : Token) (callback : Bool) (transferredBytes : ℤ)
  | renewGroup (token : Token) (v : VaultId) (g : GroupId) (expected : List JobId)
  | finishGroup (token : Token) (v : VaultId) (g : GroupId) (expected : List JobId)
      (completed : JobId → Bool)
  | releaseGroup (token : Token) (v : VaultId) (g : GroupId)
  | reconcile (job : JobId) (status : JobStatus) (progress : JobTable.ProgressChange)
      (message : String)
  | reconcileGroup (v : VaultId) (g : GroupId) (outcome : JobTable.PurgeOutcome)
      (message : String)
  | failStale (v : VaultId) (g : GroupId) (message : String)
  | cancelGroup (translate : String → String) (v : VaultId) (g : GroupId) (action : JobAction)
  | cancelDeletion (v : VaultId) (g : GroupId)
  | revoke (v : VaultId) (g : GroupId) (reason : String)
  | insert (row : JobRow)

/-- An action and its time. -/
structure JobEvent where
  now : Stamp
  act : JobAct

/-- The token a claim hands out. -/
def JobAct.newToken : JobAct → Option Token
  | .claim _ _ token _ => some token
  | .claimGroup _ token _ _ _ => some token
  | _ => none

/-- The token a worker writes one Job under. -/
def JobAct.jobToken : JobAct → Option Token
  | .renew token => some token
  | .ensureOwned token _ => some token
  | .setJob token _ _ => some token
  | .retry token _ _ _ => some token
  | .progress token _ _ => some token
  | _ => none

/-- The token a worker writes its purge group under. -/
def JobAct.groupToken : JobAct → Option Token
  | .renewGroup token _ _ _ => some token
  | .finishGroup token _ _ _ _ => some token
  | .releaseGroup token _ _ => some token
  | _ => none

namespace JobWorld

/-- What the action writes at its time; `none` when it matches no row or is rolled back. -/
def write (w : JobWorld) (now : Stamp) : JobAct → Option JobTable
  | .claim autoUpload job token restoreDueBefore =>
      w.table.claimJob autoUpload job token now (claimExpiryAt now) now restoreDueBefore
  | .claimGroup lead token message messageKey acquired =>
      w.table.claimPurgeGroup lead token now (claimExpiryAt now) now message messageKey acquired
  | .renew token => do
      let k ← w.worker? token
      w.table.renewJobClaim k.jobId token now (claimExpiryAt now)
  | .ensureOwned token interrupted => do
      let k ← w.worker? token
      guard (¬ interrupted ∧ ¬ k.context.claimIsLost k.jobId)
      w.table.renewJobClaim k.jobId token now (claimExpiryAt now)
  | .setJob token status message => do
      let k ← w.worker? token
      w.table.setJob k.context k.jobId status message now
  | .retry token message retryCount retryAfter => do
      let k ← w.worker? token
      w.table.scheduleUploadRetry k.context k.jobId message retryCount retryAfter now
  | .progress token callback transferredBytes => do
      let k ← w.worker? token
      if callback then
        w.table.setJobProgress .none (some token) k.jobId transferredBytes now
      else w.table.setJobProgress k.context none k.jobId transferredBytes now
  | .renewGroup token v g expected =>
      w.table.renewPurgeGroupClaim v g token expected now (claimExpiryAt now)
  | .finishGroup token v g expected completed =>
      w.table.finishPurgeGroup v g token expected completed now
  | .releaseGroup token v g => w.table.releasePreflightPurgeClaim v g token now
  | .reconcile job status progress message =>
      w.table.reconcileTransition job status progress message now
  | .reconcileGroup v g outcome message => w.table.reconcilePurgeGroup v g outcome message now
  | .failStale v g message => w.table.failStalePurges v g message now
  | .cancelGroup translate v g action => w.table.cancelJobGroup translate v g action now
  | .cancelDeletion v g => w.table.cancelDeletion v g now
  | .revoke v g reason => w.table.revokeExecution v g reason now
  | .insert row => some (w.table.insert row)

/-- The workers after the action: a claim that succeeds starts one, and a renewal that fails
sets the loss signal of its worker. -/
def workersAfter (w : JobWorld) (a : JobAct) (written : Option JobTable) : List Worker :=
  match a, written with
  | .claim _ job token _, some _ => ⟨token, job, false⟩ :: w.workers
  | .claimGroup lead token _ _ _, some _ => ⟨token, lead, false⟩ :: w.workers
  | .renew token, none | .ensureOwned token false, none | .renewGroup token _ _ _, none =>
      w.workers.map fun k => if k.token = token then { k with lost := true } else k
  | _, _ => w.workers

/-- The action may happen: the token of a claim is a new `uuid4`, and only a worker that was
started knows its token. -/
def admissible (w : JobWorld) (a : JobAct) : Bool :=
  (a.newToken.all fun x => x ∉ w.issued) && (a.jobToken.all fun x => x ∈ w.issued) &&
    a.groupToken.all fun x => x ∈ w.issued

/-- The claims that are in the table at the start belong to workers. -/
def start (t : JobTable) (now : Stamp) : JobWorld :=
  ⟨t, now, t.rows.filterMap fun j => j.claimToken.map fun x => ⟨x, j.id, false⟩⟩

end JobWorld

/-- One step of the system. -/
def jobStep (w : JobWorld) (e : JobEvent) : Option JobWorld :=
  if w.clock ≤ e.now ∧ w.admissible e.act then
    let written := w.write e.now e.act
    some ⟨written.getD w.table, e.now, w.workersAfter e.act written⟩
  else none

/-! ### The lease of a Job -/

/-- The lease a row records. -/
def JobRow.leaseView (j : JobRow) (issued : List Token) (clock : Stamp) : Lease Token Stamp :=
  ⟨j.claimToken, j.claimExpiresAt, j.status.terminal, issued, clock⟩

/-- The lease of a Job; an id without row is not leased. -/
def JobTable.leaseOf (t : JobTable) (issued : List Token) (clock : Stamp) (job : JobId) :
    Lease Token Stamp :=
  match t.row? job with
  | some j => j.leaseView issued clock
  | none => ⟨none, none, false, issued, clock⟩

/-- The lease of a Job in the system. -/
def JobWorld.lease (w : JobWorld) (job : JobId) : Lease Token Stamp :=
  w.table.leaseOf w.issued w.clock job

variable {j : JobRow} {t' : JobTable}

/-- The condition of the token writers is that the token is live. -/
lemma JobRow.ownedBy_iff_live {x : Token} {now : Stamp} (issued : List Token) (clock : Stamp) :
    j.ownedBy x now ↔ (j.leaseView issued clock).Live x now := by
  simp only [JobRow.ownedBy, Bool.and_eq_true, decide_eq_true_eq, Bool.not_eq_true',
    any_eq_true]
  constructor
  · rintro ⟨⟨hx, he⟩, ht⟩
    exact ⟨ht, hx, he⟩
  · rintro ⟨ht, hx, he⟩
    exact ⟨⟨hx, he⟩, ht⟩

lemma JobRow.open_of_ownedBy {x : Token} {now : Stamp} (h : j.ownedBy x now) :
    j.status.terminal = false :=
  ((JobRow.ownedBy_iff_live [] now).mp h).opened

/-- A claim that is available is not live. -/
lemma JobRow.not_live_of_claimAvailable {now : Stamp} (h : j.claimAvailable now)
    (issued : List Token) (clock : Stamp) (x : Token) :
    ¬ (j.leaseView issued clock).Live x now := by
  rintro ⟨-, hx, e, he, hlt⟩
  have hx : j.claimToken = some x := hx
  have he : j.claimExpiresAt = some e := he
  simp only [Job.claimAvailable, hx, he, isNone_some, any_some, Bool.or_eq_true,
    decide_eq_true_eq, Bool.false_eq_true, false_or] at h
  exact absurd hlt (Nat.not_lt.mpr h)

namespace JobTable

variable {t : JobTable} {issued issued' : List Token} {clock now : Stamp} {job : JobId}

@[simp] lemma leaseOf_issued (t : JobTable) (issued : List Token) (clock : Stamp) (job : JobId) :
    (t.leaseOf issued clock job).issued = issued := by
  unfold leaseOf
  cases t.row? job <;> rfl

@[simp] lemma leaseOf_clock (t : JobTable) (issued : List Token) (clock : Stamp) (job : JobId) :
    (t.leaseOf issued clock job).clock = clock := by
  unfold leaseOf
  cases t.row? job <;> rfl

lemma move_refl : Move (t.leaseOf issued clock job) (t.leaseOf issued now job) := by
  unfold leaseOf
  cases t.row? job with
  | none => exact .idle rfl rfl id (List.Subset.refl issued)
  | some j => exact .idle rfl rfl id (List.Subset.refl issued)

variable {expected : List JobId} {expires : Stamp} {f : JobRow → JobRow} {g : GroupId}
  {hid : ∀ j, (f j).id = j.id} {p : JobRow → Bool} {v : VaultId}

/-- Rewriting rows is a move of every lease when it is one for the rows it matches. -/
lemma move_rewrite (hissued : issued ⊆ issued') (h : ∀ j, t.row? job = some j → p j →
      Move (j.leaseView issued clock) ((f j).leaseView issued' now)) :
    Move (t.leaseOf issued clock job) ((t.rewrite p f hid).leaseOf issued' now job) := by
  simp only [leaseOf, row?_rewrite]
  cases hj : t.row? job with
  | none => exact .idle rfl rfl id hissued
  | some j =>
      simp only [map_some]
      by_cases hp : p j
      · simp only [hp, if_true]
        exact h j hj hp
      · simp only [hp, if_false, Bool.false_eq_true]
        exact .idle rfl rfl id hissued

lemma move_update (hw : t.update p f hid = some t') (hissued : issued ⊆ issued')
    (h : ∀ j, t.row? job = some j → p j →
      Move (j.leaseView issued clock) ((f j).leaseView issued' now)) :
    Move (t.leaseOf issued clock job) (t'.leaseOf issued' now job) := by
  obtain ⟨-, rfl⟩ := update_eq_some.mp hw
  exact move_rewrite hissued h

/-! ### Every writer is a move -/

/-- A claim that is available goes to the new token. -/
lemma move_claimJob {autoUpload : VaultId → Option Bool} {id : JobId} {token : Token}
    {claimedAt due : Stamp} (hnew : token ∉ issued)
    (hw : t.claimJob autoUpload id token claimedAt expires now due = some t') :
    Move (t.leaseOf issued clock job) (t'.leaseOf (token :: issued) now job) := by
  refine move_update hw (List.subset_cons_self _ _) fun j _ hp => ?_
  have havail : j.claimAvailable now := by
    simp only [claimableJob, Bool.and_eq_true] at hp
    exact hp.2.1.2
  exact .grant token hnew (JobRow.not_live_of_claimAvailable havail issued clock) rfl rfl

lemma mem_activePurges :
    j ∈ t.activePurges v g ↔ j ∈ t.rows ∧ j.vaultId = v ∧ j.groupId = some g ∧
      j.action = .cloudPurge ∧ j.status.terminal = false := by
  simp [activePurges, and_assoc]

/-- What a claim of a group checked and wrote. -/
lemma claimPurgeGroup_eq_some {lead : JobId} {token : Token} {claimedAt : Stamp}
    {message messageKey : String} {acquired : Bool} :
    t.claimPurgeGroup lead token claimedAt expires now message messageKey acquired = some t' ↔
      ∃ v g, t.purgeLead lead = some (v, g) ∧ acquired ∧ t.activePurges v g ≠ [] ∧
        (∀ j ∈ t.activePurges v g, j.claimAvailable now ∧ j.purgeRunnable now) ∧
        t.rewrite (fun j => j.id ∈ (t.activePurges v g).map fun k => k.id)
          (fun j => j.startPurge token claimedAt expires message messageKey)
          (fun j => j.startPurge_id token claimedAt expires message messageKey) = t' := by
  simp only [claimPurgeGroup, bind_eq_bind, bind_eq_some_iff, Prod.exists,
    guard_eq_some', exists_const, Option.some.injEq, and_assoc]

lemma mem_of_id_mem {l : List JobRow} (hl : ∀ k ∈ l, k ∈ t.rows) (hj : j ∈ t.rows)
    (h : j.id ∈ l.map fun k => k.id) : j ∈ l := by
  obtain ⟨k, hk, hid⟩ := List.mem_map.mp h
  rwa [← List.inj_on_of_nodup_map t.ids_nodup (hl k hk) hj hid]

/-- A claim of a group gives every active member to the new token. -/
lemma move_claimPurgeGroup {lead : JobId} {token : Token} {claimedAt : Stamp}
    {message messageKey : String} {acquired : Bool} (hnew : token ∉ issued)
    (hw : t.claimPurgeGroup lead token claimedAt expires now message messageKey acquired =
      some t') :
    Move (t.leaseOf issued clock job) (t'.leaseOf (token :: issued) now job) := by
  obtain ⟨v, g, -, -, -, hall, rfl⟩ := claimPurgeGroup_eq_some.mp hw
  refine move_rewrite (List.subset_cons_self _ _) fun j hj hp => ?_
  have hmem : j ∈ t.activePurges v g :=
    mem_of_id_mem (fun k hk => (mem_activePurges.mp hk).1) (mem_of_row? hj).1
      (of_decide_eq_true hp)
  exact .grant token hnew
    (JobRow.not_live_of_claimAvailable (hall j hmem).1 issued clock) rfl rfl

/-- An `UPDATE` of one Job under a token is a write of the live holder. -/
lemma move_owned {id : JobId} {x : Token}
    (hw : t.update (fun j => j.id = id && j.ownedBy x now) f hid = some t')
    (hf : ∀ j, j.ownedBy x now → (f j).claimToken = j.claimToken ∨ (f j).claimToken = none) :
    Move (t.leaseOf issued clock job) (t'.leaseOf issued now job) := by
  refine move_update hw (List.Subset.refl _) fun j _ hp => ?_
  have howned : j.ownedBy x now := (Bool.and_eq_true _ _ ▸ hp).2
  have hlive := (JobRow.ownedBy_iff_live issued clock).mp howned
  exact .use x hlive ((hf j howned).imp_left fun h => h.trans hlive.holds) rfl

lemma move_drop (hw : t.update p f hid = some t') (hf : ∀ j, (f j).claimToken = none) :
    Move (t.leaseOf issued clock job) (t'.leaseOf issued now job) :=
  move_update hw (List.Subset.refl _) fun j _ _ => .drop (hf j) rfl

lemma ownedBy_of_claimedPurge {x : Token} (h : claimedPurge v g x now j) : j.ownedBy x now := by
  simp only [claimedPurge, Bool.and_eq_true, decide_eq_true_eq] at h
  obtain ⟨⟨⟨-, hst⟩, hx⟩, he⟩ := h
  simp [JobRow.ownedBy, hx, he, hst, JobStatus.terminal]

lemma mem_renewed {x : Token} (hj : j ∈ t.rows) :
    j.id ∈ (t.rows.filter (claimedPurge v g x now)).map (fun k => k.id) ↔
      claimedPurge v g x now j := by
  refine ⟨fun h => ?_, fun h => List.mem_map_of_mem (List.mem_filter.mpr ⟨hj, h⟩)⟩
  exact (List.mem_filter.mp (mem_of_id_mem (fun k hk => (List.mem_filter.mp hk).1) hj h)).2

/-- A renewal of a group matched exactly the expected Jobs. -/
lemma renewPurgeGroupClaim_eq_some {x : Token}
    (hw : t.renewPurgeGroupClaim v g x expected now expires = some t') :
    (∀ j ∈ t.rows, claimedPurge v g x now j ↔ j.id ∈ expected) ∧
      t' = t.rewrite (claimedPurge v g x now) (fun j => j.extend expires)
        fun j => j.extend_id expires := by
  simp only [renewPurgeGroupClaim] at hw
  split at hw
  · rename_i hids
    refine ⟨fun j hj => ?_, (Option.some.inj hw).symm⟩
    rw [← mem_renewed hj]
    exact ⟨hids.1 j.id, hids.2 j.id⟩
  · cases hw

/-- A renewal of a group is a write of the live holder. -/
lemma move_renewPurgeGroupClaim {x : Token}
    (hw : t.renewPurgeGroupClaim v g x expected now expires = some t') :
    Move (t.leaseOf issued clock job) (t'.leaseOf issued now job) := by
  obtain ⟨-, rfl⟩ := renewPurgeGroupClaim_eq_some hw
  refine move_rewrite (List.Subset.refl _) fun j _ hp => ?_
  have hlive := (JobRow.ownedBy_iff_live issued clock).mp
    (ownedBy_of_claimedPurge hp)
  exact .use x hlive (.inl hlive.holds) rfl

/-- The end of a purge drops the claims of its Jobs; the others were not renewed. -/
lemma move_finishPurgeGroup {x : Token} {completed : JobId → Bool}
    (hw : t.finishPurgeGroup v g x expected completed now = some t') :
    Move (t.leaseOf issued clock job) (t'.leaseOf issued now job) := by
  simp only [finishPurgeGroup, bind_eq_bind, bind_eq_some_iff,
    Option.some.injEq] at hw
  obtain ⟨t₁, h₁, rfl⟩ := hw
  obtain ⟨hids, rfl⟩ := renewPurgeGroupClaim_eq_some h₁
  unfold leaseOf
  rw [row?_rewrite, row?_rewrite]
  cases hj : t.row? job with
  | none => exact .idle rfl rfl id (List.Subset.refl issued)
  | some j =>
      have hiff := hids j (mem_of_row? hj).1
      by_cases hp : claimedPurge v g x now j
      · have hexp : (j.extend (claimExpiryAt now)).id ∈ expected := hiff.mp hp
        simp only [map_some, if_pos hp, if_pos (decide_eq_true hexp)]
        exact .drop rfl rfl
      · have hexp : ¬ decide (j.id ∈ expected) = true := fun h =>
          hp (hiff.mpr (of_decide_eq_true h))
        simp only [map_some, if_neg hp, if_neg hexp]
        exact .idle rfl rfl id (List.Subset.refl issued)

/-- A reconciled group loses its claims. -/
lemma move_reconcilePurgeGroup {outcome : PurgeOutcome} {message : String}
    (hw : t.reconcilePurgeGroup v g outcome message now = some t') :
    Move (t.leaseOf issued clock job) (t'.leaseOf issued now job) := by
  simp only [reconcilePurgeGroup] at hw
  split at hw
  · cases hw
    exact move_rewrite (List.Subset.refl _) fun j _ _ => .drop rfl rfl
  · cases hw

/-- A cancelled Job keeps its claim, but its work is over. -/
lemma move_cancelJobGroup {translate : String → String} {action : JobAction}
    (hw : t.cancelJobGroup translate v g action now = some t') :
    Move (t.leaseOf issued clock job) (t'.leaseOf issued now job) := by
  simp only [cancelJobGroup, bind_eq_bind, bind_eq_some_iff] at hw
  obtain ⟨messageKey, -, -, -, hw⟩ := hw
  exact move_update hw (List.Subset.refl _) fun j _ _ =>
    .idle rfl rfl (fun h => by cases h) (List.Subset.refl _)

lemma move_cancelDeletion (hw : t.cancelDeletion v g now = some t') :
    Move (t.leaseOf issued clock job) (t'.leaseOf issued now job) := by
  simp only [cancelDeletion] at hw
  split at hw
  · exact move_drop hw fun _ => rfl
  · cases hw

lemma move_insert (row : JobRow) :
    Move (t.leaseOf issued clock job) ((t.insert row).leaseOf issued now job) := by
  obtain hrow | ⟨hrow, j, hj, hfree⟩ := t.row?_insert row job
  · have hsame : (t.insert row).leaseOf issued now job = t.leaseOf issued now job := by
      simp only [leaseOf, hrow]
    rw [hsame]
    exact move_refl
  · simp only [leaseOf, hrow, hj]
    exact .drop hfree rfl

end JobTable

/-! ### The writers of a worker -/

@[simp] lemma Worker.claimTokenFor_context (k : Worker) :
    k.context.claimTokenFor k.jobId = some k.token := by
  simp [Worker.context, WorkerContext.claimTokenFor]

lemma JobWorld.worker?_token {w : JobWorld} {x : Token} {k : Worker} (h : w.worker? x = some k) :
    k.token = x := by
  simpa using List.find?_some h

/-- A row after a writer that hands out no claim: the Job is the same, it is not reopened and
its token is kept or dropped. -/
structure JobRow.Kept (j j' : JobRow) : Prop where
  action : j'.action = j.action
  vaultId : j'.vaultId = j.vaultId
  groupId : j'.groupId = j.groupId
  opened : j'.status.terminal = false → j.status.terminal = false
  token : j'.claimToken = j.claimToken ∨ j'.claimToken = none

/-- **Writers of a worker.**  Whatever a worker does to its Job is one `UPDATE` under its
token, which hands out no claim. -/
lemma JobWorld.update_of_write {w : JobWorld} {now : Stamp} {a : JobAct} {x : Token}
    (hx : a.jobToken = some x) (hw : w.write now a = some t') :
    ∃ (k : Worker) (f : JobRow → JobRow) (hid : ∀ j, (f j).id = j.id),
      w.worker? x = some k ∧
      w.table.update (fun j => j.id = k.jobId && j.ownedBy x now) f hid = some t' ∧
      ∀ j : JobRow, j.status.terminal = false → j.Kept (f j) := by
  cases a with
  | renew token =>
      cases hx
      simp only [write, bind_eq_bind, bind_eq_some_iff] at hw
      obtain ⟨k, hk, hw⟩ := hw
      exact ⟨k, _, _, hk, hw, fun _ h => ⟨rfl, rfl, rfl, fun _ => h, .inl rfl⟩⟩
  | ensureOwned token interrupted =>
      cases hx
      simp only [write, bind_eq_bind, bind_eq_some_iff] at hw
      obtain ⟨k, hk, -, -, hw⟩ := hw
      exact ⟨k, _, _, hk, hw, fun _ h => ⟨rfl, rfl, rfl, fun _ => h, .inl rfl⟩⟩
  | setJob token status message =>
      cases hx
      simp only [write, bind_eq_bind, bind_eq_some_iff] at hw
      obtain ⟨k, hk, hw⟩ := hw
      obtain rfl := worker?_token hk
      simp only [JobTable.setJob, Worker.claimTokenFor_context] at hw
      split at hw
      · cases hw
      · refine ⟨k, _, _, hk, hw, fun j h => ?_⟩
        split
        · exact ⟨rfl, rfl, rfl, fun _ => h, .inl rfl⟩
        · exact ⟨rfl, rfl, rfl, fun _ => h, .inr rfl⟩
  | retry token message retryCount retryAfter =>
      cases hx
      simp only [write, bind_eq_bind, bind_eq_some_iff] at hw
      obtain ⟨k, hk, hw⟩ := hw
      obtain rfl := worker?_token hk
      simp only [JobTable.scheduleUploadRetry, Worker.claimTokenFor_context] at hw
      split at hw
      · cases hw
      · exact ⟨k, _, _, hk, hw, fun _ h => ⟨rfl, rfl, rfl, fun _ => h, .inr rfl⟩⟩
  | progress token callback transferredBytes =>
      cases hx
      simp only [write, bind_eq_bind, bind_eq_some_iff] at hw
      obtain ⟨k, hk, hw⟩ := hw
      obtain rfl := worker?_token hk
      cases callback with
      | true => exact ⟨k, _, _, hk, hw, fun _ h => ⟨rfl, rfl, rfl, fun _ => h, .inl rfl⟩⟩
      | false =>
          simp only [JobTable.setJobProgress, Worker.claimTokenFor_context, none_or,
            Bool.false_eq_true, if_false] at hw
          split at hw
          · cases hw
          · exact ⟨k, _, _, hk, hw, fun _ h => ⟨rfl, rfl, rfl, fun _ => h, .inl rfl⟩⟩
  | _ => cases hx

/-! ### Every step is a move -/

namespace JobWorld

variable {w w' : JobWorld} {e : JobEvent} {x : Token}

lemma map_token_lost (ks : List Worker) (x : Token) :
    (ks.map fun k => if k.token = x then { k with lost := true } else k).map Worker.token =
      ks.map Worker.token := by
  rw [List.map_map]
  refine List.map_congr_left fun k _ => ?_
  simp only [Function.comp_apply]
  split <;> rfl

/-- A claim that succeeds hands out its token, nothing else hands out any. -/
lemma issued_workersAfter (a : JobAct) (written : Option JobTable) :
    (w.workersAfter a written).map Worker.token =
      if written.isSome then a.newToken.toList ++ w.issued else w.issued := by
  cases written with
  | some t =>
      cases a with
      | ensureOwned token interrupted => cases interrupted <;> rfl
      | _ => rfl
  | none =>
      cases a with
      | renew token => exact map_token_lost w.workers token
      | renewGroup token v g expected => exact map_token_lost w.workers token
      | ensureOwned token interrupted =>
          cases interrupted with
          | false => exact map_token_lost w.workers token
          | true => rfl
      | _ => rfl

/-- **Every writer is a move** of the lease of every Job. -/
lemma move_of_write {now : Stamp} {a : JobAct} (hadm : w.admissible a)
    (hw : w.write now a = some t') (job : JobId) :
    Move (w.lease job) (t'.leaseOf (a.newToken.toList ++ w.issued) now job) := by
  have howned {x : Token} (hx : a.jobToken = some x) :
      Move (w.lease job) (t'.leaseOf w.issued now job) := by
    obtain ⟨k, f, hid, -, hupd, hf⟩ := update_of_write hx hw
    exact JobTable.move_owned hupd fun j hj => (hf j (JobRow.open_of_ownedBy hj)).token
  have hnew {x : Token} (hx : a.newToken = some x) : x ∉ w.issued := by
    simp only [admissible, hx, all_some, Bool.and_eq_true, decide_eq_true_eq] at hadm
    exact hadm.1.1
  cases a with
  | claim autoUpload id token due => exact JobTable.move_claimJob (hnew rfl) hw
  | claimGroup lead token message messageKey acquired =>
      exact JobTable.move_claimPurgeGroup (hnew rfl) hw
  | renew token => exact howned rfl
  | ensureOwned token interrupted => exact howned rfl
  | setJob token status message => exact howned rfl
  | retry token message retryCount retryAfter => exact howned rfl
  | progress token callback transferredBytes => exact howned rfl
  | renewGroup token v g expected => exact JobTable.move_renewPurgeGroupClaim hw
  | finishGroup token v g expected completed => exact JobTable.move_finishPurgeGroup hw
  | releaseGroup token v g => exact JobTable.move_drop hw fun _ => rfl
  | reconcile id status progress message => exact JobTable.move_drop hw fun _ => rfl
  | reconcileGroup v g outcome message => exact JobTable.move_reconcilePurgeGroup hw
  | failStale v g message => exact JobTable.move_drop hw fun _ => rfl
  | cancelGroup translate v g action => exact JobTable.move_cancelJobGroup hw
  | cancelDeletion v g => exact JobTable.move_cancelDeletion hw
  | revoke v g reason => exact JobTable.move_drop hw fun _ => rfl
  | insert row =>
      cases hw
      exact JobTable.move_insert row

lemma jobStep_eq_some : jobStep w e = some w' ↔
    w.clock ≤ e.now ∧ w.admissible e.act ∧
      w' = ⟨(w.write e.now e.act).getD w.table, e.now,
        w.workersAfter e.act (w.write e.now e.act)⟩ := by
  simp only [jobStep]
  split
  · rename_i h
    simp only [Option.some.injEq, h, true_and]
    exact eq_comm
  · rename_i h
    simp only [reduceCtorEq, false_iff]
    exact fun hw => h ⟨hw.1, hw.2.1⟩

/-- **Every step is a move** of the lease of every Job. -/
lemma move_jobStep (h : jobStep w e = some w') (job : JobId) :
    Move (w.lease job) (w'.lease job) := by
  obtain ⟨-, hadm, rfl⟩ := jobStep_eq_some.mp h
  cases hw : w.write e.now e.act with
  | none =>
      have hissued := issued_workersAfter (w := w) e.act none
      simp only [lease, issued] at hissued ⊢
      rw [hissued]
      exact JobTable.move_refl
  | some t =>
      have hissued := issued_workersAfter (w := w) e.act (some t)
      have hmove := move_of_write hadm hw job
      simp only [lease, issued] at hissued hmove ⊢
      rwa [hissued]

lemma issued_jobStep (h : jobStep w e = some w') (hx : x ∈ w.issued) : x ∈ w'.issued := by
  have hmove := (move_jobStep h 0).issued (x := x)
  simp only [lease, JobTable.leaseOf_issued] at hmove
  exact hmove hx

lemma clock_jobStep (h : jobStep w e = some w') : w.clock ≤ w'.clock := by
  obtain ⟨hle, -, rfl⟩ := jobStep_eq_some.mp h
  exact hle

/-! ### The worker of a token -/

lemma mem_issued_of_worker? {k : Worker} (h : w.worker? x = some k) : x ∈ w.issued := by
  obtain rfl := worker?_token h
  exact List.mem_map_of_mem (List.mem_of_find?_eq_some h)

/-- A loss signal does not change whose Job a worker has. -/
lemma find_lost (ks : List Worker) (x y : Token) :
    ((ks.map fun k => if k.token = y then { k with lost := true } else k).find?
      fun k => k.token = x).map Worker.jobId = (ks.find? fun k => k.token = x).map Worker.jobId := by
  induction ks with
  | nil => rfl
  | cons k ks ih =>
      have htoken : (if k.token = y then { k with lost := true } else k).token = k.token := by
        split <;> rfl
      have hjob : (if k.token = y then { k with lost := true } else k).jobId = k.jobId := by
        split <;> rfl
      simp only [List.map_cons, List.find?_cons, htoken]
      cases decide (k.token = x) with
      | true => simp only [map_some, hjob]
      | false => exact ih

lemma worker?_jobStep (hx : x ∈ w.issued) (h : jobStep w e = some w') :
    (w'.worker? x).map Worker.jobId = (w.worker? x).map Worker.jobId := by
  obtain ⟨-, hadm, rfl⟩ := jobStep_eq_some.mp h
  have hnew {token : Token} (ht : e.act.newToken = some token) : token ≠ x := by
    rintro rfl
    simp only [admissible, ht, all_some, Bool.and_eq_true, decide_eq_true_eq] at hadm
    exact hadm.1.1 hx
  simp only [worker?]
  cases hw : w.write e.now e.act with
  | some t =>
      cases ha : e.act with
      | claim autoUpload id token due =>
          rw [workersAfter, List.find?_cons_of_neg (by simpa using hnew (by rw [ha]; rfl))]
      | claimGroup lead token message messageKey acquired =>
          rw [workersAfter, List.find?_cons_of_neg (by simpa using hnew (by rw [ha]; rfl))]
      | ensureOwned token interrupted => cases interrupted <;> rfl
      | _ => rfl
  | none =>
      cases ha : e.act with
      | renew token => exact find_lost w.workers x token
      | renewGroup token v g expected => exact find_lost w.workers x token
      | ensureOwned token interrupted =>
          cases interrupted with
          | false => exact find_lost w.workers x token
          | true => rfl
      | _ => rfl

lemma worker?_run {es : List JobEvent} {k : Worker} (hk : w.worker? x = some k)
    (h : Runs.run jobStep w es = some w') : ∃ k', w'.worker? x = some k' ∧ k'.jobId = k.jobId := by
  have hinv := Runs.run_induction
    (I := fun u => x ∈ u.issued ∧ (u.worker? x).map Worker.jobId = some k.jobId)
    (fun u e u' hu hstep => ?_) ⟨mem_issued_of_worker? hk, by rw [hk]; rfl⟩ h
  · exact map_eq_some_iff.mp hinv.2
  · exact ⟨issued_jobStep hstep hu.1, (worker?_jobStep hu.1 hstep).trans hu.2⟩

end JobWorld

/-! ### Exclusive and fenced -/

/-- The token is the stored one, its lease has not run out and the Job is not over. -/
def JobTable.LiveClaim (t : JobTable) (job : JobId) (x : Token) (now : Stamp) : Prop :=
  ∃ j, t.row? job = some j ∧ j.ownedBy x now

lemma JobTable.liveClaim_iff {t : JobTable} {job : JobId} {x : Token} {now : Stamp}
    (issued : List Token) (clock : Stamp) :
    t.LiveClaim job x now ↔ (t.leaseOf issued clock job).Live x now := by
  unfold LiveClaim leaseOf
  cases t.row? job with
  | none =>
      refine ⟨fun h => ?_, fun h => ?_⟩
      · obtain ⟨j, hj, -⟩ := h
        cases hj
      · cases h.holds
  | some j =>
      simp only [Option.some.injEq, exists_eq_left']
      exact JobRow.ownedBy_iff_live issued clock

lemma JobWorld.liveClaim_of_write {w : JobWorld} {now : Stamp} {a : JobAct} {x : Token}
    (hx : a.jobToken = some x) (hw : w.write now a = some t') :
    ∃ k, w.worker? x = some k ∧ w.table.LiveClaim k.jobId x now := by
  obtain ⟨k, f, hid, hk, hupd, -⟩ := update_of_write hx hw
  obtain ⟨⟨j, hj, hp⟩, -⟩ := JobTable.update_eq_some.mp hupd
  simp only [Bool.and_eq_true, decide_eq_true_eq] at hp
  exact ⟨k, hk, j, JobTable.row?_eq_some_iff.mpr ⟨hj, hp.1⟩, hp.2⟩

/-- **Leases are exclusive and fenced.**  In every state of any interleaving:

* at a time at most one token is live for a Job;
* a claim of the Job succeeds only when no token is live for it;
* a write under a token succeeds only if the token is live: it is the stored one, its lease has
  not run out and the Job is not terminal;
* a worker whose claim is not live any more, because it ran out, was given back or taken over
  or the Job was cancelled or ended, changes nothing in any later state. -/
theorem lease_exclusive_and_fenced (w : JobWorld) :
    (∀ job now x y, w.table.LiveClaim job x now → w.table.LiveClaim job y now → x = y) ∧
    (∀ now autoUpload job token due t',
      w.write now (.claim autoUpload job token due) = some t' →
        ∀ x, ¬ w.table.LiveClaim job x now) ∧
    (∀ now a x t', a.jobToken = some x → w.write now a = some t' →
      ∃ k, w.worker? x = some k ∧ w.table.LiveClaim k.jobId x now) ∧
    (∀ x k, w.worker? x = some k → ¬ w.table.LiveClaim k.jobId x w.clock →
      ∀ es w', Runs.run jobStep w es = some w' →
        ∀ e w'', e.act.jobToken = some x → jobStep w' e = some w'' → w''.table = w'.table) := by
  refine ⟨?_, ?_, fun now a x t' hx hw => JobWorld.liveClaim_of_write hx hw, ?_⟩
  · intro job now x y hx hy
    rw [JobTable.liveClaim_iff w.issued w.clock] at hx hy
    exact Lease.live_unique hx hy
  · intro now autoUpload job token due t' hw x hx
    obtain ⟨⟨j, hj, hp⟩, -⟩ := JobTable.update_eq_some.mp hw
    simp only [JobTable.claimableJob, Bool.and_eq_true, decide_eq_true_eq] at hp
    have havail : j.claimAvailable now := hp.2.1.2
    obtain ⟨j', hj', howned⟩ := hx
    cases (JobTable.row?_eq_some_iff.mpr ⟨hj, hp.1.1⟩).symm.trans hj'
    exact JobRow.not_live_of_claimAvailable havail w.issued w.clock x
      ((JobRow.ownedBy_iff_live w.issued w.clock).mp howned)
  · intro x k hk hdead es w' hrun e w'' hx hstep
    rw [JobTable.liveClaim_iff w.issued w.clock] at hdead
    have hdead' : ¬ (w'.lease k.jobId).Live x w'.clock := by
      have hfence := not_live_run (fun u : JobWorld => u.lease k.jobId)
        (fun u e u' hu => by simpa [JobWorld.lease] using JobWorld.clock_jobStep hu)
        (fun u e u' hu => JobWorld.move_jobStep hu k.jobId) hrun (x := x)
      simp only [JobWorld.lease, JobTable.leaseOf_issued, JobTable.leaseOf_clock] at hfence
      exact (hfence (JobWorld.mem_issued_of_worker? hk) hdead).2
    obtain ⟨k', hk', hjob⟩ := JobWorld.worker?_run hk hrun
    obtain ⟨hle, -, rfl⟩ := JobWorld.jobStep_eq_some.mp hstep
    cases hw : w'.write e.now e.act with
    | none => rfl
    | some t' =>
        exfalso
        obtain ⟨k'', hk'', hlive⟩ := JobWorld.liveClaim_of_write hx hw
        cases hk'.symm.trans hk''
        rw [hjob, JobTable.liveClaim_iff w'.issued w'.clock] at hlive
        exact hdead' (hlive.earlier hle)

end Frostvault
