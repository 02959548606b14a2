import Frostvault.Deletion.CloudDeletion
import Frostvault.Lib.Runs

/-!
The consent of a finished deletion request.

A `pending` row of `cloud_deletion_items` vetoes automatic uploads and remediation of its
file (`queue_auto_uploads`, `_suspension`), so it may only stand while its Job is open.
Cancellation and a revoked consent settle the items with the Job.  Finalization and restart
reconciliation fail a Job without looking at the items it leaves pending.

Every transaction but the admission rewrites Jobs and items row by row (`Rewrites`), so that
one lemma decides for all of them whether the consent stays live.

* `rewrites_cancelRows`, `rewrites_reconcileJobTransitions`: the loops in closed form;
* `consentLive_iff`: when a rewrite keeps the consent live;
* `SettlesItems`: no Job is failed over a pending item;
* `consent_live_iff`: **the consent stays live along a run exactly when every step settles
  the items of the Jobs it fails**.
-/

namespace Frostvault

open Runs List

/-! ### Live consent -/

/-- Every pending item belongs to a `cloud-purge` Job of its file that is not terminal: the
veto of `queue_auto_uploads` on a file always has an open deletion request behind it. -/
def ConsentLive (cat : Catalog) : Prop :=
  ∀ i ∈ cat.items, i.status = .pending → ∃ j ∈ cat.jobs,
    j.id = i.jobId ∧ j.vaultFileId = i.vaultFileId ∧ j.action = .cloudPurge ∧
      j.status.terminal = false

/-- A transaction that rewrites Jobs and items row by row, keeps their keys and makes no
item pending. -/
structure Rewrites (h : Job → Job) (g : DeletionItem → DeletionItem) (cat cat' : Catalog) :
    Prop where
  jobs : cat'.jobs = cat.jobs.map h
  items : cat'.items = cat.items.map g
  job_id : ∀ j, (h j).id = j.id
  job_file : ∀ j, (h j).vaultFileId = j.vaultFileId
  job_action : ∀ j, (h j).action = j.action
  item_job : ∀ i, (g i).jobId = i.jobId
  item_file : ∀ i, (g i).vaultFileId = i.vaultFileId
  item_pending : ∀ i, (g i).status = .pending → i.status = .pending

variable {h : Job → Job} {g : DeletionItem → DeletionItem} {cat cat' : Catalog}

/-- **When a rewrite keeps the consent live**: no Job of an item it leaves pending becomes
terminal. -/
lemma Rewrites.consentLive_iff (hr : Rewrites h g cat cat') (hl : ConsentLive cat) :
    ConsentLive cat' ↔ ∀ i ∈ cat.items, (g i).status = .pending →
      ∀ j ∈ cat.jobs, j.id = i.jobId → (h j).status.terminal = false := by
  constructor
  · intro hl' i hi hpend j hj hid
    have hi' : g i ∈ cat'.items := by
      rw [hr.items]
      exact mem_map_of_mem hi
    obtain ⟨k', hk', hkid, -, -, hterm⟩ := hl' _ hi' hpend
    rw [hr.jobs] at hk'
    obtain ⟨k, hk, rfl⟩ := mem_map.mp hk'
    -- Job ids are unique: the open Job of the item is `h j`
    have hkj : k = j := by
      refine cat.job_eq_of_id_eq hk hj ?_
      rw [← hr.job_id k, hkid, hr.item_job, hid]
    exact hkj ▸ hterm
  · intro hterm i' hi' hpend
    rw [hr.items] at hi'
    obtain ⟨i, hi, rfl⟩ := mem_map.mp hi'
    obtain ⟨j, hj, hid, hfile, hact, -⟩ := hl i hi (hr.item_pending i hpend)
    refine ⟨h j, by rw [hr.jobs]; exact mem_map_of_mem hj, ?_, ?_, ?_, ?_⟩
    · rw [hr.job_id, hr.item_job, hid]
    · rw [hr.job_file, hr.item_file, hfile]
    · rw [hr.job_action, hact]
    · exact hterm i hi hpend j hj hid

lemma Rewrites.consentLive_of_open (hr : Rewrites h g cat cat') (hl : ConsentLive cat)
    (hopen : ∀ j, j.status.terminal = false → (h j).status.terminal = false) :
    ConsentLive cat' := by
  refine (hr.consentLive_iff hl).mpr fun i hi hpend j hj hid => hopen j ?_
  obtain ⟨k, hk, hkid, -, -, hterm⟩ := hl i hi (hr.item_pending i hpend)
  rw [cat.job_eq_of_id_eq hj hk (hid.trans hkid.symm)]
  exact hterm

/-! ### The loops in closed form -/

/-- What `_cancel_rows` does to a Job. -/
def cancelJob (ids : List JobId) (j : Job) : Job :=
  if j.id ∈ ids then j.settle .cancelled else j

/-- What `_cancel_rows` does to an item. -/
def skipItem (ids : List JobId) (i : DeletionItem) : DeletionItem :=
  if i.jobId ∈ ids ∧ (i.status = .pending ∨ i.status = .failed) then
    { i with status := .skipped } else i

lemma cancelRow_jobs (cat : Catalog) (job : JobId) :
    (cancelRow cat job).jobs = cat.jobs.map (cancelJob [job]) := by
  refine map_congr_left fun j _ => ?_
  simp [cancelJob]

lemma cancelRow_items (cat : Catalog) (job : JobId) :
    (cancelRow cat job).items = cat.items.map (skipItem [job]) := by
  refine map_congr_left fun i _ => ?_
  simp [skipItem]

/-- The loop of `_cancel_rows` cancels every Job of the list and skips its open items. -/
lemma foldl_cancelRow (ids : List JobId) (cat : Catalog) :
    (ids.foldl cancelRow cat).jobs = cat.jobs.map (cancelJob ids) ∧
      (ids.foldl cancelRow cat).items = cat.items.map (skipItem ids) := by
  induction ids generalizing cat with
  | nil =>
      have hj : cancelJob [] = id := funext fun j => by simp [cancelJob]
      have hi : skipItem [] = id := funext fun i => by simp [skipItem]
      simp [hj, hi]
  | cons job ids ih =>
      obtain ⟨hjobs, hitems⟩ := ih (cancelRow cat job)
      rw [foldl_cons, hjobs, hitems, cancelRow_jobs, cancelRow_items, map_map,
        map_map]
      refine ⟨map_congr_left fun j _ => ?_, map_congr_left fun i _ => ?_⟩
      · simp only [Function.comp_apply, cancelJob, mem_cons, not_mem_nil, or_false]
        by_cases h1 : j.id = job
        · simp [h1, Job.settle]
        · simp [h1]
      · simp only [Function.comp_apply, skipItem, mem_cons, not_mem_nil, or_false]
        by_cases h1 : i.jobId = job
        · by_cases h2 : i.status = .pending ∨ i.status = .failed
          · simp [h1, h2]
          · simp [h1, h2]
        · simp [h1]

/-- `_cancel_rows` rewrites the Jobs and settles their items. -/
lemma rewrites_cancelRows (cat : Catalog) (rows : List Job) :
    Rewrites (cancelJob (rows.map Job.id)) (skipItem (rows.map Job.id)) cat
      (cancelRows cat rows) where
  jobs := (foldl_cancelRow _ cat).1
  items := (foldl_cancelRow _ cat).2
  job_id j := by unfold cancelJob; split <;> rfl
  job_file j := by unfold cancelJob; split <;> rfl
  job_action j := by unfold cancelJob; split <;> rfl
  item_job i := by unfold skipItem; split <;> rfl
  item_file i := by unfold skipItem; split <;> rfl
  item_pending i := by
    unfold skipItem
    split
    · simp
    · exact id

lemma cancelRows_files (cat : Catalog) (rows : List Job) :
    (cancelRows cat rows).files = cat.files := by
  unfold cancelRows
  generalize rows.map Job.id = ids
  induction ids generalizing cat with
  | nil => rfl
  | cons a ids ih =>
      rw [foldl_cons, ih]
      rfl

/-- Cancelled Jobs keep no pending item, so a cancellation keeps the consent live. -/
lemma consentLive_cancelRows (rows : List Job) (hl : ConsentLive cat) :
    ConsentLive (cancelRows cat rows) := by
  have hr := rewrites_cancelRows cat rows
  refine (hr.consentLive_iff hl).mpr fun i hi hpend j hj hid => ?_
  have hmem : j.id ∉ rows.map Job.id := by
    intro hin
    have hst := hr.item_pending i hpend
    rw [hid] at hin
    simp [skipItem, hin, hst] at hpend
  obtain ⟨k, hk, hkid, -, -, hterm⟩ := hl i hi (hr.item_pending i hpend)
  rw [cat.job_eq_of_id_eq hk hj (hkid.trans hid.symm)] at hterm
  simpa [cancelJob, hmem] using hterm

/-- What a restart decision does to a Job. -/
def moveJob (ids : List JobId) (st : JobStatus) (now : Stamp) (j : Job) : Job :=
  if j.claimAvailable now ∧ j.id ∈ ids ∧ j.status.terminal = false then j.settle st else j

lemma moveJob_moveJob (a : JobId) (ids : List JobId) (st : JobStatus) (now : Stamp) (j : Job) :
    moveJob ids st now (moveJob [a] st now j) = moveJob (a :: ids) st now j := by
  by_cases ha : j.id = a
  · by_cases hc : j.claimAvailable now ∧ j.status.terminal = false
    · simp [moveJob, ha, hc, Job.settle]
    · by_cases h1 : j.claimAvailable now
      · have h2 : ¬ j.status.terminal = false := fun h2 => hc ⟨h1, h2⟩
        simp [moveJob, h2]
      · simp [moveJob, h1]
  · simp [moveJob, ha]

/-- The loop over the interrupted Jobs of a group moves each of them once. -/
lemma foldl_reconcileJobTransition (ids : List JobId) (st : JobStatus) (now : Stamp)
    (cat : Catalog) :
    (ids.foldl (fun cat job => reconcileJobTransition cat job st now) cat).jobs =
        cat.jobs.map (moveJob ids st now) ∧
      (ids.foldl (fun cat job => reconcileJobTransition cat job st now) cat).items =
        cat.items := by
  induction ids generalizing cat with
  | nil =>
      have hj : moveJob [] st now = id := funext fun j => by simp [moveJob]
      simp [hj]
  | cons a ids ih =>
      obtain ⟨hjobs, hitems⟩ := ih (reconcileJobTransition cat a st now)
      rw [foldl_cons, hjobs, hitems]
      refine ⟨?_, rfl⟩
      have hone : (reconcileJobTransition cat a st now).jobs =
          cat.jobs.map (moveJob [a] st now) := by
        refine map_congr_left fun j _ => ?_
        simp [moveJob]
      rw [hone, map_map]
      exact map_congr_left fun j _ => moveJob_moveJob a ids st now j

/-- A restart decision rewrites the Jobs and no item. -/
lemma rewrites_reconcileJobTransitions (cat : Catalog) (rows : List Job) (st : JobStatus)
    (now : Stamp) :
    Rewrites (moveJob (rows.map Job.id) st now) id cat
      (reconcileJobTransitions cat rows st now) where
  jobs := (foldl_reconcileJobTransition _ st now cat).1
  items := by rw [map_id]; exact (foldl_reconcileJobTransition _ st now cat).2
  job_id j := by unfold moveJob; split <;> rfl
  job_file j := by unfold moveJob; split <;> rfl
  job_action j := by unfold moveJob; split <;> rfl
  item_job _ := rfl
  item_file _ := rfl
  item_pending _ := id

lemma consentLive_requeue (rows : List Job) (now : Stamp) (hl : ConsentLive cat) :
    ConsentLive (reconcileJobTransitions cat rows .queued now) := by
  refine (rewrites_reconcileJobTransitions cat rows .queued now).consentLive_of_open hl ?_
  intro j hj
  unfold moveJob
  split
  · rfl
  · exact hj

/-! ### The transactions -/

/-- Reconciliation fails the group: an open item is recorded as failed, or the provider does
not answer for one of them. -/
def failsGroup (listing : ProviderListing) (cat : Catalog) (v : VaultId) (gid : GroupId)
    (now : Stamp) : Bool :=
  groupReconcilable cat v gid now &&
    ((openItems cat v gid).any (fun i => i.status = .failed) ||
      !(openItems cat v gid).all fun i => (listed listing i).isSome)

variable {gid : GroupId} {v : VaultId}

lemma mem_schedulePurgeOf_items {origin : JobOrigin} {at_ : Stamp}
    {f : VaultFile} {i : DeletionItem} (hi : i ∈ (schedulePurgeOf v origin gid at_ cat f).items) :
    i ∈ cat.items ∨ i.jobId = cat.freshJobId ∧ i.vaultFileId = f.id := by
  rcases mem_append.mp hi with hi | hi
  · exact Or.inl hi
  · obtain ⟨⟨t, k⟩, -, rfl⟩ := mem_map.mp hi
    exact Or.inr ⟨rfl, rfl⟩

/-- An admitted Job is open, and so is the consent of its items. -/
lemma consentLive_schedulePurgeOf {origin : JobOrigin}
    {at_ : Stamp} (f : VaultFile) (hl : ConsentLive cat) :
    ConsentLive (schedulePurgeOf v origin gid at_ cat f) := by
  intro i hi hpend
  rcases mem_schedulePurgeOf_items hi with hold | ⟨h1, h2⟩
  · obtain ⟨j, hj, hrest⟩ := hl i hold hpend
    exact ⟨j, mem_append_left _ hj, hrest⟩
  · exact ⟨_, mem_append_right _ mem_cons_self, h1.symm, h2.symm, rfl, rfl⟩

lemma scheduleCloudPurge_spec {vaults : VaultTable} {sel : Selection}
    {at_ : Stamp} {confirmation reason : String} {origin : JobOrigin}
    (hs : scheduleCloudPurge vaults cat v sel at_ confirmation reason origin = some cat') :
    ∃ files : List VaultFile, cat' = files.foldl (schedulePurgeOf v origin (freshGroupId cat) at_) cat := by
  simp only [scheduleCloudPurge, Option.bind_eq_bind, Option.bind_eq_some_iff,
    Option.some.injEq] at hs
  obtain ⟨vault, -, -, -, -, -, -, -, -, -, files, -, -, -, -, -, rfl⟩ := hs
  exact ⟨files, rfl⟩

/-- The results of the provider settle items and end no Job. -/
lemma rewrites_markItemsDeleted (cat : Catalog) (ids : List ℕ) (at_ : Stamp) :
    Rewrites id (fun i => if i.id ∈ ids then { i with status := .deleted } else i) cat
      (markItemsDeleted cat ids at_) where
  jobs := (map_id _).symm
  items := rfl
  job_id _ := rfl
  job_file _ := rfl
  job_action _ := rfl
  item_job i := by split <;> rfl
  item_file i := by split <;> rfl
  item_pending i := by
    split
    · simp
    · exact id

lemma rewrites_markItemsFailed (cat : Catalog) (ids : List ℕ) :
    Rewrites id (fun i => if i.id ∈ ids then { i with status := .failed } else i) cat
      (markItemsFailed cat ids) where
  jobs := (map_id _).symm
  items := rfl
  job_id _ := rfl
  job_file _ := rfl
  job_action _ := rfl
  item_job i := by split <;> rfl
  item_file i := by split <;> rfl
  item_pending i := by
    split
    · simp
    · exact id

/-- The status `finalize_purge_job` writes. -/
def finalJob (cat : Catalog) (job : JobId) (j : Job) : Job :=
  if j.id = job then
    { j with status := if purgeCompleted cat job then .completed else .failed } else j

lemma rewrites_finalizePurgeJob {job : JobId} {file : FileId}
    (hs : finalizePurgeJob cat job file = some cat') :
    (∃ j ∈ cat.jobs, j.id = job) ∧ Rewrites (finalJob cat job) id cat cat' := by
  simp only [finalizePurgeJob, Option.bind_eq_bind, guard_bind_eq_some,
    any_eq_true, decide_eq_true_eq] at hs
  obtain ⟨hex, hs⟩ := hs
  refine ⟨hex, ?_⟩
  have hboth : cat'.jobs = cat.jobs.map (finalJob cat job) ∧ cat'.items = cat.items := by
    split at hs <;> cases hs <;> exact ⟨rfl, rfl⟩
  exact
    { jobs := hboth.1
      items := by rw [map_id]; exact hboth.2
      job_id := fun j => by unfold finalJob; split <;> rfl
      job_file := fun j => by unfold finalJob; split <;> rfl
      job_action := fun j => by unfold finalJob; split <;> rfl
      item_job := fun _ => rfl
      item_file := fun _ => rfl
      item_pending := fun _ => id }

lemma claimPurgeGroup_spec {lead : JobId} {token : ℕ} {now expires : Stamp}
    (hs : claimPurgeGroup cat lead token now expires = some cat') :
    ∃ ids : List JobId, Rewrites (fun j => if j.id ∈ ids then
      { j with status := .cleaning, claimToken := some token, claimExpiresAt := some expires }
      else j) id cat cat' := by
  simp only [claimPurgeGroup, Option.bind_eq_bind, Option.bind_eq_some_iff,
    Option.some.injEq] at hs
  obtain ⟨job, -, gid, -, -, -, rfl⟩ := hs
  exact ⟨(activePurges cat job.vaultId gid).map Job.id,
    { jobs := rfl
      items := (map_id _).symm
      job_id := fun j => by split <;> rfl
      job_file := fun j => by split <;> rfl
      job_action := fun j => by split <;> rfl
      item_job := fun _ => rfl
      item_file := fun _ => rfl
      item_pending := fun _ => id }⟩

/-- What a restart does to an interrupted group: nothing, a requeue after the provider's
answer, or a failure of all its interrupted members. -/
lemma reconcileInterruptedPurge_spec {listing : ProviderListing} {lead : JobId} {now : Stamp}
    (hs : reconcileInterruptedPurge listing cat lead now = some cat') :
    ∃ j ∈ cat.jobs, j.id = lead ∧
      ((j.groupId = none ∧ cat' = cat) ∨ ∃ gid, j.groupId = some gid ∧
        ((failsGroup listing cat j.vaultId gid now = false ∧
            (cat' = cat ∨ ∃ ids, cat' = reconcileJobTransitions (markItemsDeleted cat ids now)
              (interruptedPurges cat j.vaultId gid) .queued now)) ∨
          (failsGroup listing cat j.vaultId gid now ∧
            cat' = reconcileJobTransitions cat (interruptedPurges cat j.vaultId gid) .failed
              now))) := by
  simp only [reconcileInterruptedPurge, Option.bind_eq_bind, Option.bind_eq_some_iff] at hs
  obtain ⟨j, hfind, hs⟩ := hs
  have hlead : j.id = lead := by
    have := find?_some hfind
    simp only [Bool.and_eq_true, decide_eq_true_eq] at this
    exact this.1.1.1
  refine ⟨j, mem_of_find?_eq_some hfind, hlead, ?_⟩
  cases hg : j.groupId with
  | none =>
      simp only [hg, Option.some.injEq] at hs
      exact Or.inl ⟨rfl, hs.symm⟩
  | some gid =>
      refine Or.inr ⟨gid, rfl, ?_⟩
      simp only [hg, reconcileCloudPurgeGroup] at hs
      by_cases hrec : groupReconcilable cat j.vaultId gid now
      · by_cases hfail : (openItems cat j.vaultId gid).any (fun i => i.status = .failed)
        · simp only [hrec, hfail, Bool.not_true, Bool.false_eq_true, if_false, if_true,
            Option.some.injEq] at hs
          exact Or.inr ⟨by simp [failsGroup, hrec, hfail], hs.symm⟩
        · by_cases hlist : (openItems cat j.vaultId gid).all
              (fun i => (listed listing i).isSome)
          · simp only [hrec, hfail, hlist, Bool.not_true, Bool.false_eq_true, if_false, if_true,
              Option.some.injEq] at hs
            refine Or.inl ⟨by simp only [failsGroup, hrec, hfail, hlist]; rfl, Or.inr ⟨_, hs.symm⟩⟩
          · simp only [hrec, hfail, hlist, Bool.not_true, Bool.false_eq_true, if_false,
              Option.some.injEq] at hs
            refine Or.inr ⟨by simp only [failsGroup, hrec, hlist]; simp, ?_⟩
            -- no member of a reconcilable group holds a live claim, so all of them are stale
            rw [← hs, filter_eq_self.mpr]
            intro k hk
            obtain ⟨hk, hst⟩ := mem_filter.mp hk
            have hact : k ∈ activePurges cat j.vaultId gid := by
              refine mem_filter.mpr ⟨hk, ?_⟩
              rw [of_decide_eq_true hst]
              rfl
            simp only [groupReconcilable, Bool.and_eq_true] at hrec
            exact all_eq_true.mp hrec.1.1 k hact
      · simp only [hrec, Bool.not_false, if_true, Option.some.injEq] at hs
        exact Or.inl ⟨by simp [failsGroup, hrec], Or.inl hs.symm⟩

/-! ### Steps and runs -/

/-- **The step settles what it ends.**  A Job is finalized without pending items, and a group
that reconciliation fails has none either. -/
def SettlesItems (cat : Catalog) : PurgeAct → Prop
  | .finalize job _ => ∀ i ∈ cat.items, i.jobId = job → i.status ≠ .pending
  | .reconcile listing lead now => ∀ j ∈ cat.jobs, j.id = lead → ∀ gid ∈ j.groupId,
      failsGroup listing cat j.vaultId gid now = true →
        ∀ i ∈ openItems cat j.vaultId gid, i.status ≠ .pending
  | _ => True

instance (cat : Catalog) (a : PurgeAct) : Decidable (SettlesItems cat a) := by
  cases a <;> unfold SettlesItems <;> infer_instance

/-- Failing the interrupted members of a reconcilable group ends each of them. -/
lemma terminal_moveJob_failed {now : Stamp} {j : Job}
    (hrec : groupReconcilable cat v gid now) (hj : j ∈ interruptedPurges cat v gid) :
    (moveJob ((interruptedPurges cat v gid).map Job.id) .failed now j).status.terminal =
      true := by
  obtain ⟨hgrp, hst⟩ := mem_filter.mp hj
  have hopen : j.status.terminal = false := by rw [of_decide_eq_true hst]; rfl
  have hact : j ∈ activePurges cat v gid := mem_filter.mpr ⟨hgrp, by simp [hopen]⟩
  simp only [groupReconcilable, Bool.and_eq_true] at hrec
  have hav : j.claimAvailable now := all_eq_true.mp hrec.1.1 j hact
  have hmem : j.id ∈ (interruptedPurges cat v gid).map Job.id := mem_map_of_mem hj
  rw [moveJob, if_pos ⟨hav, hmem, hopen⟩]
  rfl

/-- Failing a group keeps the consent live exactly when it has no pending item. -/
lemma consentLive_failGroup {listing : ProviderListing}
    {now : Stamp} (hl : ConsentLive cat) (hfail : failsGroup listing cat v gid now) :
    ConsentLive (reconcileJobTransitions cat (interruptedPurges cat v gid) .failed now) ↔
      ∀ i ∈ openItems cat v gid, i.status ≠ .pending := by
  have hrec : groupReconcilable cat v gid now := by
    simp only [failsGroup, Bool.and_eq_true] at hfail
    exact hfail.1
  have hr := rewrites_reconcileJobTransitions cat (interruptedPurges cat v gid) .failed now
  rw [hr.consentLive_iff hl]
  constructor
  · intro hterm i hi hpend
    simp only [openItems, mem_filter, Bool.and_eq_true, decide_eq_true_eq] at hi
    obtain ⟨hi, hmem, -⟩ := hi
    obtain ⟨j, hj, hid⟩ := mem_map.mp hmem
    have hjobs : j ∈ cat.jobs := (mem_filter.mp (mem_filter.mp hj).1).1
    have := hterm i hi hpend j hjobs hid
    rw [terminal_moveJob_failed hrec hj] at this
    cases this
  · intro hnone i hi hpend j hj hid
    obtain ⟨k, hk, hkid, -, -, hopen⟩ := hl i hi hpend
    have hkj : k = j := cat.job_eq_of_id_eq hk hj (hkid.trans hid.symm)
    subst hkj
    have hmem : k.id ∉ (interruptedPurges cat v gid).map Job.id := by
      intro hin
      refine hnone i ?_ hpend
      simp only [openItems, mem_filter, Bool.and_eq_true, decide_eq_true_eq,
        Bool.or_eq_true]
      exact ⟨hi, hid ▸ hin, Or.inl hpend⟩
    simpa [moveJob, hmem] using hopen

/-- Finalizing a Job keeps the consent live exactly when it has no pending item. -/
lemma consentLive_finalize {job : JobId} {file : FileId} (hl : ConsentLive cat)
    (hs : finalizePurgeJob cat job file = some cat') :
    ConsentLive cat' ↔ ∀ i ∈ cat.items, i.jobId = job → i.status ≠ .pending := by
  obtain ⟨⟨j, hj, hid⟩, hr⟩ := rewrites_finalizePurgeJob hs
  rw [hr.consentLive_iff hl]
  constructor
  · intro hterm i hi hjob hpend
    have := hterm i hi hpend j hj (hid.trans hjob.symm)
    simp only [finalJob, hid, if_true] at this
    split at this <;> simp [JobStatus.terminal] at this
  · intro hnone i hi hpend k hk hkid
    have hne : k.id ≠ job := fun h => hnone i hi (hkid ▸ h) hpend
    obtain ⟨l, hl', hlid, -, -, hopen⟩ := hl i hi hpend
    have hlk : l = k := cat.job_eq_of_id_eq hl' hk (hlid.trans hkid.symm)
    simpa [finalJob, hne, hlk] using hlk ▸ hopen

/-- **One step** keeps the consent live exactly when it settles the items of the Jobs it
fails. -/
lemma consentLive_step {a : PurgeAct} (hl : ConsentLive cat) (hs : purgeStep cat a = some cat') :
    ConsentLive cat' ↔ SettlesItems cat a := by
  cases a with
  | schedule vaults v sel at_ confirmation reason origin =>
      obtain ⟨files, rfl⟩ := scheduleCloudPurge_spec hs
      refine iff_of_true ?_ trivial
      exact List.foldlRecOn files _ hl fun c hc f _ => consentLive_schedulePurgeOf f hc
  | cancel vaults v gid =>
      simp only [purgeStep, cancelCloudDeletion, Option.bind_eq_bind, Option.bind_eq_some_iff,
        Option.some.injEq] at hs
      obtain ⟨-, -, -, -, rfl⟩ := hs
      exact iff_of_true (consentLive_cancelRows _ hl) trivial
  | claim lead token now expires =>
      obtain ⟨ids, hr⟩ := claimPurgeGroup_spec hs
      refine iff_of_true (hr.consentLive_of_open hl fun j hj => ?_) trivial
      split
      · rfl
      · exact hj
  | validate vaults v gid at_ =>
      simp only [purgeStep, validateExecution, Option.bind_eq_bind, Option.map_eq_some_iff,
        Option.bind_eq_some_iff] at hs
      obtain ⟨res, ⟨vault, -, hres⟩, rfl⟩ := hs
      split at hres <;> cases hres
      · exact iff_of_true hl trivial
      · exact iff_of_true (consentLive_cancelRows _ hl) trivial
  | markDeleted ids at_ =>
      cases hs
      exact iff_of_true
        ((rewrites_markItemsDeleted cat ids at_).consentLive_of_open hl fun _ hj => hj) trivial
  | markFailed ids =>
      cases hs
      exact iff_of_true
        ((rewrites_markItemsFailed cat ids).consentLive_of_open hl fun _ hj => hj) trivial
  | finalize job file => exact consentLive_finalize hl hs
  | reconcile listing lead now =>
      obtain ⟨j, hj, hlead, hcases⟩ := reconcileInterruptedPurge_spec hs
      -- the lead of the condition is the lead of the step: Job ids are unique
      have hone : ∀ k ∈ cat.jobs, k.id = lead → k = j := fun k hk hkid =>
        cat.job_eq_of_id_eq hk hj (hkid.trans hlead.symm)
      rcases hcases with ⟨hg, rfl⟩ | ⟨gid, hg, hcases⟩
      · refine iff_of_true hl fun k hk hkid gid hgid => ?_
        rw [hone k hk hkid, hg] at hgid
        cases hgid
      · have hcond : SettlesItems cat (.reconcile listing lead now) ↔
            (failsGroup listing cat j.vaultId gid now →
              ∀ i ∈ openItems cat j.vaultId gid, i.status ≠ .pending) := by
          refine ⟨fun h => h j hj hlead gid (by simp [hg]), fun h k hk hkid gid' hgid' => ?_⟩
          obtain rfl := hone k hk hkid
          obtain rfl : gid = gid' := by simpa [hg] using hgid'
          exact h
        rw [hcond]
        rcases hcases with ⟨hno, rfl | ⟨ids, rfl⟩⟩ | ⟨hfail, rfl⟩
        · exact iff_of_true hl fun h => by simp [hno] at h
        · refine iff_of_true (consentLive_requeue _ now ?_) fun h => by simp [hno] at h
          exact (rewrites_markItemsDeleted cat ids now).consentLive_of_open hl fun _ hj => hj
        · rw [consentLive_failGroup hl hfail]
          exact ⟨fun h _ => h, fun h => h hfail⟩

/-- **Consent of a finished request.**  In a run from a catalog without deletion items, every
pending item belongs to an open Job in every state reached, exactly when no step fails a Job
over a pending item. -/
theorem consent_live_iff (cat : Catalog) (as : List PurgeAct) (t : Catalog)
    (hstart : cat.items = []) (hrun : run purgeStep cat as = some t) :
    (∀ bs u, bs <+: as → run purgeStep cat bs = some u → ConsentLive u) ↔
      Along purgeStep SettlesItems cat as := by
  have hl : ConsentLive cat := by
    intro i hi
    simp [hstart] at hi
  exact along_iff_invariant (fun s a s' hI hs => consentLive_step hI hs) hl hrun

/-- A Vault whose checks all pass: nothing on disk, every observation confirmed. -/
def openVault : VaultTable := fun v =>
  if v = 0 then
    some ⟨"photos", .active, false, true, fun _ => true, false, fun _ => true, none⟩
  else none

/-- One file at `a`, in the cloud only, with one verified version. -/
def cloudOnlyCatalog : Catalog where
  files := [⟨1, 0, .active, some ['a'], 0, [], none,
    [⟨1, 1, 5, some 9, some 10, none, some 3, .verified, .available, none, none, 0, none,
      none, .upload, .upload⟩], []⟩]
  jobs := []
  items := []
  ids_nodup := by simp
  paths_unique := by simp
  versions_unique := by simp [VaultFile.versionKeys]
  jobIds_nodup := nodup_nil

/-- The request for the file, and its lease once the seven days are over. -/
def requestedAndClaimed : List PurgeAct :=
  [.schedule openVault 0 ⟨[['a']], false, false⟩ 0 "photos" "no longer needed" .manual,
    .claim 1 7 deletionDelaySeconds (deletionDelaySeconds + 300)]

/-- The worker stops after the lease and the provider does not answer the restart: the Job
fails and its item stays pending. -/
theorem consent_outlives_unanswered_restart :
    ¬ ∀ (cat : Catalog) (as : List PurgeAct) (t : Catalog), cat.items = [] →
      run purgeStep cat as = some t → ConsentLive t := by
  intro hall
  have hrun : (run purgeStep cloudOnlyCatalog
      (requestedAndClaimed ++ [.reconcile (fun _ => none) 1 (deletionDelaySeconds + 300)])).map
        (fun t => decide (∃ i ∈ t.items, i.status = .pending ∧
          ∀ j ∈ t.jobs, j.id = i.jobId → j.status.terminal = true)) = some true := by
    decide
  obtain ⟨t, ht, horphan⟩ := Option.map_eq_some_iff.mp hrun
  obtain ⟨i, hi, hpend, hterm⟩ := of_decide_eq_true horphan
  obtain ⟨j, hj, hid, -, -, hopen⟩ := hall _ _ t rfl ht i hi hpend
  rw [hterm j hj hid] at hopen
  cases hopen

/-- The worker deletes the version and finalizes the Job: the consent ends with it. -/
theorem consent_live_deleted :
    (run purgeStep cloudOnlyCatalog
      (requestedAndClaimed ++ [.validate openVault 0 1 deletionDelaySeconds,
        .markDeleted [1] deletionDelaySeconds, .finalize 1 1])).isSome = true ∧
    ∀ bs u, bs <+: requestedAndClaimed ++ [.validate openVault 0 1 deletionDelaySeconds,
        .markDeleted [1] deletionDelaySeconds, .finalize 1 1] →
      run purgeStep cloudOnlyCatalog bs = some u → ConsentLive u := by
  have hrun : (run purgeStep cloudOnlyCatalog
      (requestedAndClaimed ++ [.validate openVault 0 1 deletionDelaySeconds,
        .markDeleted [1] deletionDelaySeconds, .finalize 1 1])).isSome = true := by decide
  obtain ⟨t, ht⟩ := Option.isSome_iff_exists.mp hrun
  exact ⟨hrun, (consent_live_iff cloudOnlyCatalog _ t rfl ht).mpr (by decide)⟩

end Frostvault
