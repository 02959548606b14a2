import Frostvault.Deletion.OwnProgress
import Mathlib

/-!
A worker of the delayed cloud deletion from its claim to its end (`process_cloud_purge` of
`app/storage.py`), with nobody else at work.

* `AdmittedGroup.claimed`, `.renewed`, `.recorded`: every transaction of the worker leads from one
  `OwnProgress` to the next;
* `PurgeSession`: the transactions and calls of one worker, in order;
* `round_run`, `round_revoked`: **a batch is sent and recorded**, or the consent is revoked;
* `own_progress_iff`: **the admitted groups a worker brings to their end**.
-/

namespace Frostvault

open PurgeWorld Runs List

/-- The Jobs and files a worker of the group goes through. -/
abbrev groupRows (members : List PurgeMember) : List (JobId × FileId) :=
  members.map fun m => (m.job.id, m.file.id)

/-- The items of a batch that were deleted, and those that were refused. -/
abbrev deletedIds (refused : ℕ → Bool) (batch : List DeletionItem) : List ℕ :=
  (batch.filter fun i => !refused i.id).map DeletionItem.id

abbrev failedIds (refused : ℕ → Bool) (batch : List DeletionItem) : List ℕ :=
  (batch.filter fun i => refused i.id).map DeletionItem.id

/-- No file of the group stands in the way of the next batch. -/
abbrev StayCloudOnly (members : List PurgeMember) (refused : ℕ → Bool)
    (sent : List DeletionItem) : Prop :=
  ∀ m ∈ members, m.file.StaysCloudOnly (goneVersions sent refused)

section Transactions

variable {cat₀ admitted cat cat' : Catalog} {v : VaultId} {g : GroupId} {origin : JobOrigin}
  {requestedAt : Stamp} {vault₀ : VaultView} {members : List PurgeMember} {token : ℕ}
  {refused : ℕ → Bool} {until_ until' now expires : Stamp} {sent batch : List DeletionItem}

/-! ### The index on open Jobs -/

/-- A rewrite that opens no Job keeps the index. -/
lemma OneActiveFile.of_map {f : Job → Job} (h : OneActiveFile cat)
    (hjobs : cat'.jobs = cat.jobs.map f)
    (hf : ∀ j ∈ cat.jobs, (f j).vaultFileId = j.vaultFileId ∧
      (j.status.terminal → (f j).status.terminal)) : OneActiveFile cat' := by
  rw [OneActiveFile] at h ⊢
  have hsame : ((cat.jobs.map f).filter fun j => !j.status.terminal).map Job.vaultFileId =
      (cat.jobs.filter fun j => !(f j).status.terminal).map Job.vaultFileId := by
    rw [filter_map, map_map]
    exact map_congr_left fun j hj => (hf j (mem_filter.mp hj).1).1
  rw [hjobs, hsame]
  have hopen : cat.jobs.filter (fun j => !(f j).status.terminal) =
      (cat.jobs.filter fun j => !j.status.terminal).filter fun j => !(f j).status.terminal := by
    rw [filter_filter]
    refine filter_congr fun j hj => ?_
    cases hterm : j.status.terminal with
    | false => simp
    | true => simp [(hf j hj).2 hterm]
  rw [hopen]
  exact h.sublist (filter_sublist.map _)

namespace AdmittedGroup

variable (hg : AdmittedGroup cat₀ admitted v g origin requestedAt vault₀ members)

include hg

lemma oneActiveFile : OneActiveFile admitted := by
  have hmap : ((members.map PurgeMember.job).filter fun j => !j.status.terminal) =
      members.map PurgeMember.job := by
    refine filter_eq_self.mpr fun j hj => ?_
    obtain ⟨m, hm, rfl⟩ := mem_map.mp hj
    rw [hg.job_eq hm]
    rfl
  have hfiles : (members.map PurgeMember.job).map Job.vaultFileId =
      (members.map PurgeMember.file).map VaultFile.id := by
    rw [map_map, map_map]
    refine map_congr_left fun m hm => ?_
    rw [Function.comp_apply, hg.job_eq hm]
    rfl
  rw [OneActiveFile, hg.stored.jobs_eq, filter_append, hmap, map_append, hfiles,
    nodup_append]
  refine ⟨hg.tables.one, ?_, ?_⟩
  · refine List.Nodup.map_on ?_ hg.once
    intro f hf f' hf' hid
    obtain ⟨m, hm, rfl⟩ := mem_map.mp hf
    obtain ⟨m', hm', rfl⟩ := mem_map.mp hf'
    exact congrArg PurgeMember.file (hg.eq_of_file_id hm hm' hid)
  · rintro _ ha _ hb rfl
    obtain ⟨j, hj, hfile⟩ := mem_map.mp ha
    obtain ⟨f, hf, hid⟩ := mem_map.mp hb
    obtain ⟨m, hm, rfl⟩ := mem_map.mp hf
    obtain ⟨hj, hopen⟩ := mem_filter.mp hj
    have hnone := (hg.member_valid hm).2.1
    rw [otherPendingWork, any_eq_false] at hnone
    refine hnone j hj ?_
    simp [hid.trans rfl, hfile, hopen]

lemma oneActiveFile_of_progress (h : OwnProgress admitted members token refused until_ sent cat) :
    OneActiveFile cat := by
  obtain ⟨expiry, -, hjobs⟩ := h.jobs
  refine hg.oneActiveFile.of_map hjobs fun j hj => ?_
  split
  · rename_i hmem
    obtain ⟨m, hm, hid⟩ := mem_map.mp hmem
    obtain rfl := admitted.job_eq_of_id_eq (hg.job_mem hm) hj hid
    refine ⟨rfl, fun hterm => ?_⟩
    rw [hg.job_eq hm] at hterm
    cases hterm
  · exact ⟨rfl, id⟩

end AdmittedGroup

/-! ### The transactions of a worker -/

lemma OwnProgress.extend (h : OwnProgress admitted members token refused until_ sent cat)
    {p : Job → Bool} (hfiles : cat'.files = cat.files) (hitems : cat'.items = cat.items)
    (hjobs : cat'.jobs = cat.jobs.map fun j => if p j then
      { j with claimExpiresAt := some expires } else j)
    (hp : ∀ j ∈ cat.jobs, p j → j.id ∈ groupJobIds members) (hle : until' ≤ expires)
    (hrest : until' ≤ until_ ∨ ∀ j ∈ cat.jobs, j.id ∈ groupJobIds members → p j) :
    OwnProgress admitted members token refused until' sent cat' := by
  obtain ⟨expiry, hexpiry, hcat⟩ := h.jobs
  -- the Jobs whose lease is longer now
  set extended : JobId → Bool := fun n =>
    admitted.jobs.any fun j => decide (j.id = n) && p (leasedJob token expiry j) with hextended
  have hextended_eq : ∀ j ∈ admitted.jobs, extended j.id = p (leasedJob token expiry j) := by
    intro j hj
    rw [hextended, Bool.eq_iff_iff, any_eq_true]
    constructor
    · rintro ⟨k, hk, hkp⟩
      rw [Bool.and_eq_true, decide_eq_true_eq] at hkp
      rw [← admitted.job_eq_of_id_eq hk hj hkp.1]
      exact hkp.2
    · exact fun hpj => ⟨j, hj, by rw [decide_eq_true rfl, hpj]; rfl⟩
  refine
    { files := hfiles ▸ h.files
      items := hitems.trans h.items
      jobs := ⟨fun n => if n ∈ groupJobIds members ∧ extended n = false then max until' (expiry n)
        else expires, fun n => ?_, ?_⟩ }
  · dsimp only
    split
    · exact le_max_left _ _
    · exact hle
  · rw [hjobs, hcat, map_map]
    refine map_congr_left fun j hj => ?_
    rw [Function.comp_apply]
    by_cases hmem : j.id ∈ groupJobIds members
    · have hleased : leasedJob token expiry j ∈ cat.jobs :=
        hcat ▸ mem_map.mpr ⟨j, hj, if_pos hmem⟩
      rw [if_pos hmem, if_pos hmem]
      cases hpj : p (leasedJob token expiry j) with
      | true =>
          have hlonger : extended j.id ≠ false := by
            rw [hextended_eq j hj, hpj]
            exact Bool.noConfusion
          rw [if_pos rfl, leasedJob, leasedJob, if_neg fun hno => hlonger hno.2]
      | false =>
          have hold : until' ≤ until_ := hrest.resolve_right fun hall => by
            rw [hall _ hleased hmem] at hpj
            cases hpj
          rw [if_neg Bool.false_ne_true, leasedJob, leasedJob,
            if_pos ⟨hmem, (hextended_eq j hj).trans hpj⟩, max_eq_right (hold.trans (hexpiry _))]
    · have hkept : j ∈ cat.jobs := hcat ▸ mem_map.mpr ⟨j, hj, if_neg hmem⟩
      rw [if_neg hmem, if_neg hmem, if_neg fun hpj => hmem (hp j hkept hpj)]

lemma afterCalls_nil (refused : ℕ → Bool) (checkedAt : RowId → Option Stamp) (f : VaultFile) :
    f.afterCalls (goneVersions [] refused) checkedAt = f := by
  have hsame : (f.versions.map fun w => if w.id ∈ goneVersions [] refused then
      { w with
        availability := .purged
        availabilityCheckedAt := checkedAt w.id }
      else w) = f.versions := by
    conv_rhs => rw [← map_id f.versions]
    exact map_congr_left fun w _ => if_neg not_mem_nil
  rw [VaultFile.afterCalls, hsame]

namespace AdmittedGroup

variable (hg : AdmittedGroup cat₀ admitted v g origin requestedAt vault₀ members)

include hg

/-- **A claim** leases the whole group. -/
lemma claimed (token : ℕ) (refused : ℕ → Bool) {lead : JobId} (hlead : lead ∈ groupJobIds members)
    (hdue : requestedAt + deletionDelaySeconds ≤ now) (hle : until_ ≤ expires) :
    (∃ job, admitted.jobs.find? (fun j => j.id = lead && j.action = .cloudPurge) = some job ∧
      job.vaultId = v ∧ job.groupId = some g) ∧
    ∃ cat', claimPurgeGroup admitted lead token now expires = some cat' ∧
      OwnProgress admitted members token refused until_ [] cat' := by
  obtain ⟨m, hm, rfl⟩ := mem_map.mp hlead
  have hcolumns : ∀ m ∈ members, m.job.vaultId = v ∧ m.job.groupId = some g ∧
      m.job.action = .cloudPurge ∧ m.job.status = .pendingDelay ∧ m.job.claimToken = none ∧
        m.job.pendingUntil = some (requestedAt + deletionDelaySeconds) := by
    intro m hm
    rw [hg.job_eq hm]
    exact ⟨rfl, rfl, rfl, rfl, rfl, rfl⟩
  have hfind : admitted.jobs.find? (fun j => j.id = m.job.id && j.action = .cloudPurge) =
      some m.job := by
    cases hfound : admitted.jobs.find? fun j => j.id = m.job.id && j.action = .cloudPurge with
    | none =>
        have hnone := find?_eq_none.mp hfound m.job (hg.job_mem hm)
        simp [(hcolumns m hm).2.2.1] at hnone
    | some j =>
        have hj := find?_some hfound
        simp only [Bool.and_eq_true, decide_eq_true_eq] at hj
        rw [admitted.job_eq_of_id_eq (mem_of_find?_eq_some hfound) (hg.job_mem hm) hj.1]
  refine ⟨⟨m.job, hfind, (hcolumns m hm).1, (hcolumns m hm).2.1⟩, ?_⟩
  have hactive : activePurges admitted v g = members.map PurgeMember.job := by
    have hgroup : purgeGroup admitted v g = members.map PurgeMember.job := by
      rw [purgeGroup, hg.stored.jobs_eq, filter_append]
      rw [filter_eq_nil_iff.mpr, filter_eq_self.mpr, nil_append]
      · intro j hj
        obtain ⟨m, hm, rfl⟩ := mem_map.mp hj
        obtain ⟨hv, hgroup, haction, -⟩ := hcolumns m hm
        simp [hv, hgroup, haction]
      · intro j hj hmem
        simp only [Bool.and_eq_true, decide_eq_true_eq] at hmem
        exact hg.fresh j hj hmem.1.2
    rw [activePurges, hgroup]
    refine filter_eq_self.mpr fun j hj => ?_
    obtain ⟨m, hm, rfl⟩ := mem_map.mp hj
    rw [(hcolumns m hm).2.2.2.1]
    rfl
  have hrunnable : members.map PurgeMember.job ≠ [] ∧ ∀ j ∈ members.map PurgeMember.job,
      j.claimAvailable now ∧ j.purgeRunnable now := by
    refine ⟨fun hnil => hg.nonempty (map_eq_nil_iff.mp hnil), fun j hj => ?_⟩
    obtain ⟨m, hm, rfl⟩ := mem_map.mp hj
    obtain ⟨-, -, -, hstatus, hclaim, hpending⟩ := hcolumns m hm
    have hany : m.job.pendingUntil.any (· ≤ now) :=
      (Option.any_eq_true _ _).mpr ⟨_, hpending, decide_eq_true hdue⟩
    refine ⟨?_, ?_⟩
    · rw [Job.claimAvailable, hclaim]
      rfl
    · rw [Job.purgeRunnable, hany, hstatus]
      rfl
  have hids : (members.map PurgeMember.job).map Job.id = groupJobIds members := by
    rw [map_map]
    rfl
  simp only [claimPurgeGroup, hfind, Option.bind_eq_bind, Option.bind_some, (hcolumns m hm).2.1,
    (hcolumns m hm).1, hactive, guard, if_pos hrunnable, pure, hids]
  refine ⟨_, rfl, ?_⟩
  exact
    { files := by
        refine ⟨fun _ => none, ?_⟩
        conv_lhs => rw [show (Catalog.mapJobs admitted _ _).files = admitted.files from rfl]
        conv_lhs => rw [← map_id admitted.files]
        exact map_congr_left fun f _ => (afterCalls_nil refused _ f).symm
      jobs := ⟨fun _ => expires, fun _ => hle, rfl⟩
      items := by
        conv_lhs => rw [show (Catalog.mapJobs admitted _ _).items = admitted.items from rfl]
        conv_lhs => rw [← map_id admitted.items]
        exact map_congr_left fun i _ => (if_neg not_mem_nil).symm }

section

variable (h : OwnProgress admitted members token refused until_ sent cat)

include h

omit hg in
lemma beaten {lead : JobId} (hlead : lead ∈ groupJobIds members) (hle : until_ ≤ expires) :
    OwnProgress admitted members token refused until_ sent
      (renewJobClaim cat lead token now expires) := by
  refine h.extend (p := fun j => decide (j.id = lead ∧ j.ownedBy token now)) rfl rfl ?_
    (fun j _ hj => (of_decide_eq_true hj).1 ▸ hlead) hle (.inl le_rfl)
  exact map_congr_left fun j _ => by simp only [decide_eq_true_eq]

/-- **A renewal** in time finds exactly the Jobs of the group. -/
lemma renewed (hnow : now < until_) (expires : Stamp) :
    ∃ cat', renewPurgeGroupClaim cat v g token (groupJobIds members) now expires = some cat' ∧
      OwnProgress admitted members token refused expires sent cat' := by
  obtain ⟨expiry, hexpiry, hjobs⟩ := hg.jobs_eq h
  have hclaimed : ∀ m ∈ members,
      (leasedJob token expiry m.job).purgeClaimed v g token now := by
    intro m hm
    obtain ⟨hv, hgroup, haction, -⟩ := hg.leased_columns hm token expiry
    exact Job.purgeClaimed_iff.mpr ⟨hv, hgroup, haction, rfl, rfl, expiry m.job.id, rfl,
      hnow.trans_le (hexpiry _)⟩
  have hold : ∀ j ∈ cat₀.jobs, ¬j.purgeClaimed v g token now := fun j hj hclaim =>
    hg.fresh j hj (Job.purgeClaimed_iff.mp hclaim).2.1
  have hrenewed : (cat.jobs.filter (Job.purgeClaimed v g token now)).map Job.id =
      groupJobIds members := by
    rw [hjobs, filter_append, filter_eq_nil_iff.mpr hold, nil_append,
      filter_eq_self.mpr, map_map]
    · rfl
    · intro j hj
      obtain ⟨m, hm, rfl⟩ := mem_map.mp hj
      exact hclaimed m hm
  have hgroup : ∀ j ∈ cat.jobs, (j.purgeClaimed v g token now ↔
      j.id ∈ groupJobIds members) := by
    intro j hj
    rw [← hrenewed]
    constructor
    · exact fun hclaim => mem_map_of_mem (mem_filter.mpr ⟨hj, hclaim⟩)
    · intro hmem
      obtain ⟨k, hk, hid⟩ := mem_map.mp hmem
      obtain ⟨hk, hclaim⟩ := mem_filter.mp hk
      rwa [← cat.job_eq_of_id_eq hk hj hid]
  have hrenew : renewPurgeGroupClaim cat v g token (groupJobIds members) now expires =
      some (cat.mapJobs (fun j => if j.purgeClaimed v g token now then
        { j with claimExpiresAt := some expires } else j) fun j => by split <;> rfl) := by
    rw [renewPurgeGroupClaim, hrenewed]
    exact if_pos ⟨fun _ h => h, fun _ h => h⟩
  exact ⟨_, hrenew, h.extend (p := Job.purgeClaimed v g token now) rfl rfl rfl
    (fun j hj => (hgroup j hj).mp) le_rfl (.inr fun j hj => (hgroup j hj).mpr)⟩

end

omit hg in
/-- The results of a batch, on one item. -/
lemma resulted_append (i : DeletionItem) :
    (fun i : DeletionItem => if i.id ∈ failedIds refused batch then
        { i with status := .failed } else i)
      ((fun i : DeletionItem => if i.id ∈ deletedIds refused batch
        then { i with status := .deleted } else i) (resulted sent refused i)) =
      resulted (sent ++ batch) refused i := by
  have hmem : ∀ (b : Bool) (n : ℕ),
      n ∈ (batch.filter fun i => refused i.id == b).map DeletionItem.id ↔
        n ∈ batch.map DeletionItem.id ∧ refused n = b := by
    intro b n
    simp only [mem_map, mem_filter, beq_iff_eq]
    constructor
    · rintro ⟨i, ⟨hi, hr⟩, rfl⟩
      exact ⟨⟨i, hi, rfl⟩, hr⟩
    · rintro ⟨⟨i, hi, rfl⟩, hr⟩
      exact ⟨i, ⟨hi, hr⟩, rfl⟩
  have hfailed := hmem true
  have hdeleted := hmem false
  simp only [beq_true, beq_false] at hfailed hdeleted
  have hid : (resulted sent refused i).id = i.id := by
    unfold resulted
    split <;> rfl
  simp only [hfailed, hdeleted, apply_ite DeletionItem.id, ite_self, hid]
  rw [resulted, resulted, map_append]
  by_cases hbatch : i.id ∈ batch.map DeletionItem.id <;>
    by_cases hsent : i.id ∈ sent.map DeletionItem.id <;>
      cases hrefused : refused i.id <;> simp [hbatch, hsent]

/-- The versions a result purges are those of the items. -/
lemma mem_recorded (h : OwnProgress admitted members token refused until_ sent cat)
    (hbatch : ∀ i ∈ batch, i ∈ groupItems members) (id : RowId) :
    id ∈ (cat.items.filter fun i => decide (i.id ∈
        deletedIds refused batch) &&
          decide (i.kind = .version)).filterMap DeletionItem.archiveVersionId ↔
      id ∈ goneVersions batch refused := by
  have hcolumns : ∀ i, (resulted sent refused i).id = i.id ∧
      (resulted sent refused i).kind = i.kind ∧
      (resulted sent refused i).archiveVersionId = i.archiveVersionId := by
    intro i
    unfold resulted
    split <;> exact ⟨rfl, rfl, rfl⟩
  rw [mem_goneVersions]
  simp only [mem_filterMap, mem_filter, Bool.and_eq_true, decide_eq_true_eq,
    mem_map, Bool.not_eq_true']
  constructor
  · rintro ⟨i', ⟨hi', ⟨b, ⟨hb, hrefused⟩, hid⟩, -⟩, hversion⟩
    rw [h.items, hg.stored.items_eq] at hi'
    obtain ⟨i, hi, rfl⟩ := mem_map.mp hi'
    rw [(hcolumns i).1] at hid
    rw [(hcolumns i).2.2] at hversion
    rcases mem_append.mp hi with hi | hi
    · exact absurd (hid ▸ mem_map_of_mem hi) (hg.stored.items_new b (hbatch b hb))
    · obtain rfl := hg.eq_of_item_id (hbatch b hb) hi hid
      exact ⟨b, hb, hrefused, hversion⟩
  · rintro ⟨b, hb, hrefused, hversion⟩
    refine ⟨resulted sent refused b, ⟨?_, ⟨b, ⟨hb, hrefused⟩, (hcolumns b).1.symm⟩, ?_⟩,
      (hcolumns b).2.2.trans hversion⟩
    · rw [h.items, hg.stored.items_eq]
      exact mem_map_of_mem (mem_append_right _ (hbatch b hb))
    · obtain ⟨m, hm, hmb⟩ := exists_member (hbatch b hb)
      obtain ⟨t, -, hit⟩ := (hg.stored.admitted m hm).target_of_item hmb
      rw [(hcolumns b).2.1]
      rw [hit] at hversion ⊢
      by_contra hkind
      simp [purgeItem, show t.kind ≠ .version from hkind] at hversion

/-- **The results of a batch.** -/
lemma recorded (h : OwnProgress admitted members token refused until_ sent cat)
    (hbatch : ∀ i ∈ batch, i ∈ groupItems members) (at_ : Stamp) :
    OwnProgress admitted members token refused until_ (sent ++ batch)
      (markItemsFailed
        (markItemsDeleted cat (deletedIds refused batch) at_)
        (failedIds refused batch)) := by
  obtain ⟨checkedAt, hfiles⟩ := h.files
  have hgone : ∀ id, id ∈ goneVersions (sent ++ batch) refused ↔
      id ∈ goneVersions sent refused ∨ id ∈ goneVersions batch refused := by
    intro id
    simp only [goneVersions, filter_append, filterMap_append, mem_append]
  refine
    { files := ⟨fun id => if id ∈ goneVersions batch refused then some at_ else checkedAt id, ?_⟩
      jobs := h.jobs
      items := ?_ }
  · rw [show (markItemsFailed (markItemsDeleted cat _ at_) _).files = cat.files.map _ from rfl,
      hfiles, map_map]
    refine map_congr_left fun f _ => ?_
    have hversions : ((f.afterCalls (goneVersions sent refused) checkedAt).versions.map fun w =>
        if w.id ∈ (cat.items.filter fun i => decide (i.id ∈
            deletedIds refused batch) &&
              decide (i.kind = .version)).filterMap DeletionItem.archiveVersionId then
          { w with
            availability := .purged
            availabilityCheckedAt := some at_ }
        else w) = (f.afterCalls (goneVersions (sent ++ batch) refused) fun id =>
          if id ∈ goneVersions batch refused then some at_ else checkedAt id).versions := by
      simp only [VaultFile.afterCalls, map_map]
      refine map_congr_left fun w _ => ?_
      simp only [Function.comp_apply, hg.mem_recorded h hbatch, hgone]
      by_cases hold : w.id ∈ goneVersions sent refused <;>
        by_cases hnew : w.id ∈ goneVersions batch refused <;> simp [hold, hnew]
    rw [Function.comp_apply]
    exact congrArg (fun ws => { f with versions := ws }) hversions
  · rw [show (markItemsFailed (markItemsDeleted cat _ at_) _).items =
      (cat.items.map _).map _ from rfl, h.items, map_map, map_map]
    exact map_congr_left fun i _ => resulted_append i

end AdmittedGroup

/-! ### The outcomes -/

/-- The status `finalize_purge_job` writes for a Job. -/
def purgeOutcome (cat : Catalog) (job : JobId) : JobStatus :=
  if purgeCompleted cat job then .completed else .failed

lemma exists_finalizePurgeJob {job : JobId} (hjob : job ∈ cat.jobs.map Job.id) (file : FileId) :
    ∃ done, finalizePurgeJob cat job file = some done ∧ done.items = cat.items ∧
      done.jobs = cat.jobs.map (finalJob cat job) := by
  obtain ⟨j, hj, hid⟩ := mem_map.mp hjob
  have hknown : (cat.jobs.any fun j => decide (j.id = job)) :=
    any_eq_true.mpr ⟨j, hj, decide_eq_true hid⟩
  have hsome : (finalizePurgeJob cat job file).isSome := by
    simp only [finalizePurgeJob, guard, hknown, if_true, Option.bind_eq_bind]
    rw [show (pure () : Option Unit) = some () from rfl, Option.bind_some]
    split <;> rfl
  obtain ⟨done, hdone⟩ := Option.isSome_iff_exists.mp hsome
  have hr := (rewrites_finalizePurgeJob hdone).2
  exact ⟨done, hdone, hr.items.trans (map_id _), hr.jobs⟩

/-- **The loop over the outcomes** gives each Job its own. -/
lemma exists_finalizeAll (expected : List (JobId × FileId)) (cat : Catalog)
    (hknown : ∀ n ∈ expected.map Prod.fst, n ∈ cat.jobs.map Job.id) :
    ∃ done, expected.foldlM (fun cat j => finalizePurgeJob cat j.1 j.2) cat = some done ∧
      done.items = cat.items ∧ done.jobs = cat.jobs.map fun j =>
        if j.id ∈ expected.map Prod.fst then { j with status := purgeOutcome cat j.id } else j := by
  induction expected generalizing cat with
  | nil => exact ⟨cat, rfl, rfl, by simp⟩
  | cons e expected ih =>
      obtain ⟨mid, hmid, hitems, hjobs⟩ := exists_finalizePurgeJob
        (hknown e.1 mem_cons_self) e.2
      have hids : mid.jobs.map Job.id = cat.jobs.map Job.id := by
        rw [hjobs, map_map]
        refine map_congr_left fun j _ => ?_
        simp only [Function.comp_apply, finalJob]
        split <;> rfl
      obtain ⟨done, hdone, hitems', hjobs'⟩ := ih mid fun n hn =>
        hids ▸ hknown n (mem_cons_of_mem _ hn)
      refine ⟨done, ?_, hitems'.trans hitems, ?_⟩
      · rw [foldlM_cons, Option.bind_eq_bind, hmid, Option.bind_some, hdone]
      · have houtcome : ∀ n, purgeOutcome mid n = purgeOutcome cat n := by
          intro n
          have hcompleted : purgeCompleted mid n = purgeCompleted cat n := by
            rw [purgeCompleted, purgeCompleted, hitems]
          rw [purgeOutcome, purgeOutcome, hcompleted]
        rw [hjobs', hjobs, map_map]
        refine map_congr_left fun j _ => ?_
        rw [Function.comp_apply, map_cons]
        by_cases hfirst : j.id = e.1
        · have hfinal : finalJob cat e.1 j = { j with status := purgeOutcome cat e.1 } :=
            if_pos hfirst
          rw [hfinal, hfirst, if_pos mem_cons_self, houtcome]
          split <;> rfl
        · have hfinal : finalJob cat e.1 j = j := if_neg hfirst
          rw [hfinal, houtcome]
          simp only [mem_cons, hfirst, false_or]

namespace AdmittedGroup

variable (hg : AdmittedGroup cat₀ admitted v g origin requestedAt vault₀ members)

include hg

/-- A Job is completed exactly if none of its items was refused. -/
lemma purgeCompleted_iff (h : OwnProgress admitted members token refused until_ sent cat)
    (hall : ∀ i ∈ groupItems members, i ∈ sent) {m : PurgeMember} (hm : m ∈ members) :
    purgeCompleted cat m.job.id ↔ ∀ i ∈ m.items, refused i.id = false := by
  have hitems := hg.mem_items_iff h hm
  have hresult : ∀ i ∈ m.items, (resulted sent refused i).status =
      if refused i.id then .failed else .deleted := by
    intro i hi
    have hmem := hall i (mem_flatMap.mpr ⟨m, hm, hi⟩)
    rw [resulted, if_pos (mem_map_of_mem hmem)]
  simp only [purgeCompleted, Bool.and_eq_true, decide_eq_true_eq, all_eq_true]
  constructor
  · rintro ⟨-, hdeleted⟩ i hi
    have hstatus := hdeleted _ ((hitems _).mpr ⟨i, hi, rfl⟩)
    rw [hresult i hi] at hstatus
    cases hrefused : refused i.id with
    | false => rfl
    | true => simp [hrefused] at hstatus
  · intro hkept
    refine ⟨?_, fun i' hi' => ?_⟩
    · obtain ⟨i, hi⟩ := exists_mem_of_ne_nil _ (hg.items_ne_nil hm)
      exact ne_nil_of_mem ((hitems _).mpr ⟨i, hi, rfl⟩)
    · obtain ⟨i, hi, rfl⟩ := (hitems i').mp hi'
      rw [hresult i hi, hkept i hi]
      rfl

/-- **The end of the group**: its Jobs are terminal. -/
lemma finished (h : OwnProgress admitted members token refused until_ sent cat)
    (hall : ∀ i ∈ groupItems members, i ∈ sent) :
    ∃ done, finalizePurgeGroup cat (groupRows members) = some done ∧
      OneActiveFile done ∧ done.items = cat.items ∧
      (done.jobs.drop cat₀.jobs.length).map (fun j => (j.id, j.status)) = members.map fun m =>
        (m.job.id, if ∀ i ∈ m.items, refused i.id = false then .completed else .failed) := by
  obtain ⟨expiry, -, hjobs⟩ := hg.jobs_eq h
  have hids : (groupRows members).map Prod.fst =
      groupJobIds members := by
    rw [map_map]
    rfl
  obtain ⟨done, hdone, hitems, hdoneJobs⟩ := exists_finalizeAll
    (groupRows members) cat fun n hn => by
      rw [hids] at hn
      obtain ⟨m, hm, rfl⟩ := mem_map.mp hn
      rw [hjobs, map_append, map_map]
      exact mem_append_right _ (mem_map.mpr ⟨m, hm, rfl⟩)
  rw [hids] at hdoneJobs
  have hgroup : finalizePurgeGroup cat (groupRows members) =
      some (done.mapJobs (fun j => if j.id ∈ groupJobIds members ∧ j.status.terminal = true then
          { j with
            claimToken := none
            claimExpiresAt := none }
        else j) fun j => by split <;> rfl) := by
    simp only [finalizePurgeGroup, hdone, hids, Option.bind_eq_bind, Option.bind_some]
  have hjobs' := congrArg (List.map fun j : Job =>
    if j.id ∈ groupJobIds members ∧ j.status.terminal = true then
      { j with
        claimToken := none
        claimExpiresAt := none }
    else j) hdoneJobs
  rw [map_map] at hjobs'
  refine ⟨_, hgroup, ?_, hitems, ?_⟩
  · refine (hg.oneActiveFile_of_progress h).of_map hjobs' fun j _ => ?_
    simp only [Function.comp_apply]
    by_cases hmem : j.id ∈ groupJobIds members
    · have hterminal : (purgeOutcome cat j.id).terminal := by
        unfold purgeOutcome
        split <;> rfl
      simp [hmem, hterminal]
    · simp [hmem]
  · refine (congrArg (fun js => (js.drop cat₀.jobs.length).map fun j : Job => (j.id, j.status))
      hjobs').trans ?_
    rw [hjobs, map_append, drop_left' (by simp), map_map, map_map]
    refine map_congr_left fun m hm => ?_
    have hmem : (leasedJob token expiry m.job).id ∈ groupJobIds members :=
      mem_map.mpr ⟨m, hm, rfl⟩
    have houtcome : purgeOutcome cat m.job.id =
        if ∀ i ∈ m.items, refused i.id = false then .completed else .failed :=
      if_congr (hg.purgeCompleted_iff h hall hm) rfl rfl
    rw [Function.comp_apply, Function.comp_apply, Function.comp_apply, if_pos hmem, ← houtcome]
    split <;> rfl

end AdmittedGroup

end Transactions

/-! ### One worker from its claim to its end -/

/-- A heartbeat: its time and the lease it writes. -/
structure Beat where
  now : Stamp
  expires : Stamp

/-- Heartbeats of a worker. -/
def beats (token : ℕ) (bs : List Beat) : List DeletionAct :=
  bs.map fun b => .heartbeat token b.now b.expires

/-- The times of a batch, and the answer of the provider. -/
structure PurgeRound where
  idle : List Beat
  /-- The time `validate_execution` compares with. -/
  at_ : Stamp
  renewedAt : Stamp
  renewedUntil : Stamp
  answer : DeleteAnswer
  inFlight : List Beat
  returnedAt : Stamp
  recordedAt : Stamp
  recordedUntil : Stamp

/-- One round of the loop over the batches. -/
def PurgeRound.acts (token : ℕ) (vaults : VaultTable) (r : PurgeRound) : List DeletionAct :=
  beats token r.idle ++
    .authorise token vaults r.at_ r.renewedAt r.renewedUntil :: .send token r.answer ::
      (beats token r.inFlight ++ [.record token r.returnedAt r.recordedAt r.recordedUntil])

/-- The worker of a claim, up to its last transaction. -/
structure PurgeSession where
  token : ℕ
  lead : JobId
  claimedAt : Stamp
  claimedUntil : Stamp
  started : List Beat
  loadedAt : Stamp
  rounds : List PurgeRound
  idle : List Beat
  finishedAt : Stamp
  finishedUntil : Stamp

/-- `process_cloud_purge`: the claim, the first transaction, the batches, the outcomes. -/
def PurgeSession.acts (s : PurgeSession) (vaults : VaultTable) : List DeletionAct :=
  .claim s.lead s.token s.claimedAt s.claimedUntil :: (beats s.token s.started ++
    .load s.token vaults s.loadedAt :: (s.rounds.flatMap (PurgeRound.acts s.token vaults) ++
      (beats s.token s.idle ++ [.finish s.token s.finishedAt s.finishedUntil])))

/-- The delay is over, and the lease is renewed before it ends. -/
structure PurgeRound.InTime (due until_ : Stamp) (r : PurgeRound) : Prop where
  idle : ∀ b ∈ r.idle, until_ ≤ b.expires
  elapsed : due ≤ r.at_
  renewed : r.renewedAt < until_
  inFlight : ∀ b ∈ r.inFlight, r.renewedUntil ≤ b.expires
  recorded : r.recordedAt < r.renewedUntil

/-- Every round is in time. -/
def RoundsInTime (due : Stamp) : Stamp → List PurgeRound → Prop
  | _, [] => True
  | until_, r :: rs => r.InTime due until_ ∧ RoundsInTime due r.recordedUntil rs

/-- The lease after the rounds. -/
def leaseAfter : Stamp → List PurgeRound → Stamp
  | until_, [] => until_
  | _, r :: rs => leaseAfter r.recordedUntil rs

/-- The worker starts when the delay is over and never loses its lease. -/
structure PurgeSession.InTime (s : PurgeSession) (due : Stamp) : Prop where
  claimed : due ≤ s.claimedAt
  started : ∀ b ∈ s.started, s.claimedUntil ≤ b.expires
  elapsed : due ≤ s.loadedAt
  loaded : s.loadedAt < s.claimedUntil
  rounds : RoundsInTime due s.claimedUntil s.rounds
  idle : ∀ b ∈ s.idle, leaseAfter s.claimedUntil s.rounds ≤ b.expires
  finished : s.finishedAt < leaseAfter s.claimedUntil s.rounds

/-- What the history shows of a batch: an accepted validation, and the call. -/
def PurgeEvent.call? : PurgeEvent → Option (Option (List DeletionItem))
  | .admitted .. => none
  | .validated _ => some none
  | .deleteObjects _ _ _ batch => some (some batch)

/-- The batches of an admitted group. -/
def purgeBatches (cat admitted : Catalog) : List (List DeletionItem) :=
  chunked (admitted.items.drop cat.items.length) cloudDeleteBatchSize

/-- The group is settled by the answers: every batch was validated and sent, every item has the
result of its call, and a Job is completed exactly if none of its items was refused. -/
structure SettledBy (cat admitted : Catalog) (refused : ℕ → Bool) (w : PurgeWorld) : Prop where
  accepted : w.log.filterMap PurgeEvent.call? =
    (purgeBatches cat admitted).flatMap fun b => [none, some b]
  items : w.cat.items.drop cat.items.length =
    (admitted.items.drop cat.items.length).map fun i =>
      { i with status := if refused i.id then .failed else .deleted }
  jobs : (w.cat.jobs.drop cat.jobs.length).map (fun j => (j.id, j.status)) =
    (admitted.jobs.drop cat.jobs.length).map fun j => (j.id,
      if ∀ i ∈ admitted.items.drop cat.items.length, i.jobId = j.id → refused i.id = false then
        .completed else .failed)

section Session

variable {cat₀ admitted : Catalog} {v : VaultId} {g : GroupId} {origin : JobOrigin}
  {requestedAt : Stamp} {vault₀ vault : VaultView} {vaults : VaultTable}
  {members : List PurgeMember} {token : ℕ} {lead : JobId} {refused : ℕ → Bool}
  {until_ : Stamp} {sent batch : List DeletionItem} {phase : PurgePhase}
  {calls : List (Option (List DeletionItem))} {w : PurgeWorld}

/-- The worker stands at a point, with these calls behind it. -/
structure AtWork (admitted : Catalog) (members : List PurgeMember) (v : VaultId) (g : GroupId)
    (token : ℕ) (lead : JobId) (refused : ℕ → Bool) (until_ : Stamp) (sent : List DeletionItem)
    (calls : List (Option (List DeletionItem))) (phase : PurgePhase) (w : PurgeWorld) : Prop where
  progress : OwnProgress admitted members token refused until_ sent w.cat
  workers : w.workers = [⟨token, lead, v, g, phase⟩]
  calls : w.log.filterMap PurgeEvent.call? = calls

section

variable (h : AtWork admitted members v g token lead refused until_ sent calls phase w)

include h

lemma AtWork.worker?_eq : w.worker? token = some ⟨token, lead, v, g, phase⟩ := by
  rw [worker?, h.workers]
  exact find?_cons_of_pos (decide_eq_true rfl)

lemma AtWork.without_eq : w.without token = [] := by
  rw [without, h.workers]
  simp

lemma AtWork.replaced_eq (p : PurgePhase) :
    w.replaced ⟨token, lead, v, g, p⟩ = [⟨token, lead, v, g, p⟩] := by
  rw [replaced, h.without_eq]

end

variable {batches : List (List DeletionItem)}

namespace AdmittedGroup

variable (hg : AdmittedGroup cat₀ admitted v g origin requestedAt vault₀ members)

include hg

lemma step_of_act {w' : PurgeWorld} {a : DeletionAct} (hact : w.act a = some w')
    (h : OwnProgress admitted members token refused until_ sent w'.cat) :
    deletionStep w a = some w' :=
  deletionStep_eq_some.mpr ⟨hact, hg.oneActiveFile_of_progress h⟩

lemma beats_run (hlead : lead ∈ groupJobIds members) {bs : List Beat}
    (hbs : ∀ b ∈ bs, until_ ≤ b.expires)
    (h : AtWork admitted members v g token lead refused until_ sent calls phase w) :
    ∃ u, run deletionStep w (beats token bs) = some u ∧
      AtWork admitted members v g token lead refused until_ sent calls phase u := by
  induction bs generalizing w with
  | nil => exact ⟨w, rfl, h⟩
  | cons b bs ih =>
      have hprogress : OwnProgress admitted members token refused until_ sent
          (renewJobClaim w.cat lead token b.now b.expires) :=
        beaten h.progress hlead (hbs b mem_cons_self)
      have hact : w.act (.heartbeat token b.now b.expires) =
          some { w with cat := renewJobClaim w.cat lead token b.now b.expires } := by
        rw [act, h.worker?_eq, Option.map_some]
      obtain ⟨u, hu, hat⟩ := ih (fun b hb => hbs b (mem_cons_of_mem _ hb))
        (w := { w with cat := renewJobClaim w.cat lead token b.now b.expires })
        ⟨hprogress, h.workers, h.calls⟩
      exact ⟨u, run_cons_eq_some.mpr ⟨_, hg.step_of_act hact hprogress, hu⟩, hat⟩

omit hg in
lemma map_expected : (groupRows members).map Prod.fst =
    groupJobIds members := by
  rw [map_map]
  rfl

lemma send_run {expected : List (JobId × FileId)}
    (h : AtWork admitted members v g token lead refused until_ sent calls
      (.authorised expected batch batches) w) {answer : DeleteAnswer}
    (hanswer : ∀ i ∈ batch, answer.fails i = refused i.id) :
    ∃ u, deletionStep w (.send token answer) = some u ∧
      AtWork admitted members v g token lead refused until_ sent (calls ++ [some batch])
        (.answered expected (deletedIds refused batch)
          (failedIds refused batch) batches) u := by
  have hdeleted : batch.filter (fun i => !answer.fails i) =
      batch.filter fun i => !refused i.id :=
    filter_congr fun i hi => by rw [hanswer i hi]
  have hfailed : batch.filter (fun i => answer.fails i) = batch.filter fun i => refused i.id :=
    filter_congr hanswer
  have hact : w.act (.send token answer) = some
      { w with
        workers := [⟨token, lead, v, g, .answered expected
          (deletedIds refused batch)
          (failedIds refused batch) batches⟩]
        log := w.log ++ [.deleteObjects token v g batch] } := by
    simp only [act, h.worker?_eq, Option.bind_some, PurgeWorld.send, hdeleted, hfailed,
      h.replaced_eq]
  refine ⟨_, hg.step_of_act hact h.progress, h.progress, rfl, ?_⟩
  rw [filterMap_append, h.calls]
  rfl

/-- The transaction after a batch keeps the results. -/
lemma record_run (hbatch : ∀ i ∈ batch, i ∈ groupItems members)
    (h : AtWork admitted members v g token lead refused until_ sent calls
      (.answered (groupRows members)
        (deletedIds refused batch)
        (failedIds refused batch) batches) w)
    {now : Stamp} (returnedAt expires : Stamp) (hnow : now < until_) :
    ∃ u, deletionStep w (.record token returnedAt now expires) = some u ∧
      AtWork admitted members v g token lead refused expires (sent ++ batch) calls
        (.between (groupRows members) batches) u := by
  obtain ⟨after, hrenew, hprogress⟩ := hg.renewed h.progress hnow expires
  have hrecorded := hg.recorded hprogress hbatch returnedAt
  have hact : w.act (.record token returnedAt now expires) = some
      { w with
        cat := markItemsFailed
          (markItemsDeleted after (deletedIds refused batch)
            returnedAt)
          (failedIds refused batch)
        workers := [⟨token, lead, v, g,
          .between (groupRows members) batches⟩] } := by
    simp only [act, h.worker?_eq, Option.bind_some, record, map_expected,
      hrenew, Option.bind_eq_bind, h.replaced_eq]
  exact ⟨_, hg.step_of_act hact hrecorded, hrecorded, rfl, h.calls⟩

section Loop

variable (hvault : vaults v = some vault) (hforce : StillInForce vault₀ vault g origin)

include hvault hforce

/-- **The transaction before a batch**, while the group is still authorised. -/
lemma authorise_run (hsent : ∀ i ∈ sent, i ∈ groupItems members)
    (h : AtWork admitted members v g token lead refused until_ sent calls
      (.between (groupRows members) (batch :: batches)) w)
    {at_ now : Stamp} (expires : Stamp) (hdue : requestedAt + deletionDelaySeconds ≤ at_)
    (hnow : now < until_)
    (hstays : StayCloudOnly members refused sent) :
    ∃ u, deletionStep w (.authorise token vaults at_ now expires) = some u ∧
      AtWork admitted members v g token lead refused expires sent (calls ++ [none])
        (.authorised (groupRows members) batch batches) u := by
  have hauth := (hg.executionAuthorised_iff h.progress hforce hsent hdue).mpr hstays
  obtain ⟨after, hrenew, hprogress⟩ := hg.renewed h.progress hnow expires
  have hvalid : validateExecution vaults w.cat v g at_ = some (w.cat, true) := by
    simp only [validateExecution, hvault, Option.bind_eq_bind, Option.bind_some, hauth, if_true]
  have hact : w.act (.authorise token vaults at_ now expires) = some
      { cat := after
        workers := [⟨token, lead, v, g,
          .authorised (groupRows members) batch batches⟩]
        log := w.log ++ [.validated ⟨token, v, g, vault,
          groupRows members, at_, expires, w.cat, after⟩] } := by
    simp only [act, h.worker?_eq, Option.bind_some, authorise, hvault,
      hvalid, Option.bind_eq_bind, if_true, map_expected, hrenew, h.replaced_eq]
  refine ⟨_, hg.step_of_act hact hprogress, hprogress, rfl, ?_⟩
  rw [filterMap_append, h.calls]
  rfl

/-- A consent that is revoked ends the worker. -/
lemma authorise_revoked (hsent : ∀ i ∈ sent, i ∈ groupItems members)
    (h : AtWork admitted members v g token lead refused until_ sent calls
      (.between (groupRows members) (batch :: batches)) w)
    {at_ : Stamp} (now expires : Stamp) (hdue : requestedAt + deletionDelaySeconds ≤ at_)
    (hstays : ¬StayCloudOnly members refused sent) :
    ∃ u, deletionStep w (.authorise token vaults at_ now expires) = some u ∧
      u.cat = cancelRows w.cat (activePurges w.cat v g) ∧ u.workers = [] := by
  have hauth : ¬executionAuthorised vault w.cat v g at_ := fun hauth =>
    hstays ((hg.executionAuthorised_iff h.progress hforce hsent hdue).mp hauth)
  have hvalid : validateExecution vaults w.cat v g at_ =
      some (cancelRows w.cat (activePurges w.cat v g), false) := by
    simp only [validateExecution, hvault, Option.bind_eq_bind, Option.bind_some, hauth,
      Bool.false_eq_true, if_false]
  have hact : w.act (.authorise token vaults at_ now expires) = some
      { w with
        cat := cancelRows w.cat (activePurges w.cat v g)
        workers := [] } := by
    simp only [act, h.worker?_eq, Option.bind_some, authorise, hvault,
      hvalid, Option.bind_eq_bind, Bool.false_eq_true, if_false, h.without_eq]
  refine ⟨_, deletionStep_eq_some.mpr ⟨hact, ?_⟩, rfl, rfl⟩
  exact oneActiveFile_cancel (hg.oneActiveFile_of_progress h.progress)
    (rewrites_cancelRows w.cat _).jobs

/-! ### The loop over the batches -/

variable (hlead : lead ∈ groupJobIds members)

include hlead

/-- **A batch is validated, sent and recorded** while the group is still authorised. -/
lemma round_run (hsent : ∀ i ∈ sent, i ∈ groupItems members)
    (hbatch : ∀ i ∈ batch, i ∈ groupItems members)
    (h : AtWork admitted members v g token lead refused until_ sent calls
      (.between (groupRows members) (batch :: batches)) w)
    {r : PurgeRound} (hr : r.InTime (requestedAt + deletionDelaySeconds) until_)
    (hanswer : ∀ i ∈ batch, r.answer.fails i = refused i.id)
    (hstays : StayCloudOnly members refused sent) :
    ∃ u, run deletionStep w (r.acts token vaults) = some u ∧
      AtWork admitted members v g token lead refused r.recordedUntil (sent ++ batch)
        (calls ++ [none, some batch])
        (.between (groupRows members) batches) u := by
  obtain ⟨w₁, hw₁, h₁⟩ := hg.beats_run hlead hr.idle h
  obtain ⟨w₂, hw₂, h₂⟩ := hg.authorise_run hvault hforce hsent h₁ r.renewedUntil
    hr.elapsed hr.renewed hstays
  obtain ⟨w₃, hw₃, h₃⟩ := hg.send_run h₂ hanswer
  obtain ⟨w₄, hw₄, h₄⟩ := hg.beats_run hlead hr.inFlight h₃
  obtain ⟨w₅, hw₅, h₅⟩ := hg.record_run hbatch h₄ r.returnedAt r.recordedUntil hr.recorded
  refine ⟨w₅, ?_, ?_⟩
  · rw [PurgeRound.acts, run_append]
    refine ⟨w₁, hw₁, run_cons_eq_some.mpr ⟨w₂, hw₂, run_cons_eq_some.mpr ⟨w₃, hw₃, ?_⟩⟩⟩
    exact run_append.mpr ⟨w₄, hw₄, run_cons_eq_some.mpr ⟨w₅, hw₅, rfl⟩⟩
  · rwa [append_assoc] at h₅

/-- A worker whose consent is revoked sends nothing more. -/
lemma round_revoked (hsent : ∀ i ∈ sent, i ∈ groupItems members)
    (h : AtWork admitted members v g token lead refused until_ sent calls
      (.between (groupRows members) (batch :: batches)) w)
    {r : PurgeRound} (hr : r.InTime (requestedAt + deletionDelaySeconds) until_)
    (hstays : ¬StayCloudOnly members refused sent)
    (u : PurgeWorld) : run deletionStep w (r.acts token vaults) ≠ some u := by
  intro hrun
  obtain ⟨w₁, hw₁, h₁⟩ := hg.beats_run hlead hr.idle h
  obtain ⟨w₂, hw₂, -, hidle⟩ := hg.authorise_revoked hvault hforce hsent h₁ r.renewedAt
    r.renewedUntil hr.elapsed hstays
  rw [PurgeRound.acts, run_append] at hrun
  obtain ⟨w₁', hw₁', hrun⟩ := hrun
  cases hw₁.symm.trans hw₁'
  obtain ⟨w₂', hw₂', hrun⟩ := run_cons_eq_some.mp hrun
  cases hw₂.symm.trans hw₂'
  obtain ⟨w₃, hw₃, -⟩ := run_cons_eq_some.mp hrun
  -- nobody is left to make the call
  have hact := (deletionStep_eq_some.mp hw₃).1
  simp [act, worker?, hidle] at hact

section Rounds

variable (hsent : ∀ i ∈ sent, i ∈ groupItems members)
  (hbatches : ∀ b ∈ batches, ∀ i ∈ b, i ∈ groupItems members) {rounds : List PurgeRound}
  (hanswers : List.Forall₂ (fun b r => ∀ i ∈ b, r.answer.fails i = refused i.id) batches rounds)
  (htime : RoundsInTime (requestedAt + deletionDelaySeconds) until_ rounds)
  (h : AtWork admitted members v g token lead refused until_ sent calls
    (.between (groupRows members) batches) w)

include hsent hbatches hanswers htime h

/-- **The loop**: every batch is sent, if the files stay Cloud-only before each of them. -/
lemma rounds_run (hstays : ∀ k < batches.length,
      StayCloudOnly members refused (sent ++ (batches.take k).flatten)) :
    ∃ u, run deletionStep w (rounds.flatMap (PurgeRound.acts token vaults)) = some u ∧
      AtWork admitted members v g token lead refused (leaseAfter until_ rounds)
        (sent ++ batches.flatten) (calls ++ batches.flatMap fun b => [none, some b])
        (.between (groupRows members) []) u := by
  induction hanswers generalizing w sent calls until_ with
  | nil =>
      refine ⟨w, rfl, ?_⟩
      simpa [leaseAfter] using h
  | @cons batch r batches rounds hanswer _ ih =>
      have hbatch := hbatches batch mem_cons_self
      have hnow : StayCloudOnly members refused sent := by
        simpa using hstays 0 (Nat.succ_pos _)
      obtain ⟨u, hu, hat⟩ := hg.round_run hvault hforce hlead hsent hbatch h htime.1 hanswer hnow
      have hboth : ∀ i ∈ sent ++ batch, i ∈ groupItems members := fun i hi =>
        (mem_append.mp hi).elim (hsent i) (hbatch i)
      obtain ⟨u', hu', hat'⟩ := ih hboth (fun b hb => hbatches b (mem_cons_of_mem _ hb))
        htime.2 hat fun k hk => by
          have hlater := hstays (k + 1) (Nat.succ_lt_succ hk)
          rwa [take_succ_cons, flatten_cons, ← append_assoc] at hlater
      refine ⟨u', ?_, ?_⟩
      · rw [flatMap_cons, run_append]
        exact ⟨u, hu, hu'⟩
      · rw [flatten_cons, flatMap_cons, ← append_assoc, ← append_assoc]
        exact hat'

/-- **A worker that gets through all batches** has found the files Cloud-only before each. -/
lemma stays_of_rounds {u : PurgeWorld}
    (hrun : run deletionStep w (rounds.flatMap (PurgeRound.acts token vaults)) = some u) :
    ∀ k < batches.length, StayCloudOnly members refused (sent ++ (batches.take k).flatten) := by
  induction hanswers generalizing w sent calls until_ with
  | nil => exact fun k hk => absurd hk (Nat.not_lt_zero k)
  | @cons batch r batches rounds hanswer _ ih =>
      have hbatch := hbatches batch mem_cons_self
      rw [flatMap_cons, run_append] at hrun
      obtain ⟨u₁, hu₁, hrun⟩ := hrun
      have hnow : StayCloudOnly members refused sent := by
        by_contra hno
        exact hg.round_revoked hvault hforce hlead hsent h htime.1 hno u₁ hu₁
      obtain ⟨u₂, hu₂, hat⟩ := hg.round_run hvault hforce hlead hsent hbatch h htime.1 hanswer hnow
      cases hu₁.symm.trans hu₂
      have hboth : ∀ i ∈ sent ++ batch, i ∈ groupItems members := fun i hi =>
        (mem_append.mp hi).elim (hsent i) (hbatch i)
      have hlater := ih hboth (fun b hb => hbatches b (mem_cons_of_mem _ hb)) htime.2 hat hrun
      intro k hk
      cases k with
      | zero => simpa using hnow
      | succ k =>
          rw [take_succ_cons, flatten_cons, ← append_assoc]
          exact hlater k (Nat.lt_of_succ_lt_succ hk)

end Rounds

end Loop

/-! ### The first and the last transaction -/

/-- **The claim** starts the worker. -/
lemma claim_run (token : ℕ) (refused : ℕ → Bool) (hlead : lead ∈ groupJobIds members)
    {log : List PurgeEvent} (hlog : log.filterMap PurgeEvent.call? = []) {now : Stamp}
    (expires : Stamp)
    (hdue : requestedAt + deletionDelaySeconds ≤ now) :
    ∃ u, deletionStep ⟨admitted, [], log⟩ (.claim lead token now expires) = some u ∧
      AtWork admitted members v g token lead refused expires [] [] .claimed u := by
  obtain ⟨⟨job, hjob, hv, hgroup⟩, after, hclaim, hprogress⟩ :=
    hg.claimed token refused hlead hdue (le_refl expires)
  have hact : act ⟨admitted, [], log⟩ (.claim lead token now expires) = some
      { cat := after
        workers := [⟨token, lead, v, g, .claimed⟩]
        log := log } := by
    simp only [act, map_nil, not_mem_nil, if_false, claim, hjob,
      Option.bind_eq_bind, Option.bind_some, hgroup, hclaim, replaced,
      without, filter_nil, hv]
  exact ⟨_, hg.step_of_act hact hprogress, hprogress, rfl, hlog⟩

/-- The group is loaded whole, with all its items. -/
lemma loadClaimed_eq {cat : Catalog} (hlead : lead ∈ groupJobIds members)
    (h : OwnProgress admitted members token refused until_ [] cat) {now : Stamp}
    (hnow : now < until_) : ∃ jobs, loadClaimedPurgeGroup cat lead token now =
      (jobs, groupItems members) ∧ jobs ≠ [] ∧
        jobs.map (fun j => (j.id, j.vaultFileId)) = groupRows members := by
  obtain ⟨expiry, hexpiry, hjobs⟩ := hg.jobs_eq h
  obtain ⟨m, hm, rfl⟩ := mem_map.mp hlead
  have hactive := hg.activePurges_eq hjobs
  obtain ⟨hv, hgroup, haction, -⟩ := hg.leased_columns hm token expiry
  have hmem : leasedJob token expiry m.job ∈ cat.jobs :=
    hjobs ▸ mem_append_right _ (mem_map.mpr ⟨m, hm, rfl⟩)
  have hfind : cat.jobs.find? (fun j => j.id = m.job.id && j.action = .cloudPurge) =
      some (leasedJob token expiry m.job) := by
    cases hfound : cat.jobs.find? fun j => j.id = m.job.id && j.action = .cloudPurge with
    | none =>
        have hnone := find?_eq_none.mp hfound _ hmem
        rw [haction, decide_eq_true rfl, Bool.and_true] at hnone
        exact absurd (decide_eq_true rfl) hnone
    | some j =>
        have hj := find?_some hfound
        simp only [Bool.and_eq_true, decide_eq_true_eq] at hj
        rw [cat.job_eq_of_id_eq (mem_of_find?_eq_some hfound) hmem hj.1]
  have hleased : (members.map fun m => leasedJob token expiry m.job).all (fun j =>
      decide (j.status = .cleaning) && decide (j.claimToken = some token) &&
        j.claimExpiresAt.any (now < ·)) := by
    rw [all_map, all_eq_true]
    intro m _
    have hlive : (leasedJob token expiry m.job).claimExpiresAt.any (now < ·) :=
      (Option.any_eq_true _ _).mpr ⟨_, rfl, decide_eq_true (hnow.trans_le (hexpiry m.job.id))⟩
    rw [Function.comp_apply, hlive]
    simp [leasedJob]
  have hitems : cat.items.filter (fun i => decide (i.jobId ∈
      (members.map fun m => leasedJob token expiry m.job).map Job.id) &&
        (decide (i.status = .pending) || decide (i.status = .failed))) = groupItems members := by
    have hsame : cat.items = cat₀.items ++ groupItems members := by
      rw [h.items, ← hg.stored.items_eq]
      conv_rhs => rw [← map_id admitted.items]
      exact map_congr_left fun i _ => if_neg not_mem_nil
    have hids : (members.map fun m => leasedJob token expiry m.job).map Job.id =
        groupJobIds members := by
      rw [map_map]
      rfl
    rw [hsame, filter_append, filter_eq_nil_iff.mpr, nil_append,
      filter_eq_self.mpr]
    · intro i hi
      obtain ⟨m, hm, hi⟩ := exists_member hi
      obtain ⟨hjob, -, hpending⟩ := hg.item_columns hm hi
      have hmem : i.jobId ∈ groupJobIds members := hjob ▸ mem_map.mpr ⟨m, hm, rfl⟩
      rw [hids, decide_eq_true hmem, hpending]
      rfl
    · intro i hi hmem
      rw [hids, Bool.and_eq_true, decide_eq_true_eq] at hmem
      obtain ⟨j, hj, hji⟩ := mem_map.mp (hg.tables.itemJobs i hi)
      exact hg.id_not_mem hj (hji ▸ hmem.1)
  refine ⟨members.map fun m => leasedJob token expiry m.job, ?_, ?_, ?_⟩
  · simp only [loadClaimedPurgeGroup, hfind, Option.bind_some, hgroup, Option.map_some, hv,
      hactive, hleased, if_true, hitems]
  · exact fun hnil => hg.nonempty (map_eq_nil_iff.mp hnil)
  · rw [map_map]
    refine map_congr_left fun m hm => ?_
    rw [Function.comp_apply, (hg.leased_columns hm token expiry).2.2.2]
    rfl

lemma stays_at_admission : StayCloudOnly members refused [] := by
  intro m hm w hw
  have hcloud := (hg.member_valid hm).1
  simp only [isCloudOnlyFile, Bool.and_eq_true, Option.any_eq_true,
    decide_eq_true_eq] at hcloud
  obtain ⟨w', hw', hgood⟩ := hcloud.1.2
  have hsame : m.file.latestVersion = some w := by
    rw [← hw, VaultFile.latestVersion]
    congr 1
    exact filter_congr fun u _ => by simp [goneVersions]
  rwa [← Option.some.inj (hsame.symm.trans hw')] at hgood

/-- **The first transaction** loads the batches. -/
lemma load_run (hlead : lead ∈ groupJobIds members) (hvault : vaults v = some vault)
    (hforce : StillInForce vault₀ vault g origin)
    (h : AtWork admitted members v g token lead refused until_ [] calls .claimed w) {at_ : Stamp}
    (hdue : requestedAt + deletionDelaySeconds ≤ at_) (hnow : at_ < until_) :
    ∃ u, deletionStep w (.load token vaults at_) = some u ∧
      AtWork admitted members v g token lead refused until_ [] calls
        (.between (groupRows members)
          (chunked (groupItems members) cloudDeleteBatchSize)) u := by
  have hauth := (hg.executionAuthorised_iff h.progress hforce
    (fun i hi => absurd hi not_mem_nil) hdue).mpr hg.stays_at_admission
  have hvalid : validateExecution vaults w.cat v g at_ = some (w.cat, true) := by
    simp only [validateExecution, hvault, Option.bind_eq_bind, Option.bind_some, hauth, if_true]
  obtain ⟨jobs, hload, hne, hexpected⟩ := hg.loadClaimed_eq hlead h.progress hnow
  have hact : w.act (.load token vaults at_) = some
      { w with
        workers := [⟨token, lead, v, g, .between (groupRows members)
          (chunked (groupItems members) cloudDeleteBatchSize)⟩] } := by
    simp only [act, h.worker?_eq, Option.bind_some, load, hvalid,
      Option.bind_eq_bind, hload, hexpected, h.replaced_eq]
    exact if_pos ⟨trivial, hne⟩
  exact ⟨_, hg.step_of_act hact h.progress, h.progress, rfl, h.calls⟩

/-- **The last transaction** settles the Jobs. -/
lemma finish_run (hall : ∀ i ∈ groupItems members, i ∈ sent)
    (h : AtWork admitted members v g token lead refused until_ sent calls
      (.between (groupRows members) []) w) {now : Stamp}
    (expires : Stamp) (hnow : now < until_) :
    ∃ u, deletionStep w (.finish token now expires) = some u ∧
      u.log.filterMap PurgeEvent.call? = calls ∧
      u.cat.items = admitted.items.map (resulted sent refused) ∧
      (u.cat.jobs.drop cat₀.jobs.length).map (fun j => (j.id, j.status)) = members.map fun m =>
        (m.job.id, if ∀ i ∈ m.items, refused i.id = false then .completed else .failed) := by
  obtain ⟨after, hrenew, hprogress⟩ := hg.renewed h.progress hnow expires
  obtain ⟨done, hdone, hone, hitems, hjobs⟩ := hg.finished hprogress hall
  have hact : w.act (.finish token now expires) = some
      { w with
        cat := done
        workers := [] } := by
    simp only [act, h.worker?_eq, Option.bind_some, finish, map_expected,
      hrenew, Option.bind_eq_bind, hdone, h.without_eq]
  exact ⟨_, deletionStep_eq_some.mpr ⟨hact, hone⟩, h.calls, hitems.trans hprogress.items, hjobs⟩

/-! ### The whole session -/

/-- The rows after the last transaction are those the answers ask for. -/
lemma settledBy_of_finished {u : PurgeWorld}
    (hcalls : u.log.filterMap PurgeEvent.call? =
      (chunked (groupItems members) cloudDeleteBatchSize).flatMap fun b => [none, some b])
    (hitems : u.cat.items = admitted.items.map (resulted (groupItems members) refused))
    (hjobs : (u.cat.jobs.drop cat₀.jobs.length).map (fun j => (j.id, j.status)) =
      members.map fun m =>
        (m.job.id, if ∀ i ∈ m.items, refused i.id = false then .completed else .failed)) :
    SettledBy cat₀ admitted refused u := by
  have hnew : admitted.items.drop cat₀.items.length = groupItems members := by
    rw [hg.stored.items_eq, drop_left]
  have hnewJobs : admitted.jobs.drop cat₀.jobs.length = members.map PurgeMember.job := by
    rw [hg.stored.jobs_eq, drop_left]
  refine ⟨?_, ?_, ?_⟩
  · rw [purgeBatches, hnew, hcalls]
  · rw [hitems, ← map_drop, hnew]
    exact map_congr_left fun i hi => if_pos (mem_map_of_mem hi)
  · rw [hjobs, hnew, hnewJobs, map_map]
    refine map_congr_left fun m hm => ?_
    rw [Function.comp_apply, Prod.mk.injEq]
    refine ⟨rfl, if_congr ⟨fun hkept i hi hjob => ?_, fun hkept i hi => ?_⟩ rfl rfl⟩
    · obtain ⟨m', hm', hi⟩ := exists_member hi
      have hsame := hg.eq_of_job_id hm' hm ((hg.item_columns hm' hi).1.symm.trans hjob)
      exact hkept i (hsame ▸ hi)
    · exact hkept i (mem_flatMap.mpr ⟨m, hm, hi⟩) (hg.item_columns hm hi).1

/-- **A session settles its group** exactly if the files are Cloud-only before every batch. -/
lemma session_iff {s : PurgeSession} (hlead : s.lead ∈ groupJobIds members)
    (hvault : vaults v = some vault) (hforce : StillInForce vault₀ vault g origin)
    (htime : s.InTime (requestedAt + deletionDelaySeconds))
    (hanswers : List.Forall₂ (fun b r => ∀ i ∈ b, r.answer.fails i = refused i.id)
      (chunked (groupItems members) cloudDeleteBatchSize) s.rounds)
    {log : List PurgeEvent} (hlog : log.filterMap PurgeEvent.call? = []) :
    (∃ w, run deletionStep ⟨admitted, [], log⟩ (s.acts vaults) = some w ∧
        SettledBy cat₀ admitted refused w) ↔
      ∀ k < (chunked (groupItems members) cloudDeleteBatchSize).length,
        StayCloudOnly members refused
          ((chunked (groupItems members) cloudDeleteBatchSize).take k).flatten := by
  have hflatten : (chunked (groupItems members) cloudDeleteBatchSize).flatten =
      groupItems members := flatten_chunked _ (by decide)
  have hbatches : ∀ b ∈ chunked (groupItems members) cloudDeleteBatchSize, ∀ i ∈ b,
      i ∈ groupItems members := fun b hb i hi =>
    hflatten ▸ mem_flatten.mpr ⟨b, hb, hi⟩
  have hnone : ∀ i ∈ ([] : List DeletionItem), i ∈ groupItems members :=
    fun i hi => absurd hi not_mem_nil
  -- the first three parts of a session never fail
  obtain ⟨w₁, hw₁, h₁⟩ := hg.claim_run s.token refused hlead hlog s.claimedUntil
    htime.claimed
  obtain ⟨w₂, hw₂, h₂⟩ := hg.beats_run hlead htime.started h₁
  obtain ⟨w₃, hw₃, h₃⟩ := hg.load_run hlead hvault hforce h₂ htime.elapsed htime.loaded
  constructor
  · rintro ⟨w, hw, -⟩
    obtain ⟨w₁', hw₁', hw⟩ := run_cons_eq_some.mp hw
    cases hw₁.symm.trans hw₁'
    obtain ⟨w₂', hw₂', hw⟩ := run_append.mp hw
    cases hw₂.symm.trans hw₂'
    obtain ⟨w₃', hw₃', hw⟩ := run_cons_eq_some.mp hw
    cases hw₃.symm.trans hw₃'
    obtain ⟨w₄, hw₄, -⟩ := run_append.mp hw
    exact hg.stays_of_rounds hvault hforce hlead hnone hbatches hanswers htime.rounds h₃ hw₄
  · intro hstays
    obtain ⟨w₄, hw₄, h₄⟩ := hg.rounds_run hvault hforce hlead hnone hbatches hanswers htime.rounds
      h₃ hstays
    obtain ⟨w₅, hw₅, h₅⟩ := hg.beats_run hlead htime.idle h₄
    rw [nil_append, nil_append, hflatten] at h₅
    obtain ⟨w₆, hw₆, hcalls, hitems, hjobs⟩ := hg.finish_run (fun i hi => hi) h₅
      s.finishedUntil htime.finished
    refine ⟨w₆, ?_, hg.settledBy_of_finished hcalls hitems hjobs⟩
    refine run_cons_eq_some.mpr ⟨w₁, hw₁, run_append.mpr ⟨w₂, hw₂, ?_⟩⟩
    refine run_cons_eq_some.mpr ⟨w₃, hw₃, run_append.mpr ⟨w₄, hw₄, ?_⟩⟩
    exact run_append.mpr ⟨w₅, hw₅, run_cons_eq_some.mpr ⟨w₆, hw₆, rfl⟩⟩

end AdmittedGroup

lemma exists_admittedGroup {cat : Catalog} {vaults₀ : VaultTable} {sel : Selection}
    {confirmation reason : String} (htables : PurgeTables cat)
    (hrequest : scheduleCloudPurge vaults₀ cat v sel requestedAt confirmation reason origin =
      some admitted) (hvault : vaults₀ v = some vault₀) :
    ∃ members, AdmittedGroup cat admitted v (freshGroupId cat) origin requestedAt vault₀
      members := by
  obtain ⟨vault', members, hvault', hne, hstored, hfiles, honce, hvalid⟩ :=
    scheduleCloudPurge_members hrequest
  cases hvault'.symm.trans hvault
  exact ⟨members, htables, hstored, fun j hj hgroup => groupId_ne_freshGroupId hj hgroup rfl, hne,
    hfiles, honce, hvalid⟩

/-- The request and the session, one after the other. -/
lemma run_schedule_iff {cat : Catalog} {vaults₀ : VaultTable} {sel : Selection}
    {confirmation reason : String} (htables : PurgeTables cat)
    (hrequest : scheduleCloudPurge vaults₀ cat v sel requestedAt confirmation reason origin =
      some admitted) (hvault : vaults₀ v = some vault₀) (as : List DeletionAct) (w : PurgeWorld) :
    run deletionStep (.start cat)
        (.schedule vaults₀ v sel requestedAt confirmation reason origin :: as) = some w ↔
      run deletionStep ⟨admitted, [], [.admitted v (freshGroupId cat)
        (admitted.jobs.drop cat.jobs.length) (admitted.items.drop cat.items.length)]⟩ as =
        some w := by
  obtain ⟨members, hg⟩ := exists_admittedGroup htables hrequest hvault
  have hact : (start cat).act
      (.schedule vaults₀ v sel requestedAt confirmation reason origin) = some
      ⟨admitted, [], [.admitted v (freshGroupId cat)
        (admitted.jobs.drop cat.jobs.length) (admitted.items.drop cat.items.length)]⟩ := by
    simp only [act, start, hrequest, Option.bind_eq_bind, Option.bind_some,
      nil_append]
  have hstep := deletionStep_eq_some.mpr ⟨hact, hg.oneActiveFile⟩
  rw [run_cons_eq_some]
  constructor
  · rintro ⟨w', hw', hrun⟩
    rwa [← Option.some.inj (hstep.symm.trans hw')] at hrun
  · exact fun hrun => ⟨_, hstep, hrun⟩

lemma stays_iff_members {cat : Catalog}
    (hg : AdmittedGroup cat admitted v g origin requestedAt vault₀ members) :
    (∀ k, 0 < k → k < batches.length → ∀ j ∈ admitted.jobs.drop cat.jobs.length,
        ∀ f ∈ cat.files, f.id = j.vaultFileId →
          f.StaysCloudOnly (goneVersions (batches.take k).flatten refused)) ↔
      ∀ k < batches.length, StayCloudOnly members refused (batches.take k).flatten := by
  have hjobs : admitted.jobs.drop cat.jobs.length = members.map PurgeMember.job := by
    rw [hg.stored.jobs_eq, drop_left]
  have hfile : ∀ m ∈ members, m.job.vaultFileId = m.file.id := by
    intro m hm
    rw [hg.job_eq hm]
    rfl
  rw [hjobs]
  constructor
  · intro hstays k hk m hm
    cases k with
    | zero => exact hg.stays_at_admission m hm
    | succ k =>
        exact hstays (k + 1) (Nat.succ_pos k) hk m.job (mem_map_of_mem hm) m.file
          (hg.files m hm).1 (hfile m hm).symm
  · intro hstays k _ hk j hj f hf hid
    obtain ⟨m, hm, rfl⟩ := mem_map.mp hj
    rw [cat.eq_of_id_eq hf (hg.files m hm).1 (hid.trans (hfile m hm))]
    exact hstays k hk m hm

end Session

/-- **The groups a worker brings to their end.**  A request is admitted, the worker claims it in
time and never loses its lease, and nothing else happens; the provider refuses any of the items.
Then every batch is validated and sent, every item ends with its own result and every Job with
the outcome of its items, exactly if before each batch but the first every file of the request
still has a verified and available version as the newest of those that are left. -/
theorem own_progress_iff {cat admitted : Catalog} {vaults₀ vaults : VaultTable} {v : VaultId}
    {vault₀ vault : VaultView} {sel : Selection} {requestedAt : Stamp}
    {confirmation reason : String} {origin : JobOrigin} (htables : PurgeTables cat)
    (hrequest : scheduleCloudPurge vaults₀ cat v sel requestedAt confirmation reason origin =
      some admitted)
    (hvault₀ : vaults₀ v = some vault₀) (hvault : vaults v = some vault)
    (hforce : StillInForce vault₀ vault (freshGroupId cat) origin) {s : PurgeSession}
    (hlead : s.lead ∈ (admitted.jobs.drop cat.jobs.length).map Job.id)
    (htime : s.InTime (requestedAt + deletionDelaySeconds)) {refused : ℕ → Bool}
    (hanswers : List.Forall₂ (fun b r => ∀ i ∈ b, r.answer.fails i = refused i.id)
      (purgeBatches cat admitted) s.rounds) :
    (∃ w, run deletionStep (.start cat)
          (.schedule vaults₀ v sel requestedAt confirmation reason origin :: s.acts vaults) =
            some w ∧ SettledBy cat admitted refused w) ↔
      ∀ k, 0 < k → k < (purgeBatches cat admitted).length →
        ∀ j ∈ admitted.jobs.drop cat.jobs.length, ∀ f ∈ cat.files, f.id = j.vaultFileId →
          f.StaysCloudOnly (goneVersions ((purgeBatches cat admitted).take k).flatten refused) := by
  obtain ⟨members, hg⟩ := exists_admittedGroup htables hrequest hvault₀
  have hitems : purgeBatches cat admitted =
      chunked (groupItems members) cloudDeleteBatchSize := by
    rw [purgeBatches, hg.stored.items_eq, drop_left]
  rw [hg.stored.jobs_eq, drop_left, map_map] at hlead
  rw [hitems] at hanswers
  have hlog : [PurgeEvent.admitted v (freshGroupId cat) (admitted.jobs.drop cat.jobs.length)
      (admitted.items.drop cat.items.length)].filterMap PurgeEvent.call? = [] := rfl
  rw [stays_iff_members hg, hitems, ← hg.session_iff hlead hvault hforce htime hanswers hlog]
  exact exists_congr fun w => and_congr_left' (run_schedule_iff htables hrequest hvault₀ _ w)

/-! ### A group that is revoked midway -/

/-- The session of two batches, and of one. -/
def workerSession (rounds : List PurgeRound) : PurgeSession where
  token := 7
  lead := 1
  claimedAt := deletionDelaySeconds
  claimedUntil := deletionDelaySeconds + 300
  started := []
  loadedAt := deletionDelaySeconds
  rounds := rounds
  idle := []
  finishedAt := deletionDelaySeconds
  finishedUntil := deletionDelaySeconds + 300

/-- A batch within one second. -/
def workerRound (answer : DeleteAnswer) : PurgeRound where
  idle := []
  at_ := deletionDelaySeconds
  renewedAt := deletionDelaySeconds
  renewedUntil := deletionDelaySeconds + 300
  answer := answer
  inFlight := []
  returnedAt := deletionDelaySeconds
  recordedAt := deletionDelaySeconds
  recordedUntil := deletionDelaySeconds + 300

lemma workerRound_inTime (answer : DeleteAnswer) :
    (workerRound answer).InTime (0 + deletionDelaySeconds) (deletionDelaySeconds + 300) where
  idle := by simp [workerRound]
  elapsed := by simp [workerRound]
  renewed := by simp [workerRound]
  inFlight := by simp [workerRound]
  recorded := by simp [workerRound]

lemma workerSession_inTime (answers : List DeleteAnswer) :
    (workerSession (answers.map workerRound)).InTime (0 + deletionDelaySeconds) := by
  have hrounds : RoundsInTime (0 + deletionDelaySeconds) (deletionDelaySeconds + 300)
      (answers.map workerRound) ∧
      leaseAfter (deletionDelaySeconds + 300) (answers.map workerRound) =
        deletionDelaySeconds + 300 := by
    induction answers with
    | nil => exact ⟨trivial, rfl⟩
    | cons answer answers ih => exact ⟨⟨workerRound_inTime answer, ih.1⟩, ih.2⟩
  refine ⟨by simp [workerSession], by simp [workerSession], by simp [workerSession],
    by simp [workerSession], hrounds.1, by simp [workerSession], ?_⟩
  simp only [workerSession, hrounds.2]
  exact Nat.lt_add_of_pos_right (by decide)

/-- A Vault whose files are absent from the disk. -/
def emptyVault : VaultView where
  name := "photos"
  decommissionState := .active
  rootReleased := false
  enabled := true
  ownsKey := fun _ => true
  unconfirmed := false
  localAbsence := fun ps => ps.all validRelativePath
  stopGroup := none

lemma emptyVault_stillInForce (g : GroupId) : StillInForce emptyVault emptyVault g .manual where
  ownsKey := rfl
  unconfirmed := rfl
  localAbsence := rfl
  checksPaths := ⟨true, fun _ => true, fun ps => by simp [emptyVault]⟩
  rooted := rfl
  authority := ⟨rfl, rfl⟩

/-- Two versions of one object, the older one not verified, and many delete markers. -/
def halfVerifiedFile : VaultFile where
  id := 1
  vaultId := 0
  status := .active
  currentPath := some ['a']
  pathSince := 0
  pathHistory := []
  localCopy := none
  versions :=
    [⟨1, 1, 5, some 9, some 10, none, none, .unverified, .available, none, none, 0, none, none,
        .discovered, .discovered⟩,
      ⟨2, 2, 5, some 10, some 10, none, some 3, .verified, .available, none, none, 0, none, none,
        .upload, .upload⟩]
  deleteMarkers := (List.range 999).map fun n => ⟨n, 5, n + 100, 0, 0⟩

/-- The file alone. -/
def halfVerifiedCatalog : Catalog where
  files := [halfVerifiedFile]
  jobs := []
  items := []
  ids_nodup := by simp
  paths_unique := by simp
  versions_unique := by simp [VaultFile.versionKeys, halfVerifiedFile, KeysDistinct]
  jobIds_nodup := nodup_nil

lemma halfVerifiedCatalog_tables : PurgeTables halfVerifiedCatalog where
  one := by simp [OneActiveFile, halfVerifiedCatalog]
  itemJobs := by simp [halfVerifiedCatalog]
  markerIds := by
    simp only [halfVerifiedCatalog, halfVerifiedFile, flatMap_cons, flatMap_nil,
      append_nil, map_map]
    exact (nodup_range).map fun _ _ h => h

/-- The targets of the markers. -/
def markerTarget (n : ℕ) : DeletionTarget := ⟨.deleteMarker, n, 5, some (n + 100), none⟩

lemma halfVerified_targets : currentTargets halfVerifiedCatalog halfVerifiedFile =
    ⟨.version, 1, 5, some 9, some 10⟩ :: ⟨.version, 2, 5, some 10, some 10⟩ ::
      (List.range 999).map markerTarget := by
  have hmarkers : markerTargets halfVerifiedCatalog halfVerifiedFile =
      (List.range 999).map markerTarget := by
    have hall : ∀ mk ∈ halfVerifiedFile.deleteMarkers, (!halfVerifiedCatalog.items.any fun i =>
        decide (i.deleteMarkerId = some mk.id) && decide (i.status = .deleted)) :=
      fun mk _ => rfl
    rw [markerTargets, filter_eq_self.mpr hall]
    simp only [halfVerifiedFile, map_map]
    rfl
  rw [currentTargets, hmarkers]
  rfl

lemma halfVerified_admitted : ∃ admitted, scheduleCloudPurge (fun _ => some emptyVault)
    halfVerifiedCatalog 0 ⟨[['a']], false, false⟩ 0 "photos" "no longer needed" .manual =
      some admitted ∧ admitted.jobs.map Job.id = [1] ∧
      admitted.items = ((currentTargets halfVerifiedCatalog halfVerifiedFile).zipIdx.map
        fun (t, k) => purgeItem 1 1 t (1 + k)) := by
  have hsel : selectedFiles halfVerifiedCatalog 0 ⟨[['a']], false, false⟩ =
      some [halfVerifiedFile] := rfl
  have hvalid : validateFiles halfVerifiedCatalog emptyVault [halfVerifiedFile] none := by
    have hexact : (currentTargets halfVerifiedCatalog halfVerifiedFile).all
        (fun t => t.exact emptyVault) := by
      rw [halfVerified_targets]
      simp [markerTarget, DeletionTarget.exact, nullVersionId, emptyVault]
    rw [validateFiles, all_cons, hexact]
    rfl
  refine ⟨[halfVerifiedFile].foldl (schedulePurgeOf 0 .manual (freshGroupId halfVerifiedCatalog) 0)
    halfVerifiedCatalog, ?_, rfl, rfl⟩
  simp only [scheduleCloudPurge, Option.bind_eq_bind, Option.bind_some, hsel, hvalid]
  rfl

/-- The items of the request: the two versions, and the markers. -/
abbrev halfVerifiedItems (ns : List ℕ) : List DeletionItem :=
  (⟨.version, 1, 5, some 9, some 10⟩ :: ⟨.version, 2, 5, some 10, some 10⟩ ::
    ns.map markerTarget : List DeletionTarget).zipIdx.map fun (t, k) => purgeItem 1 1 t (1 + k)

lemma halfVerified_items {ns : List ℕ} {i : DeletionItem}
    (hi : i ∈ halfVerifiedItems ns) :
    i = purgeItem 1 1 ⟨.version, 1, 5, some 9, some 10⟩ 1 ∨
      i = purgeItem 1 1 ⟨.version, 2, 5, some 10, some 10⟩ 2 ∨
      (i.id ≠ 1 ∧ i.providerVersionId ≠ 9 ∧ i.archiveVersionId = none) := by
  obtain ⟨⟨t, k⟩, htk, rfl⟩ := mem_map.mp hi
  rw [mk_mem_zipIdx_iff_getElem?] at htk
  match k with
  | 0 =>
      cases htk
      exact .inl rfl
  | 1 =>
      cases htk
      exact .inr (.inl rfl)
  | k + 2 =>
      rw [getElem?_cons_succ, getElem?_cons_succ, getElem?_map] at htk
      obtain ⟨n, -, rfl⟩ := Option.map_eq_some_iff.mp htk
      refine .inr (.inr ⟨?_, ?_, rfl⟩)
      · change 1 + (k + 2) ≠ 1
        omega
      · change n + 100 ≠ 9
        omega

/-- The answer that refuses the older version. -/
def refusesOldest : DeleteAnswer := some [⟨some 5, some 9⟩]

lemma refusesOldest_fails {ns : List ℕ} {i : DeletionItem}
    (hi : i ∈ halfVerifiedItems ns) :
    refusesOldest.fails i = decide (i.id = 1) := by
  rcases halfVerified_items hi with rfl | rfl | ⟨hid, hversion, -⟩
  · rfl
  · rfl
  · rw [decide_eq_false hid]
    simp [refusesOldest, DeleteAnswer.fails, Ne.symm hversion]

lemma newer_mem_take (ns : List ℕ) : purgeItem 1 1 ⟨.version, 2, 5, some 10, some 10⟩ 2 ∈
    (halfVerifiedItems ns).take 1000 := by
  refine mem_of_getElem? (i := 1) ?_
  rw [getElem?_take_of_lt (by decide)]
  rfl

/-- After the first batch the older version is the newest that is left. -/
lemma not_staysCloudOnly_halfVerified (ns : List ℕ) {sent : List DeletionItem}
    (hsent : ∀ i ∈ sent, i ∈ halfVerifiedItems ns)
    (hnewer : purgeItem 1 1 ⟨.version, 2, 5, some 10, some 10⟩ 2 ∈ sent) :
    ¬halfVerifiedFile.StaysCloudOnly (goneVersions sent fun n => decide (n = 1)) := by
  have hgone : (2 : RowId) ∈ goneVersions sent fun n => decide (n = 1) :=
    mem_goneVersions.mpr ⟨_, hnewer, rfl, rfl⟩
  have hleft : (1 : RowId) ∉ goneVersions sent fun n => decide (n = 1) := by
    intro hmem
    obtain ⟨i, hi, hkept, hversion⟩ := mem_goneVersions.mp hmem
    rcases halfVerified_items (hsent i hi) with rfl | rfl | ⟨-, -, hnone⟩
    · exact absurd hkept (by simp [purgeItem])
    · exact absurd hversion (by simp [purgeItem])
    · rw [hnone] at hversion
      cases hversion
  intro hstays
  have hnewest := hstays ⟨1, 1, 5, some 9, some 10, none, none, .unverified, .available, none,
    none, 0, none, none, .discovered, .discovered⟩ (by
      simp [halfVerifiedFile, hgone, hleft, newest])
  cases hnewest.1

/-- **A group is revoked by its own progress**: the verified version is deleted with the first
batch, the older one is refused, and the validation before the second batch fails on it. -/
theorem own_progress_revokes :
    ¬ ∀ (cat admitted : Catalog) (vaults : VaultTable) (v : VaultId) (vault : VaultView)
      (sel : Selection) (requestedAt : Stamp) (confirmation reason : String) (origin : JobOrigin),
      PurgeTables cat →
      scheduleCloudPurge vaults cat v sel requestedAt confirmation reason origin =
        some admitted → vaults v = some vault →
      StillInForce vault vault (freshGroupId cat) origin →
      ∀ s : PurgeSession, s.lead ∈ (admitted.jobs.drop cat.jobs.length).map Job.id →
        s.InTime (requestedAt + deletionDelaySeconds) → ∀ refused : ℕ → Bool,
          List.Forall₂ (fun b r => ∀ i ∈ b, r.answer.fails i = refused i.id)
            (purgeBatches cat admitted) s.rounds →
          ∃ w, run deletionStep (.start cat)
            (.schedule vaults v sel requestedAt confirmation reason origin :: s.acts vaults) =
              some w ∧ SettledBy cat admitted refused w := by
  intro hall
  obtain ⟨admitted, hrequest, hids, hitems⟩ := halfVerified_admitted
  rw [halfVerified_targets] at hitems
  change _ = halfVerifiedItems (List.range 999) at hitems
  have hvault : (fun _ => some emptyVault : VaultTable) 0 = some emptyVault := rfl
  obtain ⟨members, hg⟩ := exists_admittedGroup halfVerifiedCatalog_tables hrequest hvault
  have hforce := emptyVault_stillInForce (freshGroupId halfVerifiedCatalog)
  have hlead : (workerSession ([refusesOldest, refusesOldest].map workerRound)).lead ∈
      (admitted.jobs.drop halfVerifiedCatalog.jobs.length).map Job.id := by
    rw [map_drop, hids]
    exact mem_singleton_self 1
  have hlead' : (workerSession ([refusesOldest, refusesOldest].map workerRound)).lead ∈
      groupJobIds members := by
    have := hlead
    rwa [hg.stored.jobs_eq, drop_left, map_map] at this
  have hgroup : groupItems members = admitted.items := by
    rw [hg.stored.items_eq]
    rfl
  have hlength : admitted.items.length = 1001 := by
    rw [hitems, length_map, length_zipIdx]
    simp
  have hbatches : chunked (groupItems members) cloudDeleteBatchSize =
      [(groupItems members).take 1000, ((groupItems members).drop 1000).take 1000] := by
    rw [chunked, hgroup, hlength]
    rfl
  have hfails : ∀ i ∈ groupItems members, refusesOldest.fails i = decide (i.id = 1) := by
    intro i hi
    rw [hgroup, hitems] at hi
    exact refusesOldest_fails hi
  have hanswers : List.Forall₂ (fun b r => ∀ i ∈ b, r.answer.fails i = decide (i.id = 1))
      (chunked (groupItems members) cloudDeleteBatchSize)
      (workerSession ([refusesOldest, refusesOldest].map workerRound)).rounds := by
    rw [hbatches]
    refine .cons (fun i hi => hfails i (mem_of_mem_take hi)) (.cons (fun i hi => ?_) .nil)
    exact hfails i (mem_of_mem_drop (mem_of_mem_take hi))
  have hdrop : purgeBatches halfVerifiedCatalog admitted =
      chunked (groupItems members) cloudDeleteBatchSize := by
    rw [purgeBatches, hg.stored.items_eq, drop_left]
  obtain ⟨w, hw, hsettled⟩ := hall halfVerifiedCatalog admitted _ 0 emptyVault _ 0 _ _ _
    halfVerifiedCatalog_tables hrequest rfl hforce _ hlead (workerSession_inTime _)
    (fun n => decide (n = 1)) (hdrop ▸ hanswers)
  have hw' := (run_schedule_iff halfVerifiedCatalog_tables hrequest hvault _ w).mp hw
  have hlog : [PurgeEvent.admitted 0 (freshGroupId halfVerifiedCatalog)
      (admitted.jobs.drop halfVerifiedCatalog.jobs.length)
      (admitted.items.drop halfVerifiedCatalog.items.length)].filterMap PurgeEvent.call? = [] := rfl
  have hstays := (hg.session_iff hlead' rfl hforce (workerSession_inTime _) hanswers hlog).mp
    ⟨w, hw', hsettled⟩
  rw [hbatches] at hstays
  obtain ⟨m, hm⟩ := exists_mem_of_ne_nil _ hg.nonempty
  have hfile : m.file = halfVerifiedFile := mem_singleton.mp (hg.files m hm).1
  have hone := hstays 1 (by simp) m hm
  rw [hfile, take_succ_cons, take_zero, flatten_singleton] at hone
  refine not_staysCloudOnly_halfVerified (List.range 999) (fun i hi => ?_) ?_ hone
  · rw [← hitems, ← hgroup]
    exact mem_of_mem_take hi
  · rw [hgroup, hitems]
    exact newer_mem_take (List.range 999)

lemma cloudOnlyCatalog_tables : PurgeTables cloudOnlyCatalog where
  one := by decide
  itemJobs := by simp [cloudOnlyCatalog]
  markerIds := by simp [cloudOnlyCatalog]

/-- The request for one file with one version is brought to its end. -/
theorem own_progress_one_version : ∃ admitted w,
    scheduleCloudPurge (fun _ => some emptyVault) cloudOnlyCatalog 0 ⟨[['a']], false, false⟩ 0
      "photos" "no longer needed" .manual = some admitted ∧
    run deletionStep (.start cloudOnlyCatalog)
      (.schedule (fun _ => some emptyVault) 0 ⟨[['a']], false, false⟩ 0 "photos"
        "no longer needed" .manual :: (workerSession ([some []].map workerRound)).acts
          fun _ => some emptyVault) = some w ∧
    SettledBy cloudOnlyCatalog admitted (fun _ => false) w := by
  have hrequest : (scheduleCloudPurge (fun _ => some emptyVault) cloudOnlyCatalog 0
      ⟨[['a']], false, false⟩ 0 "photos" "no longer needed" .manual).map
        (fun c => (c.jobs.map Job.id, c.items.length)) = some ([1], 1) := by decide
  obtain ⟨admitted, hrequest, hrows⟩ := Option.map_eq_some_iff.mp hrequest
  obtain ⟨hids, hlength⟩ := Prod.mk.inj hrows
  have hlead : (workerSession ([some []].map workerRound)).lead ∈
      (admitted.jobs.drop cloudOnlyCatalog.jobs.length).map Job.id := by
    rw [map_drop, hids]
    exact mem_singleton_self 1
  have hbatches : purgeBatches cloudOnlyCatalog admitted = [admitted.items.take 1000] := by
    rw [purgeBatches, show cloudOnlyCatalog.items.length = 0 from rfl, drop_zero, chunked,
      hlength]
    rfl
  have hanswers : List.Forall₂
      (fun b r => ∀ i ∈ b, r.answer.fails i = (fun _ => false : ℕ → Bool) i.id)
      (purgeBatches cloudOnlyCatalog admitted)
      (workerSession ([some []].map workerRound)).rounds := by
    rw [hbatches]
    exact .cons (fun i _ => rfl) .nil
  have hsettles : ∃ w, run deletionStep (.start cloudOnlyCatalog)
      (.schedule (fun _ => some emptyVault) 0 ⟨[['a']], false, false⟩ 0 "photos"
        "no longer needed" .manual :: (workerSession ([some []].map workerRound)).acts
          fun _ => some emptyVault) = some w ∧
      SettledBy cloudOnlyCatalog admitted (fun _ => false) w :=
    (own_progress_iff cloudOnlyCatalog_tables hrequest rfl rfl
      (emptyVault_stillInForce _) hlead (workerSession_inTime _) hanswers).mpr fun k hpos hk => by
        rw [hbatches, length_singleton] at hk
        exact absurd hpos (Nat.not_lt.mpr (Nat.lt_one_iff.mp hk).le)
  obtain ⟨w, hw, hsettled⟩ := hsettles
  exact ⟨admitted, w, hrequest, hw, hsettled⟩

end Frostvault
