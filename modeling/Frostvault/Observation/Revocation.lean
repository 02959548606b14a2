import Frostvault.Observation.Identities

/-!
Revoked deletions in closed form (`_cancel_reappeared_deletions` of `app/catalog.py`).

A reappearance cancels the whole group of every pending deletion of a file.  It looks at the
Jobs only, and two reappearances after one another revoke what one of both files revokes.

* `openGroups`: the groups a reappearance finds; `Cancellable`: it may cancel one;
* `cancelReappearedDeletions_iff`: it succeeds exactly if it may cancel all of them, and then
  cancels their members;
* `openGroups_revoked`, `cancellable_revoked_iff`: what the next reappearance finds;
* `revoke_append_iff`: one after the other, or both at once.
-/

namespace Frostvault

open List

variable {vaults : VaultTable} {cat cat' cat'' : Catalog} {jobs : List Job} {v : VaultId}

/-! ### Groups -/

/-- A `cloud-purge` Job of one of the groups. -/
def inGroups (v : VaultId) (gs : List (Option GroupId)) (j : Job) : Bool :=
  j.vaultId = v && j.action = .cloudPurge && j.groupId ∈ gs

/-- The Jobs of the groups. -/
def memberIds (jobs : List Job) (v : VaultId) (gs : List (Option GroupId)) : List JobId :=
  (jobs.filter (inGroups v gs)).map Job.id

/-- The groups of the pending deletions of some files. -/
def openGroups (jobs : List Job) (v : VaultId) (ids : List FileId) : List (Option GroupId) :=
  ((jobs.filter fun j =>
    j.vaultId = v && j.vaultFileId ∈ ids && j.action = .cloudPurge &&
      j.status = .pendingDelay).map Job.groupId).dedup

/-- `cancel_cloud_deletion` accepts the group. -/
def Cancellable (vaults : VaultTable) (jobs : List Job) (v : VaultId) (g : Option GroupId) : Prop :=
  g.isSome = true ∧ (vaults v).isSome = true ∧ (∃ j ∈ jobs, inGroups v [g] j = true) ∧
    ∀ j ∈ jobs, inGroups v [g] j = true → j.status = .pendingDelay ∧ j.claimToken = none

variable {g : Option GroupId} {gs : List (Option GroupId)} {ids : List JobId}

lemma mem_openGroups {ids : List FileId} :
    g ∈ openGroups jobs v ids ↔ ∃ j ∈ jobs, j.vaultId = v ∧ j.vaultFileId ∈ ids ∧
      j.action = .cloudPurge ∧ j.status = .pendingDelay ∧ j.groupId = g := by
  simp only [openGroups, mem_dedup, mem_map, mem_filter, Bool.and_eq_true,
    decide_eq_true_eq, and_assoc]

lemma inGroups_iff {j : Job} :
    inGroups v gs j ↔ j.vaultId = v ∧ j.action = .cloudPurge ∧ j.groupId ∈ gs := by
  simp only [inGroups, Bool.and_eq_true, decide_eq_true_eq, and_assoc]

/-- Job ids are unique, so only members have the id of a member. -/
lemma mem_memberIds (hnd : (jobs.map Job.id).Nodup) {j : Job}
    (hj : j ∈ jobs) : j.id ∈ memberIds jobs v gs ↔ inGroups v gs j := by
  rw [memberIds, mem_map]
  constructor
  · rintro ⟨k, hk, hid⟩
    obtain ⟨hk, hin⟩ := mem_filter.mp hk
    rwa [inj_on_of_nodup_map hnd hk hj hid] at hin
  · intro hin
    exact ⟨j, mem_filter.mpr ⟨hj, hin⟩, rfl⟩

/-! ### What a revocation does -/

/-- The Jobs with the ids are cancelled and their open items are skipped. -/
structure Revoked (ids : List JobId) (cat cat' : Catalog) : Prop where
  jobs : cat'.jobs = cat.jobs.map (cancelJob ids)
  items : cat'.items = cat.items.map (skipItem ids)

lemma cancelJob_cancelJob (ids ids' : List JobId) (j : Job) :
    cancelJob ids' (cancelJob ids j) = cancelJob (ids ++ ids') j := by
  by_cases h : j.id ∈ ids
  · simp [cancelJob, h, Job.settle]
  · simp [cancelJob, h]

lemma skipItem_skipItem (ids ids' : List JobId) (i : DeletionItem) :
    skipItem ids' (skipItem ids i) = skipItem (ids ++ ids') i := by
  by_cases h : i.jobId ∈ ids
  · by_cases hopen : i.status = .pending ∨ i.status = .failed
    · simp [skipItem, h, hopen]
    · simp [skipItem, hopen]
  · simp [skipItem, h]

lemma Revoked.refl (cat : Catalog) : Revoked [] cat cat where
  jobs := by
    rw [show cancelJob [] = id from funext fun j => by simp [cancelJob], map_id]
  items := by
    rw [show skipItem [] = id from funext fun i => by simp [skipItem], map_id]

lemma Revoked.trans {ids' : List JobId} (h : Revoked ids cat cat')
    (h' : Revoked ids' cat' cat'') : Revoked (ids ++ ids') cat cat'' where
  jobs := by
    rw [h'.jobs, h.jobs, map_map]
    exact map_congr_left fun j _ => cancelJob_cancelJob ids ids' j
  items := by
    rw [h'.items, h.items, map_map]
    exact map_congr_left fun i _ => skipItem_skipItem ids ids' i

lemma Revoked.rest {ids' : List JobId} (h : Revoked (ids ++ ids') cat cat'')
    (h' : Revoked ids cat cat') : Revoked ids' cat' cat'' where
  jobs := by
    rw [h.jobs, h'.jobs, map_map]
    exact map_congr_left fun j _ => (cancelJob_cancelJob ids ids' j).symm
  items := by
    rw [h.items, h'.items, map_map]
    exact map_congr_left fun i _ => (skipItem_skipItem ids ids' i).symm

/-- A revocation looks at Jobs and items only. -/
lemma revoked_iff_of_rows {mid : Catalog} (hjobs : mid.jobs = cat.jobs)
    (hitems : mid.items = cat.items) : Revoked ids mid cat' ↔ Revoked ids cat cat' := by
  constructor
  · rintro ⟨hj, hi⟩
    exact ⟨by rw [hj, hjobs], by rw [hi, hitems]⟩
  · rintro ⟨hj, hi⟩
    exact ⟨by rw [hj, hjobs], by rw [hi, hitems]⟩

lemma Revoked.congr {ids' : List JobId} (h : Revoked ids cat cat')
    (hids : ∀ n, n ∈ ids ↔ n ∈ ids') : Revoked ids' cat cat' where
  jobs := by
    rw [h.jobs]
    exact map_congr_left fun j _ => by simp only [cancelJob, hids]
  items := by
    rw [h.items]
    exact map_congr_left fun i _ => by simp only [skipItem, hids]

lemma inGroups_cancelJob (gs : List (Option GroupId)) (ids : List JobId) (j : Job) :
    inGroups v gs (cancelJob ids j) = inGroups v gs j := by
  unfold cancelJob
  split <;> rfl

lemma cancelJob_id (ids : List JobId) (j : Job) : (cancelJob ids j).id = j.id := by
  unfold cancelJob
  split <;> rfl

/-- The members of groups are the same afterwards. -/
lemma memberIds_revoked (h : Revoked ids cat cat') (gs : List (Option GroupId)) :
    memberIds cat'.jobs v gs = memberIds cat.jobs v gs := by
  rw [memberIds, memberIds, h.jobs, filter_map, map_map]
  have hin : inGroups v gs ∘ cancelJob ids = inGroups v gs :=
    funext fun j => inGroups_cancelJob gs ids j
  rw [hin]
  exact map_congr_left fun j _ => cancelJob_id ids j

/-- Another group is as cancellable as before. -/
lemma cancellable_revoked_iff (h : Revoked (memberIds cat.jobs v gs) cat cat') (hg : g ∉ gs) :
    Cancellable vaults cat'.jobs v g ↔ Cancellable vaults cat.jobs v g := by
  have hsame : ∀ j ∈ cat.jobs, inGroups v [g] j →
      cancelJob (memberIds cat.jobs v gs) j = j := by
    intro j hj hin
    refine if_neg fun hmem => hg ?_
    obtain ⟨-, -, hgs⟩ := inGroups_iff.mp ((mem_memberIds cat.jobIds_nodup hj).mp hmem)
    obtain ⟨-, -, hgj⟩ := inGroups_iff.mp hin
    rwa [mem_singleton.mp hgj] at hgs
  simp only [Cancellable, h.jobs, mem_map, exists_exists_and_eq_and, forall_exists_index,
    and_imp, forall_apply_eq_imp_iff₂, inGroups_cancelJob]
  refine and_congr_right fun _ => and_congr_right fun _ => and_congr_right fun _ => ?_
  refine forall₂_congr fun j hj => ?_
  by_cases hin : inGroups v [g] j
  · rw [hsame j hj hin]
  · simp [hin]

/-- The next reappearance finds the groups that are still open. -/
lemma openGroups_revoked {ids ids' : List FileId}
    (h : Revoked (memberIds cat.jobs v (openGroups cat.jobs v ids)) cat cat') :
    g ∈ openGroups cat'.jobs v ids' ↔
      g ∈ openGroups cat.jobs v ids' ∧ g ∉ openGroups cat.jobs v ids := by
  rw [mem_openGroups, h.jobs]
  constructor
  · rintro ⟨k, hk, hv, hfile, hact, hst, rfl⟩
    obtain ⟨j, hj, rfl⟩ := mem_map.mp hk
    by_cases hmem : j.id ∈ memberIds cat.jobs v (openGroups cat.jobs v ids)
    · simp [cancelJob, hmem, Job.settle] at hst
    · rw [cancelJob, if_neg hmem] at hv hfile hact hst ⊢
      refine ⟨mem_openGroups.mpr ⟨j, hj, hv, hfile, hact, hst, rfl⟩, fun hopen => hmem ?_⟩
      exact (mem_memberIds cat.jobIds_nodup hj).mpr (inGroups_iff.mpr ⟨hv, hact, hopen⟩)
  · rintro ⟨hopen', hopen⟩
    obtain ⟨j, hj, hv, hfile, hact, hst, rfl⟩ := mem_openGroups.mp hopen'
    have hmem : j.id ∉ memberIds cat.jobs v (openGroups cat.jobs v ids) := fun hmem =>
      hopen (inGroups_iff.mp ((mem_memberIds cat.jobIds_nodup hj).mp hmem)).2.2
    refine ⟨cancelJob _ j, mem_map_of_mem hj, ?_⟩
    rw [cancelJob, if_neg hmem]
    exact ⟨hv, hfile, hact, hst, rfl⟩

/-! ### Revoking -/

lemma purgeGroup_eq (cat : Catalog) (v : VaultId) (n : GroupId) :
    purgeGroup cat v n = cat.jobs.filter (inGroups v [some n]) := by
  refine filter_congr fun j _ => ?_
  rw [Bool.eq_iff_iff, inGroups_iff, mem_singleton]
  simp only [Bool.and_eq_true, decide_eq_true_eq, and_assoc, and_comm (a := j.groupId = some n)]

/-- `cancel_cloud_deletion` for the group of a Job. -/
lemma cancelGroup_iff :
    (g.bind fun n => cancelCloudDeletion vaults cat v n) = some cat' ↔
      Cancellable vaults cat.jobs v g ∧ cat'.files = cat.files ∧
        Revoked (memberIds cat.jobs v [g]) cat cat' := by
  cases g with
  | none => simp [Cancellable]
  | some n =>
      have hrow := rewrites_cancelRows cat (purgeGroup cat v n)
      have hguard : (purgeGroup cat v n ≠ [] ∧
          ∀ j ∈ purgeGroup cat v n, j.status = .pendingDelay ∧ j.claimToken = none) ↔
          (∃ j ∈ cat.jobs, inGroups v [some n] j) ∧
            ∀ j ∈ cat.jobs, inGroups v [some n] j →
              j.status = .pendingDelay ∧ j.claimToken = none := by
        rw [purgeGroup_eq, ne_eq, filter_eq_nil_iff]
        simp only [mem_filter, and_imp, not_forall, not_not, exists_prop]
      have hrun : cancelCloudDeletion vaults cat v n = some cat' ↔
          Cancellable vaults cat.jobs v (some n) ∧
            cancelRows cat (purgeGroup cat v n) = cat' := by
        simp only [cancelCloudDeletion, Option.bind_eq_bind, Option.bind_eq_some_iff,
          Option.guard_eq_some', exists_const, Option.some.injEq, hguard, Cancellable,
          Option.isSome_some, true_and, Option.isSome_iff_exists, exists_and_right, and_assoc]
      rw [Option.bind_some, hrun, purgeGroup_eq] at *
      refine and_congr_right fun _ => ?_
      constructor
      · rintro rfl
        exact ⟨cancelRows_files _ _, hrow.jobs, hrow.items⟩
      · rintro ⟨hfiles, hrev⟩
        exact Catalog.eq_of_rows ((cancelRows_files _ _).trans hfiles.symm)
          (hrow.jobs.trans hrev.jobs.symm) (hrow.items.trans hrev.items.symm)

lemma mem_memberIds_append {gs' : List (Option GroupId)} {n : JobId} :
    n ∈ memberIds jobs v gs ++ memberIds jobs v gs' ↔ n ∈ memberIds jobs v (gs ++ gs') := by
  simp only [memberIds, mem_append, mem_map, mem_filter, inGroups_iff]
  constructor
  · rintro (⟨j, ⟨hj, hv, hact, hg⟩, rfl⟩ | ⟨j, ⟨hj, hv, hact, hg⟩, rfl⟩)
    · exact ⟨j, ⟨hj, hv, hact, .inl hg⟩, rfl⟩
    · exact ⟨j, ⟨hj, hv, hact, .inr hg⟩, rfl⟩
  · rintro ⟨j, ⟨hj, hv, hact, hg | hg⟩, rfl⟩
    · exact .inl ⟨j, ⟨hj, hv, hact, hg⟩, rfl⟩
    · exact .inr ⟨j, ⟨hj, hv, hact, hg⟩, rfl⟩

lemma exists_revoked {mid : Catalog} (hjobs : mid.jobs = cat.jobs) (hitems : mid.items = cat.items)
    (v : VaultId) (gs : List (Option GroupId)) :
    ∃ cat', cat'.files = mid.files ∧ Revoked (memberIds cat.jobs v gs) cat cat' :=
  have hrow := rewrites_cancelRows mid (cat.jobs.filter (inGroups v gs))
  ⟨_, cancelRows_files _ _, (revoked_iff_of_rows hjobs hitems).mp ⟨hrow.jobs, hrow.items⟩⟩

lemma foldlM_cancelGroup_iff (hnd : gs.Nodup) :
    gs.foldlM (fun cat g => g.bind fun n => cancelCloudDeletion vaults cat v n) cat = some cat' ↔
      (∀ g ∈ gs, Cancellable vaults cat.jobs v g) ∧ cat'.files = cat.files ∧
        Revoked (memberIds cat.jobs v gs) cat cat' := by
  induction gs generalizing cat with
  | nil =>
      have hnone : ∀ n, n ∈ memberIds cat.jobs v [] ↔ n ∈ ([] : List JobId) := by
        simp [memberIds, inGroups]
      rw [foldlM_nil]
      constructor
      · intro h
        obtain rfl := Option.some.inj h
        exact ⟨by simp, rfl, (Revoked.refl cat).congr fun n => (hnone n).symm⟩
      · rintro ⟨-, hfiles, hrev⟩
        have hrev' := hrev.congr hnone
        refine congrArg some (Catalog.eq_of_rows hfiles.symm ?_ ?_)
        · rw [hrev'.jobs, ← (Revoked.refl cat).jobs]
        · rw [hrev'.items, ← (Revoked.refl cat).items]
  | cons g gs ih =>
      obtain ⟨hg, hgs⟩ := nodup_cons.mp hnd
      rw [foldlM_cons, Option.bind_eq_bind, Option.bind_eq_some_iff]
      have hmem : ∀ n, n ∈ memberIds cat.jobs v [g] ++ memberIds cat.jobs v gs ↔
          n ∈ memberIds cat.jobs v (g :: gs) := fun n => mem_memberIds_append
      have hothers : ∀ {c : Catalog}, Revoked (memberIds cat.jobs v [g]) cat c →
          ((∀ g' ∈ gs, Cancellable vaults c.jobs v g') ↔
            ∀ g' ∈ gs, Cancellable vaults cat.jobs v g') := by
        intro c hrev
        refine forall₂_congr fun g' hg' => cancellable_revoked_iff hrev ?_
        rintro hmem'
        exact hg (mem_singleton.mp hmem' ▸ hg')
      constructor
      · rintro ⟨c, hc, hrest⟩
        obtain ⟨hcan, hfiles, hrev⟩ := cancelGroup_iff.mp hc
        obtain ⟨hcan', hfiles', hrev'⟩ := (ih hgs).mp hrest
        rw [memberIds_revoked hrev] at hrev'
        exact ⟨forall_mem_cons.mpr ⟨hcan, (hothers hrev).mp hcan'⟩, hfiles'.trans hfiles,
          (hrev.trans hrev').congr hmem⟩
      · rintro ⟨hcan, hfiles, hrev⟩
        rw [forall_mem_cons] at hcan
        obtain ⟨c, hcfiles, hc⟩ := exists_revoked (rfl : cat.jobs = cat.jobs) rfl v [g]
        refine ⟨c, cancelGroup_iff.mpr ⟨hcan.1, hcfiles, hc⟩, (ih hgs).mpr
          ⟨(hothers hc).mpr hcan.2, hfiles.trans hcfiles.symm, ?_⟩⟩
        rw [memberIds_revoked hc]
        exact (hrev.congr fun n => (hmem n).symm).rest hc

/-- **`_cancel_reappeared_deletions`** succeeds exactly if it may cancel every group it finds,
and then cancels their Jobs. -/
theorem cancelReappearedDeletions_iff {ids : List FileId} :
    cancelReappearedDeletions vaults cat v ids = some cat' ↔
      (∀ g ∈ openGroups cat.jobs v ids, Cancellable vaults cat.jobs v g) ∧
        cat'.files = cat.files ∧
        Revoked (memberIds cat.jobs v (openGroups cat.jobs v ids)) cat cat' :=
  foldlM_cancelGroup_iff (nodup_dedup _)

/-- **One after the other, or both at once.**  The second reappearance finds the catalog `mid`
with the Jobs the first one left, whatever happened to the files in between. -/
theorem revoke_append_iff (vaults : VaultTable) (cat' : Catalog) (ids' : List FileId)
    {ids : List FileId} {c mid : Catalog}
    (hjobs : mid.jobs = c.jobs) (hitems : mid.items = c.items)
    (hcan : ∀ g ∈ openGroups cat.jobs v ids, Cancellable vaults cat.jobs v g)
    (hc : Revoked (memberIds cat.jobs v (openGroups cat.jobs v ids)) cat c) :
    ((∀ g ∈ openGroups mid.jobs v ids', Cancellable vaults mid.jobs v g) ∧
        Revoked (memberIds mid.jobs v (openGroups mid.jobs v ids')) mid cat') ↔
      ((∀ g ∈ openGroups cat.jobs v (ids ++ ids'), Cancellable vaults cat.jobs v g) ∧
        Revoked (memberIds cat.jobs v (openGroups cat.jobs v (ids ++ ids'))) cat cat') := by
  have hmid : Revoked (memberIds cat.jobs v (openGroups cat.jobs v ids)) cat mid :=
    ⟨hjobs.trans hc.jobs, hitems.trans hc.items⟩
  have hopen : ∀ g, g ∈ openGroups cat.jobs v (ids ++ ids') ↔
      g ∈ openGroups cat.jobs v ids ∨ g ∈ openGroups cat.jobs v ids' := by
    intro g
    simp only [mem_openGroups, mem_append]
    constructor
    · rintro ⟨j, hj, hv, hfile | hfile, hrest⟩
      · exact .inl ⟨j, hj, hv, hfile, hrest⟩
      · exact .inr ⟨j, hj, hv, hfile, hrest⟩
    · rintro (⟨j, hj, hv, hfile, hrest⟩ | ⟨j, hj, hv, hfile, hrest⟩)
      · exact ⟨j, hj, hv, .inl hfile, hrest⟩
      · exact ⟨j, hj, hv, .inr hfile, hrest⟩
  have hmem : ∀ n, n ∈ memberIds cat.jobs v (openGroups cat.jobs v ids) ++
        memberIds mid.jobs v (openGroups mid.jobs v ids') ↔
      n ∈ memberIds cat.jobs v (openGroups cat.jobs v (ids ++ ids')) := by
    intro n
    rw [memberIds_revoked hmid, mem_memberIds_append]
    simp only [memberIds, mem_map, mem_filter, inGroups_iff, mem_append, hopen,
      openGroups_revoked hmid]
    refine exists_congr fun j => and_congr_left fun _ => and_congr_right fun _ =>
      and_congr_right fun _ => and_congr_right fun _ => ?_
    by_cases hj : j.groupId ∈ openGroups cat.jobs v ids <;> simp [hj]
  have hcan' : (∀ g ∈ openGroups mid.jobs v ids', Cancellable vaults mid.jobs v g) ↔
      ∀ g ∈ openGroups cat.jobs v (ids ++ ids'), Cancellable vaults cat.jobs v g := by
    simp only [hopen, openGroups_revoked hmid]
    constructor
    · intro hall g hg
      by_cases hin : g ∈ openGroups cat.jobs v ids
      · exact hcan g hin
      · exact (cancellable_revoked_iff hmid hin).mp (hall g ⟨hg.resolve_left hin, hin⟩)
    · rintro hall g ⟨hg, hin⟩
      exact (cancellable_revoked_iff hmid hin).mpr (hall g (.inr hg))
  refine and_congr hcan' ?_
  constructor
  · intro hrev
    exact (hmid.trans hrev).congr hmem
  · intro hrev
    exact (hrev.congr fun n => (hmem n).symm).rest hmid

end Frostvault
