import Frostvault.Deletion.PurgeAdmission
import Frostvault.CloudScan.Versions

/-!
What the own calls of a purge worker do to the consent of its group (`process_cloud_purge` of
`app/storage.py`, `validate_execution` of `app/services/cloud_deletion.py`).

A worker with more than one batch validates its group again after each of them.  The versions it
has deleted are purged by then, and the validation looks at the newest version that is left.

* `OwnProgress`: the catalog after some calls of the worker, and nothing else;
* `AdmittedGroup`: what the request has checked and stored;
* `AdmittedGroup.mem_currentTargets_iff`: the targets that are left;
* `AdmittedGroup.executionAuthorised_iff`: **when the group is still authorised**.
-/

namespace Frostvault

open List

/-! ### The calls of a worker -/

/-- The versions of the items that are sent and not refused. -/
def goneVersions (sent : List DeletionItem) (refused : ℕ → Bool) : List RowId :=
  (sent.filter fun i => !refused i.id).filterMap DeletionItem.archiveVersionId

/-- The newest version that is left, if one is, is verified and available. -/
def VaultFile.StaysCloudOnly (f : VaultFile) (gone : List RowId) : Prop :=
  ∀ w, newest (f.versions.filter fun w => w.availability ≠ .purged && w.id ∉ gone) = some w →
    w.integrity = .verified ∧ w.availability = .available

/-- An item with the result of its call. -/
def resulted (sent : List DeletionItem) (refused : ℕ → Bool) (i : DeletionItem) : DeletionItem :=
  if i.id ∈ sent.map DeletionItem.id then
    { i with status := if refused i.id then .failed else .deleted }
  else i

/-- A file without the versions that are gone. -/
def VaultFile.afterCalls (gone : List RowId) (checkedAt : RowId → Option Stamp) (f : VaultFile) :
    VaultFile :=
  { f with
    versions := f.versions.map fun w =>
      if w.id ∈ gone then
        { w with
          availability := .purged
          availabilityCheckedAt := checkedAt w.id }
      else w }

/-- A Job that is leased to the worker. -/
def leasedJob (token : ℕ) (expiry : JobId → Stamp) (j : Job) : Job :=
  { j with
    status := .cleaning
    claimToken := some token
    claimExpiresAt := some (expiry j.id) }

/-- The ids of the Jobs of a group. -/
def groupJobIds (members : List PurgeMember) : List JobId := members.map fun m => m.job.id

/-- The catalog after an admission, a claim and some calls of its worker.  The lease of every Job
lasts until `until_` at least. -/
structure OwnProgress (admitted : Catalog) (members : List PurgeMember) (token : ℕ)
    (refused : ℕ → Bool) (until_ : Stamp) (sent : List DeletionItem) (cat : Catalog) : Prop where
  files : ∃ checkedAt, cat.files =
    admitted.files.map (VaultFile.afterCalls (goneVersions sent refused) checkedAt)
  jobs : ∃ expiry : JobId → Stamp, (∀ n, until_ ≤ expiry n) ∧ cat.jobs = admitted.jobs.map fun j =>
    if j.id ∈ groupJobIds members then leasedJob token expiry j else j
  items : cat.items = admitted.items.map (resulted sent refused)

/-- What the tables promise beyond the indexes of `Catalog`: one open Job for a file, an item
belongs to a Job, and delete markers have a primary key. -/
structure PurgeTables (cat : Catalog) : Prop where
  one : OneActiveFile cat
  itemJobs : ∀ i ∈ cat.items, i.jobId ∈ cat.jobs.map Job.id
  markerIds : (cat.files.flatMap fun f => f.deleteMarkers.map DeleteMarker.id).Nodup

/-- `require_local_absence` checks the root and then each of the paths. -/
def VaultView.ChecksPaths (vault : VaultView) : Prop :=
  ∃ (rooted : Bool) (absent : Path → Bool), ∀ ps,
    vault.localAbsence ps = (rooted && ps.all fun p => validRelativePath p && absent p)

/-- Nothing has changed about the Vault since the request, and the request is in force: its Vault
is enabled, or protection was stopped with this very deletion. -/
structure StillInForce (vault₀ vault : VaultView) (g : GroupId) (origin : JobOrigin) : Prop where
  ownsKey : vault.ownsKey = vault₀.ownsKey
  unconfirmed : vault.unconfirmed = vault₀.unconfirmed
  localAbsence : vault.localAbsence = vault₀.localAbsence
  checksPaths : vault.ChecksPaths
  rooted : vault.rootReleased = false
  authority : if vault.decommissionState = .active then vault.enabled = true ∧ origin = .manual
    else vault.decommissionState = .decommissioning ∧ vault.stopGroup = some g ∧
      origin = .stopProtection

/-! ### The rows of a group -/

section Group

variable {cat₀ admitted cat : Catalog} {v : VaultId} {g : GroupId} {origin : JobOrigin}
  {requestedAt : Stamp} {members : List PurgeMember} {token : ℕ} {refused : ℕ → Bool}
  {until_ : Stamp} {sent : List DeletionItem}

/-- A request that is admitted: what it has checked and stored, over tables that keep their
promises. -/
structure AdmittedGroup (cat₀ admitted : Catalog) (v : VaultId) (g : GroupId) (origin : JobOrigin)
    (requestedAt : Stamp) (vault₀ : VaultView) (members : List PurgeMember) : Prop where
  tables : PurgeTables cat₀
  stored : GroupAdmission cat₀ admitted v g origin requestedAt members
  fresh : ∀ j ∈ cat₀.jobs, j.groupId ≠ some g
  nonempty : members ≠ []
  files : ∀ m ∈ members, m.file ∈ cat₀.files ∧ m.file.vaultId = v
  once : (members.map PurgeMember.file).Nodup
  valid : validateFiles cat₀ vault₀ (members.map PurgeMember.file) none = true

variable {vault₀ vault : VaultView}
  (hg : AdmittedGroup cat₀ admitted v g origin requestedAt vault₀ members)

variable {i : DeletionItem} {m : PurgeMember} {t : DeletionTarget}

namespace AdmittedGroup

include hg

lemma job_mem (hm : m ∈ members) : m.job ∈ admitted.jobs := by
  rw [hg.stored.jobs_eq]
  exact mem_append_right _ (mem_map_of_mem hm)

lemma job_eq (hm : m ∈ members) :
    m.job = purgeJob v m.file origin g requestedAt m.job.id := (hg.stored.admitted m hm).job

lemma groupJobIds_nodup : (groupJobIds members).Nodup := by
  have hnodup := admitted.jobIds_nodup
  rw [hg.stored.jobs_eq, map_append, map_map] at hnodup
  exact hnodup.of_append_right

lemma eq_of_job_id {m' : PurgeMember} (hm : m ∈ members) (hm' : m' ∈ members)
    (h : m.job.id = m'.job.id) : m = m' :=
  inj_on_of_nodup_map hg.groupJobIds_nodup hm hm' h

lemma eq_of_file_id {m' : PurgeMember} (hm : m ∈ members) (hm' : m' ∈ members)
    (h : m.file.id = m'.file.id) : m = m' :=
  inj_on_of_nodup_map hg.once hm hm'
    (cat₀.eq_of_id_eq (hg.files m hm).1 (hg.files m' hm').1 h)

lemma id_not_mem {j : Job} (hj : j ∈ cat₀.jobs) : j.id ∉ groupJobIds members := by
  have hnodup := admitted.jobIds_nodup
  rw [hg.stored.jobs_eq, map_append, map_map] at hnodup
  exact fun hmem => disjoint_of_nodup_append hnodup (mem_map_of_mem hj) hmem

lemma leased_columns (hm : m ∈ members) (token : ℕ) (expiry : JobId → Stamp) :
    (leasedJob token expiry m.job).vaultId = v ∧
      (leasedJob token expiry m.job).groupId = some g ∧
      (leasedJob token expiry m.job).action = .cloudPurge ∧
      (leasedJob token expiry m.job).vaultFileId = m.file.id := by
  rw [leasedJob, hg.job_eq hm]
  exact ⟨rfl, rfl, rfl, rfl⟩

/-- The Jobs after some calls: those from before, and the group. -/
lemma jobs_eq (h : OwnProgress admitted members token refused until_ sent cat) :
    ∃ expiry : JobId → Stamp, (∀ n, until_ ≤ expiry n) ∧
      cat.jobs = cat₀.jobs ++ members.map fun m => leasedJob token expiry m.job := by
  obtain ⟨expiry, hexpiry, hjobs⟩ := h.jobs
  refine ⟨expiry, hexpiry, ?_⟩
  rw [hjobs, hg.stored.jobs_eq, map_append, map_map]
  congr 1
  · conv_rhs => rw [← map_id cat₀.jobs]
    exact map_congr_left fun j hj => if_neg (hg.id_not_mem hj)
  · exact map_congr_left fun m hm => if_pos (mem_map.mpr ⟨m, hm, rfl⟩)

/-- **The group after some calls**: all Jobs of the request, leased to the worker. -/
lemma activePurges_eq {expiry : JobId → Stamp}
    (hjobs : cat.jobs = cat₀.jobs ++ members.map fun m => leasedJob token expiry m.job) :
    activePurges cat v g = members.map fun m => leasedJob token expiry m.job := by
  have hold : cat₀.jobs.filter (fun j => decide (j.vaultId = v) && decide (j.groupId = some g) &&
      decide (j.action = .cloudPurge)) = [] := by
    refine filter_eq_nil_iff.mpr fun j hj hgroup => ?_
    simp only [Bool.and_eq_true, decide_eq_true_eq] at hgroup
    exact hg.fresh j hj hgroup.1.2
  have hnew : (members.map fun m => leasedJob token expiry m.job).filter
      (fun j => decide (j.vaultId = v) && decide (j.groupId = some g) &&
        decide (j.action = .cloudPurge)) = members.map fun m => leasedJob token expiry m.job := by
    refine filter_eq_self.mpr fun j hj => ?_
    obtain ⟨m, hm, rfl⟩ := mem_map.mp hj
    obtain ⟨hv, hgroup, haction, -⟩ := hg.leased_columns hm token expiry
    rw [hv, hgroup, haction]
    simp
  rw [activePurges, purgeGroup, hjobs, filter_append, hold, hnew, nil_append]
  refine filter_eq_self.mpr fun j hj => ?_
  obtain ⟨m, hm, rfl⟩ := mem_map.mp hj
  rfl

lemma member_valid (hm : m ∈ members) :
    isCloudOnlyFile m.file ∧ otherPendingWork cat₀ m.file.id none = false ∧
      ∀ t ∈ currentTargets cat₀ m.file, t.exact vault₀ = true := by
  have hvalid := hg.valid
  simp only [validateFiles, Bool.and_eq_true, all_eq_true, Bool.not_eq_true'] at hvalid
  obtain ⟨⟨hcloud, hpending⟩, htargets⟩ := hvalid.1.2 m.file (mem_map_of_mem hm)
  exact ⟨hcloud, hpending, htargets⟩

/-- The path of the Job is the current path of the file. -/
lemma currentPath_eq (hm : m ∈ members) :
    m.file.currentPath = some m.job.path ∧ m.job.path ≠ [] := by
  have hcloud := (hg.member_valid hm).1
  simp only [isCloudOnlyFile, Bool.and_eq_true] at hcloud
  obtain ⟨p, hp, hne⟩ := (Option.any_eq_true _ _).mp hcloud.2
  rw [hg.job_eq hm]
  simp only [purgeJob, hp, Option.getD_some, true_and]
  simpa using hne

omit hg in
lemma exists_member (hi : i ∈ groupItems members) :
    ∃ m ∈ members, i ∈ m.items := mem_flatMap.mp hi

lemma item_columns (hm : m ∈ members) (hi : i ∈ m.items) :
    i.jobId = m.job.id ∧ i.vaultFileId = m.file.id ∧ i.status = .pending := by
  obtain ⟨t, -, hit⟩ := (hg.stored.admitted m hm).target_of_item hi
  rw [hit]
  exact ⟨rfl, rfl, rfl⟩

lemma eq_of_item_id {i' : DeletionItem} (hi : i ∈ groupItems members)
    (hi' : i' ∈ groupItems members) (h : i.id = i'.id) : i = i' :=
  inj_on_of_nodup_map hg.stored.items_nodup hi hi' h

lemma resulted_of_old (hsent : ∀ i ∈ sent, i ∈ groupItems members) (hi : i ∈ cat₀.items) :
    resulted sent refused i = i := by
  rw [resulted, if_neg]
  intro hmem
  obtain ⟨s, hs, hid⟩ := mem_map.mp hmem
  exact hg.stored.items_new s (hsent s hs) (hid ▸ mem_map_of_mem hi)

/-- An item of the group has a result exactly if it was sent. -/
lemma id_mem_sent_iff (hsent : ∀ i ∈ sent, i ∈ groupItems members) (hi : i ∈ groupItems members) :
    i.id ∈ sent.map DeletionItem.id ↔ i ∈ sent := by
  constructor
  · intro hmem
    obtain ⟨s, hs, hid⟩ := mem_map.mp hmem
    rwa [← hg.eq_of_item_id (hsent s hs) hi hid]
  · exact fun h => mem_map_of_mem h

end AdmittedGroup

/-! ### What is left of a file -/

omit hg in
lemma versions_left (gone : List RowId) (checkedAt : RowId → Option Stamp) (f : VaultFile) :
    (VaultFile.afterCalls gone checkedAt f).versions.filter (fun w => w.availability ≠ .purged) =
      f.versions.filter fun w => w.availability ≠ .purged && w.id ∉ gone := by
  rw [VaultFile.afterCalls, filter_map]
  have hsame : (f.versions.filter ((fun w => decide (w.availability ≠ .purged)) ∘ fun w =>
      if w.id ∈ gone then
        { w with
          availability := .purged
          availabilityCheckedAt := checkedAt w.id }
      else w)) = f.versions.filter fun w => w.availability ≠ .purged && w.id ∉ gone := by
    refine filter_congr fun w _ => ?_
    by_cases hw : w.id ∈ gone <;> simp [hw]
  rw [hsame]
  conv_rhs => rw [← map_id (List.filter _ _)]
  refine map_congr_left fun w hw => if_neg ?_
  simpa using (Bool.and_eq_true_iff.mp (mem_filter.mp hw).2).2

lemma mem_goneVersions {id : RowId} : id ∈ goneVersions sent refused ↔
    ∃ i ∈ sent, refused i.id = false ∧ i.archiveVersionId = some id := by
  simp [goneVersions, and_assoc]

/-- The item points at the row of the target. -/
def DeletionItem.PointsAt (i : DeletionItem) (t : DeletionTarget) : Prop :=
  match t.kind with
  | .version => i.archiveVersionId = some t.rowId
  | .deleteMarker => i.deleteMarkerId = some t.rowId

omit hg in
lemma pointsAt_purgeItem {job : JobId} {f : FileId} {t' : DeletionTarget} {n : ℕ} :
    (purgeItem job f t' n).PointsAt t ↔ t'.kind = t.kind ∧ t'.rowId = t.rowId := by
  simp only [DeletionItem.PointsAt, purgeItem]
  cases t.kind <;> cases t'.kind <;> simp

namespace AdmittedGroup

include hg

section

variable (h : OwnProgress admitted members token refused until_ sent cat)

include h

/-- A delete marker was removed before, or by the calls of the worker. -/
lemma marker_removed_iff (hsent : ∀ i ∈ sent, i ∈ groupItems members) (id : RowId) :
    (∃ i ∈ cat.items, i.deleteMarkerId = some id ∧ i.status = .deleted) ↔
      (∃ i ∈ cat₀.items, i.deleteMarkerId = some id ∧ i.status = .deleted) ∨
        ∃ i ∈ sent, refused i.id = false ∧ i.deleteMarkerId = some id := by
  rw [h.items, hg.stored.items_eq, map_append]
  constructor
  · rintro ⟨i', hi', hid, hstatus⟩
    rcases mem_append.mp hi' with hi' | hi'
    · obtain ⟨i, hi, rfl⟩ := mem_map.mp hi'
      rw [hg.resulted_of_old hsent hi] at hid hstatus
      exact .inl ⟨i, hi, hid, hstatus⟩
    · obtain ⟨i, hi, rfl⟩ := mem_map.mp hi'
      obtain ⟨m, hm, him⟩ := exists_member hi
      right
      rw [resulted] at hid hstatus
      split at hstatus
      · rename_i hmem
        rw [if_pos hmem] at hid
        refine ⟨i, (hg.id_mem_sent_iff hsent hi).mp hmem, ?_, hid⟩
        cases hrefused : refused i.id with
        | false => rfl
        | true => simp [hrefused] at hstatus
      · rw [(hg.item_columns hm him).2.2] at hstatus
        cases hstatus
  · rintro (⟨i, hi, hid, hstatus⟩ | ⟨i, hi, hrefused, hid⟩)
    · refine ⟨i, mem_append_left _ (mem_map.mpr ⟨i, hi, ?_⟩), hid, hstatus⟩
      exact hg.resulted_of_old hsent hi
    · refine ⟨resulted sent refused i,
        mem_append_right _ (mem_map_of_mem (hsent i hi)), ?_, ?_⟩
      · rw [resulted, if_pos (mem_map_of_mem hi)]
        exact hid
      · rw [resulted, if_pos (mem_map_of_mem hi), hrefused]
        rfl

/-- **The targets that are left** are those of the request that no call has removed. -/
lemma mem_currentTargets_iff (hsent : ∀ i ∈ sent, i ∈ groupItems members)
    (checkedAt : RowId → Option Stamp) (f : VaultFile) (t : DeletionTarget) :
    t ∈ currentTargets cat (VaultFile.afterCalls (goneVersions sent refused) checkedAt f) ↔
      t ∈ currentTargets cat₀ f ∧ ¬∃ i ∈ sent, refused i.id = false ∧ i.PointsAt t := by
  have hversion : t ∈ versionTargets (f.afterCalls (goneVersions sent refused) checkedAt) ↔
      t ∈ versionTargets f ∧ ¬∃ i ∈ sent, refused i.id = false ∧ i.PointsAt t := by
    simp only [versionTargets, versions_left]
    constructor
    · intro ht
      obtain ⟨w, hw, rfl⟩ := mem_map.mp ht
      simp only [mem_filter, Bool.and_eq_true, decide_eq_true_eq] at hw
      refine ⟨mem_map.mpr ⟨w, mem_filter.mpr ⟨hw.1, decide_eq_true hw.2.1⟩, rfl⟩, ?_⟩
      exact fun hgone => hw.2.2 (mem_goneVersions.mpr hgone)
    · rintro ⟨ht, hleft⟩
      obtain ⟨w, hw, rfl⟩ := mem_map.mp ht
      obtain ⟨hmem, hpurged⟩ := mem_filter.mp hw
      refine mem_map.mpr ⟨w, mem_filter.mpr ⟨hmem, ?_⟩, rfl⟩
      rw [hpurged, Bool.true_and, decide_eq_true_eq]
      exact fun hgone => hleft (mem_goneVersions.mp hgone)
  have hmarker : t ∈ markerTargets cat (f.afterCalls (goneVersions sent refused) checkedAt) ↔
      t ∈ markerTargets cat₀ f ∧ ¬∃ i ∈ sent, refused i.id = false ∧ i.PointsAt t := by
    have hkept : ∀ (c : Catalog) (id : RowId),
        (!c.items.any fun i => decide (i.deleteMarkerId = some id) &&
          decide (i.status = .deleted)) ↔
          ¬∃ i ∈ c.items, i.deleteMarkerId = some id ∧ i.status = .deleted := by
      intro c id
      simp
    simp only [markerTargets, VaultFile.afterCalls]
    constructor
    · intro ht
      obtain ⟨mk, hmk, rfl⟩ := mem_map.mp ht
      obtain ⟨hmem, hremoved⟩ := mem_filter.mp hmk
      rw [hkept, hg.marker_removed_iff h hsent, not_or] at hremoved
      exact ⟨mem_map.mpr ⟨mk, mem_filter.mpr ⟨hmem, (hkept _ _).mpr hremoved.1⟩, rfl⟩,
        hremoved.2⟩
    · rintro ⟨ht, hleft⟩
      obtain ⟨mk, hmk, rfl⟩ := mem_map.mp ht
      obtain ⟨hmem, hremoved⟩ := mem_filter.mp hmk
      refine mem_map.mpr ⟨mk, mem_filter.mpr ⟨hmem, ?_⟩, rfl⟩
      rw [hkept, hg.marker_removed_iff h hsent, not_or]
      exact ⟨(hkept _ _).mp hremoved, hleft⟩
  rw [currentTargets, currentTargets, mem_append, mem_append, hversion, hmarker,
    or_and_right]

end

omit hg in
lemma currentTargets_cases {c : Catalog} {f : VaultFile} (ht : t ∈ currentTargets c f) :
    (∃ w ∈ f.versions, w.availability ≠ .purged ∧
        t = ⟨.version, w.id, w.objectKey, w.providerVersionId, w.size⟩) ∨
      ∃ mk ∈ f.deleteMarkers,
        t = ⟨.deleteMarker, mk.id, mk.objectKey, some mk.providerVersionId, none⟩ := by
  rcases mem_append.mp ht with ht | ht
  · obtain ⟨w, hw, rfl⟩ := mem_map.mp ht
    exact .inl ⟨w, (mem_filter.mp hw).1, by simpa using (mem_filter.mp hw).2, rfl⟩
  · obtain ⟨mk, hmk, rfl⟩ := mem_map.mp ht
    exact .inr ⟨mk, (mem_filter.mp hmk).1, rfl⟩

/-- The targets of a file are different rows. -/
lemma targets_nodup {f : VaultFile} (hf : f ∈ cat₀.files) :
    ((currentTargets cat₀ f).map fun t => (t.kind, t.rowId)).Nodup := by
  have hversions : (f.versions.map ArchiveVersion.id).Nodup := by
    have hkeys := (pairwise_flatMap.mp cat₀.versions_unique).1 f hf
    exact pairwise_map.mpr ((pairwise_map.mp hkeys).imp fun h => h.1)
  have hmarkers : (f.deleteMarkers.map DeleteMarker.id).Nodup :=
    (nodup_flatMap.mp hg.tables.markerIds).1 f hf
  have hkind : ∀ (k : ItemKind) {ids : List RowId}, ids.Nodup → (ids.map fun id => (k, id)).Nodup :=
    fun k _ h => h.map fun _ _ heq => (Prod.mk.inj heq).2
  rw [currentTargets, map_append, nodup_append]
  refine ⟨?_, ?_, ?_⟩
  · have := hkind .version (hversions.sublist
      ((f.versions.filter_sublist (p := fun w => w.availability ≠ .purged)).map _))
    rw [map_map] at this
    rw [versionTargets, map_map]
    exact this
  · have := hkind .deleteMarker (hmarkers.sublist ((f.deleteMarkers.filter_sublist
      (p := fun mk => !cat₀.items.any fun i => i.deleteMarkerId = some mk.id &&
        i.status = .deleted)).map _))
    rw [map_map] at this
    rw [markerTargets, map_map]
    exact this
  · rintro _ ha _ hb rfl
    obtain ⟨t, ht, hkey⟩ := mem_map.mp ha
    obtain ⟨t', ht', hkey'⟩ := mem_map.mp hb
    obtain ⟨w, -, rfl⟩ := mem_map.mp ht
    obtain ⟨mk, -, rfl⟩ := mem_map.mp ht'
    cases congrArg Prod.fst (hkey.trans hkey'.symm)

/-- Only the item of a target points at its row. -/
lemma eq_of_pointsAt (hm : m ∈ members) {i' : DeletionItem} (hi : i ∈ m.items)
    (hi' : i' ∈ groupItems members) (ht : t ∈ currentTargets cat₀ m.file)
    (hit : i = purgeItem m.job.id m.file.id t i.id) (h : i'.PointsAt t) : i' = i := by
  obtain ⟨m', hm', hi'⟩ := exists_member hi'
  obtain ⟨t', ht', hit'⟩ := (hg.stored.admitted m' hm').target_of_item hi'
  have hkey : t'.kind = t.kind ∧ t'.rowId = t.rowId := by
    rw [hit'] at h
    exact pointsAt_purgeItem.mp h
  -- the rows of two files are different
  have hfile : m'.file = m.file := by
    rcases currentTargets_cases ht with ⟨w, hw, -, rfl⟩ | ⟨mk, hmk, rfl⟩
    · rcases currentTargets_cases ht' with ⟨w', hw', -, rfl⟩ | ⟨mk', hmk', rfl⟩
      · exact (cat₀.version_eq_of_id_eq (hg.files m' hm').1 (hg.files m hm).1 hw' hw hkey.2).1
      · exact nomatch hkey.1
    · rcases currentTargets_cases ht' with ⟨w', hw', -, rfl⟩ | ⟨mk', hmk', rfl⟩
      · exact nomatch hkey.1
      · by_contra hne
        have hdisjoint := (nodup_flatMap.mp hg.tables.markerIds).2
        have hsymm : Std.Symm (Function.onFun List.Disjoint
            fun f : VaultFile => f.deleteMarkers.map DeleteMarker.id) :=
          ⟨fun a b hab => List.Disjoint.symm hab⟩
        have hid : mk'.id = mk.id := hkey.2
        have hmem : mk'.id ∈ m.file.deleteMarkers.map DeleteMarker.id :=
          hid ▸ mem_map_of_mem hmk
        exact hdisjoint.forall (hg.files m' hm').1 (hg.files m hm).1 hne
          (mem_map_of_mem hmk') hmem
  obtain rfl := hg.eq_of_file_id hm' hm (congrArg VaultFile.id hfile)
  refine (hg.stored.admitted m' hm').item_unique (hg.targets_nodup (hg.files m' hm').1) hi' hi
    ?_ ?_
  · rw [hit, hit']
    simp only [purgeItem, hkey.1, hkey.2]
  · rw [hit, hit']
    simp only [purgeItem, hkey.1, hkey.2]

end AdmittedGroup

/-! ### The validation after some calls -/

omit hg in
lemma latestVersion_afterCalls (gone : List RowId) (checkedAt : RowId → Option Stamp)
    (f : VaultFile) : (f.afterCalls gone checkedAt).latestVersion =
      newest (f.versions.filter fun w => w.availability ≠ .purged && w.id ∉ gone) := by
  rw [VaultFile.latestVersion, versions_left]

namespace AdmittedGroup

include hg

/-- The paths of the request are still absent. -/
lemma localAbsence_files (hforce : StillInForce vault₀ vault g origin) {files : List VaultFile}
    (hfiles : ∀ f ∈ files, ∃ m ∈ members, f.currentPath = m.file.currentPath) :
    vault.localAbsence (files.filterMap VaultFile.currentPath) := by
  obtain ⟨rooted, absent, habsent⟩ := hforce.checksPaths
  have hvalid := hg.valid
  simp only [validateFiles, Bool.and_eq_true] at hvalid
  have hall := hvalid.2
  rw [← hforce.localAbsence, habsent, Bool.and_eq_true, all_eq_true] at hall
  rw [habsent, Bool.and_eq_true, all_eq_true]
  refine ⟨hall.1, fun p hp => hall.2 p ?_⟩
  obtain ⟨f, hf, hfp⟩ := mem_filterMap.mp hp
  obtain ⟨m, hm, hpath⟩ := hfiles f hf
  exact mem_filterMap.mpr ⟨m.file, mem_map_of_mem hm, hpath ▸ hfp⟩

/-- The paths of the Jobs are relative paths. -/
lemma validPath (hforce : StillInForce vault₀ vault g origin) (hm : m ∈ members) :
    validRelativePath m.job.path := by
  obtain ⟨rooted, absent, habsent⟩ := hforce.checksPaths
  have hall : vault.localAbsence ([m.file].filterMap VaultFile.currentPath) :=
    hg.localAbsence_files hforce fun f hf => ⟨m, hm, by rw [mem_singleton.mp hf]⟩
  rw [habsent, Bool.and_eq_true, all_eq_true] at hall
  have hpath : m.job.path ∈ [m.file].filterMap VaultFile.currentPath :=
    mem_filterMap.mpr ⟨m.file, mem_singleton_self _, (hg.currentPath_eq hm).1⟩
  exact (Bool.and_eq_true_iff.mp (hall.2 _ hpath)).1

variable {checkedAt : RowId → Option Stamp}

/-- **The files the validation selects** are those of the request. -/
lemma selectedFiles_eq (hforce : StillInForce vault₀ vault g origin) {gone : List RowId}
    (hfiles : cat.files = cat₀.files.map (VaultFile.afterCalls gone checkedAt)) :
    ∃ files, selectedFiles cat v ⟨members.map fun m => m.job.path, false, false⟩ = some files ∧
      ∀ f, f ∈ files ↔ ∃ m ∈ members, f = m.file.afterCalls gone checkedAt := by
  have hgood : ¬((members.map fun m => m.job.path) = [] ∨
      ((members.map fun m => m.job.path).any fun p => !validRelativePath p)) := by
    rintro (hnil | hbad)
    · exact hg.nonempty (map_eq_nil_iff.mp hnil)
    · obtain ⟨p, hp, hbad⟩ := any_eq_true.mp hbad
      obtain ⟨m, hm, rfl⟩ := mem_map.mp hp
      rw [hg.validPath hforce hm] at hbad
      cases hbad
  have hsel : selectedFiles cat v ⟨members.map fun m => m.job.path, false, false⟩ =
      some (cat.files.filter fun f => f.vaultId = v && f.currentPath.any
        (Selection.covers ⟨members.map fun m => m.job.path, false, false⟩)) := by
    rw [selectedFiles, if_neg Bool.false_ne_true, if_neg hgood]
  refine ⟨_, hsel, fun f => ?_⟩
  have hcovers : ∀ q, Selection.covers ⟨members.map fun m => m.job.path, false, false⟩ q ↔
      ∃ m ∈ members, q = m.job.path := by
    intro q
    simp [Selection.covers]
  simp only [mem_filter, Bool.and_eq_true, decide_eq_true_eq, Option.any_eq_true, hcovers,
    hfiles, mem_map]
  constructor
  · rintro ⟨⟨f₀, hf₀, rfl⟩, hv, q, hq, m, hm, rfl⟩
    refine ⟨m, hm, ?_⟩
    rw [cat₀.eq_of_path_eq hf₀ (hg.files m hm).1 (hv.trans (hg.files m hm).2.symm) hq
      (hg.currentPath_eq hm).1]
  · rintro ⟨m, hm, rfl⟩
    exact ⟨⟨m.file, (hg.files m hm).1, rfl⟩, (hg.files m hm).2, m.job.path,
      (hg.currentPath_eq hm).1, m, hm, rfl⟩

/-- Nothing else is pending for a file of the request. -/
lemma otherPendingWork_eq {expiry : JobId → Stamp}
    (hjobs : cat.jobs = cat₀.jobs ++ members.map fun m => leasedJob token expiry m.job)
    (hm : m ∈ members) : otherPendingWork cat m.file.id (some g) = false := by
  have hnone := (hg.member_valid hm).2.1
  rw [otherPendingWork, any_eq_false] at hnone
  rw [otherPendingWork, any_eq_false, hjobs]
  intro j hj
  rcases mem_append.mp hj with hj | hj
  · have := hnone j hj
    simp_all
  · obtain ⟨m', hm', rfl⟩ := mem_map.mp hj
    simp [(hg.leased_columns hm' token expiry).2.1]

/-- **The files of the request** pass their checks as long as they stay Cloud-only. -/
lemma validateFiles_iff (h : OwnProgress admitted members token refused until_ sent cat)
    (hforce : StillInForce vault₀ vault g origin) (hsent : ∀ i ∈ sent, i ∈ groupItems members)
    {files : List VaultFile} (hfiles : ∀ f, f ∈ files ↔
      ∃ m ∈ members, f = m.file.afterCalls (goneVersions sent refused) checkedAt) :
    validateFiles cat vault (files.filter fun f => f.latestVersion.isSome) (some g) ↔
      ∀ m ∈ members, m.file.StaysCloudOnly (goneVersions sent refused) := by
  obtain ⟨expiry, -, hjobs⟩ := hg.jobs_eq h
  have hunconfirmed : vault.unconfirmed = false := by
    have hvalid := hg.valid
    simp only [validateFiles, Bool.and_eq_true, Bool.not_eq_true'] at hvalid
    rw [hforce.unconfirmed, hvalid.1.1]
  have habsent : vault.localAbsence
      ((files.filter fun f => f.latestVersion.isSome).filterMap VaultFile.currentPath) := by
    refine hg.localAbsence_files hforce fun f hf => ?_
    obtain ⟨m, hm, rfl⟩ := (hfiles f).mp (mem_filter.mp hf).1
    exact ⟨m, hm, rfl⟩
  rw [validateFiles, hunconfirmed, habsent, Bool.not_false, Bool.true_and, Bool.and_true,
    all_eq_true]
  constructor
  · intro hall m hm w hw
    have hlatest := latestVersion_afterCalls (goneVersions sent refused) checkedAt m.file
    rw [hw] at hlatest
    have hcloud := hall _ (mem_filter.mpr ⟨(hfiles _).mpr ⟨m, hm, rfl⟩, by rw [hlatest]; rfl⟩)
    simp only [isCloudOnlyFile, hlatest, Option.any_some, Bool.and_eq_true,
      decide_eq_true_eq] at hcloud
    exact hcloud.1.1.1.2
  · intro hstays f hf
    obtain ⟨hf, hsome⟩ := mem_filter.mp hf
    obtain ⟨m, hm, rfl⟩ := (hfiles f).mp hf
    obtain ⟨w, hw⟩ := Option.isSome_iff_exists.mp hsome
    obtain ⟨hcloud, -, hexact⟩ := hg.member_valid hm
    obtain ⟨hintegrity, havailability⟩ := hstays m hm w (latestVersion_afterCalls _ _ _ ▸ hw)
    have hpending : otherPendingWork cat m.file.id (some g) = false :=
      hg.otherPendingWork_eq hjobs hm
    simp only [isCloudOnlyFile, Bool.and_eq_true] at hcloud
    obtain ⟨⟨⟨hpresence, hheld⟩, -⟩, hpath⟩ := hcloud
    rw [Bool.and_eq_true, Bool.and_eq_true, all_eq_true]
    refine ⟨⟨?_, ?_⟩, fun t ht => ?_⟩
    · rw [isCloudOnlyFile, hw, Option.any_some, hintegrity, havailability]
      simp only [decide_true, Bool.and_true, Bool.and_eq_true]
      exact ⟨⟨hpresence, hheld⟩, hpath⟩
    · rw [Bool.not_eq_true']
      exact hpending
    · have hold := hexact t ((hg.mem_currentTargets_iff h hsent checkedAt m.file t).mp ht).1
      rw [DeletionTarget.exact] at hold ⊢
      rwa [hforce.ownsKey]

/-- The items of a Job of the group, with their results. -/
lemma mem_items_iff (h : OwnProgress admitted members token refused until_ sent cat)
    (hm : m ∈ members) (i' : DeletionItem) :
    i' ∈ cat.items.filter (fun i => i.jobId = m.job.id) ↔
      ∃ i ∈ m.items, i' = resulted sent refused i := by
  have hjobId : ∀ i, (resulted sent refused i).jobId = i.jobId := by
    intro i
    unfold resulted
    split <;> rfl
  rw [h.items, hg.stored.items_eq, mem_filter, decide_eq_true_eq]
  constructor
  · rintro ⟨hi', hjob⟩
    obtain ⟨i, hi, rfl⟩ := mem_map.mp hi'
    rw [hjobId] at hjob
    rcases mem_append.mp hi with hi | hi
    · obtain ⟨j, hj, hji⟩ := mem_map.mp (hg.tables.itemJobs i hi)
      exact absurd (mem_map.mpr ⟨m, hm, (hji.trans hjob).symm⟩) (hg.id_not_mem hj)
    · obtain ⟨m', hm', hi⟩ := exists_member hi
      have hsame := hg.eq_of_job_id hm' hm ((hg.item_columns hm' hi).1.symm.trans hjob)
      exact ⟨i, hsame ▸ hi, rfl⟩
  · rintro ⟨i, hi, rfl⟩
    refine ⟨mem_map_of_mem (mem_append_right _ (mem_flatMap.mpr ⟨m, hm, hi⟩)), ?_⟩
    rw [hjobId]
    exact (hg.item_columns hm hi).1

lemma items_ne_nil (hm : m ∈ members) : m.items ≠ [] := by
  have hcloud := (hg.member_valid hm).1
  simp only [isCloudOnlyFile, Bool.and_eq_true, Option.any_eq_true] at hcloud
  obtain ⟨w, hw, -⟩ := hcloud.1.2
  have hmem := newest_mem hw
  obtain ⟨i, hi, -⟩ := (hg.stored.admitted m hm).item_of_target
    (t := ⟨.version, w.id, w.objectKey, w.providerVersionId, w.size⟩)
    (mem_append_left _ (mem_map.mpr ⟨w, hmem, rfl⟩))
  exact ne_nil_of_mem hi

/-- The columns of an item are those of its target. -/
lemma item_target (hm : m ∈ members) (ht : t ∈ currentTargets cat₀ m.file)
    (hit : i = purgeItem m.job.id m.file.id t i.id) :
    i.objectKey = t.objectKey ∧ some i.providerVersionId = t.providerVersionId ∧
      i.providerVersionId ≠ nullVersionId := by
  have hexact := (hg.member_valid hm).2.2 t ht
  simp only [DeletionTarget.exact, Bool.and_eq_true, Option.any_eq_true,
    decide_eq_true_eq] at hexact
  obtain ⟨⟨n, hn, hne⟩, -⟩ := hexact
  rw [hit]
  simp only [purgeItem, hn, Option.getD_some, true_and]
  exact hne

/-- The rows of the items are as they were. -/
lemma itemUnchanged_resulted (hfiles : cat.files =
      cat₀.files.map (VaultFile.afterCalls (goneVersions sent refused) checkedAt))
    (hm : m ∈ members) (hi : i ∈ m.items) :
    itemUnchanged cat m.file.id (resulted sent refused i) := by
  have hmem : m.file.afterCalls (goneVersions sent refused) checkedAt ∈ cat.files :=
    hfiles ▸ mem_map_of_mem (hg.files m hm).1
  rw [show itemUnchanged cat m.file.id (resulted sent refused i) =
    itemUnchanged cat m.file.id i by unfold resulted; split <;> rfl]
  obtain ⟨t, ht, hit⟩ := (hg.stored.admitted m hm).target_of_item hi
  obtain ⟨hkey, hversion, hne⟩ := hg.item_target hm ht hit
  rcases currentTargets_cases ht with ⟨w, hw, -, rfl⟩ | ⟨mk, hmk, rfl⟩
  · have hkind : i.kind = .version ∧ i.archiveVersionId = some w.id := by
      rw [hit]
      exact ⟨rfl, rfl⟩
    simp only [itemUnchanged, hkind.1, hkind.2, Bool.and_eq_true, any_eq_true,
      decide_eq_true_eq]
    refine ⟨hne, _, hmem, rfl, _, mem_map_of_mem hw, ?_⟩
    split <;> exact ⟨⟨rfl, hkey.symm⟩, hversion.symm⟩
  · have hkind : i.kind = .deleteMarker ∧ i.deleteMarkerId = some mk.id := by
      rw [hit]
      exact ⟨rfl, rfl⟩
    simp only [itemUnchanged, hkind.1, hkind.2, Bool.and_eq_true, any_eq_true,
      decide_eq_true_eq]
    exact ⟨hne, _, hmem, rfl, mk, hmk, ⟨rfl, hkey.symm⟩, (Option.some.inj hversion).symm⟩

/-- **The consent of every Job** covers what is left in the cloud. -/
lemma consentCovers_leased (h : OwnProgress admitted members token refused until_ sent cat)
    (hsent : ∀ i ∈ sent, i ∈ groupItems members) (hm : m ∈ members) (expiry : JobId → Stamp) :
    consentCovers cat (leasedJob token expiry m.job) := by
  obtain ⟨checkedAt, hfiles⟩ := h.files
  rw [hg.stored.files_eq] at hfiles
  have hmem : m.file.afterCalls (goneVersions sent refused) checkedAt ∈ cat.files :=
    hfiles ▸ mem_map_of_mem (hg.files m hm).1
  have hfile : cat.file? m.file.id =
      some (m.file.afterCalls (goneVersions sent refused) checkedAt) := cat.file?_eq_of_mem hmem
  have hleft := hg.mem_currentTargets_iff h hsent checkedAt m.file
  have hitems := hg.mem_items_iff h hm
  have hid : (leasedJob token expiry m.job).vaultFileId = m.file.id :=
    (hg.leased_columns hm token expiry).2.2.2
  have hjob : (leasedJob token expiry m.job).id = m.job.id := rfl
  simp only [consentCovers, hid, hjob, hfile, Option.map_some, Option.getD_some,
    Bool.and_eq_true, Bool.or_eq_true, decide_eq_true_eq, all_eq_true, any_eq_true]
  refine ⟨⟨⟨?_, ?_⟩, fun t ht => ?_⟩, fun i' hi' => ?_⟩
  · refine or_iff_not_imp_left.mpr fun hnone i' hi' => ?_
    obtain ⟨i, hi, rfl⟩ := (hitems i').mp hi'
    obtain ⟨t, ht, hit⟩ := (hg.stored.admitted m hm).target_of_item hi
    -- the target is gone, so its item was sent and not refused
    have hgone : ∃ i₁ ∈ sent, refused i₁.id = false ∧ i₁.PointsAt t := by
      by_contra hno
      rw [not_not] at hnone
      have hcurrent := (hleft t).mpr ⟨ht, hno⟩
      rw [hnone] at hcurrent
      cases hcurrent
    obtain ⟨i₁, hi₁, hrefused, hpoints⟩ := hgone
    obtain rfl := hg.eq_of_pointsAt hm hi (hsent i₁ hi₁) ht hit hpoints
    rw [resulted, if_pos (mem_map_of_mem hi₁), hrefused]
    rfl
  · obtain ⟨i, hi⟩ := exists_mem_of_ne_nil _ (hg.items_ne_nil hm)
    exact ne_nil_of_mem ((hitems _).mpr ⟨i, hi, rfl⟩)
  · obtain ⟨ht, -⟩ := (hleft t).mp ht
    obtain ⟨i, hi, hit⟩ := (hg.stored.admitted m hm).item_of_target ht
    obtain ⟨hkey, hversion, -⟩ := hg.item_target hm ht hit
    refine ⟨_, (hitems _).mpr ⟨i, hi, rfl⟩, ?_⟩
    unfold resulted
    split <;> exact ⟨hkey, hversion⟩
  · obtain ⟨i, hi, rfl⟩ := (hitems i').mp hi'
    exact hg.itemUnchanged_resulted hfiles hm hi

/-- **When the group is still authorised**: while every file of it stays Cloud-only. -/
theorem executionAuthorised_iff (h : OwnProgress admitted members token refused until_ sent cat)
    (hforce : StillInForce vault₀ vault g origin) (hsent : ∀ i ∈ sent, i ∈ groupItems members)
    {at_ : Stamp} (hdue : requestedAt + deletionDelaySeconds ≤ at_) :
    executionAuthorised vault cat v g at_ = true ↔
      ∀ m ∈ members, m.file.StaysCloudOnly (goneVersions sent refused) := by
  obtain ⟨checkedAt, hfiles⟩ := h.files
  rw [hg.stored.files_eq] at hfiles
  obtain ⟨expiry, -, hjobs⟩ := hg.jobs_eq h
  obtain ⟨files, hsel, hmem⟩ := hg.selectedFiles_eq hforce hfiles
  have hactive := hg.activePurges_eq hjobs
  have hall : ∀ p : Job → Bool, (∀ m ∈ members, p (leasedJob token expiry m.job) = true) →
      (members.map fun m => leasedJob token expiry m.job).all p = true := by
    intro p hp
    rw [all_map, all_eq_true]
    exact hp
  have horigin : ∀ m ∈ members, (leasedJob token expiry m.job).origin = origin := by
    intro m hm
    rw [leasedJob, hg.job_eq hm]
    rfl
  have hauthority : (if vault.decommissionState = .active then
      vault.enabled && (members.map fun m => leasedJob token expiry m.job).all
        fun j => decide (j.origin = .manual)
      else decide (vault.decommissionState = .decommissioning) &&
        decide (vault.stopGroup = some g) &&
        (members.map fun m => leasedJob token expiry m.job).all
          fun j => decide (j.origin = .stopProtection)) = true := by
    have hin := hforce.authority
    split <;> rename_i hstate
    · rw [if_pos hstate] at hin
      rw [hin.1, Bool.true_and]
      exact hall _ fun m hm => decide_eq_true ((horigin m hm).trans hin.2)
    · rw [if_neg hstate] at hin
      rw [decide_eq_true hin.1, decide_eq_true hin.2.1, Bool.true_and, Bool.true_and]
      exact hall _ fun m hm => decide_eq_true ((horigin m hm).trans hin.2.2)
  have hdelay : (members.map fun m => leasedJob token expiry m.job).all (fun j =>
      decide (j.requestedAt + deletionDelaySeconds ≤ at_) && j.pendingUntil.any (· ≤ at_)) =
        true := by
    refine hall _ fun m hm => ?_
    have hrequested : (leasedJob token expiry m.job).requestedAt = requestedAt := by
      rw [leasedJob, hg.job_eq hm]
      rfl
    have huntil : (leasedJob token expiry m.job).pendingUntil =
        some (requestedAt + deletionDelaySeconds) := by
      rw [leasedJob, hg.job_eq hm]
      rfl
    rw [hrequested, huntil, Option.any_some, decide_eq_true hdue, Bool.and_self]
  have hpaths : (members.map fun m => leasedJob token expiry m.job).map Job.path =
      members.map fun m => m.job.path := by
    rw [map_map]
    rfl
  have hknown : files.all (fun f => (members.map fun m => leasedJob token expiry m.job).any
      fun j => decide (j.vaultFileId = f.id)) = true := by
    refine all_eq_true.mpr fun f hf => ?_
    obtain ⟨m, hm, rfl⟩ := (hmem f).mp hf
    exact any_eq_true.mpr ⟨_, mem_map_of_mem hm,
      decide_eq_true (hg.leased_columns hm token expiry).2.2.2⟩
  have hfound : (members.map fun m => leasedJob token expiry m.job).all (fun j => files.any
      fun f => decide (j.vaultFileId = f.id)) = true := by
    refine hall _ fun m hm => any_eq_true.mpr ⟨_, (hmem _).mpr ⟨m, hm, rfl⟩, ?_⟩
    exact decide_eq_true (hg.leased_columns hm token expiry).2.2.2
  have habsent : vault.localAbsence (files.filterMap VaultFile.currentPath) = true := by
    refine hg.localAbsence_files hforce fun f hf => ?_
    obtain ⟨m, hm, rfl⟩ := (hmem f).mp hf
    exact ⟨m, hm, rfl⟩
  have hconsent : (members.map fun m => leasedJob token expiry m.job).all (consentCovers cat) =
      true := hall _ fun m hm => hg.consentCovers_leased h hsent hm expiry
  rw [← hg.validateFiles_iff h hforce hsent hmem]
  simp only [executionAuthorised, hactive, hpaths, hsel, hauthority, hdelay, hknown, hfound,
    habsent, hconsent, hforce.rooted, hg.nonempty, ne_eq, map_eq_nil_iff, not_false_eq_true,
    decide_true, Bool.not_false, Bool.and_true, Bool.true_and]

end AdmittedGroup

end Group

end Frostvault
