import Frostvault.Deletion.Reappearance

/-!
The scope of a deletion (`validate_execution` of `app/services/cloud_deletion.py` and
`process_cloud_purge` of `app/storage.py`).

Every exact target a worker sends to `DeleteObjects` was captured when the request was
admitted, and the call follows a validation of the whole group that no earlier call has used.
The validation reads the recorded Local Copy of a file only as long as the file has a version
that is not purged; that nothing is on disk it proves for every file.

* `Validation.Authorises`: what a validation has established;
* `authorises_of_executionAuthorised`: the checks of `validate_execution` establish it;
* `DeletionAuthorised`: a call of the provider and the history before it;
* `deletions_authorised`: **every call of every run is authorised**.
-/

namespace Frostvault

open Runs List

/-! ### What a validation establishes -/

/-- What a validation has established.  `recorded` are the files whose recorded Local Copy it
has looked at. -/
structure Validation.Authorises (recorded : VaultFile → Bool) (val : Validation) : Prop where
  /-- The seven days are over for every Job of the group. -/
  due : ∀ j ∈ activePurges val.before val.vaultId val.groupId,
    j.requestedAt + deletionDelaySeconds ≤ val.at_
  /-- Nothing is on disk at the path of a selected file. -/
  absent : ∃ paths, val.vault.localAbsence paths = true ∧
    ∀ j ∈ activePurges val.before val.vaultId val.groupId, ∃ f ∈ val.before.files,
      f.id = j.vaultFileId ∧ ∃ p ∈ paths, f.currentPath = some p
  /-- No selected file is recorded as there, or held back. -/
  unheld : ∀ j ∈ activePurges val.before val.vaultId val.groupId, ∀ f ∈ val.before.files,
    f.id = j.vaultFileId → recorded f = true → ∀ lc, f.localCopy = some lc →
      lc.presence = .missing ∧ lc.cloudOnlyVersionId = none
  /-- No other Job of a selected file is open. -/
  alone : ∀ j ∈ activePurges val.before val.vaultId val.groupId, ∀ k ∈ val.before.jobs,
    k.vaultFileId = j.vaultFileId → k.status.terminal = false → k = j
  /-- Every version and marker that is left was captured. -/
  covered : ∀ j ∈ activePurges val.before val.vaultId val.groupId, ∀ f ∈ val.before.files,
    f.id = j.vaultFileId → ∀ t ∈ currentTargets val.before f, ∃ i ∈ val.before.items,
      i.jobId = j.id ∧ i.objectKey = t.objectKey ∧ some i.providerVersionId = t.providerVersionId
  /-- Every captured target still is the row of the file it was taken from. -/
  unchanged : ∀ j ∈ activePurges val.before val.vaultId val.groupId, ∀ i ∈ val.before.items,
    i.jobId = j.id → itemUnchanged val.before j.vaultFileId i = true
  /-- The worker has renewed the lease of the group. -/
  renewed : ∀ j ∈ activePurges val.before val.vaultId val.groupId,
    ∃ j' ∈ activePurges val.after val.vaultId val.groupId, j'.id = j.id ∧
      j'.status = .cleaning ∧ j'.claimToken = some val.token ∧
        j'.claimExpiresAt = some val.expires

/-- The file still has a version that is not purged. -/
def hasLatestVersion (f : VaultFile) : Bool := f.latestVersion.isSome

variable {cat cat' : Catalog} {v : VaultId} {g : GroupId}

lemma OneActiveFile.eq (h : OneActiveFile cat) {j k : Job} (hj : j ∈ cat.jobs) (hk : k ∈ cat.jobs)
    (hjo : j.status.terminal = false) (hko : k.status.terminal = false)
    (hfile : k.vaultFileId = j.vaultFileId) : k = j := by
  refine inj_on_of_nodup_map h (mem_filter.mpr ⟨hk, ?_⟩)
    (mem_filter.mpr ⟨hj, ?_⟩) hfile
  · rw [hko]
    rfl
  · rw [hjo]
    rfl

lemma mem_activePurges_iff {j : Job} :
    j ∈ activePurges cat v g ↔ j ∈ purgeJobs cat ∧ j.vaultId = v ∧ j.groupId = some g ∧
      j.status.terminal = false := by
  rw [activePurges, mem_filter, mem_purgeGroup, Bool.not_eq_true']
  simp only [and_assoc]

/-- The files a validation selects are the files of the active Jobs. -/
lemma executionAuthorised_files {vault : VaultView} {at_ : Stamp}
    (h : executionAuthorised vault cat v g at_) :
    ∃ files : List VaultFile, (∀ f ∈ files, f ∈ cat.files) ∧
      (∀ j ∈ activePurges cat v g, ∃ f ∈ files, j.vaultFileId = f.id ∧ f.currentPath.isSome) ∧
      vault.localAbsence (files.filterMap VaultFile.currentPath) ∧
      validateFiles cat vault (files.filter fun f => f.latestVersion.isSome) (some g) := by
  simp only [executionAuthorised, Bool.and_eq_true] at h
  obtain ⟨-, h⟩ := h
  cases hsel : selectedFiles cat v ⟨(activePurges cat v g).map Job.path, false, false⟩ with
  | none => simp [hsel] at h
  | some files =>
      simp only [hsel, Bool.and_eq_true, all_eq_true, any_eq_true,
        decide_eq_true_eq] at h
      obtain ⟨⟨⟨⟨-, hjobs⟩, habs⟩, hval⟩, -⟩ := h
      have hfiles : ∀ f ∈ files, f ∈ cat.files ∧ f.currentPath.isSome := by
        intro f hf
        simp only [selectedFiles, Bool.false_eq_true, if_false] at hsel
        split at hsel
        · cases hsel
        · rw [← Option.some.inj hsel] at hf
          simp only [mem_filter, Bool.and_eq_true] at hf
          exact ⟨hf.1, Option.isSome_of_any hf.2.2⟩
      refine ⟨files, fun f hf => (hfiles f hf).1, fun j hj => ?_, habs, hval⟩
      obtain ⟨f, hf, hid⟩ := hjobs j hj
      exact ⟨f, hf, hid, (hfiles f hf).2⟩

lemma executionAuthorised_jobs {vault : VaultView} {at_ : Stamp}
    (h : executionAuthorised vault cat v g at_) :
    ∀ j ∈ activePurges cat v g, j.requestedAt + deletionDelaySeconds ≤ at_ ∧
      consentCovers cat j := by
  simp only [executionAuthorised, Bool.and_eq_true, all_eq_true, decide_eq_true_eq] at h
  obtain ⟨⟨-, hdue⟩, h⟩ := h
  intro j hj
  refine ⟨(hdue j hj).1, ?_⟩
  split at h
  · cases h
  · simp only [Bool.and_eq_true, all_eq_true] at h
    exact h.2 j hj

/-- What a renewal has counted are active members of the group. -/
lemma exists_active_of_renewed {token : ℕ} {expected : List JobId} {now expires : Stamp}
    (h : renewPurgeGroupClaim cat v g token expected now expires = some cat') {n : JobId}
    (hn : n ∈ expected) : ∃ j ∈ activePurges cat v g, j.id = n ∧
      j.purgeClaimed v g token now := by
  obtain ⟨k, hk, hclaimed, hid⟩ := ((renewPurgeGroupClaim_cases h).1 n).mp hn
  obtain ⟨hv, hg, hact, hst, -⟩ := Job.purgeClaimed_iff.mp hclaimed
  refine ⟨k, mem_activePurges_iff.mpr ⟨mem_purgeJobs.mpr ⟨hk, hact⟩, hv, hg, ?_⟩, hid, hclaimed⟩
  rw [hst]
  rfl

/-- **What the checks of `validate_execution` establish**, in a catalog that keeps its index and
with a renewal in the same transaction. -/
lemma authorises_of_executionAuthorised {val : Validation} {now : Stamp}
    (hone : OneActiveFile val.before) (hexp : ∀ j ∈ activePurges val.before val.vaultId val.groupId,
      j.id ∈ val.expected.map Prod.fst)
    (hauth : executionAuthorised val.vault val.before val.vaultId val.groupId val.at_)
    (hrenew : renewPurgeGroupClaim val.before val.vaultId val.groupId val.token
      (val.expected.map Prod.fst) now val.expires = some val.after) :
    val.Authorises hasLatestVersion := by
  obtain ⟨files, hfiles, hsel, habs, hval⟩ := executionAuthorised_files hauth
  have hjobs := executionAuthorised_jobs hauth
  have hfile : ∀ j ∈ activePurges val.before val.vaultId val.groupId, ∀ f ∈ val.before.files,
      f.id = j.vaultFileId → f ∈ files := by
    intro j hj f hf hid
    obtain ⟨f', hf', hid', -⟩ := hsel j hj
    rwa [val.before.eq_of_id_eq hf (hfiles f' hf') (hid.trans hid')]
  refine
    { due := fun j hj => (hjobs j hj).1
      absent := ⟨_, habs, fun j hj => ?_⟩
      unheld := fun j hj f hf hid hrec lc hlc => ?_
      alone := fun j hj k hk hfile hopen => ?_
      covered := fun j hj f hf hid t ht => ?_
      unchanged := fun j hj i hi hid => ?_
      renewed := fun j hj => ?_ }
  · obtain ⟨f, hf, hid, hp⟩ := hsel j hj
    obtain ⟨p, hp⟩ := Option.isSome_iff_exists.mp hp
    exact ⟨f, hfiles f hf, hid.symm, p, mem_filterMap.mpr ⟨f, hf, hp⟩, hp⟩
  · simp only [validateFiles, Bool.and_eq_true, all_eq_true, mem_filter] at hval
    have hcloud := (hval.1.2 f ⟨hfile j hj f hf hid, hrec⟩).1.1
    simp only [isCloudOnlyFile, hlc, Option.map_some, Option.all_some, Option.bind_some,
      Bool.and_eq_true, decide_eq_true_eq, Option.isNone_iff_eq_none] at hcloud
    exact hcloud.1.1
  · obtain ⟨hj, -, -, hopen'⟩ := mem_activePurges_iff.mp hj
    exact hone.eq (mem_purgeJobs.mp hj).1 hk hopen' hopen hfile
  · have hcov := (hjobs j hj).2
    simp only [consentCovers, Bool.and_eq_true, all_eq_true, any_eq_true,
      decide_eq_true_eq, mem_filter] at hcov
    have hfind : val.before.file? j.vaultFileId = some f := hid ▸ val.before.file?_eq_of_mem hf
    simp only [hfind, Option.map_some, Option.getD_some] at hcov
    obtain ⟨i, ⟨hi, hij⟩, hkey, hver⟩ := hcov.1.2 t ht
    exact ⟨i, hi, hij, hkey, hver⟩
  · have hcov := (hjobs j hj).2
    simp only [consentCovers, Bool.and_eq_true, all_eq_true, decide_eq_true_eq,
      mem_filter] at hcov
    exact hcov.2 i ⟨hi, hid⟩
  · obtain ⟨k, hk, hid, hclaimed⟩ := exists_active_of_renewed hrenew (hexp j hj)
    obtain ⟨hk, hv, hg, hopen⟩ := mem_activePurges_iff.mp hk
    obtain ⟨hk, hact⟩ := mem_purgeJobs.mp hk
    obtain ⟨-, -, -, hst, htok, -⟩ := Job.purgeClaimed_iff.mp hclaimed
    have hmem : { k with claimExpiresAt := some val.expires } ∈ val.after.jobs := by
      rw [(renewPurgeGroupClaim_cases hrenew).2]
      exact mem_map.mpr ⟨k, hk, if_pos hclaimed⟩
    exact ⟨_, mem_activePurges_iff.mpr ⟨mem_purgeJobs.mpr ⟨hmem, hact⟩, hv, hg, hopen⟩, hid, hst,
      htok, rfl⟩

/-! ### Calls of the provider -/

/-- The group of the worker is validated for this batch: every target of it belongs to a Job
the validation has looked at, and to the file of that Job. -/
def ValidatedFor (recorded : VaultFile → Bool) (token : ℕ) (v : VaultId) (g : GroupId)
    (batch : List DeletionItem) : PurgeEvent → Prop
  | .validated val => val.token = token ∧ val.vaultId = v ∧ val.groupId = g ∧
      (∀ i ∈ batch, ∃ j ∈ activePurges val.before v g,
        j.id = i.jobId ∧ j.vaultFileId = i.vaultFileId) ∧ val.Authorises recorded
  | _ => False

/-- A call of the worker. -/
def PurgeEvent.CallOf (token : ℕ) : PurgeEvent → Prop
  | .deleteObjects t _ _ _ => t = token
  | _ => False

/-- **An authorised call**: its targets were captured for the group, and the group was validated
and renewed by the worker after its previous call. -/
def DeletionAuthorised (recorded : VaultFile → Bool) (h : List PurgeEvent) : PurgeEvent → Prop
  | .deleteObjects token v g batch => (∀ i ∈ batch, Captured h v g i) ∧
      History.Since (fun _ => ValidatedFor recorded token v g batch) (PurgeEvent.CallOf token) h
  | _ => True

/-- The claimed Jobs of a point of the program. -/
def PurgePhase.expected : PurgePhase → List (JobId × FileId)
  | .claimed => []
  | .between expected _ => expected
  | .authorised expected _ _ => expected
  | .answered expected _ _ _ => expected

/-- What a worker has established for its next call. -/
structure PurgeWorker.Prepared (cat : Catalog) (log : List PurgeEvent) (k : PurgeWorker) :
    Prop where
  group : k.phase ≠ .claimed → ∀ j ∈ activePurges cat k.vaultId k.groupId,
    j.id ∈ k.phase.expected.map Prod.fst
  items : ∀ i ∈ k.phase.items, i.jobId ∈ k.phase.expected.map Prod.fst
  validated : ∀ expected batch batches, k.phase = .authorised expected batch batches →
    History.Since (fun _ => ValidatedFor hasLatestVersion k.token k.vaultId k.groupId batch)
      (PurgeEvent.CallOf k.token) log

/-- The invariant of the calls. -/
structure PurgeWorld.Authorised (w : PurgeWorld) : Prop where
  one : OneActiveFile w.cat
  calls : History.Always (DeletionAuthorised hasLatestVersion) w.log
  workers : ∀ k ∈ w.workers, k.Prepared w.cat w.log

variable {w w' : PurgeWorld}

variable {a : DeletionAct} {k : PurgeWorker}

/-- Active members come from active members. -/
lemma activePurges_of_act (hs : w.Sound) (h : w.act a = some w') (hk : k ∈ w.workers) {j' : Job}
    (hj' : j' ∈ activePurges w'.cat k.vaultId k.groupId) :
    ∃ j ∈ activePurges w.cat k.vaultId k.groupId, j.id = j'.id := by
  obtain ⟨hj', hv, hg, hopen⟩ := mem_activePurges_iff.mp hj'
  cases ha : a.admits with
  | false =>
      obtain ⟨f, t, m⟩ := purgeMoves_of_act hs.delayed ha h
      obtain ⟨j, hj, -, hadv⟩ := m.exists_job hj'
      refine ⟨j, mem_activePurges_iff.mpr ⟨hj, hadv.vaultId_eq ▸ hv, hadv.groupId_eq ▸ hg, ?_⟩,
        hadv.id_eq.symm⟩
      cases hterm : j.status.terminal with
      | false => rfl
      | true => rw [hadv.ended hterm] at hopen; cases hopen
  | true =>
      cases a with
      | schedule vaults u sel requestedAt confirmation reason origin =>
          obtain ⟨jobs, items, hadm, -⟩ := PurgeWorld.schedule_cases h
          rw [hadm.purgeJobs_eq] at hj'
          rcases mem_append.mp hj' with hj' | hj'
          · exact ⟨j', mem_activePurges_iff.mpr ⟨hj', hv, hg, hopen⟩, rfl⟩
          · obtain ⟨l, hl, -, -, hlg⟩ := (hs.workers k hk).lead
            have hnew : k.groupId = freshGroupId w.cat :=
              Option.some.inj (hg.symm.trans (hadm.waiting j' hj').2.1)
            exact absurd hnew (groupId_ne_freshGroupId (mem_purgeJobs.mp hl).1 hlg)
      | _ => cases ha

lemma PurgeWorker.Prepared.step (hs : w.Sound) (h : w.act a = some w') (hk : k ∈ w.workers)
    (hp : k.Prepared w.cat w.log) {es : List PurgeEvent} (hlog : w'.log = w.log ++ es)
    (hes : ∀ e ∈ es, ¬ e.CallOf k.token) : k.Prepared w'.cat w'.log where
  group hne j' hj' := by
    obtain ⟨j, hj, hid⟩ := activePurges_of_act hs h hk hj'
    exact hid ▸ hp.group hne j hj
  items := hp.items
  validated expected batch batches hphase := by
    rw [hlog]
    exact (hp.validated expected batch batches hphase).append hes

/-- Another point of the program with the same Jobs, and before the next validation. -/
lemma PurgeWorker.Prepared.phase {log : List PurgeEvent} (hp : k.Prepared cat log) {p : PurgePhase}
    (hk : k.phase ≠ .claimed) (hexp : p.expected = k.phase.expected)
    (hitems : ∀ i ∈ p.items, i ∈ k.phase.items)
    (hval : ∀ expected batch batches, p = .authorised expected batch batches →
      History.Since (fun _ => ValidatedFor hasLatestVersion k.token k.vaultId k.groupId batch)
      (PurgeEvent.CallOf k.token) log) :
    PurgeWorker.Prepared cat log { k with phase := p } where
  group _ j hj := by
    simp only [hexp]
    exact hp.group hk j hj
  items i hi := by
    simp only [hexp]
    exact hp.items i (hitems i hi)
  validated := hval

namespace PurgeWorld.Authorised

lemma of_quiet (hw : w.Authorised) (hs : w.Sound) (h : w.act a = some w')
    (hone : OneActiveFile w'.cat) (hlog : w'.log = w.log)
    (hworkers : ∀ k ∈ w'.workers, k ∈ w.workers ∨ k.Prepared w'.cat w'.log) :
    w'.Authorised where
  one := hone
  calls := by
    rw [hlog]
    exact hw.calls
  workers k hk := by
    rcases hworkers k hk with hk | hk
    · have hlog' : w'.log = w.log ++ [] := by rw [hlog, append_nil]
      exact (hw.workers k hk).step hs h hk hlog' (by simp)
    · exact hk

lemma of_event {e : PurgeEvent} (hw : w.Authorised) (hs : w.Sound) (h : w.act a = some w')
    (hone : OneActiveFile w'.cat) (hlog : w'.log = w.log ++ [e])
    (he : DeletionAuthorised hasLatestVersion w.log e)
    (hworkers : ∀ k ∈ w'.workers, (k ∈ w.workers ∧ ¬ e.CallOf k.token) ∨
      k.Prepared w'.cat w'.log) : w'.Authorised where
  one := hone
  calls := by
    rw [hlog]
    exact History.always_concat.mpr ⟨hw.calls, he⟩
  workers k hk := by
    rcases hworkers k hk with ⟨hk, hcall⟩ | hk
    · refine (hw.workers k hk).step hs h hk hlog fun e' he' => ?_
      rw [mem_singleton.mp he']
      exact hcall
    · exact hk

end PurgeWorld.Authorised

/-- The Jobs that are loaded are the active members of the lead's group. -/
lemma loadClaimedPurgeGroup_jobs {lead : JobId} {token : ℕ} {now : Stamp} {l : Job}
    (hl : l ∈ purgeJobs cat) (hlead : l.id = lead) (hg : l.groupId = some g)
    (hne : (loadClaimedPurgeGroup cat lead token now).1 ≠ []) :
    (loadClaimedPurgeGroup cat lead token now).1 = activePurges cat l.vaultId g := by
  obtain ⟨j, hj⟩ := exists_mem_of_ne_nil _ hne
  unfold loadClaimedPurgeGroup at hne hj ⊢
  cases hfind : (cat.jobs.find? fun j => j.id = lead && j.action = .cloudPurge) with
  | none => simp [hfind] at hj
  | some l' =>
      have hfound := find?_some hfind
      simp only [Bool.and_eq_true, decide_eq_true_eq] at hfound
      obtain rfl : l' = l := cat.job_eq_of_id_eq (mem_of_find?_eq_some hfind)
        (mem_purgeJobs.mp hl).1 (hfound.1.trans hlead.symm)
      simp only [hfind, Option.bind_some, hg, Option.map_some] at hne ⊢
      split at hne
      · rename_i hall
        rw [if_pos hall]
      · exact absurd rfl hne

lemma prepared_claimed (cat : Catalog) (log : List PurgeEvent) (token : ℕ) (lead : JobId)
    (v : VaultId) (g : GroupId) :
    PurgeWorker.Prepared cat log ⟨token, lead, v, g, .claimed⟩ where
  group h := absurd rfl h
  items := by simp [PurgePhase.items]
  validated _ _ _ h := by cases h

lemma prepared_loaded {vaults : VaultTable} {at_ : Stamp} (hs : w.Sound) (hk : k ∈ w.workers)
    (h : w.load k vaults at_ = some w') :
    ∀ l ∈ w'.workers, l ∈ w.workers ∨ l.Prepared w'.cat w'.log := by
  obtain ⟨hlog, valid, hval, hworkers | ⟨hne, hworkers⟩⟩ := PurgeWorld.load_cases h
  · intro l hl
    rw [hworkers] at hl
    exact .inl (mem_filter.mp hl).1
  · intro l hl
    rw [hworkers] at hl
    rcases mem_cons.mp hl with rfl | hl
    · refine .inr ?_
      obtain ⟨f, t, m⟩ := purgeMoves_validate hval
      have hk' : k.Sound w'.cat (w.log ++ []) := (hs.workers k hk).move m []
      obtain ⟨j, hj, hlead, hv, hg⟩ := hk'.lead
      have hjobs := loadClaimedPurgeGroup_jobs hj hlead hg hne
      have hspec := (loadClaimedPurgeGroup_spec k.token at_ hj hlead hg).2
      rw [hv] at hjobs
      refine
        { group := fun _ j hj => ?_
          items := fun i hi => ?_
          validated := fun _ _ _ h => by cases h }
      · simp only [PurgePhase.expected, map_map]
        rw [hjobs]
        exact mem_map_of_mem hj
      · simp only [PurgePhase.items] at hi
        rw [flatten_chunked _ (by decide)] at hi
        simp only [PurgePhase.expected, map_map]
        exact (hspec i hi).2
    · exact .inl (mem_filter.mp hl).1

/-- **Every step keeps the calls authorised.** -/
lemma authorised_act (hw : w.Authorised) (hs : w.Sound) (h : w.act a = some w')
    (hone : OneActiveFile w'.cat) : w'.Authorised := by
  have hquiet := hw.of_quiet hs h hone
  cases PurgeWorld.acted_of_act hs.delayed h with
  | idle _ hworkers hlog => exact hquiet hlog fun k hk => .inl (hworkers k hk)
  | admitted _ hworkers hlog =>
      exact hw.of_event hs h hone hlog trivial fun k hk => .inl ⟨hworkers ▸ hk, id⟩
  | claimed h =>
      obtain ⟨job, -, -, g, -, -, hworkers, hlog⟩ := PurgeWorld.claim_cases h
      refine hquiet hlog fun k hk => ?_
      rw [hworkers] at hk
      rcases mem_cons.mp hk with rfl | hk
      · exact .inr (prepared_claimed _ _ _ _ _ _)
      · exact .inl (mem_filter.mp hk).1
  | loaded hk h => exact hquiet (PurgeWorld.load_cases h).1 (prepared_loaded hs hk h)
  | @authorised k _ _ _ _ hk _ hauthorise =>
      obtain ⟨expected, batch, batches, hphase, vault, -, ⟨hauth, hrenew, hworkers, hlog⟩ |
        ⟨-, hworkers, hlog⟩⟩ := PurgeWorld.authorise_cases hauthorise
      · refine hw.of_event hs h hone hlog trivial fun l hl => ?_
        rw [hworkers] at hl
        rcases mem_cons.mp hl with rfl | hl
        · refine .inr ?_
          have hp := (hw.workers k hk).step hs h hk hlog fun e he => by
            rw [mem_singleton.mp he]
            exact id
          have hbefore := hw.workers k hk
          refine hp.phase (by rw [hphase]; simp) (by rw [hphase]; rfl)
            (fun i hi => by rw [hphase]; exact hi) fun expected' batch' batches' heq => ?_
          obtain ⟨-, rfl, -⟩ := PurgePhase.authorised.inj heq
          rw [hlog]
          refine History.since_concat.mpr (.inl ⟨rfl, rfl, rfl, fun i hi => ?_, ?_⟩)
          · have hmem : i ∈ k.phase.items := by
              rw [hphase]
              exact mem_append_left _ hi
            have hjob := hbefore.items i hmem
            rw [hphase] at hjob
            obtain ⟨j, hj, hid, -⟩ := exists_active_of_renewed hrenew hjob
            obtain ⟨-, j', hj', -, hid', hfile⟩ := (hs.workers k hk).items i hmem
            have heq : j = j' := w.cat.job_eq_of_id_eq
              (mem_purgeJobs.mp (mem_activePurges_iff.mp hj).1).1 (mem_purgeJobs.mp hj').1
              (hid.trans hid'.symm)
            exact ⟨j, hj, hid, heq ▸ hfile⟩
          · refine authorises_of_executionAuthorised hw.one (fun j hj => ?_) hauth hrenew
            have hmem := hbefore.group (by rw [hphase]; simp) j hj
            rwa [hphase] at hmem
        · exact .inl ⟨(mem_filter.mp hl).1, id⟩
      · exact hquiet hlog fun l hl => .inl (mem_filter.mp (hworkers ▸ hl)).1
  | @sent k _ hk _ hsend =>
      obtain ⟨expected, batch, deleted, failed, batches, hphase, hcat, hworkers, hlog⟩ :=
        PurgeWorld.send_cases hsend
      have hcall : DeletionAuthorised hasLatestVersion w.log
          (.deleteObjects k.token k.vaultId k.groupId batch) := by
        refine ⟨fun i hi => ?_, (hw.workers k hk).validated expected batch batches hphase⟩
        refine ((hs.workers k hk).items i ?_).1
        rw [hphase]
        exact mem_append_left _ hi
      refine hw.of_event hs h hone hlog hcall fun l hl => ?_
      rw [hworkers] at hl
      rcases mem_cons.mp hl with rfl | hl
      · refine .inr ?_
        have hp := hw.workers k hk
        refine
          { group := fun _ j hj => ?_
            items := fun i hi => ?_
            validated := fun _ _ _ h => by cases h }
        · have hmem := hp.group (by rw [hphase]; simp) j (hcat ▸ hj)
          rwa [hphase] at hmem
        · have hmem := hp.items i (by
            rw [hphase]
            exact mem_append_right _ hi)
          rwa [hphase] at hmem
      · obtain ⟨hl, hne⟩ := mem_filter.mp hl
        exact .inl ⟨hl, fun hcall => of_decide_eq_true hne hcall.symm⟩
  | @recorded k _ _ _ hk _ hrecord =>
      obtain ⟨expected, deleted, failed, batches, cat, hphase, -, -, hworkers, hlog⟩ :=
        PurgeWorld.record_cases hrecord
      refine hquiet hlog fun l hl => ?_
      rw [hworkers] at hl
      rcases mem_cons.mp hl with rfl | hl
      · refine .inr ?_
        have hlog' : w'.log = w.log ++ [] := by rw [hlog, append_nil]
        have hp := (hw.workers k hk).step hs h hk hlog' (by simp)
        exact hp.phase (by rw [hphase]; simp) (by rw [hphase]; rfl)
          (fun i hi => by rw [hphase]; exact hi) fun _ _ _ h => by cases h
      · exact .inl (mem_filter.mp hl).1

/-- **Deletion consent never widens and never runs early.**  In every run from a catalog without
requests, every call of the provider sends targets that were captured at the admission of its
group for the file of their Job, and follows, after the worker's previous call, a committed
validation of the group at least seven days after the request, with nothing on disk, no other
open Job and no target that was not captured, and with the renewal of the lease. -/
theorem deletions_authorised {cat : Catalog} (hcat : Unrequested cat) {as : List DeletionAct}
    {u : PurgeWorld} (hrun : run deletionStep (.start cat) as = some u) :
    History.Always (DeletionAuthorised hasLatestVersion) u.log := by
  have hstart : (PurgeWorld.start cat).Authorised :=
    { one := hcat.one
      calls := History.always_nil
      workers := by simp [PurgeWorld.start] }
  refine (run_induction (I := fun w : PurgeWorld => w.Sound ∧ w.Authorised)
    (fun w a w' hw hstep => ?_)
    ⟨sound_start hcat, hstart⟩ hrun).2.calls
  obtain ⟨hact, hone⟩ := deletionStep_eq_some.mp hstep
  exact ⟨PurgeWorld.sound_act hw.1 hact, authorised_act hw.2 hw.1 hact hone⟩

/-! ### A file whose targets are gone -/

/-- Two files in the cloud only, each with one verified version. -/
def twoCloudOnlyFiles : Catalog where
  files := [⟨1, 0, .active, some ['a'], 0, [], none,
      [⟨1, 1, 5, some 9, some 10, none, some 3, .verified, .available, none, none, 0, none,
        none, .upload, .upload⟩], []⟩,
    ⟨2, 0, .active, some ['b'], 0, [], none,
      [⟨2, 1, 6, some 10, some 10, none, some 4, .verified, .available, none, none, 0, none,
        none, .upload, .upload⟩], []⟩]
  jobs := []
  items := []
  ids_nodup := by simp
  paths_unique := by simp [PathsDistinct]
  versions_unique := by simp [VaultFile.versionKeys, KeysDistinct]
  jobIds_nodup := nodup_nil

lemma unrequested_twoCloudOnlyFiles : Unrequested twoCloudOnlyFiles where
  jobs := by simp [twoCloudOnlyFiles]
  items := rfl
  one := by decide

/-- The provider deletes the version of `a`, the answer is lost and the worker dies.  `a` is
seen on disk, held back for its version, and removed again unseen; the restart finds the
version gone; the next worker validates the group for the version of `b`. -/
def interruptedDeletion : List DeletionAct :=
  [.schedule openVault 0 ⟨[['a'], ['b']], false, false⟩ 0 "photos" "no longer needed" .manual,
    .claim 1 7 deletionDelaySeconds (deletionDelaySeconds + 300),
    .load 7 openVault deletionDelaySeconds,
    .authorise 7 openVault deletionDelaySeconds deletionDelaySeconds (deletionDelaySeconds + 300),
    .send 7 none,
    .stop 7,
    .sight openVault (.single 0 ⟨['a'], .regular, some 10, some 0, deletionDelaySeconds + 1⟩
      none none),
    .restart (fun key => if key = 5 then some ([], []) else some ([10], [])) 1
      (deletionDelaySeconds + 300),
    .claim 1 8 (deletionDelaySeconds + 301) (deletionDelaySeconds + 601),
    .load 8 openVault (deletionDelaySeconds + 301),
    .authorise 8 openVault (deletionDelaySeconds + 302) (deletionDelaySeconds + 302)
      (deletionDelaySeconds + 602)]

/-- A validation under the token that found a selected file held back. -/
def PurgeEvent.validatesHeld (token : ℕ) : PurgeEvent → Bool
  | .validated val => val.token ≠ token ||
      (activePurges val.before val.vaultId val.groupId).any fun j =>
        val.before.files.any fun f => f.id = j.vaultFileId &&
          (f.localCopy.bind LocalCopy.cloudOnlyVersionId).isSome
  | _ => true

/-- The validation before the last call does not look at the recorded copy of a file whose
versions are all purged: `a` is recorded as present and held. -/
theorem purged_file_held_during_deletion :
    ¬ ∀ (cat : Catalog) (as : List DeletionAct) (u : PurgeWorld), Unrequested cat →
      run deletionStep (.start cat) as = some u →
        History.Always (DeletionAuthorised fun _ => true) u.log := by
  intro hall
  have hrun : (do
      let w ← run deletionStep (.start twoCloudOnlyFiles) interruptedDeletion
      let u ← deletionStep w (.send 8 (some []))
      some (w.log.all (PurgeEvent.validatesHeld 8))) = some true := by decide
  simp only [Option.bind_eq_bind, Option.bind_eq_some_iff, Option.some.injEq] at hrun
  obtain ⟨w, hw, u, hu, hheld⟩ := hrun
  have hlast : run deletionStep (.start twoCloudOnlyFiles)
      (interruptedDeletion ++ [.send 8 (some [])]) = some u :=
    run_append.mpr ⟨w, hw, run_cons_eq_some.mpr ⟨u, hu, rfl⟩⟩
  obtain ⟨k, hk, hsend⟩ := Option.bind_eq_some_iff.mp (deletionStep_eq_some.mp hu).1
  obtain ⟨_, batch, _, _, _, -, -, -, hlog⟩ := PurgeWorld.send_cases hsend
  have halways := hall _ _ u unrequested_twoCloudOnlyFiles hlast
  rw [hlog] at halways
  obtain ⟨-, h, e, t, heq, hval, -⟩ := (History.always_concat.mp halways).2
  have he : PurgeEvent.validatesHeld 8 e = true :=
    all_eq_true.mp hheld e (by rw [heq]; simp)
  cases e with
  | admitted v g jobs items => exact hval
  | deleteObjects token v g batch => exact hval
  | validated val =>
      obtain ⟨htoken, -, -, -, hauth⟩ := hval
      have htoken : val.token = 8 := htoken.trans (PurgeWorld.mem_of_worker? hk).2
      simp only [PurgeEvent.validatesHeld, htoken, ne_eq, not_true_eq_false, decide_false,
        Bool.false_or, any_eq_true, Bool.and_eq_true, decide_eq_true_eq] at he
      obtain ⟨j, hj, f, hf, hid, hhold⟩ := he
      obtain ⟨lc, hlc, hsome⟩ := Option.bind_eq_some_iff.mp
        (Option.some_get hhold).symm
      rw [(hauth.unheld j hj f hf hid rfl lc hlc).2] at hsome
      cases hsome

/-- A request that is due is deleted under an authorised call. -/
theorem deletions_authorised_due_request :
    ∃ u, run deletionStep (.start cloudOnlyCatalog)
        (requestedDeletion ++ [.claim 1 7 deletionDelaySeconds (deletionDelaySeconds + 300),
          .load 7 openVault deletionDelaySeconds,
          .authorise 7 openVault deletionDelaySeconds deletionDelaySeconds
            (deletionDelaySeconds + 300),
          .send 7 (some [])]) = some u ∧
      (∃ e ∈ u.log, e.Deletes [1]) ∧
      History.Always (DeletionAuthorised hasLatestVersion) u.log := by
  have hrun : (run deletionStep (.start cloudOnlyCatalog)
      (requestedDeletion ++ [.claim 1 7 deletionDelaySeconds (deletionDelaySeconds + 300),
        .load 7 openVault deletionDelaySeconds,
        .authorise 7 openVault deletionDelaySeconds deletionDelaySeconds
          (deletionDelaySeconds + 300),
        .send 7 (some [])])).map (fun u => decide (∃ e ∈ u.log, e.Deletes [1])) = some true := by
    decide
  obtain ⟨u, hu, hdel⟩ := Option.map_eq_some_iff.mp hrun
  exact ⟨u, hu, of_decide_eq_true hdel,
    deletions_authorised unrequested_cloudOnlyCatalog hu⟩

end Frostvault
