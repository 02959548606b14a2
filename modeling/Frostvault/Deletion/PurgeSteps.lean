import Frostvault.Deletion.PurgeMoves

/-!
The steps of the delayed cloud deletion.

Every action but an admission is a move of `PurgeMoves.lean`; an admission adds the Jobs of a
new group.  From this, one invariant says where the rows come from and what the workers know.

* `PurgeWorld.authorise_cases`, `load_cases`, ..: what a step of a worker read and wrote;
* `purgeMoves_of_act`: every action but an admission is a move;
* `Admission`: what an admission adds;
* `Captured`: an item is one of those the request was admitted with;
* `PurgeWorld.Sound`, `sound_run`: **the invariant of the system**.
-/

namespace Frostvault

open Option List

variable {cat cat' cat'' : Catalog} {v : VaultId}

/-! ### Every action but an admission -/

variable {at_ expires now : Stamp} {token : ℕ} {vaults : VaultTable}

lemma started_of_renew {g : GroupId} {expected : List JobId}
    (h : renewPurgeGroupClaim cat v g token expected now expires = some cat') :
    Started cat' expected := by
  obtain ⟨hids, rfl⟩ := renewPurgeGroupClaim_cases h
  intro j' hj' hid hw
  obtain ⟨j, hj, rfl⟩ := mem_map.mp (mem_purgeJobs.mp hj').1
  obtain ⟨k, hk, hclaimed, hkid⟩ := (hids _).mp hid
  obtain rfl : k = j := cat.job_eq_of_id_eq hk hj (hkid.trans (by split <;> rfl))
  rw [if_pos hclaimed] at hw
  exact (purgeClaimed_started hclaimed).1 hw

namespace PurgeWorld

variable {w w' : PurgeWorld} {k : PurgeWorker}

/-- The transaction before a batch: the consent is revoked, or valid and renewed. -/
lemma authorise_cases (h : w.authorise k vaults at_ now expires = some w') :
    ∃ expected batch batches, k.phase = .between expected (batch :: batches) ∧
      ∃ vault, vaults k.vaultId = some vault ∧
        ((executionAuthorised vault w.cat k.vaultId k.groupId at_ ∧
            renewPurgeGroupClaim w.cat k.vaultId k.groupId k.token (expected.map Prod.fst) now
              expires = some w'.cat ∧
            w'.workers = w.replaced { k with phase := .authorised expected batch batches } ∧
            w'.log = w.log ++ [.validated ⟨k.token, k.vaultId, k.groupId, vault, expected, at_,
              expires, w.cat, w'.cat⟩]) ∨
          (w'.cat = cancelRows w.cat (activePurges w.cat k.vaultId k.groupId) ∧
            w'.workers = w.without k.token ∧ w'.log = w.log)) := by
  simp only [authorise] at h
  split at h
  · rename_i expected batch batches hphase
    refine ⟨expected, batch, batches, hphase, ?_⟩
    simp only [bind_eq_bind, bind_eq_some_iff, Prod.exists] at h
    obtain ⟨vault, hvault, cat, valid, hval, h⟩ := h
    obtain ⟨vault', hvault', hcases⟩ := validateExecution_cases hval
    obtain rfl : vault' = vault := Option.some.inj (hvault'.symm.trans hvault)
    refine ⟨vault', hvault, ?_⟩
    rcases hcases with ⟨rfl, rfl, hauth⟩ | ⟨rfl, rfl⟩
    · simp only [if_true, bind_eq_some_iff, Option.some.injEq] at h
      obtain ⟨after, hafter, rfl⟩ := h
      exact .inl ⟨hauth, hafter, rfl, rfl⟩
    · simp only [Bool.false_eq_true, if_false, Option.some.injEq] at h
      subst h
      exact .inr ⟨rfl, rfl, rfl⟩
  · cases h

/-- The first transaction: the group is loaded, or the worker ends. -/
lemma load_cases (h : w.load k vaults at_ = some w') :
    w'.log = w.log ∧ ∃ valid, validateExecution vaults w.cat k.vaultId k.groupId at_ =
        some (w'.cat, valid) ∧
      (w'.workers = w.without k.token ∨
        ((loadClaimedPurgeGroup w'.cat k.lead k.token at_).1 ≠ [] ∧
          w'.workers = w.replaced { k with
            phase := .between
              ((loadClaimedPurgeGroup w'.cat k.lead k.token at_).1.map fun j =>
                (j.id, j.vaultFileId))
              (chunked (loadClaimedPurgeGroup w'.cat k.lead k.token at_).2
                cloudDeleteBatchSize) })) := by
  simp only [load] at h
  split at h
  · simp only [bind_eq_bind, bind_eq_some_iff, Prod.exists] at h
    obtain ⟨cat, valid, hval, h⟩ := h
    split at h <;> rename_i hne <;> cases h
    · exact ⟨rfl, valid, hval, .inr ⟨hne.2, rfl⟩⟩
    · exact ⟨rfl, valid, hval, .inl rfl⟩
  · cases h

lemma record_cases {returnedAt : Stamp} (h : w.record k returnedAt now expires = some w') :
    ∃ expected deleted failed batches cat, k.phase = .answered expected deleted failed batches ∧
      renewPurgeGroupClaim w.cat k.vaultId k.groupId k.token (expected.map Prod.fst) now expires =
        some cat ∧
      w'.cat = markItemsFailed (markItemsDeleted cat deleted returnedAt) failed ∧
      w'.workers = w.replaced { k with phase := .between expected batches } ∧
      w'.log = w.log := by
  simp only [record] at h
  split at h
  · rename_i expected deleted failed batches hphase
    simp only [bind_eq_bind, bind_eq_some_iff, Option.some.injEq] at h
    obtain ⟨cat, hcat, rfl⟩ := h
    exact ⟨expected, deleted, failed, batches, cat, hphase, hcat, rfl, rfl, rfl⟩
  · cases h

lemma finish_cases (h : w.finish k now expires = some w') :
    ∃ expected cat, k.phase = .between expected [] ∧
      renewPurgeGroupClaim w.cat k.vaultId k.groupId k.token (expected.map Prod.fst) now expires =
        some cat ∧
      finalizePurgeGroup cat expected = some w'.cat ∧ w'.workers = w.without k.token ∧
      w'.log = w.log := by
  simp only [finish] at h
  split at h
  · rename_i expected hphase
    simp only [bind_eq_bind, bind_eq_some_iff, Option.some.injEq] at h
    obtain ⟨cat, hcat, done, hdone, rfl⟩ := h
    exact ⟨expected, cat, hphase, hcat, hdone, rfl, rfl⟩
  · cases h

lemma send_cases {answer : DeleteAnswer} (h : w.send k answer = some w') :
    ∃ expected batch deleted failed batches, k.phase = .authorised expected batch batches ∧
      w'.cat = w.cat ∧
      w'.workers = w.replaced { k with phase := .answered expected deleted failed batches } ∧
      w'.log = w.log ++ [.deleteObjects k.token k.vaultId k.groupId batch] := by
  simp only [send] at h
  split at h
  · rename_i expected batch batches hphase
    cases h
    exact ⟨expected, batch, _, _, batches, hphase, rfl, rfl, rfl⟩
  · cases h

/-- A claim starts a worker for the group of a Job it leases. -/
lemma claim_cases {lead : JobId} (h : w.claim lead token now expires = some w') :
    ∃ job ∈ purgeJobs w.cat, job.id = lead ∧ ∃ g, job.groupId = some g ∧
      claimPurgeGroup w.cat lead token now expires = some w'.cat ∧
      w'.workers = w.replaced ⟨token, lead, job.vaultId, g, .claimed⟩ ∧ w'.log = w.log := by
  simp only [claim, bind_eq_bind, bind_eq_some_iff, Option.some.injEq] at h
  obtain ⟨job, hjob, g, hg, cat, hcat, rfl⟩ := h
  have hfound := find?_some hjob
  simp only [Bool.and_eq_true, decide_eq_true_eq] at hfound
  exact ⟨job, mem_purgeJobs.mpr ⟨mem_of_find?_eq_some hjob, hfound.2⟩, hfound.1, g, hg, hcat,
    rfl, rfl⟩

end PurgeWorld

/-- Whether an action is an admission. -/
def DeletionAct.admits : DeletionAct → Bool
  | .schedule .. => true
  | _ => false

/-- **Every action but an admission** is a move. -/
theorem purgeMoves_of_act {w w' : PurgeWorld} (hd : Delayed w.cat) {a : DeletionAct}
    (ha : a.admits = false) (h : w.act a = some w') : PurgeMoves w.cat w'.cat := by
  cases a with
  | schedule vaults v sel requestedAt confirmation reason origin => cases ha
  | cancel vaults v g =>
      obtain ⟨cat, hcat, rfl⟩ := map_eq_some_iff.mp h
      exact purgeMoves_cancel hcat
  | restart listing lead now =>
      obtain ⟨cat, hcat, rfl⟩ := map_eq_some_iff.mp h
      exact purgeMoves_restart hcat
  | sight vaults s =>
      obtain ⟨cat, hcat, rfl⟩ := map_eq_some_iff.mp h
      exact purgeMoves_sight hcat
  | other cat =>
      simp only [PurgeWorld.act] at h
      split at h
      · rename_i hsame
        cases h
        exact ⟨id, id, .of_same hsame.1 hsame.2⟩
      · cases h
  | claim lead token now expires =>
      simp only [PurgeWorld.act] at h
      split at h
      · cases h
      · obtain ⟨-, -, -, -, -, hcat, -, -⟩ := PurgeWorld.claim_cases h
        exact purgeMoves_claim hcat
  | heartbeat token now expires =>
      obtain ⟨k, -, rfl⟩ := map_eq_some_iff.mp h
      exact purgeMoves_heartbeat hd k.lead token now expires
  | load token vaults at_ =>
      obtain ⟨k, -, h⟩ := bind_eq_some_iff.mp h
      obtain ⟨-, valid, hval, -⟩ := PurgeWorld.load_cases h
      exact purgeMoves_validate hval
  | authorise token vaults at_ now expires =>
      obtain ⟨k, -, h⟩ := bind_eq_some_iff.mp h
      obtain ⟨_, _, _, -, vault, -, ⟨-, hrenew, -⟩ | ⟨hcat, -⟩⟩ := PurgeWorld.authorise_cases h
      · exact purgeMoves_renew hrenew
      · rw [hcat]
        exact purgeMoves_cancelRows k.vaultId k.groupId
  | send token answer =>
      obtain ⟨k, -, h⟩ := bind_eq_some_iff.mp h
      obtain ⟨-, -, -, -, -, -, hcat, -⟩ := PurgeWorld.send_cases h
      rw [hcat]
      exact .refl w.cat
  | record token returnedAt now expires =>
      obtain ⟨k, -, h⟩ := bind_eq_some_iff.mp h
      obtain ⟨_, deleted, failed, _, cat, -, hrenew, hcat, -⟩ := PurgeWorld.record_cases h
      rw [hcat]
      exact (purgeMoves_renew hrenew).trans
        ((purgeMoves_markItemsDeleted cat deleted returnedAt).trans
          (purgeMoves_markItemsFailed _ failed))
  | finish token now expires =>
      obtain ⟨k, -, h⟩ := bind_eq_some_iff.mp h
      obtain ⟨expected, cat, -, hrenew, hdone, -⟩ := PurgeWorld.finish_cases h
      exact (purgeMoves_renew hrenew).trans (purgeMoves_finish (started_of_renew hrenew) hdone)
  | release token now =>
      obtain ⟨k, -, rfl⟩ := map_eq_some_iff.mp h
      exact purgeMoves_release w.cat k.vaultId k.groupId token now
  | report token status now =>
      simp only [PurgeWorld.act] at h
      split at h
      · rename_i hst
        obtain ⟨k, -, rfl⟩ := map_eq_some_iff.mp h
        exact purgeMoves_report hd k.lead token hst now
      · cases h
  | stop token =>
      cases h
      exact .refl w.cat

/-! ### Admissions -/

/-- What an admission adds: the Jobs of a new group, all of them waiting, and their items. -/
structure Admission (v : VaultId) (g : GroupId) (cat cat' : Catalog) (jobs : List Job)
    (items : List DeletionItem) : Prop where
  jobs_eq : cat'.jobs = cat.jobs ++ jobs
  items_eq : cat'.items = cat.items ++ items
  waiting : ∀ j ∈ jobs, j.vaultId = v ∧ j.groupId = some g ∧ j.action = .cloudPurge ∧
    j.status = .pendingDelay ∧ j.claimToken = none
  owned : ∀ i ∈ items, ∃ j ∈ jobs, j.id = i.jobId ∧ j.vaultFileId = i.vaultFileId

lemma admission_foldl (origin : JobOrigin) (g : GroupId) (at_ : Stamp) (v : VaultId)
    (files : List VaultFile) (cat : Catalog) :
    ∃ jobs items, Admission v g cat (files.foldl (schedulePurgeOf v origin g at_) cat)
      jobs items := by
  induction files generalizing cat with
  | nil => exact ⟨[], [], by simp, by simp, by simp, by simp⟩
  | cons f files ih =>
      obtain ⟨jobs, items, hadm⟩ := ih (schedulePurgeOf v origin g at_ cat f)
      obtain ⟨own, hown, hjob⟩ : ∃ own, (schedulePurgeOf v origin g at_ cat f).items =
          cat.items ++ own ∧ ∀ i ∈ own, i.jobId = cat.freshJobId ∧ i.vaultFileId = f.id := by
        refine ⟨_, rfl, fun i hi => ?_⟩
        obtain ⟨⟨t, n⟩, -, rfl⟩ := mem_map.mp hi
        exact ⟨rfl, rfl⟩
      refine ⟨purgeJob v f origin g at_ cat.freshJobId :: jobs, own ++ items, ?_⟩
      exact
        { jobs_eq := by
            rw [foldl_cons, hadm.jobs_eq]
            simp [schedulePurgeOf, Catalog.insertJob]
          items_eq := by
            rw [foldl_cons, hadm.items_eq, hown, append_assoc]
          waiting := by
            rintro j (_ | ⟨_, hj⟩)
            · exact ⟨rfl, rfl, rfl, rfl, rfl⟩
            · exact hadm.waiting j hj
          owned := by
            intro i hi
            rcases mem_append.mp hi with hi | hi
            · exact ⟨_, mem_cons_self, (hjob i hi).1.symm, (hjob i hi).2.symm⟩
            · obtain ⟨j, hj, hrest⟩ := hadm.owned i hi
              exact ⟨j, mem_cons_of_mem _ hj, hrest⟩ }

/-- An admission and what the history keeps of it. -/
lemma PurgeWorld.schedule_cases {w w' : PurgeWorld} {sel : Selection}
    {confirmation reason : String} {origin : JobOrigin}
    (h : w.act (.schedule vaults v sel at_ confirmation reason origin) = some w') :
    ∃ jobs items, Admission v (freshGroupId w.cat) w.cat w'.cat jobs items ∧
      w'.workers = w.workers ∧
      w'.log = w.log ++ [.admitted v (freshGroupId w.cat) jobs items] := by
  simp only [PurgeWorld.act, bind_eq_bind, bind_eq_some_iff,
    Option.some.injEq] at h
  obtain ⟨cat, hcat, rfl⟩ := h
  obtain ⟨files, rfl⟩ := scheduleCloudPurge_spec hcat
  obtain ⟨jobs, items, hadm⟩ :=
    admission_foldl origin (freshGroupId w.cat) at_ v files w.cat
  refine ⟨jobs, items, hadm, rfl, ?_⟩
  simp [hadm.jobs_eq, hadm.items_eq]

lemma groupId_ne_freshGroupId {j : Job} (hj : j ∈ cat.jobs) {g : GroupId}
    (hg : j.groupId = some g) : g ≠ freshGroupId cat := by
  have hmem : g ∈ cat.jobs.filterMap Job.groupId := mem_filterMap.mpr ⟨j, hj, hg⟩
  exact Nat.ne_of_lt (Catalog.lt_fresh hmem)

namespace Admission

variable {g : GroupId} {jobs : List Job} {items : List DeletionItem}

lemma purgeJobs_eq (h : Admission v g cat cat' jobs items) :
    purgeJobs cat' = purgeJobs cat ++ jobs := by
  rw [purgeJobs, h.jobs_eq, filter_append, purgeJobs]
  congr 1
  exact filter_eq_self.mpr fun j hj => decide_eq_true (h.waiting j hj).2.2.1

/-- Groups still wait together: the new one waits, and no old one is joined. -/
lemma delayed (h : Admission v (freshGroupId cat) cat cat' jobs items) (hd : Delayed cat) :
    Delayed cat' where
  grouped j hj := by
    rw [h.purgeJobs_eq] at hj
    rcases mem_append.mp hj with hj | hj
    · exact hd.grouped j hj
    · rw [(h.waiting j hj).2.1]
      rfl
  together j hj k hk hjk hw := by
    rw [h.purgeJobs_eq] at hj hk
    obtain ⟨hvault, n, hjn, hkn⟩ := hjk
    have hnew : ∀ l ∈ jobs, l.groupId = some n → n = freshGroupId cat := fun l hl hln =>
      Option.some.inj (hln.symm.trans (h.waiting l hl).2.1)
    rcases mem_append.mp hk with hk | hk
    · rcases mem_append.mp hj with hj | hj
      · exact hd.together j hj k hk ⟨hvault, n, hjn, hkn⟩ hw
      · exact absurd (hnew j hj hjn) (groupId_ne_freshGroupId (mem_purgeJobs.mp hk).1 hkn)
    · exact ⟨(h.waiting k hk).2.2.2.1, (h.waiting k hk).2.2.2.2⟩

end Admission

/-! ### The invariant -/

/-- The Job is a member of the worker's group. -/
def PurgeWorker.Holds (k : PurgeWorker) (j : Job) : Prop :=
  j.vaultId = k.vaultId ∧ j.groupId = some k.groupId

/-- An item is one of those its request was admitted with, for the file of its Job. -/
def Captured (log : List PurgeEvent) (v : VaultId) (g : GroupId) (i : DeletionItem) : Prop :=
  ∃ jobs items, PurgeEvent.admitted v g jobs items ∈ log ∧ (∃ i₀ ∈ items, SameTarget i₀ i) ∧
    ∃ j ∈ jobs, j.id = i.jobId ∧ j.vaultFileId = i.vaultFileId ∧ j.vaultId = v ∧
      j.groupId = some g

/-- What a worker knows: its group has left the delay, and its items are captured. -/
structure PurgeWorker.Sound (cat : Catalog) (log : List PurgeEvent) (k : PurgeWorker) : Prop where
  lead : ∃ j ∈ purgeJobs cat, j.id = k.lead ∧ k.Holds j
  begun : ∀ j ∈ purgeJobs cat, k.Holds j → j.status ≠ .pendingDelay
  items : ∀ i ∈ k.phase.items, Captured log k.vaultId k.groupId i ∧
    ∃ j ∈ purgeJobs cat, k.Holds j ∧ j.id = i.jobId ∧ j.vaultFileId = i.vaultFileId

/-- Every item is captured for the group of its Job. -/
def ItemsCaptured (cat : Catalog) (log : List PurgeEvent) : Prop :=
  ∀ i ∈ cat.items, ∃ j ∈ purgeJobs cat, j.id = i.jobId ∧ j.vaultFileId = i.vaultFileId ∧
    ∃ g, j.groupId = some g ∧ Captured log j.vaultId g i

/-- The invariant of the system. -/
structure PurgeWorld.Sound (w : PurgeWorld) : Prop where
  delayed : Delayed w.cat
  captured : ItemsCaptured w.cat w.log
  workers : ∀ k ∈ w.workers, k.Sound w.cat w.log

/-- No deletion has been requested yet. -/
structure Unrequested (cat : Catalog) : Prop where
  jobs : ∀ j ∈ cat.jobs, j.action ≠ .cloudPurge
  items : cat.items = []
  one : OneActiveFile cat

lemma Unrequested.purgeJobs_eq (h : Unrequested cat) : purgeJobs cat = [] :=
  filter_eq_nil_iff.mpr fun j hj hact => h.jobs j hj (of_decide_eq_true hact)

lemma sound_start (h : Unrequested cat) : (PurgeWorld.start cat).Sound where
  delayed :=
    { grouped := by simp [PurgeWorld.start, h.purgeJobs_eq]
      together := by simp [PurgeWorld.start, h.purgeJobs_eq] }
  captured := by simp [PurgeWorld.start, ItemsCaptured, h.items]
  workers := by simp [PurgeWorld.start]

lemma Captured.append {log : List PurgeEvent} {g : GroupId} {i : DeletionItem}
    (h : Captured log v g i) (es : List PurgeEvent) : Captured (log ++ es) v g i := by
  obtain ⟨jobs, items, hmem, hrest⟩ := h
  exact ⟨jobs, items, mem_append_left _ hmem, hrest⟩

lemma Captured.sameTarget {log : List PurgeEvent} {g : GroupId} {i i' : DeletionItem}
    (h : Captured log v g i) (hi : SameTarget i i') : Captured log v g i' := by
  obtain ⟨jobs, items, hmem, ⟨i₀, hi₀, hsame⟩, j, hj, hid, hfile, hrest⟩ := h
  refine ⟨jobs, items, hmem, ⟨i₀, hi₀, hsame.trans hi⟩, j, hj, ?_, ?_, hrest⟩
  · rw [hid, hi]
  · rw [hfile, hi]

lemma ItemsCaptured.move {log : List PurgeEvent} (h : ItemsCaptured cat log)
    (m : PurgeMoves cat cat') (es : List PurgeEvent) : ItemsCaptured cat' (log ++ es) := by
  obtain ⟨f, g, m⟩ := m
  intro i' hi'
  obtain ⟨i, hi, hsame⟩ := m.exists_item hi'
  obtain ⟨j, hj, hid, hfile, n, hn, hcap⟩ := h i hi
  have hadv := m.advances j hj
  refine ⟨f j, m.mem_job hj, ?_, ?_, n, hadv.groupId_eq.trans hn, ?_⟩
  · rw [hadv.id_eq, hid, hsame]
  · rw [hadv.file_eq, hfile, hsame]
  · rw [hadv.vaultId_eq]
    exact (hcap.append es).sameTarget hsame

/-- The items of an admission are captured. -/
lemma ItemsCaptured.admission {log : List PurgeEvent} {jobs : List Job}
    {items : List DeletionItem} (h : ItemsCaptured cat log)
    (hadm : Admission v (freshGroupId cat) cat cat' jobs items) :
    ItemsCaptured cat' (log ++ [.admitted v (freshGroupId cat) jobs items]) := by
  intro i hi
  rw [hadm.items_eq] at hi
  rcases mem_append.mp hi with hi | hi
  · obtain ⟨j, hj, hid, hfile, g, hg, hcap⟩ := h i hi
    exact ⟨j, by rw [hadm.purgeJobs_eq]; exact mem_append_left _ hj, hid, hfile, g, hg,
      hcap.append _⟩
  · obtain ⟨j, hj, hid, hfile⟩ := hadm.owned i hi
    obtain ⟨hv, hg, -⟩ := hadm.waiting j hj
    refine ⟨j, by rw [hadm.purgeJobs_eq]; exact mem_append_right _ hj, hid, hfile, _, hg,
      jobs, items, ?_, ⟨i, hi, .refl i⟩, j, hj, hid, hfile, rfl, hg⟩
    rw [hv]
    exact mem_append_right _ (mem_singleton_self _)

namespace PurgeWorker.Sound

variable {log : List PurgeEvent} {k : PurgeWorker}

lemma phase (h : k.Sound cat log) {p : PurgePhase} (hp : ∀ i ∈ p.items, i ∈ k.phase.items) :
    PurgeWorker.Sound cat log { k with phase := p } where
  lead := h.lead
  begun := h.begun
  items i hi := h.items i (hp i hi)

lemma move {f : Job → Job} {g : DeletionItem → DeletionItem} (h : k.Sound cat log)
    (m : PurgeMove f g cat cat') (es : List PurgeEvent) : k.Sound cat' (log ++ es) where
  lead := by
    obtain ⟨j, hj, hid, hv, hg⟩ := h.lead
    have hadv := m.advances j hj
    exact ⟨f j, m.mem_job hj, hadv.id_eq.trans hid, hadv.vaultId_eq.trans hv,
      hadv.groupId_eq.trans hg⟩
  begun j' hj' hhold hw := by
    obtain ⟨j, hj, -, hadv⟩ := m.exists_job hj'
    have heq := hadv.waiting hw
    exact h.begun j hj (heq ▸ hhold) (heq ▸ hw)
  items i hi := by
    obtain ⟨hcap, j, hj, ⟨hv, hg⟩, hid, hfile⟩ := h.items i hi
    have hadv := m.advances j hj
    exact ⟨hcap.append es, f j, m.mem_job hj,
      ⟨hadv.vaultId_eq.trans hv, hadv.groupId_eq.trans hg⟩, hadv.id_eq.trans hid,
      hadv.file_eq.trans hfile⟩

lemma admission {jobs : List Job} {items : List DeletionItem} (h : k.Sound cat log)
    (hadm : Admission v (freshGroupId cat) cat cat' jobs items) (es : List PurgeEvent) :
    k.Sound cat' (log ++ es) where
  lead := by
    obtain ⟨j, hj, hrest⟩ := h.lead
    exact ⟨j, by rw [hadm.purgeJobs_eq]; exact mem_append_left _ hj, hrest⟩
  begun j hj hhold := by
    rw [hadm.purgeJobs_eq] at hj
    rcases mem_append.mp hj with hj | hj
    · exact h.begun j hj hhold
    · obtain ⟨l, hl, -, -, hlg⟩ := h.lead
      have hnew : k.groupId = freshGroupId cat :=
        Option.some.inj (hhold.2.symm.trans (hadm.waiting j hj).2.1)
      exact absurd hnew (groupId_ne_freshGroupId (mem_purgeJobs.mp hl).1 hlg)
  items i hi := by
    obtain ⟨hcap, j, hj, hrest⟩ := h.items i hi
    exact ⟨hcap.append es, j, by rw [hadm.purgeJobs_eq]; exact mem_append_left _ hj, hrest⟩

end PurgeWorker.Sound

namespace PurgeWorld.Sound

variable {w w' : PurgeWorld}

/-- A move keeps the invariant when the workers are sound. -/
lemma of_moves (h : w.Sound) (m : PurgeMoves w.cat w'.cat) {es : List PurgeEvent}
    (hlog : w'.log = w.log ++ es) (hworkers : ∀ k ∈ w'.workers, k.Sound w'.cat w'.log) :
    w'.Sound where
  delayed := by
    obtain ⟨f, g, m⟩ := m
    exact m.delayed h.delayed
  captured := by
    rw [hlog]
    exact h.captured.move m es
  workers := hworkers

lemma worker (h : w.Sound) (m : PurgeMoves w.cat cat') (es : List PurgeEvent) {k : PurgeWorker}
    (hk : k ∈ w.workers) : k.Sound cat' (w.log ++ es) := by
  obtain ⟨f, g, m⟩ := m
  exact (h.workers k hk).move m es

lemma without (h : w.Sound) (m : PurgeMoves w.cat cat') (es : List PurgeEvent) :
    ∀ k ∈ w.without token, k.Sound cat' (w.log ++ es) := fun _ hk =>
  h.worker m es (mem_filter.mp hk).1

lemma replaced (h : w.Sound) (m : PurgeMoves w.cat cat') (es : List PurgeEvent)
    {k : PurgeWorker} (hk : k.Sound cat' (w.log ++ es)) :
    ∀ l ∈ w.replaced k, l.Sound cat' (w.log ++ es) := by
  intro l hl
  rcases mem_cons.mp hl with rfl | hl
  · exact hk
  · exact h.without m es l hl

end PurgeWorld.Sound

lemma PurgeWorld.mem_of_worker? {w : PurgeWorld} {k : PurgeWorker}
    (h : w.worker? token = some k) : k ∈ w.workers ∧ k.token = token :=
  ⟨mem_of_find?_eq_some h, by simpa using find?_some h⟩

/-- `load_claimed_purge_group` reads active members of the lead's group and their items. -/
lemma loadClaimedPurgeGroup_spec {lead : JobId} (token : ℕ) (now : Stamp) {l : Job}
    (hl : l ∈ purgeJobs cat) (hlead : l.id = lead) {g : GroupId} (hg : l.groupId = some g) :
    (∀ j ∈ (loadClaimedPurgeGroup cat lead token now).1, j ∈ activePurges cat l.vaultId g) ∧
      ∀ i ∈ (loadClaimedPurgeGroup cat lead token now).2, i ∈ cat.items ∧
        i.jobId ∈ (loadClaimedPurgeGroup cat lead token now).1.map Job.id := by
  obtain ⟨hmem, hact⟩ := mem_purgeJobs.mp hl
  have hfind : cat.jobs.find? (fun j => j.id = lead && j.action = .cloudPurge) = some l := by
    cases h : cat.jobs.find? fun j => j.id = lead && j.action = .cloudPurge with
    | none =>
        have hnone := find?_eq_none.mp h l hmem
        simp [hlead, hact] at hnone
    | some j =>
        have hfound := find?_some h
        simp only [Bool.and_eq_true, decide_eq_true_eq] at hfound
        rw [cat.job_eq_of_id_eq (mem_of_find?_eq_some h) hmem
          (hfound.1.trans hlead.symm)]
  simp only [loadClaimedPurgeGroup, hfind, bind_some, hg, map_some]
  split
  · refine ⟨fun j hj => hj, fun i hi => ?_⟩
    simp only [mem_filter, Bool.and_eq_true, decide_eq_true_eq] at hi
    exact ⟨hi.1, hi.2.1⟩
  · simp

namespace PurgeWorld

variable {w w' : PurgeWorld}

/-- A worker that has just claimed its group is sound. -/
lemma sound_claimed {lead : JobId}
    (h : w.claim lead token now expires = some w') (hw : w.Sound) : w'.Sound := by
  obtain ⟨job, hjob, hlead, g, hg, hcat, hworkers, hlog⟩ := claim_cases h
  have m := purgeMoves_claim hcat
  have hsound := hw.replaced m [] (k := ⟨token, lead, job.vaultId, g, .claimed⟩)
  rw [← hworkers, append_nil, ← hlog] at hsound
  have hlog' : w'.log = w.log ++ [] := by rw [hlog, append_nil]
  refine hw.of_moves m hlog' (hsound ?_)
  obtain ⟨f, t, m⟩ := m
  have hadv := m.advances job hjob
  refine
    { lead := ⟨f job, m.mem_job hjob, hadv.id_eq.trans hlead, hadv.vaultId_eq,
        hadv.groupId_eq.trans hg⟩
      begun := fun j' hj' hhold hwait => ?_
      items := by simp [PurgePhase.items] }
  -- the lease left no open member of the group as it was
  simp only [claimPurgeGroup, bind_eq_bind, bind_eq_some_iff,
    guard_eq_some', exists_const, Option.some.injEq] at hcat
  obtain ⟨job', hfind, g', hg', -, hcat⟩ := hcat
  have hfound := find?_some hfind
  simp only [Bool.and_eq_true, decide_eq_true_eq] at hfound
  obtain rfl : job' = job := w.cat.job_eq_of_id_eq (mem_of_find?_eq_some hfind)
    (mem_purgeJobs.mp hjob).1 (hfound.1.trans hlead.symm)
  obtain rfl : g' = g := Option.some.inj (hg'.symm.trans hg)
  obtain ⟨j, hj, -, hadvj⟩ := m.exists_job hj'
  have heq := hadvj.waiting hwait
  have hin : j.id ∈ (activePurges w.cat job'.vaultId g').map Job.id := by
    refine (id_mem_activePurges hj).mpr ⟨?_, ?_, ?_⟩
    · rw [← hadvj.vaultId_eq]
      exact hhold.1
    · rw [← hadvj.groupId_eq]
      exact hhold.2
    · rw [← heq, hwait]
      rfl
  rw [← hcat] at hj'
  obtain ⟨l, hl, hlj⟩ := mem_map.mp (mem_purgeJobs.mp hj').1
  have hlid : l.id = j.id := by
    rw [← hadvj.id_eq, ← hlj]
    split <;> rfl
  rw [if_pos (hlid ▸ hin)] at hlj
  rw [← hlj] at hwait
  cases hwait

/-- A worker that has loaded its group knows where the items come from. -/
lemma sound_loaded {k : PurgeWorker}
    (h : w.load k vaults at_ = some w') (hk : k ∈ w.workers) (hw : w.Sound) : w'.Sound := by
  obtain ⟨hlog, valid, hval, hcases⟩ := load_cases h
  have m := purgeMoves_validate hval
  have hlog' : w'.log = w.log ++ [] := by rw [hlog, append_nil]
  have hk' : k.Sound w'.cat w'.log := hlog' ▸ hw.worker m [] hk
  refine hw.of_moves m hlog' ?_
  rcases hcases with hworkers | ⟨-, hworkers⟩
  · rw [hworkers, hlog']
    exact hw.without m []
  · rw [hworkers, hlog']
    refine hw.replaced m [] ?_
    rw [← hlog']
    refine { lead := hk'.lead, begun := hk'.begun, items := fun i hi => ?_ }
    obtain ⟨l, hl, hlead, hlv, hlg⟩ := hk'.lead
    obtain ⟨hjobs, hitems⟩ := loadClaimedPurgeGroup_spec k.token at_ hl hlead hlg
    simp only [PurgePhase.items] at hi
    rw [flatten_chunked _ (by decide)] at hi
    obtain ⟨hi, hmem⟩ := hitems i hi
    obtain ⟨j, hj, hid⟩ := mem_map.mp hmem
    have hact := hjobs j hj
    simp only [activePurges, purgeGroup, mem_filter, Bool.and_eq_true, decide_eq_true_eq,
      Bool.not_eq_true'] at hact
    obtain ⟨⟨hjmem, ⟨hjv, hjg⟩, hjact⟩, -⟩ := hact
    have hj' : j ∈ purgeJobs w'.cat := mem_purgeJobs.mpr ⟨hjmem, hjact⟩
    -- the Job of the item is the member it was found by
    have hall : ItemsCaptured w'.cat w'.log := hlog' ▸ hw.captured.move m []
    obtain ⟨j₀, hj₀, hid₀, hfile, g, hg, hcap⟩ := hall i hi
    obtain rfl : j₀ = j := w'.cat.job_eq_of_id_eq (mem_purgeJobs.mp hj₀).1 hjmem
      (hid₀.trans hid.symm)
    cases hg.symm.trans hjg
    rw [hjv, hlv] at hcap
    exact ⟨hcap, j₀, hj', ⟨hjv.trans hlv, hjg⟩, hid, hfile⟩

/-- A transaction that leaves the workers, or ends one of them. -/
lemma sound_of_moves (hw : w.Sound) (m : PurgeMoves w.cat w'.cat) (hlog : w'.log = w.log)
    (hworkers : ∀ k ∈ w'.workers, k ∈ w.workers) : w'.Sound := by
  have hlog' : w'.log = w.log ++ [] := by rw [hlog, append_nil]
  refine hw.of_moves m hlog' fun k hk => ?_
  rw [hlog']
  exact hw.worker m [] (hworkers k hk)

lemma sound_phase {k : PurgeWorker} (hw : w.Sound) (hk : k ∈ w.workers)
    (m : PurgeMoves w.cat w'.cat) {p : PurgePhase} (hp : ∀ i ∈ p.items, i ∈ k.phase.items)
    {es : List PurgeEvent} (hlog : w'.log = w.log ++ es)
    (hworkers : w'.workers = w.replaced { k with phase := p }) : w'.Sound := by
  refine hw.of_moves m hlog ?_
  rw [hworkers, hlog]
  exact hw.replaced m es ((hw.worker m es hk).phase hp)

/-- The invariant holds after an admission. -/
lemma sound_admitted {jobs : List Job} {items : List DeletionItem} (hw : w.Sound)
    (hadm : Admission v (freshGroupId w.cat) w.cat w'.cat jobs items)
    (hworkers : w'.workers = w.workers)
    (hlog : w'.log = w.log ++ [.admitted v (freshGroupId w.cat) jobs items]) : w'.Sound where
  delayed := hadm.delayed hw.delayed
  captured := by
    rw [hlog]
    exact hw.captured.admission hadm
  workers := by
    rw [hworkers, hlog]
    exact fun k hk => (hw.workers k hk).admission hadm _

/-- **What a step does** to the workers and the history. -/
inductive Acted (w w' : PurgeWorld) : Prop
  | idle (m : PurgeMoves w.cat w'.cat) (hworkers : ∀ k ∈ w'.workers, k ∈ w.workers)
      (hlog : w'.log = w.log)
  | admitted {v : VaultId} {jobs : List Job} {items : List DeletionItem}
      (hadm : Admission v (freshGroupId w.cat) w.cat w'.cat jobs items)
      (hworkers : w'.workers = w.workers)
      (hlog : w'.log = w.log ++ [.admitted v (freshGroupId w.cat) jobs items])
  | claimed {lead : JobId} {token : ℕ} {now expires : Stamp}
      (h : w.claim lead token now expires = some w')
  | loaded {k : PurgeWorker} {vaults : VaultTable} {at_ : Stamp} (hk : k ∈ w.workers)
      (h : w.load k vaults at_ = some w')
  | authorised {k : PurgeWorker} {vaults : VaultTable} {at_ now expires : Stamp}
      (hk : k ∈ w.workers) (m : PurgeMoves w.cat w'.cat)
      (h : w.authorise k vaults at_ now expires = some w')
  | sent {k : PurgeWorker} {answer : DeleteAnswer} (hk : k ∈ w.workers)
      (m : PurgeMoves w.cat w'.cat) (h : w.send k answer = some w')
  | recorded {k : PurgeWorker} {returnedAt now expires : Stamp} (hk : k ∈ w.workers)
      (m : PurgeMoves w.cat w'.cat) (h : w.record k returnedAt now expires = some w')

lemma acted_of_act {a : DeletionAct} (hd : Delayed w.cat) (h : w.act a = some w') :
    w.Acted w' := by
  have hmoves : a.admits = false → PurgeMoves w.cat w'.cat := fun ha => purgeMoves_of_act hd ha h
  have hsame : ∀ k ∈ w.workers, k ∈ w.workers := fun _ hk => hk
  have hwithout : ∀ token, ∀ k ∈ w.without token, k ∈ w.workers := fun _ _ hk =>
    (mem_filter.mp hk).1
  cases a with
  | schedule vaults v sel requestedAt confirmation reason origin =>
      obtain ⟨jobs, items, hadm, hworkers, hlog⟩ := schedule_cases h
      exact .admitted hadm hworkers hlog
  | cancel vaults v g =>
      obtain ⟨cat, -, rfl⟩ := map_eq_some_iff.mp h
      exact .idle (hmoves rfl) hsame rfl
  | restart listing lead now =>
      obtain ⟨cat, -, rfl⟩ := map_eq_some_iff.mp h
      exact .idle (hmoves rfl) hsame rfl
  | sight vaults s =>
      obtain ⟨cat, -, rfl⟩ := map_eq_some_iff.mp h
      exact .idle (hmoves rfl) hsame rfl
  | other cat =>
      simp only [act] at h
      split at h <;> cases h
      exact .idle (hmoves rfl) hsame rfl
  | claim lead token now expires =>
      simp only [act] at h
      split at h
      · cases h
      · exact .claimed h
  | heartbeat token now expires =>
      obtain ⟨k, -, rfl⟩ := map_eq_some_iff.mp h
      exact .idle (hmoves rfl) hsame rfl
  | load token vaults at_ =>
      obtain ⟨k, hk, h⟩ := bind_eq_some_iff.mp h
      exact .loaded (mem_of_worker? hk).1 h
  | authorise token vaults at_ now expires =>
      obtain ⟨k, hk, h⟩ := bind_eq_some_iff.mp h
      exact .authorised (mem_of_worker? hk).1 (hmoves rfl) h
  | send token answer =>
      obtain ⟨k, hk, h⟩ := bind_eq_some_iff.mp h
      exact .sent (mem_of_worker? hk).1 (hmoves rfl) h
  | record token returnedAt now expires =>
      obtain ⟨k, hk, h⟩ := bind_eq_some_iff.mp h
      exact .recorded (mem_of_worker? hk).1 (hmoves rfl) h
  | finish token now expires =>
      obtain ⟨k, -, h⟩ := bind_eq_some_iff.mp h
      obtain ⟨_, _, -, -, -, hworkers, hlog⟩ := finish_cases h
      exact .idle (hmoves rfl) (hworkers ▸ hwithout _) hlog
  | release token now =>
      obtain ⟨k, -, rfl⟩ := map_eq_some_iff.mp h
      exact .idle (hmoves rfl) (hwithout _) rfl
  | report token status now =>
      simp only [act] at h
      split at h
      · obtain ⟨k, -, rfl⟩ := map_eq_some_iff.mp h
        exact .idle (hmoves rfl) (hwithout _) rfl
      · cases h
  | stop token =>
      cases h
      exact .idle (hmoves rfl) (hwithout _) rfl

/-- **Every step keeps the invariant.** -/
theorem sound_act {a : DeletionAct} (hw : w.Sound) (h : w.act a = some w') : w'.Sound := by
  cases acted_of_act hw.delayed h with
  | idle m hworkers hlog => exact sound_of_moves hw m hlog hworkers
  | admitted hadm hworkers hlog => exact sound_admitted hw hadm hworkers hlog
  | claimed h => exact sound_claimed h hw
  | loaded hk h => exact sound_loaded h hk hw
  | authorised hk m h =>
      obtain ⟨expected, batch, batches, hphase, vault, -, ⟨-, -, hworkers, hlog⟩ |
        ⟨-, hworkers, hlog⟩⟩ := authorise_cases h
      · refine sound_phase hw hk m (fun i hi => ?_) hlog hworkers
        rw [hphase]
        exact hi
      · exact sound_of_moves hw m hlog fun l hl => (mem_filter.mp (hworkers ▸ hl)).1
  | sent hk m h =>
      obtain ⟨expected, batch, deleted, failed, batches, hphase, -, hworkers, hlog⟩ :=
        send_cases h
      refine sound_phase hw hk m (fun i hi => ?_) hlog hworkers
      rw [hphase]
      exact mem_append_right _ hi
  | recorded hk m h =>
      obtain ⟨expected, deleted, failed, batches, cat, hphase, -, -, hworkers, hlog⟩ :=
        record_cases h
      have hlog' : w'.log = w.log ++ [] := by rw [hlog, append_nil]
      refine sound_phase hw hk m (fun i hi => ?_) hlog' hworkers
      rw [hphase]
      exact hi

end PurgeWorld

lemma deletionStep_eq_some {w w' : PurgeWorld} {a : DeletionAct} :
    deletionStep w a = some w' ↔ w.act a = some w' ∧ OneActiveFile w'.cat := by
  simp only [deletionStep, bind_eq_bind, bind_eq_some_iff, guard_eq_some',
    exists_const, Option.some.injEq]
  constructor
  · rintro ⟨w₁, hact, hone, rfl⟩
    exact ⟨hact, hone⟩
  · rintro ⟨hact, hone⟩
    exact ⟨w', hact, hone, rfl⟩

/-- The invariant of every run. -/
theorem sound_run {as : List DeletionAct} {w : PurgeWorld} (hcat : Unrequested cat)
    (hrun : Runs.run deletionStep (PurgeWorld.start cat) as = some w) :
    w.Sound ∧ OneActiveFile w.cat := by
  refine Runs.run_induction (I := fun u => u.Sound ∧ OneActiveFile u.cat)
    (fun u a u' hu hstep => ?_) ⟨sound_start hcat, hcat.one⟩ hrun
  obtain ⟨hact, hone⟩ := deletionStep_eq_some.mp hstep
  exact ⟨PurgeWorld.sound_act hu.1 hact, hone⟩

end Frostvault
