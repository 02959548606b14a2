import Frostvault.Deletion.PurgeSteps
import Frostvault.Observation.Coverage

/-!
Reappearances and the consent to a cloud deletion (`_cancel_reappeared_deletions` of
`app/catalog.py`).

A file that is seen on disk again revokes the pending deletion of its whole request.  The
statement looks for Jobs in `pending_delay` only: a group that was leased once and given back,
by a preflight release or a restart, waits as `queued` and is not found.  Its next validation
reads the Local Copy as it is then, so a copy that came and went leaves no trace.

* `GroupOver`, `over_act`: a revoked group stays over, and nobody works on it again;
* `no_deletion_run`: then no run deletes an item of it;
* `sight_succeeds`: an observation never fails because of a group;
* `over_after_sight_iff`: it ends the group exactly if it finds a waiting Job;
* `reappearance_revokes_iff`: **the two together**.
-/

namespace Frostvault

open Runs List

variable {cat cat' : Catalog} {v : VaultId} {g : GroupId}

/-! ### Groups that are over -/

/-- Every Job of the group is terminal; `ids` are Jobs of the group. -/
structure GroupOver (cat : Catalog) (v : VaultId) (g : GroupId) (ids : List JobId) : Prop where
  known : ∃ j ∈ purgeJobs cat, j.vaultId = v ∧ j.groupId = some g
  members : ∀ n ∈ ids, ∃ j ∈ purgeJobs cat, j.id = n ∧ j.vaultId = v ∧ j.groupId = some g
  ended : ∀ j ∈ purgeJobs cat, j.vaultId = v → j.groupId = some g → j.status.terminal = true

/-- The event deletes an item of one of the Jobs. -/
def PurgeEvent.Deletes (ids : List JobId) : PurgeEvent → Prop
  | .deleteObjects _ _ _ batch => ∃ i ∈ batch, i.jobId ∈ ids
  | _ => False

/-- The group is over, and nobody works on it. -/
structure Abandoned (w : PurgeWorld) (v : VaultId) (g : GroupId) (ids : List JobId) : Prop
    extends GroupOver w.cat v g ids where
  idle : ∀ k ∈ w.workers, ¬ (k.vaultId = v ∧ k.groupId = g)

lemma GroupOver.activePurges_eq {ids : List JobId} (h : GroupOver cat v g ids) :
    activePurges cat v g = [] := by
  refine filter_eq_nil_iff.mpr fun j hj hopen => ?_
  simp only [purgeGroup, mem_filter, Bool.and_eq_true, decide_eq_true_eq] at hj
  have hover := h.ended j (mem_purgeJobs.mpr ⟨hj.1, hj.2.2⟩) hj.2.1.1 hj.2.1.2
  rw [hover] at hopen
  cases hopen

lemma GroupOver.move {ids : List JobId} (h : GroupOver cat v g ids) (m : PurgeMoves cat cat') :
    GroupOver cat' v g ids := by
  obtain ⟨f, t, m⟩ := m
  refine ⟨?_, fun n hn => ?_, fun j' hj' hv hg => ?_⟩
  · obtain ⟨j, hj, hv, hg⟩ := h.known
    have hadv := m.advances j hj
    exact ⟨f j, m.mem_job hj, hadv.vaultId_eq.trans hv, hadv.groupId_eq.trans hg⟩
  · obtain ⟨j, hj, hid, hv, hg⟩ := h.members n hn
    have hadv := m.advances j hj
    exact ⟨f j, m.mem_job hj, hadv.id_eq.trans hid, hadv.vaultId_eq.trans hv,
      hadv.groupId_eq.trans hg⟩
  · obtain ⟨j, hj, -, hadv⟩ := m.exists_job hj'
    exact hadv.ended (h.ended j hj (hadv.vaultId_eq ▸ hv) (hadv.groupId_eq ▸ hg))

/-- An admission is of another group. -/
lemma GroupOver.admission {ids : List JobId} {u : VaultId} {jobs : List Job}
    {items : List DeletionItem} (h : GroupOver cat v g ids)
    (hadm : Admission u (freshGroupId cat) cat cat' jobs items) : GroupOver cat' v g ids := by
  have hold : ∀ j ∈ purgeJobs cat, j ∈ purgeJobs cat' := fun j hj => by
    rw [hadm.purgeJobs_eq]
    exact mem_append_left _ hj
  refine ⟨?_, fun n hn => ?_, fun j hj hv hg => ?_⟩
  · obtain ⟨j, hj, hrest⟩ := h.known
    exact ⟨j, hold j hj, hrest⟩
  · obtain ⟨j, hj, hrest⟩ := h.members n hn
    exact ⟨j, hold j hj, hrest⟩
  · rw [hadm.purgeJobs_eq] at hj
    rcases mem_append.mp hj with hj | hj
    · exact h.ended j hj hv hg
    · obtain ⟨l, hl, -, hlg⟩ := h.known
      have hnew : g = freshGroupId cat :=
        Option.some.inj (hg.symm.trans (hadm.waiting j hj).2.1)
      exact absurd hnew (groupId_ne_freshGroupId (mem_purgeJobs.mp hl).1 hlg)

variable {w w' u : PurgeWorld} {ids : List JobId}

lemma Abandoned.not_claimed (h : Abandoned w v g ids) {lead : JobId} {token : ℕ}
    {now expires : Stamp} (hw : w.claim lead token now expires = some w') :
    ∀ k ∈ w'.workers, ¬ (k.vaultId = v ∧ k.groupId = g) := by
  obtain ⟨job, hjob, hlead, n, hn, hcat, hworkers, -⟩ := PurgeWorld.claim_cases hw
  rw [hworkers]
  intro k hk
  rcases mem_cons.mp hk with rfl | hk
  · rintro ⟨hv, hg⟩
    simp only [claimPurgeGroup, Option.bind_eq_bind, Option.bind_eq_some_iff,
      Option.guard_eq_some', exists_const] at hcat
    obtain ⟨job', hfind, n', hn', ⟨hne, -⟩, -⟩ := hcat
    have hfound := find?_some hfind
    simp only [Bool.and_eq_true, decide_eq_true_eq] at hfound
    obtain rfl : job' = job := w.cat.job_eq_of_id_eq (mem_of_find?_eq_some hfind)
      (mem_purgeJobs.mp hjob).1 (hfound.1.trans hlead.symm)
    obtain rfl : n' = n := Option.some.inj (hn'.symm.trans hn)
    rw [show job'.vaultId = v from hv, show n' = g from hg, h.activePurges_eq] at hne
    exact hne rfl
  · exact h.idle k (mem_filter.mp hk).1

lemma Abandoned.idle_of_subset (h : Abandoned w v g ids)
    (hsub : ∀ k ∈ w'.workers, ∃ l ∈ w.workers, k.vaultId = l.vaultId ∧ k.groupId = l.groupId) :
    ∀ k ∈ w'.workers, ¬ (k.vaultId = v ∧ k.groupId = g) := by
  intro k hk hgrp
  obtain ⟨l, hl, hv, hg⟩ := hsub k hk
  rw [hv, hg] at hgrp
  exact h.idle l hl hgrp

lemma mem_replaced {k l : PurgeWorker} {p : PurgePhase} (hk : k ∈ w.workers)
    (hl : l ∈ w.replaced { k with phase := p }) :
    ∃ l' ∈ w.workers, l.vaultId = l'.vaultId ∧ l.groupId = l'.groupId := by
  rcases mem_cons.mp hl with rfl | hl
  · exact ⟨k, hk, rfl, rfl⟩
  · exact ⟨l, (mem_filter.mp hl).1, rfl, rfl⟩

lemma mem_without {l : PurgeWorker} {token : ℕ} (hl : l ∈ w.without token) :
    ∃ l' ∈ w.workers, l.vaultId = l'.vaultId ∧ l.groupId = l'.groupId :=
  ⟨l, (mem_filter.mp hl).1, rfl, rfl⟩

/-- A step starts a worker by a claim only. -/
lemma PurgeWorld.Acted.workers (hw : w.Acted w') :
    (∃ lead token now expires, w.claim lead token now expires = some w') ∨
      ∀ k ∈ w'.workers, ∃ l ∈ w.workers, k.vaultId = l.vaultId ∧ k.groupId = l.groupId := by
  cases hw with
  | idle _ hworkers => exact .inr fun k hk => ⟨k, hworkers k hk, rfl, rfl⟩
  | admitted _ hworkers => exact .inr fun k hk => ⟨k, hworkers ▸ hk, rfl, rfl⟩
  | claimed h => exact .inl ⟨_, _, _, _, h⟩
  | loaded hk h =>
      obtain ⟨-, -, -, hworkers | ⟨-, hworkers⟩⟩ := PurgeWorld.load_cases h
      · exact .inr fun l hl => mem_without (hworkers ▸ hl)
      · exact .inr fun l hl => mem_replaced hk (hworkers ▸ hl)
  | authorised hk _ h =>
      obtain ⟨_, _, _, -, -, -, ⟨-, -, hworkers, -⟩ | ⟨-, hworkers, -⟩⟩ :=
        PurgeWorld.authorise_cases h
      · exact .inr fun l hl => mem_replaced hk (hworkers ▸ hl)
      · exact .inr fun l hl => mem_without (hworkers ▸ hl)
  | sent hk _ h =>
      obtain ⟨_, _, _, _, _, -, -, hworkers, -⟩ := PurgeWorld.send_cases h
      exact .inr fun l hl => mem_replaced hk (hworkers ▸ hl)
  | recorded hk _ h =>
      obtain ⟨_, _, _, _, _, -, -, -, hworkers, -⟩ := PurgeWorld.record_cases h
      exact .inr fun l hl => mem_replaced hk (hworkers ▸ hl)

/-- **A group that is over** stays over, and nobody works on it. -/
lemma over_act (hs : w.Sound) (h : Abandoned w v g ids) {a : DeletionAct} (hw : w.act a = some w') :
    Abandoned w' v g ids where
  toGroupOver := by
    cases ha : a.admits with
    | false => exact h.toGroupOver.move (purgeMoves_of_act hs.delayed ha hw)
    | true =>
        cases a with
        | schedule vaults u sel requestedAt confirmation reason origin =>
            obtain ⟨jobs, items, hadm, -⟩ := PurgeWorld.schedule_cases hw
            exact h.toGroupOver.admission hadm
        | _ => cases ha
  idle := by
    obtain ⟨lead, token, now, expires, hclaim⟩ | hsub :=
      (PurgeWorld.acted_of_act hs.delayed hw).workers
    · exact h.not_claimed hclaim
    · exact h.idle_of_subset hsub

/-! ### No deletion afterwards -/

/-- The history grows by what a step adds, and by no deletion of the group. -/
lemma log_act (hs : w.Sound) (h : Abandoned w v g ids) {a : DeletionAct} (hw : w.act a = some w') :
    ∃ es, w'.log = w.log ++ es ∧ ∀ e ∈ es, ¬ e.Deletes ids := by
  have hsame : w'.log = w.log → ∃ es, w'.log = w.log ++ es ∧ ∀ e ∈ es, ¬ e.Deletes ids :=
    fun heq => ⟨[], by rw [heq, append_nil], by simp⟩
  cases PurgeWorld.acted_of_act hs.delayed hw with
  | idle _ _ hlog => exact hsame hlog
  | admitted _ _ hlog =>
      refine ⟨_, hlog, fun e he => ?_⟩
      rw [mem_singleton.mp he]
      exact id
  | claimed hw =>
      obtain ⟨-, -, -, -, -, -, -, hlog⟩ := PurgeWorld.claim_cases hw
      exact hsame hlog
  | loaded hk hw => exact hsame (PurgeWorld.load_cases hw).1
  | authorised hk _ hw =>
      obtain ⟨_, _, _, -, _, -, ⟨-, -, -, hlog⟩ | ⟨-, -, hlog⟩⟩ :=
        PurgeWorld.authorise_cases hw
      · refine ⟨_, hlog, fun e he => ?_⟩
        rw [mem_singleton.mp he]
        exact id
      · exact hsame hlog
  | @sent k _ hk _ hw =>
      obtain ⟨_, batch, _, _, batches, hphase, -, -, hlog⟩ := PurgeWorld.send_cases hw
      refine ⟨_, hlog, fun e he => ?_⟩
      rw [mem_singleton.mp he]
      rintro ⟨i, hi, hid⟩
      -- the item belongs to a Job of the worker's group, which is another one
      have hitem : i ∈ k.phase.items := by
        rw [hphase]
        exact mem_append_left _ hi
      obtain ⟨-, j, hj, ⟨hjv, hjg⟩, hjid, -⟩ := (hs.workers k hk).items i hitem
      obtain ⟨l, hl, hlid, hlv, hlg⟩ := h.members _ hid
      obtain rfl : l = j := w.cat.job_eq_of_id_eq (mem_purgeJobs.mp hl).1 (mem_purgeJobs.mp hj).1
        (hlid.trans hjid.symm)
      exact h.idle k hk ⟨hjv.symm.trans hlv, Option.some.inj (hjg.symm.trans hlg)⟩
  | recorded hk _ hw =>
      obtain ⟨_, _, _, _, _, -, -, -, -, hlog⟩ := PurgeWorld.record_cases hw
      exact hsame hlog

/-- **No run deletes an item of a group that is over.** -/
lemma no_deletion_run (hs : w.Sound) (h : Abandoned w v g ids) {bs : List DeletionAct}
    (hrun : run deletionStep w bs = some u) :
    ∃ es, u.log = w.log ++ es ∧ ∀ e ∈ es, ¬ e.Deletes ids := by
  induction bs generalizing w with
  | nil =>
      cases hrun
      exact ⟨[], by simp, by simp⟩
  | cons a bs ih =>
      obtain ⟨w₁, hstep, hrun⟩ := run_cons_eq_some.mp hrun
      have hact := (deletionStep_eq_some.mp hstep).1
      obtain ⟨es, hlog, hes⟩ := log_act hs h hact
      obtain ⟨es', hlog', hes'⟩ :=
        ih (PurgeWorld.sound_act hs hact) (over_act hs h hact) hrun
      refine ⟨es ++ es', by rw [hlog', hlog, append_assoc], fun e he => ?_⟩
      rcases mem_append.mp he with he | he
      · exact hes e he
      · exact hes' e he

/-! ### Observations -/

/-- The observation records a copy of a file of the group. -/
def Sighting.Meets (s : Sighting) (cat : Catalog) (g : GroupId) : Prop :=
  ∃ j ∈ purgeGroup cat s.vault g, j.vaultFileId ∈ s.files cat

/-- The Job of such a file waits for its delay. -/
def Sighting.FindsWaiting (s : Sighting) (cat : Catalog) (g : GroupId) : Prop :=
  ∃ j ∈ purgeGroup cat s.vault g, j.vaultFileId ∈ s.files cat ∧ j.status = .pendingDelay

/-- The group is not over, and nobody holds a live lease on it. -/
def Unleased (cat : Catalog) (v : VaultId) (g : GroupId) (now : Stamp) : Prop :=
  activePurges cat v g ≠ [] ∧ ∀ j ∈ activePurges cat v g, j.claimAvailable now = true

instance (s : Sighting) (cat : Catalog) (g : GroupId) : Decidable (s.Meets cat g) :=
  inferInstanceAs (Decidable (∃ _ ∈ _, _))

instance (s : Sighting) (cat : Catalog) (g : GroupId) : Decidable (s.FindsWaiting cat g) :=
  inferInstanceAs (Decidable (∃ _ ∈ _, _))

instance (cat : Catalog) (v : VaultId) (g : GroupId) (now : Stamp) :
    Decidable (Unleased cat v g now) := inferInstanceAs (Decidable (_ ∧ _))

lemma mem_purgeGroup {j : Job} :
    j ∈ purgeGroup cat v g ↔ j ∈ purgeJobs cat ∧ j.vaultId = v ∧ j.groupId = some g := by
  simp only [purgeGroup, mem_purgeJobs, mem_filter, Bool.and_eq_true, decide_eq_true_eq,
    and_assoc]
  constructor
  · rintro ⟨hj, hv, hg, hact⟩
    exact ⟨hj, hact, hv, hg⟩
  · rintro ⟨hj, hact, hv, hg⟩
    exact ⟨hj, hv, hg, hact⟩

lemma mem_openGroups_iff {s : Sighting} :
    some g ∈ openGroups cat.jobs s.vault (s.files cat) ↔ s.FindsWaiting cat g := by
  rw [mem_openGroups]
  constructor
  · rintro ⟨j, hj, hv, hfile, hact, hst, hg⟩
    exact ⟨j, mem_purgeGroup.mpr ⟨mem_purgeJobs.mpr ⟨hj, hact⟩, hv, hg⟩, hfile, hst⟩
  · rintro ⟨j, hj, hfile, hst⟩
    obtain ⟨hj, hv, hg⟩ := mem_purgeGroup.mp hj
    obtain ⟨hj, hact⟩ := mem_purgeJobs.mp hj
    exact ⟨j, hj, hv, hfile, hact, hst, hg⟩

/-- **An observation never fails because of a group**: a group it finds waits as a whole. -/
lemma sight_succeeds (hd : Delayed w.cat) {vaults : VaultTable} {s : Sighting}
    (hvault : (vaults s.vault).isSome) : ∃ cat', s.run vaults w.cat = some cat' := by
  obtain ⟨written, hjobs, hitems, hrun⟩ := s.run_eq vaults w.cat
  obtain ⟨cat', hfiles, hrev⟩ := exists_revoked hjobs hitems s.vault
    (openGroups w.cat.jobs s.vault (s.files w.cat))
  refine ⟨cat', ?_⟩
  rw [hrun, cancelReappearedDeletions_iff, hjobs]
  refine ⟨fun n hn => ?_, hfiles, (revoked_iff_of_rows hjobs hitems).mpr hrev⟩
  obtain ⟨j, hj, hv, hfile, hact, hst, rfl⟩ := mem_openGroups.mp hn
  have hj' : j ∈ purgeJobs w.cat := mem_purgeJobs.mpr ⟨hj, hact⟩
  refine ⟨hd.grouped j hj', hvault, ⟨j, hj, ?_⟩, fun k hk hin => ?_⟩
  · exact inGroups_iff.mpr ⟨hv, hact, mem_singleton_self _⟩
  · obtain ⟨hkv, hkact, hkg⟩ := inGroups_iff.mp hin
    obtain ⟨n, hn⟩ := Option.isSome_iff_exists.mp (hd.grouped j hj')
    refine hd.together j hj' k (mem_purgeJobs.mpr ⟨hk, hkact⟩) ⟨hv.trans hkv.symm, n, hn, ?_⟩ hst
    rw [mem_singleton.mp hkg, hn]

lemma oneActiveFile_cancel {ids : List JobId} (h : OneActiveFile cat)
    (hjobs : cat'.jobs = cat.jobs.map (cancelJob ids)) : OneActiveFile cat' := by
  have hfile : Job.vaultFileId ∘ cancelJob ids = Job.vaultFileId := funext fun j => by
    simp only [Function.comp_apply, cancelJob]
    split <;> rfl
  rw [OneActiveFile, hjobs, filter_map, map_map, hfile]
  refine List.Nodup.sublist ((monotone_filter_right cat.jobs fun j hj => ?_).map _) h
  simp only [Function.comp_apply, cancelJob] at hj
  split at hj
  · cases hj
  · exact hj

/-- **What an observation ends**: a group is over afterwards exactly if the Job of a recorded
file was waiting for its delay. -/
lemma over_after_sight_iff {vaults : VaultTable} {s : Sighting}
    (hrun : s.run vaults cat = some cat') (hopen : activePurges cat s.vault g ≠ []) :
    (∀ j ∈ purgeGroup cat' s.vault g, j.status.terminal) ↔ s.FindsWaiting cat g := by
  obtain ⟨-, hrev⟩ := Sighting.run_spec hrun
  have hgroup : purgeGroup cat' s.vault g = (purgeGroup cat s.vault g).map
      (cancelJob (memberIds cat.jobs s.vault
        (openGroups cat.jobs s.vault (s.files cat)))) := by
    rw [purgeGroup, hrev.jobs, filter_map]
    refine congrArg _ (filter_congr fun j _ => ?_)
    simp only [Function.comp_apply, cancelJob]
    split <;> rfl
  constructor
  · intro hover
    obtain ⟨j, hj⟩ := exists_mem_of_ne_nil _ hopen
    obtain ⟨hj, hst⟩ := mem_filter.mp hj
    obtain ⟨hjobs, -, hg⟩ := mem_purgeGroup.mp hj
    by_contra hno
    -- the member is not cancelled, so it is as open as before
    have hkeep : j.id ∉ memberIds cat.jobs s.vault
        (openGroups cat.jobs s.vault (s.files cat)) := fun hmem => by
      have hmem := ((id_mem_memberIds hjobs).mp hmem).2
      rw [hg] at hmem
      exact hno (mem_openGroups_iff.mp hmem)
    have hterm := hover _ (hgroup ▸ mem_map_of_mem hj)
    rw [cancelJob, if_neg hkeep] at hterm
    rw [hterm] at hst
    cases hst
  · intro hwait j' hj'
    rw [hgroup] at hj'
    obtain ⟨j, hj, rfl⟩ := mem_map.mp hj'
    obtain ⟨hjobs, hv, hg⟩ := mem_purgeGroup.mp hj
    have hfound := mem_openGroups_iff.mpr hwait
    rw [← hg] at hfound
    rw [cancelJob, if_pos ((id_mem_memberIds hjobs).mpr ⟨hv, hfound⟩)]
    rfl

/-- A group whose members are over after a move. -/
lemma groupOver_of_move (m : PurgeMoves cat cat') (hne : purgeGroup cat v g ≠ [])
    (hover : ∀ j ∈ purgeGroup cat' v g, j.status.terminal) :
    GroupOver cat' v g ((purgeGroup cat v g).map Job.id) := by
  obtain ⟨f, t, m⟩ := m
  have hmem : ∀ j ∈ purgeGroup cat v g, ∃ j' ∈ purgeJobs cat', j'.id = j.id ∧ j'.vaultId = v ∧
      j'.groupId = some g := by
    intro j hj
    obtain ⟨hj, hv, hg⟩ := mem_purgeGroup.mp hj
    have hadv := m.advances j hj
    exact ⟨f j, m.mem_job hj, hadv.id_eq, hadv.vaultId_eq.trans hv, hadv.groupId_eq.trans hg⟩
  refine ⟨?_, fun n hn => ?_, fun j hj hv hg => ?_⟩
  · obtain ⟨j, hj⟩ := exists_mem_of_ne_nil _ hne
    obtain ⟨j', hj', -, hrest⟩ := hmem j hj
    exact ⟨j', hj', hrest⟩
  · obtain ⟨j, hj, rfl⟩ := mem_map.mp hn
    exact hmem j hj
  · exact hover j (mem_purgeGroup.mpr ⟨hj, hv, hg⟩)

lemma idle_of_findsWaiting (hs : w.Sound) {s : Sighting} (h : s.FindsWaiting w.cat g) :
    ∀ k ∈ w.workers, ¬ (k.vaultId = s.vault ∧ k.groupId = g) := by
  rintro k hk ⟨hv, hg⟩
  obtain ⟨j, hj, -, hst⟩ := h
  obtain ⟨hj, hjv, hjg⟩ := mem_purgeGroup.mp hj
  exact (hs.workers k hk).begun j hj ⟨hjv.trans hv.symm, by rw [hjg, hg]⟩ hst

/-- **Reappearances revoke a group that waits for its delay, and only such a group.**  In every
state of every run an observation succeeds.  A group that is not over and not leased, with a
file it records, is over afterwards exactly if the Job of such a file waits in
`pending_delay`; then no later step of any run deletes an item of the group. -/
theorem reappearance_revokes_iff {cat : Catalog} (hcat : Unrequested cat) {as : List DeletionAct}
    {w : PurgeWorld} (hrun : run deletionStep (.start cat) as = some w) {vaults : VaultTable}
    {s : Sighting} (hvault : (vaults s.vault).isSome = true) :
    ∃ w', deletionStep w (.sight vaults s) = some w' ∧
      ∀ g now, s.Meets w.cat g → Unleased w.cat s.vault g now →
        ((∀ j ∈ purgeGroup w'.cat s.vault g, j.status.terminal = true) ↔
          s.FindsWaiting w.cat g) ∧
        (s.FindsWaiting w.cat g → ∀ bs u, run deletionStep w' bs = some u →
          ∃ es, u.log = w'.log ++ es ∧
            ∀ e ∈ es, ¬ e.Deletes ((purgeGroup w.cat s.vault g).map Job.id)) := by
  obtain ⟨hs, hone⟩ := sound_run hcat hrun
  obtain ⟨cat', hcat'⟩ := sight_succeeds hs.delayed hvault
  have hact : w.act (.sight vaults s) = some { w with cat := cat' } := by
    simp only [PurgeWorld.act, hcat', Option.map_some]
  have hone' := oneActiveFile_cancel hone (Sighting.run_spec hcat').2.jobs
  refine ⟨{ w with cat := cat' }, deletionStep_eq_some.mpr ⟨hact, hone'⟩,
    fun g now hmeets hopen => ?_⟩
  have hiff := over_after_sight_iff hcat' hopen.1
  refine ⟨hiff, fun hwait bs u hbs => ?_⟩
  have hne : purgeGroup w.cat s.vault g ≠ [] := by
    obtain ⟨j, hj, -⟩ := hmeets
    exact ne_nil_of_mem hj
  have hgone : Abandoned { w with cat := cat' } s.vault g
      ((purgeGroup w.cat s.vault g).map Job.id) :=
    { toGroupOver := groupOver_of_move (purgeMoves_sight hcat') hne (hiff.mpr hwait)
      idle := idle_of_findsWaiting hs hwait }
  exact no_deletion_run (PurgeWorld.sound_act hs hact) hgone hbs

/-! ### A request that was leased once -/

instance (ids : List JobId) : ∀ e : PurgeEvent, Decidable (e.Deletes ids)
  | .admitted .. => isFalse id
  | .validated _ => isFalse id
  | .deleteObjects _ _ _ batch =>
      inferInstanceAs (Decidable (∃ i ∈ batch, i.jobId ∈ ids))

/-- The request for the file at `a`. -/
def requestedDeletion : List DeletionAct :=
  [.schedule openVault 0 ⟨[['a']], false, false⟩ 0 "photos" "no longer needed" .manual]

/-- The request is leased when it is due, and given back by the preflight. -/
def releasedDeletion : List DeletionAct :=
  requestedDeletion ++
    [.claim 1 7 deletionDelaySeconds (deletionDelaySeconds + 300),
      .release 7 (deletionDelaySeconds + 1)]

/-- The file is there again, with the archived content. -/
def copyIsBack : Sighting :=
  .single 0 ⟨['a'], .regular, some 10, some 0, deletionDelaySeconds + 2⟩ none none

/-- The copy is recognised, which settles its hold, and disappears; then the request is due. -/
def goneAgain (w : PurgeWorld) : List DeletionAct :=
  let settled := setLocalFingerprint w.cat 0 ['a'] 3 (some 1)
  [.other settled, .other (markLocalCopyMissing settled 1 (deletionDelaySeconds + 3)),
    .claim 1 8 (deletionDelaySeconds + 4) (deletionDelaySeconds + 304),
    .load 8 openVault (deletionDelaySeconds + 4),
    .authorise 8 openVault (deletionDelaySeconds + 5) (deletionDelaySeconds + 5)
      (deletionDelaySeconds + 305),
    .send 8 (some [])]

lemma unrequested_cloudOnlyCatalog : Unrequested cloudOnlyCatalog where
  jobs := by simp [cloudOnlyCatalog]
  items := rfl
  one := by decide

/-- A request that was leased and given back survives the reappearance of its file, and its
version is deleted once the copy is gone again. -/
theorem released_group_survives_reappearance :
    ¬ ∀ (cat : Catalog) (as bs : List DeletionAct) (w w' u : PurgeWorld) (vaults : VaultTable)
      (s : Sighting) (g : GroupId) (now : Stamp), Unrequested cat →
        run deletionStep (.start cat) as = some w →
        deletionStep w (.sight vaults s) = some w' → s.Meets w.cat g →
        Unleased w.cat s.vault g now → run deletionStep w' bs = some u →
        ∃ es, u.log = w'.log ++ es ∧
          ∀ e ∈ es, ¬ e.Deletes ((purgeGroup w.cat s.vault g).map Job.id) := by
  intro hall
  have hrun : (do
      let w ← run deletionStep (.start cloudOnlyCatalog) releasedDeletion
      let w' ← deletionStep w (.sight openVault copyIsBack)
      let u ← run deletionStep w' (goneAgain w')
      some (decide (copyIsBack.Meets w.cat 1 ∧
        Unleased w.cat copyIsBack.vault 1 (deletionDelaySeconds + 2) ∧
        ∃ e ∈ u.log.drop w'.log.length,
          e.Deletes ((purgeGroup w.cat copyIsBack.vault 1).map Job.id)))) = some true := by
    decide
  simp only [Option.bind_eq_bind, Option.bind_eq_some_iff, Option.some.injEq,
    decide_eq_true_eq] at hrun
  obtain ⟨w, hw, w', hw', u, hu, hmeets, hopen, e, he, hdel⟩ := hrun
  obtain ⟨es, hlog, hes⟩ := hall _ _ _ w w' u _ _ 1 _ unrequested_cloudOnlyCatalog hw hw' hmeets
    hopen hu
  rw [hlog, drop_left] at he
  exact hes e he hdel

/-- A request that still waits for its delay is revoked for good. -/
theorem reappearance_revokes_waiting_request :
    ∃ w w', run deletionStep (.start cloudOnlyCatalog) requestedDeletion = some w ∧
      deletionStep w (.sight openVault copyIsBack) = some w' ∧
      ∀ bs u, run deletionStep w' bs = some u → ∃ es, u.log = w'.log ++ es ∧
        ∀ e ∈ es, ¬ e.Deletes [1] := by
  have hrun : (run deletionStep (.start cloudOnlyCatalog) requestedDeletion).map
      (fun w => decide (copyIsBack.Meets w.cat 1 ∧
        Unleased w.cat copyIsBack.vault 1 (deletionDelaySeconds + 2) ∧
        copyIsBack.FindsWaiting w.cat 1 ∧
        (purgeGroup w.cat copyIsBack.vault 1).map Job.id = [1])) = some true := by decide
  obtain ⟨w, hw, hdec⟩ := Option.map_eq_some_iff.mp hrun
  obtain ⟨hmeets, hopen, hwait, hids⟩ := of_decide_eq_true hdec
  have hvault : (openVault copyIsBack.vault).isSome = true := rfl
  obtain ⟨w', hw', hall⟩ := reappearance_revokes_iff unrequested_cloudOnlyCatalog hw hvault
  refine ⟨w, w', hw, hw', ?_⟩
  rw [← hids]
  exact (hall 1 _ hmeets hopen).2 hwait

end Frostvault
