import Frostvault.Deletion.PurgeWorker
import Frostvault.Observation.Revocation

/-!
What the transactions of the delayed cloud deletion do to its Jobs and items.

Every transaction but an admission rewrites the `cloud-purge` Jobs and the items row by row.
It keeps what the consent says, ends no Job twice, and takes a group out of its delay as a
whole.

* `Job.Advances`, `SameTarget`: what may happen to one Job and one item;
* `PurgeMove`: what may happen to all of them; `PurgeMove.trans`: one after the other;
* `Delayed`: the Jobs of a group wait together, and without claim;
* `purgeMoves_claim`, `purgeMoves_restart`, `purgeMoves_sight`, ..: the transactions.
-/

namespace Frostvault

open List

/-! ### Moves -/

/-- Two Jobs of one group of a Vault. -/
def Job.SameGroup (j k : Job) : Prop :=
  j.vaultId = k.vaultId ∧ ∃ g, j.groupId = some g ∧ k.groupId = some g

/-- What may happen to a Job: its status and its claim change, it stays over when it is over,
and it is not touched as long as it waits for its delay. -/
structure Job.Advances (j j' : Job) : Prop where
  columns : j' = { j with
    status := j'.status
    claimToken := j'.claimToken
    claimExpiresAt := j'.claimExpiresAt }
  ended : j.status.terminal = true → j'.status.terminal = true
  waiting : j'.status = .pendingDelay → j' = j

/-- Only the status of an item changes. -/
def SameTarget (i i' : DeletionItem) : Prop := i' = { i with status := i'.status }

/-- What every transaction but an admission does. -/
structure PurgeMove (h : Job → Job) (g : DeletionItem → DeletionItem) (cat cat' : Catalog) :
    Prop where
  jobs : purgeJobs cat' = (purgeJobs cat).map h
  items : cat'.items = cat.items.map g
  advances : ∀ j ∈ purgeJobs cat, j.Advances (h j)
  /-- A group leaves its delay as a whole. -/
  whole : ∀ j ∈ purgeJobs cat, ∀ k ∈ purgeJobs cat, j.SameGroup k →
    j.status = .pendingDelay → k.status = .pendingDelay →
      (h j).status = .pendingDelay → (h k).status = .pendingDelay
  targets : ∀ i, SameTarget i (g i)

/-- Every Job has a group, whose Jobs wait for their delay together, without a claim. -/
structure Delayed (cat : Catalog) : Prop where
  grouped : ∀ j ∈ purgeJobs cat, j.groupId.isSome = true
  together : ∀ j ∈ purgeJobs cat, ∀ k ∈ purgeJobs cat, j.SameGroup k →
    j.status = .pendingDelay → k.status = .pendingDelay ∧ k.claimToken = none

variable {cat cat' cat'' : Catalog} {v : VaultId}

lemma mem_purgeJobs {j : Job} :
    j ∈ purgeJobs cat ↔ j ∈ cat.jobs ∧ j.action = .cloudPurge := by
  simp only [purgeJobs, mem_filter, decide_eq_true_eq]

namespace Job.Advances

variable {j j' j'' : Job}

lemma refl (j : Job) : j.Advances j := ⟨rfl, fun h => h, fun _ => rfl⟩

section

variable (h : j.Advances j')

include h

lemma id_eq : j'.id = j.id := by rw [h.columns]

lemma vaultId_eq : j'.vaultId = j.vaultId := by rw [h.columns]

lemma file_eq : j'.vaultFileId = j.vaultFileId := by rw [h.columns]

lemma groupId_eq : j'.groupId = j.groupId := by rw [h.columns]

lemma trans (h' : j'.Advances j'') : j.Advances j'' where
  columns := by
    rw [h'.columns, h.columns]
  ended hj := h'.ended (h.ended hj)
  waiting hj := by
    have hj' := h'.waiting hj
    rw [hj'] at hj ⊢
    exact h.waiting hj

end

lemma sameGroup_iff {k k' : Job} (hj : j.Advances j') (hk : k.Advances k') :
    j'.SameGroup k' ↔ j.SameGroup k := by
  simp only [Job.SameGroup, hj.vaultId_eq, hk.vaultId_eq, hj.groupId_eq, hk.groupId_eq]

end Job.Advances

lemma Job.advances_settle {j : Job} {st : JobStatus} (hopen : j.status.terminal = false)
    (hst : st ≠ .pendingDelay) : j.Advances (j.settle st) where
  columns := rfl
  ended h := by
    rw [hopen] at h
    cases h
  waiting h := absurd h hst

/-- A Job whose term is extended, and that is not waiting. -/
lemma Job.advances_extend {j : Job} (expires : Option Stamp) (hj : j.status ≠ .pendingDelay) :
    j.Advances { j with claimExpiresAt := expires } where
  columns := rfl
  ended h := h
  waiting h := absurd h hj

lemma SameTarget.refl (i : DeletionItem) : SameTarget i i := rfl

lemma SameTarget.trans {i i' i'' : DeletionItem} (h : SameTarget i i') (h' : SameTarget i' i'') :
    SameTarget i i'' := by
  unfold SameTarget at *
  rw [h', h]

namespace PurgeMove

variable {h h' : Job → Job} {g g' : DeletionItem → DeletionItem}

lemma of_same (hjobs : purgeJobs cat' = purgeJobs cat) (hitems : cat'.items = cat.items) :
    PurgeMove id id cat cat' where
  jobs := by rw [map_id, hjobs]
  items := by rw [map_id, hitems]
  advances j _ := .refl j
  whole _ _ _ _ _ _ hk _ := hk
  targets i := .refl i

lemma trans (m : PurgeMove h g cat cat') (m' : PurgeMove h' g' cat' cat'') :
    PurgeMove (h' ∘ h) (g' ∘ g) cat cat'' where
  jobs := by rw [m'.jobs, m.jobs, map_map]
  items := by rw [m'.items, m.items, map_map]
  advances j hj := (m.advances j hj).trans
    (m'.advances (h j) (m.jobs ▸ mem_map_of_mem hj))
  whole j hj k hk hjk hjw hkw hjw' := by
    have hj' : h j ∈ purgeJobs cat' := m.jobs ▸ mem_map_of_mem hj
    have hk' : h k ∈ purgeJobs cat' := m.jobs ▸ mem_map_of_mem hk
    have hmid : (h j).status = .pendingDelay := by
      have hstay : h' (h j) = h j := (m'.advances (h j) hj').waiting hjw'
      rwa [Function.comp_apply, hstay] at hjw'
    have hkmid := m.whole j hj k hk hjk hjw hkw hmid
    exact m'.whole (h j) hj' (h k) hk'
      (((m.advances j hj).sameGroup_iff (m.advances k hk)).mpr hjk) hmid hkmid hjw'
  targets i := (m.targets i).trans (m'.targets (g i))

/-- A transaction that rewrites Jobs and items row by row. -/
lemma of_map (hjobs : cat'.jobs = cat.jobs.map h) (hitems : cat'.items = cat.items.map g)
    (hact : ∀ j, (h j).action = j.action)
    (hadv : ∀ j ∈ purgeJobs cat, j.Advances (h j))
    (hwhole : ∀ j ∈ purgeJobs cat, ∀ k ∈ purgeJobs cat, j.SameGroup k →
      j.status = .pendingDelay → k.status = .pendingDelay →
        (h j).status = .pendingDelay → (h k).status = .pendingDelay)
    (htar : ∀ i, SameTarget i (g i)) : PurgeMove h g cat cat' where
  jobs := by
    rw [purgeJobs, hjobs, filter_map]
    refine congrArg (List.map h) (filter_congr fun j _ => ?_)
    simp only [Function.comp_apply, hact]
  items := hitems
  advances := hadv
  whole := hwhole
  targets := htar

/-- The same for a transaction that leaves the waiting Jobs alone. -/
lemma of_map_started (hjobs : cat'.jobs = cat.jobs.map h)
    (hitems : cat'.items = cat.items.map g) (hact : ∀ j, (h j).action = j.action)
    (hadv : ∀ j ∈ purgeJobs cat, j.Advances (h j))
    (hwait : ∀ j ∈ purgeJobs cat, j.status = .pendingDelay → h j = j)
    (htar : ∀ i, SameTarget i (g i)) : PurgeMove h g cat cat' :=
  of_map hjobs hitems hact hadv (fun _ _ k hk _ _ hkw _ => by rwa [hwait k hk hkw]) htar

/-- The same for a transaction on open Jobs that takes all the waiting Jobs of a group or none
of them, and ends their wait. -/
lemma of_map_groups {p : Job → Prop} [DecidablePred p] {f : Job → Job}
    (hjobs : cat'.jobs = cat.jobs.map fun j => if p j then f j else j)
    (hitems : cat'.items = cat.items.map g)
    (hact : ∀ j, (f j).action = j.action)
    (hp : ∀ j ∈ purgeJobs cat, ∀ k ∈ purgeJobs cat, j.SameGroup k →
      j.status = .pendingDelay → k.status = .pendingDelay → p k → p j)
    (hf : ∀ j ∈ purgeJobs cat, p j → j.Advances (f j) ∧ (f j).status ≠ .pendingDelay)
    (htar : ∀ i, SameTarget i (g i)) :
    PurgeMove (fun j => if p j then f j else j) g cat cat' := by
  refine of_map hjobs hitems (fun j => ?_) (fun j hj => ?_) ?_ htar
  · split
    · exact hact j
    · rfl
  · split
    · rename_i hpj
      exact (hf j hj hpj).1
    · exact .refl j
  · intro j hj k hk hjk hjw hkw hjw'
    have hpj : ¬ p j := fun hpj => by
      rw [if_pos hpj] at hjw'
      exact (hf j hj hpj).2 hjw'
    have hpk : ¬ p k := fun hpk => hpj (hp j hj k hk hjk hjw hkw hpk)
    rwa [if_neg hpk]

variable (m : PurgeMove h g cat cat')

include m

lemma exists_job {j' : Job} (hj' : j' ∈ purgeJobs cat') :
    ∃ j ∈ purgeJobs cat, h j = j' ∧ j.Advances j' := by
  rw [m.jobs] at hj'
  obtain ⟨j, hj, rfl⟩ := mem_map.mp hj'
  exact ⟨j, hj, rfl, m.advances j hj⟩

lemma mem_job {j : Job} (hj : j ∈ purgeJobs cat) : h j ∈ purgeJobs cat' :=
  m.jobs ▸ mem_map_of_mem hj

lemma exists_item {i' : DeletionItem} (hi' : i' ∈ cat'.items) :
    ∃ i ∈ cat.items, SameTarget i i' := by
  rw [m.items] at hi'
  obtain ⟨i, hi, rfl⟩ := mem_map.mp hi'
  exact ⟨i, hi, m.targets i⟩

lemma delayed (hd : Delayed cat) : Delayed cat' where
  grouped j' hj' := by
    obtain ⟨j, hj, -, hadv⟩ := m.exists_job hj'
    rw [hadv.groupId_eq]
    exact hd.grouped j hj
  together j' hj' k' hk' hjk hjw' := by
    obtain ⟨j, hj, rfl, hadvj⟩ := m.exists_job hj'
    obtain ⟨k, hk, rfl, hadvk⟩ := m.exists_job hk'
    have hjw : j.status = .pendingDelay := by
      rw [← hadvj.waiting hjw']
      exact hjw'
    have hgrp := (hadvj.sameGroup_iff hadvk).mp hjk
    obtain ⟨hkw, hkt⟩ := hd.together j hj k hk hgrp hjw
    have hkw' := m.whole j hj k hk hgrp hjw hkw hjw'
    rw [hadvk.waiting hkw']
    exact ⟨hkw, hkt⟩

end PurgeMove

/-- A transaction is a move. -/
def PurgeMoves (cat cat' : Catalog) : Prop := ∃ h g, PurgeMove h g cat cat'

lemma PurgeMoves.refl (cat : Catalog) : PurgeMoves cat cat := ⟨id, id, .of_same rfl rfl⟩

lemma PurgeMoves.trans (h : PurgeMoves cat cat') (h' : PurgeMoves cat' cat'') :
    PurgeMoves cat cat'' := by
  obtain ⟨f, g, m⟩ := h
  obtain ⟨f', g', m'⟩ := h'
  exact ⟨_, _, m.trans m'⟩

lemma Delayed.unclaimed (hd : Delayed cat) {j : Job} (hj : j ∈ purgeJobs cat)
    (hw : j.status = .pendingDelay) : j.claimToken = none := by
  obtain ⟨g, hg⟩ := Option.isSome_iff_exists.mp (hd.grouped j hj)
  exact (hd.together j hj j hj ⟨rfl, g, hg, hg⟩ hw).2

/-! ### The transactions -/

/-- The active members of a group, by their ids. -/
lemma id_mem_activePurges {g : GroupId} {j : Job} (hj : j ∈ purgeJobs cat) :
    j.id ∈ (activePurges cat v g).map Job.id ↔
      j.vaultId = v ∧ j.groupId = some g ∧ j.status.terminal = false := by
  obtain ⟨hmem, hact⟩ := mem_purgeJobs.mp hj
  simp only [activePurges, purgeGroup, mem_map, mem_filter, Bool.and_eq_true,
    decide_eq_true_eq, Bool.not_eq_true', and_assoc]
  constructor
  · rintro ⟨k, hk, hv, hg, -, hopen, hid⟩
    rw [← cat.job_eq_of_id_eq hk hmem hid]
    exact ⟨hv, hg, hopen⟩
  · rintro ⟨hv, hg, hopen⟩
    exact ⟨j, hmem, hv, hg, hact, hopen, rfl⟩

/-- A member of the group of a Job that is taken is taken as well. -/
lemma id_mem_activePurges_of_sameGroup {g : GroupId} {j k : Job} (hj : j ∈ purgeJobs cat)
    (hk : k ∈ purgeJobs cat) (hjk : j.SameGroup k) (hjw : j.status = .pendingDelay)
    (h : k.id ∈ (activePurges cat v g).map Job.id) :
    j.id ∈ (activePurges cat v g).map Job.id := by
  obtain ⟨hv, hg, -⟩ := (id_mem_activePurges hk).mp h
  obtain ⟨hvault, n, hjn, hkn⟩ := hjk
  refine (id_mem_activePurges hj).mpr ⟨hvault.trans hv, ?_, by rw [hjw]; rfl⟩
  rw [hjn, ← hkn, hg]

/-- `_cancel_rows` touches the status of items only. -/
lemma sameTarget_skipItem (ids : List JobId) (i : DeletionItem) :
    SameTarget i (skipItem ids i) := by
  unfold skipItem
  split <;> rfl

/-- Cancelled Jobs are taken out of their delay with their groups. -/
lemma purgeMove_cancel {ids : List JobId} (hjobs : cat'.jobs = cat.jobs.map (cancelJob ids))
    (hitems : cat'.items = cat.items.map (skipItem ids))
    (hgrp : ∀ j ∈ purgeJobs cat, ∀ k ∈ purgeJobs cat, j.SameGroup k →
      j.status = .pendingDelay → k.status = .pendingDelay → k.id ∈ ids → j.id ∈ ids)
    (hopen : ∀ j ∈ purgeJobs cat, j.id ∈ ids → j.status.terminal = false) :
    PurgeMoves cat cat' :=
  ⟨_, _, .of_map_groups (f := fun j => j.settle .cancelled) hjobs hitems (fun _ => rfl) hgrp
    (fun j hj hid => ⟨Job.advances_settle (hopen j hj hid) (by decide), by simp [Job.settle]⟩)
    (sameTarget_skipItem ids)⟩

lemma purgeMoves_cancelRows (v : VaultId) (g : GroupId) :
    PurgeMoves cat (cancelRows cat (activePurges cat v g)) := by
  have hr := rewrites_cancelRows cat (activePurges cat v g)
  refine purgeMove_cancel hr.jobs hr.items (fun j hj k hk hjk hjw _ h => ?_) fun j hj h => ?_
  · exact id_mem_activePurges_of_sameGroup hj hk hjk hjw h
  · exact ((id_mem_activePurges hj).mp h).2.2

variable {now : Stamp} {token : ℕ} {vaults : VaultTable}

/-- A validation leaves the catalog, or cancels what is left of the group. -/
lemma validateExecution_cases {g : GroupId} {at_ : Stamp} {valid : Bool}
    (h : validateExecution vaults cat v g at_ = some (cat', valid)) :
    ∃ vault, vaults v = some vault ∧
      ((valid ∧ cat' = cat ∧ executionAuthorised vault cat v g at_) ∨
        (valid = false ∧ cat' = cancelRows cat (activePurges cat v g))) := by
  simp only [validateExecution, Option.bind_eq_bind, Option.bind_eq_some_iff] at h
  obtain ⟨vault, hvault, h⟩ := h
  refine ⟨vault, hvault, ?_⟩
  split at h
  · rename_i hauth
    cases h
    exact .inl ⟨rfl, rfl, hauth⟩
  · cases h
    exact .inr ⟨rfl, rfl⟩

lemma purgeMoves_validate {g : GroupId} {at_ : Stamp} {valid : Bool}
    (h : validateExecution vaults cat v g at_ = some (cat', valid)) : PurgeMoves cat cat' := by
  obtain ⟨-, -, ⟨-, rfl, -⟩ | ⟨-, rfl⟩⟩ := validateExecution_cases h
  · exact .refl cat'
  · exact purgeMoves_cancelRows v g

/-- Without terminal members the group is its active members. -/
lemma activePurges_eq_purgeGroup {g : GroupId}
    (h : ∀ j ∈ purgeGroup cat v g, j.status = .pendingDelay) :
    activePurges cat v g = purgeGroup cat v g :=
  filter_eq_self.mpr fun j hj => by
    rw [h j hj]
    rfl

lemma purgeMoves_cancel {g : GroupId}
    (h : cancelCloudDeletion vaults cat v g = some cat') : PurgeMoves cat cat' := by
  simp only [cancelCloudDeletion, Option.bind_eq_bind, Option.bind_eq_some_iff,
    Option.guard_eq_some', exists_const, Option.some.injEq] at h
  obtain ⟨-, -, ⟨-, hall⟩, rfl⟩ := h
  rw [← activePurges_eq_purgeGroup fun j hj => (hall j hj).1]
  exact purgeMoves_cancelRows v g

lemma purgeMoves_claim {lead : JobId} {expires : Stamp}
    (h : claimPurgeGroup cat lead token now expires = some cat') : PurgeMoves cat cat' := by
  simp only [claimPurgeGroup, Option.bind_eq_bind, Option.bind_eq_some_iff,
    Option.guard_eq_some', exists_const, Option.some.injEq] at h
  obtain ⟨job, -, g, -, -, rfl⟩ := h
  refine ⟨_, id, .of_map_groups
    (f := fun j => { j with
      status := .cleaning, claimToken := some token, claimExpiresAt := some expires })
    rfl (map_id _).symm (fun _ => rfl)
    (fun j hj k hk hjk hjw _ => id_mem_activePurges_of_sameGroup hj hk hjk hjw)
    (fun j hj hp => ⟨?_, by simp⟩) SameTarget.refl⟩
  have hopen := ((id_mem_activePurges hj).mp hp).2.2
  exact
    { columns := rfl
      ended := fun h => absurd h (by rw [hopen]; decide)
      waiting := fun h => absurd h (by simp) }

/-- A renewal extends the terms of the group. -/
lemma renewPurgeGroupClaim_cases {g : GroupId} {expected : List JobId} {expires : Stamp}
    (h : renewPurgeGroupClaim cat v g token expected now expires = some cat') :
    (∀ n, n ∈ expected ↔ ∃ j ∈ cat.jobs, j.purgeClaimed v g token now ∧ j.id = n) ∧
      cat' = cat.mapJobs (fun j => if j.purgeClaimed v g token now then
          { j with claimExpiresAt := some expires } else j)
        (fun j => by split <;> rfl) := by
  simp only [renewPurgeGroupClaim] at h
  split at h
  · rename_i hids
    refine ⟨fun n => ?_, (Option.some.inj h).symm⟩
    have hmem : n ∈ (cat.jobs.filter (Job.purgeClaimed v g token now)).map Job.id ↔
        ∃ j ∈ cat.jobs, j.purgeClaimed v g token now ∧ j.id = n := by
      simp only [mem_map, mem_filter, and_assoc]
    rw [← hmem]
    exact ⟨hids.2 n, hids.1 n⟩
  · cases h

lemma Job.purgeClaimed_iff {g : GroupId} {j : Job} :
    j.purgeClaimed v g token now ↔ j.vaultId = v ∧ j.groupId = some g ∧
      j.action = .cloudPurge ∧ j.status = .cleaning ∧ j.claimToken = some token ∧
        ∃ e, j.claimExpiresAt = some e ∧ now < e := by
  simp only [Job.purgeClaimed, Bool.and_eq_true, decide_eq_true_eq, Option.any_eq_true,
    and_assoc]

/-- A transaction on Jobs under a claim leaves the waiting ones alone. -/
lemma purgeMoves_claimed {p : Job → Prop} [DecidablePred p] {f : Job → Job}
    (hjobs : cat'.jobs = cat.jobs.map fun j => if p j then f j else j)
    (hitems : cat'.items = cat.items) (hact : ∀ j, (f j).action = j.action)
    (hf : ∀ j ∈ purgeJobs cat, p j → j.status ≠ .pendingDelay ∧ j.Advances (f j)) :
    PurgeMoves cat cat' := by
  refine ⟨_, id, .of_map_started hjobs (by rw [hitems, map_id]) (fun j => ?_)
    (fun j hj => ?_) (fun j hj hw => ?_) SameTarget.refl⟩
  · split
    · exact hact j
    · rfl
  · split
    · rename_i hp
      exact (hf j hj hp).2
    · exact .refl j
  · refine if_neg fun hp => ?_
    exact (hf j hj hp).1 hw

lemma purgeClaimed_started {g : GroupId} {j : Job} (h : j.purgeClaimed v g token now) :
    j.status ≠ .pendingDelay ∧ j.status.terminal = false := by
  have hst := (Job.purgeClaimed_iff.mp h).2.2.2.1
  rw [hst]
  exact ⟨by decide, rfl⟩

lemma purgeMoves_renew {g : GroupId} {expected : List JobId} {expires : Stamp}
    (h : renewPurgeGroupClaim cat v g token expected now expires = some cat') :
    PurgeMoves cat cat' := by
  obtain ⟨-, rfl⟩ := renewPurgeGroupClaim_cases h
  refine purgeMoves_claimed (f := fun j => { j with claimExpiresAt := some expires }) rfl rfl
    (fun _ => rfl) fun j _ hp => ?_
  have hne := (purgeClaimed_started hp).1
  exact ⟨hne, Job.advances_extend _ hne⟩

lemma purgeMoves_release (cat : Catalog) (v : VaultId) (g : GroupId) (token : ℕ) (now : Stamp) :
    PurgeMoves cat (releasePreflightPurgeClaim cat v g token now) := by
  refine purgeMoves_claimed (f := fun j => j.settle .queued) rfl rfl (fun _ => rfl)
    fun j _ hp => ?_
  obtain ⟨hne, hopen⟩ := purgeClaimed_started hp
  exact ⟨hne, Job.advances_settle hopen (by decide)⟩

/-- A Job that a token owns does not wait: a waiting Job has no claim. -/
lemma Delayed.started_of_ownedBy (hd : Delayed cat) {j : Job} (hj : j ∈ purgeJobs cat)
    (h : j.ownedBy token now) :
    j.status ≠ .pendingDelay ∧ j.status.terminal = false := by
  simp only [Job.ownedBy, Bool.and_eq_true, decide_eq_true_eq, Bool.not_eq_true'] at h
  refine ⟨fun hw => ?_, h.2⟩
  rw [hd.unclaimed hj hw] at h
  simp at h

lemma purgeMoves_heartbeat (hd : Delayed cat) (job : JobId) (token : ℕ) (now expires : Stamp) :
    PurgeMoves cat (renewJobClaim cat job token now expires) := by
  refine purgeMoves_claimed (f := fun j => { j with claimExpiresAt := some expires }) rfl rfl
    (fun _ => rfl) fun j hj hp => ?_
  have hne := (hd.started_of_ownedBy hj hp.2).1
  exact ⟨hne, Job.advances_extend _ hne⟩

lemma purgeMoves_report (hd : Delayed cat) (job : JobId) (token : ℕ) {st : JobStatus}
    (hst : st = .failed ∨ st = .cancelled ∨ st = .queued) (now : Stamp) :
    PurgeMoves cat (setClaimedJob cat job token st now) := by
  have hne : st ≠ .pendingDelay := by
    rintro rfl
    simp at hst
  refine purgeMoves_claimed (f := fun j => j.settle st) rfl rfl (fun _ => rfl)
    fun j hj hp => ?_
  obtain ⟨hwait, hopen⟩ := hd.started_of_ownedBy hj hp.2
  exact ⟨hwait, Job.advances_settle hopen hne⟩

/-! ### Results and outcomes -/

/-- The results of a batch change the status of items. -/
lemma purgeMoves_markItemsDeleted (cat : Catalog) (ids : List ℕ) (at_ : Stamp) :
    PurgeMoves cat (markItemsDeleted cat ids at_) := by
  have hr := rewrites_markItemsDeleted cat ids at_
  refine ⟨id, _, .of_map_started hr.jobs hr.items (fun _ => rfl) (fun j _ => .refl j)
    (fun _ _ _ => rfl) fun i => ?_⟩
  split <;> rfl

lemma purgeMoves_markItemsFailed (cat : Catalog) (ids : List ℕ) :
    PurgeMoves cat (markItemsFailed cat ids) := by
  have hr := rewrites_markItemsFailed cat ids
  refine ⟨id, _, .of_map_started hr.jobs hr.items (fun _ => rfl) (fun j _ => .refl j)
    (fun _ _ _ => rfl) fun i => ?_⟩
  split <;> rfl

/-- None of the Jobs waits. -/
def Started (cat : Catalog) (ids : List JobId) : Prop :=
  ∀ j ∈ purgeJobs cat, j.id ∈ ids → j.status ≠ .pendingDelay

lemma PurgeMove.started {h : Job → Job} {g : DeletionItem → DeletionItem}
    (m : PurgeMove h g cat cat') {ids : List JobId} (hs : Started cat ids) :
    Started cat' ids := by
  intro j' hj' hid hw
  obtain ⟨j, hj, -, hadv⟩ := m.exists_job hj'
  refine hs j hj (hadv.id_eq ▸ hid) ?_
  rw [← hadv.waiting hw]
  exact hw

lemma purgeMove_finalize {job : JobId} {file : FileId} (hs : Started cat [job])
    (h : finalizePurgeJob cat job file = some cat') :
    PurgeMove (finalJob cat job) id cat cat' := by
  have hr := (rewrites_finalizePurgeJob h).2
  refine .of_map_started hr.jobs hr.items hr.job_action (fun j _ => ?_) (fun j hj hw => ?_)
    SameTarget.refl
  · unfold finalJob
    split
    · exact
        { columns := rfl
          ended := fun _ => by
            simp only
            split <;> rfl
          waiting := fun hw => by
            simp only at hw
            split at hw <;> cases hw }
    · exact .refl j
  · refine if_neg fun hid => hs j hj ?_ hw
    rw [hid]
    exact mem_singleton_self job

lemma purgeMoves_finalizeAll {jobs : List (JobId × FileId)}
    (hs : Started cat (jobs.map Prod.fst))
    (h : jobs.foldlM (fun cat j => finalizePurgeJob cat j.1 j.2) cat = some cat') :
    PurgeMoves cat cat' := by
  induction jobs generalizing cat with
  | nil =>
      obtain rfl := Option.some.inj h
      exact .refl cat
  | cons j jobs ih =>
      rw [foldlM_cons, Option.bind_eq_bind, Option.bind_eq_some_iff] at h
      obtain ⟨mid, hmid, h⟩ := h
      have hone : Started cat [j.1] := fun k hk hid =>
        hs k hk (mem_cons.mpr (.inl (mem_singleton.mp hid)))
      have m := purgeMove_finalize hone hmid
      have hrest : Started mid (jobs.map Prod.fst) :=
        m.started fun k hk hid => hs k hk (mem_cons_of_mem _ hid)
      exact PurgeMoves.trans ⟨_, _, m⟩ (ih hrest h)

lemma purgeMoves_finish {jobs : List (JobId × FileId)} (hs : Started cat (jobs.map Prod.fst))
    (h : finalizePurgeGroup cat jobs = some cat') : PurgeMoves cat cat' := by
  simp only [finalizePurgeGroup, Option.bind_eq_bind, Option.bind_eq_some_iff,
    Option.some.injEq] at h
  obtain ⟨done, hdone, rfl⟩ := h
  refine (purgeMoves_finalizeAll hs hdone).trans (purgeMoves_claimed
    (f := fun j => { j with
      claimToken := none
      claimExpiresAt := none }) rfl rfl (fun _ => rfl) fun j _ hp => ?_)
  have hne : j.status ≠ .pendingDelay := fun hw => by
    have hterm := hp.2
    rw [hw] at hterm
    cases hterm
  exact ⟨hne, rfl, fun h => h, fun hw => absurd hw hne⟩

/-! ### Restarts and observations -/

/-- A restart decision on interrupted Jobs. -/
lemma purgeMoves_reconcile (rows : List Job) {st : JobStatus} (hst : st ≠ .pendingDelay)
    (now : Stamp) (hrows : Started cat (rows.map Job.id)) :
    PurgeMoves cat (reconcileJobTransitions cat rows st now) := by
  have hr := rewrites_reconcileJobTransitions cat rows st now
  refine ⟨_, id, .of_map_started hr.jobs hr.items hr.job_action (fun j _ => ?_)
    (fun j hj hw => ?_) SameTarget.refl⟩
  · unfold moveJob
    split
    · rename_i hp
      exact Job.advances_settle hp.2.2 hst
    · exact .refl j
  · exact if_neg fun hp => hrows j hj hp.2.1 hw

lemma started_interruptedPurges (cat : Catalog) (v : VaultId) (g : GroupId) :
    Started cat ((interruptedPurges cat v g).map Job.id) := by
  intro j hj hid hw
  obtain ⟨k, hk, hkid⟩ := mem_map.mp hid
  simp only [interruptedPurges, purgeGroup, mem_filter, decide_eq_true_eq] at hk
  rw [cat.job_eq_of_id_eq hk.1.1 (mem_purgeJobs.mp hj).1 hkid, hw] at hk
  exact absurd hk.2 (by decide)

lemma purgeMoves_restart {listing : ProviderListing} {lead : JobId}
    (h : reconcileInterruptedPurge listing cat lead now = some cat') : PurgeMoves cat cat' := by
  obtain ⟨j, -, -, ⟨-, rfl⟩ | ⟨g, -, ⟨-, rfl | ⟨ids, rfl⟩⟩ | ⟨-, rfl⟩⟩⟩ :=
    reconcileInterruptedPurge_spec h
  · exact .refl _
  · exact .refl _
  · obtain ⟨f, k, m⟩ := purgeMoves_markItemsDeleted cat ids now
    refine PurgeMoves.trans ⟨f, k, m⟩ (purgeMoves_reconcile _ (by decide) now ?_)
    exact m.started (started_interruptedPurges cat j.vaultId g)
  · exact purgeMoves_reconcile _ (by decide) now (started_interruptedPurges cat j.vaultId g)

lemma resolveOrCreateFiles_rows (cat : Catalog) (v : VaultId) (paths : List Path)
    (at_ : Stamp) :
    (resolveOrCreateFiles cat v paths at_).1.jobs = cat.jobs ∧
      (resolveOrCreateFiles cat v paths at_).1.items = cat.items := by
  unfold resolveOrCreateFiles
  refine List.foldlRecOn (motive := fun acc : Catalog × List (Path × FileId) =>
    acc.1.jobs = cat.jobs ∧ acc.1.items = cat.items) _ _ ⟨rfl, rfl⟩ fun acc hacc p _ => ?_
  obtain ⟨hj, hi⟩ := getOrCreateFile_rows acc.1 v p at_
  exact ⟨hj.trans hacc.1, hi.trans hacc.2⟩

/-- An observation writes Local Copies and identities, then revokes what its files were asked
to delete. -/
lemma Sighting.run_eq (vaults : VaultTable) (cat : Catalog) (s : Sighting) :
    ∃ written : Catalog, written.jobs = cat.jobs ∧ written.items = cat.items ∧
      s.run vaults cat = cancelReappearedDeletions vaults written s.vault (s.files cat) := by
  cases s with
  | single v e seenAt recoveredAt =>
      obtain ⟨hj, hi⟩ := getOrCreateFile_rows cat v e.path e.observedAt
      exact ⟨(getOrCreateFile cat v e.path e.observedAt).1.mapLocalCopies _, hj, hi, rfl⟩
  | batch v entries seenAt =>
      simp only [Sighting.run, Sighting.files, Sighting.vault, observeLocalCopiesBatch]
      cases lastByPath entries with
      | nil => exact ⟨cat, rfl, rfl, by simp [cancelReappearedDeletions]⟩
      | cons e es =>
          obtain ⟨hj, hi⟩ := resolveOrCreateFiles_rows cat v
            ((e :: es).map LocalEntry.path) e.observedAt
          exact ⟨(resolveOrCreateFiles cat v ((e :: es).map LocalEntry.path)
            e.observedAt).1.mapLocalCopies _, hj, hi, rfl⟩

lemma id_mem_memberIds {gs : List (Option GroupId)} {j : Job} (hj : j ∈ purgeJobs cat) :
    j.id ∈ memberIds cat.jobs v gs ↔ j.vaultId = v ∧ j.groupId ∈ gs := by
  obtain ⟨hmem, hact⟩ := mem_purgeJobs.mp hj
  rw [mem_memberIds cat.jobIds_nodup hmem, inGroups_iff]
  exact ⟨fun h => ⟨h.1, h.2.2⟩, fun h => ⟨h.1, hact, h.2⟩⟩

lemma Sighting.run_spec {s : Sighting} (h : s.run vaults cat = some cat') :
    (∀ g ∈ openGroups cat.jobs s.vault (s.files cat), Cancellable vaults cat.jobs s.vault g) ∧
      Revoked (memberIds cat.jobs s.vault (openGroups cat.jobs s.vault (s.files cat)))
        cat cat' := by
  obtain ⟨written, hjobs, hitems, hrun⟩ := s.run_eq vaults cat
  rw [hrun, cancelReappearedDeletions_iff, hjobs] at h
  exact ⟨h.1, (revoked_iff_of_rows hjobs hitems).mp h.2.2⟩

lemma purgeMoves_sight {s : Sighting} (h : s.run vaults cat = some cat') :
    PurgeMoves cat cat' := by
  obtain ⟨hcan, hrev⟩ := Sighting.run_spec h
  refine purgeMove_cancel hrev.jobs hrev.items (fun j hj k hk hjk _ _ hmem => ?_)
    fun j hj hmem => ?_
  · obtain ⟨hv, hg⟩ := (id_mem_memberIds hk).mp hmem
    obtain ⟨hvault, n, hjn, hkn⟩ := hjk
    exact (id_mem_memberIds hj).mpr ⟨hvault.trans hv, by rwa [hjn, ← hkn]⟩
  · -- every member of a revoked group waits
    obtain ⟨hv, hg⟩ := (id_mem_memberIds hj).mp hmem
    obtain ⟨hjobs, hact⟩ := mem_purgeJobs.mp hj
    have hin : inGroups s.vault [j.groupId] j :=
      inGroups_iff.mpr ⟨hv, hact, mem_singleton_self _⟩
    rw [((hcan _ hg).2.2.2 j hjobs hin).1]
    rfl

end Frostvault
