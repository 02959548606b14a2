import Frostvault.Leases.Fencing

/-!
The lease of a cloud-purge group (`claim_purge_group`, `renew_purge_group_claim` and
`list_claimable_jobs` of `app/catalog.py`).

A permanent purge spans many files, one Job for each, and a worker must hold all of them or
none.  The scheduler's condition is written twice: as a correlated `NOT EXISTS` over the peers
of a row, and as a loop over the locked rows of the group.

* `JobTable.GroupsAgree`: the open Jobs of a group carry one token between them;
* `groupsAgree_jobStep`, `groupsAgree_run`: no writer and no interleaving splits a group;
* `claimableJob_iff_claimPurgeGroup`: the two conditions agree on every open purge Job;
* `purge_groups_leased_whole`: the three facts together;
* `ended_member_not_offered`: a member that is over is not picked, but names its group.
-/

namespace Frostvault

/-! ### One token for a group -/

/-- Both are open Jobs of one cloud-purge group. -/
structure SamePurge (j k : JobRow) : Prop where
  action : j.action = .cloudPurge
  action' : k.action = .cloudPurge
  vault : j.vaultId = k.vaultId
  group : ∃ g, j.groupId = some g ∧ k.groupId = some g
  opened : j.status.terminal = false
  opened' : k.status.terminal = false

/-- The open Jobs of a cloud-purge group carry one token between them. -/
def JobTable.GroupsAgree (t : JobTable) : Prop :=
  ∀ j ∈ t.rows, ∀ k ∈ t.rows, SamePurge j k →
    ∀ x y, j.claimToken = some x → k.claimToken = some y → x = y

/-- Every row of the second table has no claim, or is a row of the first one after a writer
that hands out no claim. -/
def JobTable.Inherits (t t' : JobTable) : Prop :=
  ∀ j' ∈ t'.rows, j'.claimToken = none ∨ ∃ j ∈ t.rows, j.Kept j'

lemma JobRow.Kept.refl (j : JobRow) : j.Kept j := ⟨rfl, rfl, rfl, id, .inl rfl⟩

variable {autoUpload : VaultId → Option Bool} {j : JobRow}

lemma SamePurge.of_kept {k j' k' : JobRow} (hj : j.Kept j') (hk : k.Kept k') (h : SamePurge j' k') :
    SamePurge j k where
  action := hj.action ▸ h.action
  action' := hk.action ▸ h.action'
  vault := hj.vaultId ▸ hk.vaultId ▸ h.vault
  group := hj.groupId ▸ hk.groupId ▸ h.group
  opened := hj.opened h.opened
  opened' := hk.opened h.opened'

lemma JobRow.Kept.token_eq {j' : JobRow} (h : j.Kept j') {x : Token} (hx : j'.claimToken = some x) :
    j.claimToken = some x := by
  obtain hkeep | hdrop := h.token
  · rw [← hkeep, hx]
  · rw [hdrop] at hx
    cases hx

namespace JobTable

variable {t t' : JobTable} {now : Stamp}

/-- A table that inherits its claims agrees on its groups. -/
lemma Inherits.groupsAgree (h : t.Inherits t') (ht : t.GroupsAgree) : t'.GroupsAgree := by
  intro j' hj' k' hk' hsame x y hx hy
  obtain hnone | ⟨j, hj, hjk⟩ := h j' hj'
  · rw [hnone] at hx
    cases hx
  obtain hnone | ⟨k, hk, hkk⟩ := h k' hk'
  · rw [hnone] at hy
    cases hy
  exact ht j hj k hk (hsame.of_kept hjk hkk) x y (hjk.token_eq hx) (hkk.token_eq hy)

variable {claimedAt expires : Stamp} {f : JobRow → JobRow} {hid : ∀ j, (f j).id = j.id}
  {message messageKey : String} {p : JobRow → Bool} {token : Token}

/-- Rewriting rows inherits the claims when the rows it matches are kept. -/
lemma inherits_rewrite (h : ∀ j ∈ t.rows, p j → j.Kept (f j)) : t.Inherits (t.rewrite p f hid) := by
  intro j' hj'
  obtain ⟨j, hj, rfl⟩ := List.mem_map.mp hj'
  refine .inr ⟨j, hj, ?_⟩
  split
  · rename_i hp
    exact h j hj hp
  · exact .refl j

lemma inherits_update (hw : t.update p f hid = some t') (h : ∀ j ∈ t.rows, p j → j.Kept (f j)) :
    t.Inherits t' := by
  obtain ⟨-, rfl⟩ := update_eq_some.mp hw
  exact inherits_rewrite h

lemma inherits_drop (hw : t.update p f hid = some t') (hf : ∀ j, (f j).claimToken = none) :
    t.Inherits t' := by
  obtain ⟨-, rfl⟩ := update_eq_some.mp hw
  intro j' hj'
  obtain ⟨j, hj, rfl⟩ := List.mem_map.mp hj'
  split
  · exact .inl (hf j)
  · exact .inr ⟨j, hj, .refl j⟩

/-- A claim of a single Job leaves the purge Jobs as they are. -/
lemma mem_of_claimJob {id : JobId} {due : Stamp}
    (hw : t.claimJob autoUpload id token claimedAt expires now due = some t') {j' : JobRow}
    (hj' : j' ∈ t'.rows) (haction : j'.action = .cloudPurge) : j' ∈ t.rows := by
  obtain ⟨-, rfl⟩ := update_eq_some.mp hw
  obtain ⟨j, hj, rfl⟩ := List.mem_map.mp hj'
  split at haction
  · rename_i hp
    simp only [Bool.and_eq_true, decide_eq_true_eq] at hp
    exact absurd haction hp.1.2
  · rename_i hp
    rwa [if_neg hp]

lemma groupsAgree_claimJob {id : JobId} {due : Stamp} (ht : t.GroupsAgree)
    (hw : t.claimJob autoUpload id token claimedAt expires now due = some t') :
    t'.GroupsAgree := fun j hj k hk h =>
  ht j (mem_of_claimJob hw hj h.action) k (mem_of_claimJob hw hk h.action') h

/-- **A claim of a group.**  It found every open member due and unleased, and leases all of
them to the new token. -/
lemma claimPurgeGroup_spec {lead : JobId} {acquired : Bool}
    (hw : t.claimPurgeGroup lead token claimedAt expires now message messageKey acquired =
      some t') :
    ∃ v g, t.purgeLead lead = some (v, g) ∧ (∃ j ∈ t.rows, j ∈ t.activePurges v g) ∧
      (∀ j ∈ t.activePurges v g, j.claimAvailable now ∧ j.purgeRunnable now) ∧
      (∀ j ∈ t.activePurges v g, ∃ j', t'.row? j.id = some j' ∧
        j'.claimToken = some token ∧ j'.claimExpiresAt = some expires ∧
          j'.status = .cleaning) ∧
      ∀ j ∈ t.rows, j ∉ t.activePurges v g → t'.row? j.id = some j := by
  obtain ⟨v, g, hlead, -, hne, hall, rfl⟩ := claimPurgeGroup_eq_some.mp hw
  have hsub : ∀ k ∈ t.activePurges v g, k ∈ t.rows := fun k hk => (mem_activePurges.mp hk).1
  refine ⟨v, g, hlead, ?_, hall, fun j hj => ?_, fun j hj hout => ?_⟩
  · obtain ⟨j, hj⟩ := List.exists_mem_of_ne_nil _ hne
    exact ⟨j, hsub j hj, hj⟩
  · have hp : decide (j.id ∈ (t.activePurges v g).map fun k => k.id) = true :=
      decide_eq_true (List.mem_map_of_mem hj)
    refine ⟨j.startPurge token claimedAt expires message messageKey, ?_, rfl, rfl, rfl⟩
    rw [row?_rewrite, row?_eq_some_iff.mpr ⟨hsub j hj, rfl⟩, Option.map_some, if_pos hp]
  · have hp : ¬ decide (j.id ∈ (t.activePurges v g).map fun k => k.id) = true := fun h =>
      hout (mem_of_id_mem hsub hj (of_decide_eq_true h))
    rw [row?_rewrite, row?_eq_some_iff.mpr ⟨hj, rfl⟩, Option.map_some, if_neg hp]

/-- After a claim of a group a row is a leased member, or it is as it was and no member. -/
lemma mem_of_claimPurgeGroup {lead : JobId} {acquired : Bool}
    (hw : t.claimPurgeGroup lead token claimedAt expires now message messageKey acquired =
      some t') :
    ∃ v g, ∀ j' ∈ t'.rows,
      (j'.vaultId = v ∧ j'.groupId = some g ∧ j'.claimToken = some token) ∨
      (j' ∈ t.rows ∧ j' ∉ t.activePurges v g) := by
  obtain ⟨v, g, -, -, -, -, rfl⟩ := claimPurgeGroup_eq_some.mp hw
  refine ⟨v, g, fun j' hj' => ?_⟩
  obtain ⟨j, hj, rfl⟩ := List.mem_map.mp hj'
  split
  · rename_i hp
    have hin : j ∈ t.activePurges v g :=
      mem_of_id_mem (fun k hk => (mem_activePurges.mp hk).1) hj (of_decide_eq_true hp)
    obtain ⟨-, hv, hg, -, -⟩ := mem_activePurges.mp hin
    exact .inl ⟨hv, hg, rfl⟩
  · rename_i hp
    exact .inr ⟨hj, fun hin => hp (decide_eq_true (List.mem_map_of_mem hin))⟩

/-- A claim of a group gives all its open members one token and leaves the other groups. -/
lemma groupsAgree_claimPurgeGroup {lead : JobId} {acquired : Bool} (ht : t.GroupsAgree)
    (hw : t.claimPurgeGroup lead token claimedAt expires now message messageKey acquired =
      some t') : t'.GroupsAgree := by
  obtain ⟨v, g, hrows⟩ := mem_of_claimPurgeGroup hw
  intro j hj k hk h x y hx hy
  obtain ⟨g', hjg, hkg⟩ := h.group
  obtain ⟨hjv, hjg', hjx⟩ | ⟨hj, hjout⟩ := hrows j hj <;>
    obtain ⟨hkv, hkg', hky⟩ | ⟨hk, hkout⟩ := hrows k hk
  · exact Option.some.inj (hx.symm.trans (hjx.trans (hky.symm.trans hy)))
  · refine absurd (mem_activePurges.mpr ⟨hk, h.vault ▸ hjv, ?_, h.action', h.opened'⟩) hkout
    rw [hkg, ← hjg, hjg']
  · refine absurd (mem_activePurges.mpr ⟨hj, h.vault.trans hkv, ?_, h.action, h.opened⟩) hjout
    rw [hjg, ← hkg, hkg']
  · exact ht j hj k hk h x y hx hy

lemma inherits_renewPurgeGroupClaim {v : VaultId} {g : GroupId} {x : Token} {expected : List JobId}
    (hw : t.renewPurgeGroupClaim v g x expected now expires = some t') : t.Inherits t' := by
  obtain ⟨-, rfl⟩ := renewPurgeGroupClaim_eq_some hw
  exact inherits_rewrite fun j _ _ => ⟨rfl, rfl, rfl, id, .inl rfl⟩

/-- The end of a purge: the finalized Jobs have no claim. -/
lemma inherits_finishPurgeGroup {v : VaultId} {g : GroupId} {x : Token} {expected : List JobId}
    {completed : JobId → Bool} (hw : t.finishPurgeGroup v g x expected completed now = some t') :
    t.Inherits t' := by
  simp only [finishPurgeGroup, Option.bind_eq_bind, Option.bind_eq_some_iff,
    Option.some.injEq] at hw
  obtain ⟨t₁, h₁, rfl⟩ := hw
  intro j' hj'
  obtain ⟨j, hj, rfl⟩ := List.mem_map.mp hj'
  split
  · exact .inl rfl
  · exact inherits_renewPurgeGroupClaim h₁ j hj

/-- A reconciled group has no claims on the Jobs it moved. -/
lemma inherits_reconcilePurgeGroup {v : VaultId} {g : GroupId} {outcome : PurgeOutcome}
    (hw : t.reconcilePurgeGroup v g outcome message now = some t') :
    t.Inherits t' := by
  simp only [reconcilePurgeGroup] at hw
  split at hw
  · cases hw
    intro j' hj'
    obtain ⟨j, hj, rfl⟩ := List.mem_map.mp hj'
    split
    · exact .inl rfl
    · exact .inr ⟨j, hj, .refl j⟩
  · cases hw

lemma inherits_cancelJobGroup {translate : String → String} {v : VaultId} {g : GroupId}
    {action : JobAction} (hw : t.cancelJobGroup translate v g action now = some t') :
    t.Inherits t' := by
  simp only [cancelJobGroup, Option.bind_eq_bind, Option.bind_eq_some_iff] at hw
  obtain ⟨messageKey, -, -, -, hw⟩ := hw
  refine inherits_update hw fun j _ _ => ⟨rfl, rfl, rfl, fun hlease => ?_, .inl rfl⟩
  cases hlease

lemma inherits_insert (row : JobRow) : t.Inherits (t.insert row) := by
  intro j' hj'
  obtain hj' | hj' := List.mem_append.mp hj'
  · exact .inr ⟨j', hj', .refl j'⟩
  · obtain rfl := List.mem_singleton.mp hj'
    exact .inl rfl

end JobTable

/-! ### No interleaving splits a group -/

/-- A writer that is no claim hands out no claim. -/
lemma JobWorld.inherits_of_write {w : JobWorld} {now : Stamp} {a : JobAct} {t' : JobTable}
    (ha : a.newToken = none) (hw : w.write now a = some t') : w.table.Inherits t' := by
  have howned {x : Token} (hx : a.jobToken = some x) : w.table.Inherits t' := by
    obtain ⟨k, f, hid, -, hupd, hf⟩ := update_of_write hx hw
    refine JobTable.inherits_update hupd fun j _ hp => hf j ?_
    exact JobRow.open_of_ownedBy (Bool.and_eq_true _ _ ▸ hp).2
  cases a with
  | claim autoUpload id token due => cases ha
  | claimGroup lead token message messageKey acquired => cases ha
  | renew token => exact howned rfl
  | ensureOwned token interrupted => exact howned rfl
  | setJob token status message => exact howned rfl
  | retry token message retryCount retryAfter => exact howned rfl
  | progress token callback transferredBytes => exact howned rfl
  | renewGroup token v g expected => exact JobTable.inherits_renewPurgeGroupClaim hw
  | finishGroup token v g expected completed => exact JobTable.inherits_finishPurgeGroup hw
  | releaseGroup token v g => exact JobTable.inherits_drop hw fun _ => rfl
  | reconcile id status progress message => exact JobTable.inherits_drop hw fun _ => rfl
  | reconcileGroup v g outcome message => exact JobTable.inherits_reconcilePurgeGroup hw
  | failStale v g message => exact JobTable.inherits_drop hw fun _ => rfl
  | cancelGroup translate v g action => exact JobTable.inherits_cancelJobGroup hw
  | cancelDeletion v g =>
      simp only [write, JobTable.cancelDeletion] at hw
      split at hw
      · exact JobTable.inherits_drop hw fun _ => rfl
      · cases hw
  | revoke v g reason => exact JobTable.inherits_drop hw fun _ => rfl
  | insert row =>
      cases hw
      exact JobTable.inherits_insert row

lemma JobWorld.groupsAgree_jobStep {w w' : JobWorld} {e : JobEvent} (h : jobStep w e = some w')
    (hw : w.table.GroupsAgree) : w'.table.GroupsAgree := by
  obtain ⟨-, -, rfl⟩ := jobStep_eq_some.mp h
  cases hwrite : w.write e.now e.act with
  | none => exact hw
  | some t' =>
      cases ha : e.act with
      | claim autoUpload id token due =>
          rw [ha] at hwrite
          exact JobTable.groupsAgree_claimJob hw hwrite
      | claimGroup lead token message messageKey acquired =>
          rw [ha] at hwrite
          exact JobTable.groupsAgree_claimPurgeGroup hw hwrite
      | _ => exact (inherits_of_write (by rw [ha]; rfl) hwrite).groupsAgree hw

/-- **Groups stay whole.**  No interleaving splits a group. -/
theorem JobWorld.groupsAgree_run {w w' : JobWorld} {es : List JobEvent}
    (h : Runs.run jobStep w es = some w') (hw : w.table.GroupsAgree) : w'.table.GroupsAgree :=
  Runs.run_induction (I := fun u : JobWorld => u.table.GroupsAgree)
    (fun _ _ _ hu hstep => groupsAgree_jobStep hstep hu) hw h

/-! ### The condition written twice -/

namespace JobTable

variable {t : JobTable} {now : Stamp}

/-- The peer condition of the query is the negation of the checks of the loop. -/
lemma purgePeerBlocks_eq (p : JobRow) (now : Stamp) :
    purgePeerBlocks p now = !(p.claimAvailable now && p.purgeRunnable now) := by
  have hlive : (p.claimToken.isSome && p.claimExpiresAt.isSome &&
      p.claimExpiresAt.any (now < ·)) = !p.claimAvailable now := by
    simp only [Job.claimAvailable]
    cases p.claimToken with
    | none => rfl
    | some x =>
        cases p.claimExpiresAt with
        | none => rfl
        | some e =>
            simp only [Option.isSome_some, Bool.and_self, Option.any_some, Option.isNone_some,
              Bool.or_self, Bool.false_or, Bool.true_and, ← Nat.not_le, decide_not]
  have hrun : (p.status ≠ .queued && !(p.status = .pendingDelay && p.pendingUntil.isSome &&
      p.pendingUntil.any (· ≤ now))) = !p.purgeRunnable now := by
    simp only [Job.purgeRunnable]
    cases p.pendingUntil with
    | none => simp
    | some u => simp
  rw [purgePeerBlocks, hlive, hrun, Bool.not_and, Bool.or_comm]

lemma claimableStatus_of_purgeRunnable (haction : j.action = .cloudPurge) (h : j.purgeRunnable now)
    (due : Stamp) : claimableStatus j now due := by
  simp only [Job.purgeRunnable, Bool.or_eq_true, Bool.and_eq_true, decide_eq_true_eq] at h
  simp only [claimableStatus, Bool.or_eq_true, Bool.and_eq_true, decide_eq_true_eq]
  obtain hqueued | ⟨hdelay, huntil⟩ := h
  · exact .inl (.inl (.inl hqueued))
  · exact .inl (.inr ⟨⟨⟨haction, hdelay⟩, Option.isSome_of_any huntil⟩, huntil⟩)

/-- The lead of a purge Job is its own group. -/
lemma purgeLead_of_mem (hj : j ∈ t.rows) (haction : j.action = .cloudPurge) :
    t.purgeLead j.id = j.groupId.map fun g => (j.vaultId, g) := by
  have hfind : t.rows.find? (fun k => k.id = j.id && k.action = .cloudPurge) = some j := by
    cases hf : t.rows.find? (fun k => k.id = j.id && k.action = .cloudPurge) with
    | none =>
        have := List.find?_eq_none.mp hf j hj
        simp [haction] at this
    | some k =>
        have hk := List.find?_some hf
        simp only [Bool.and_eq_true, decide_eq_true_eq] at hk
        rw [List.inj_on_of_nodup_map t.ids_nodup (List.mem_of_find?_eq_some hf) hj hk.1]
  simp only [purgeLead, hfind, Option.bind_eq_bind, Option.bind_some]
  cases j.groupId <;> rfl

/-- **One condition.**  The scheduler's query picks an open purge Job exactly when a claim of
its group would find every open member due and unleased. -/
theorem claimableJob_iff_claimPurgeGroup (hj : j ∈ t.rows) (haction : j.action = .cloudPurge)
    (hopen : j.status.terminal = false) (due : Stamp) (token : Token) (claimedAt expires : Stamp)
    (message messageKey : String) :
    t.claimableJob autoUpload j now due ↔
      (t.claimPurgeGroup j.id token claimedAt expires now message messageKey true).isSome := by
  rw [Option.isSome_iff_exists]
  simp only [claimPurgeGroup_eq_some, purgeLead_of_mem hj haction]
  have hmem {g : GroupId} (hg : j.groupId = some g) : j ∈ t.activePurges j.vaultId g :=
    mem_activePurges.mpr ⟨hj, rfl, hg, haction, hopen⟩
  constructor
  · intro h
    simp only [claimableJob, haction, ne_eq, not_true, decide_false, Bool.false_or,
      Bool.and_eq_true] at h
    obtain ⟨-, hgroup, hpeers⟩ := h
    obtain ⟨g, hg⟩ := Option.isSome_iff_exists.mp hgroup
    refine ⟨_, j.vaultId, g, by rw [hg]; rfl, trivial, List.ne_nil_of_mem (hmem hg),
      fun p hp => ?_, rfl⟩
    obtain ⟨hp, hv, hpg, hpa, hpo⟩ := mem_activePurges.mp hp
    simp only [Bool.not_eq_true', List.any_eq_false, Bool.and_eq_true, decide_eq_true_eq] at hpeers
    have hblock := hpeers p hp
    simp only [hv, hpg, hg, hpa, hpo, purgePeerBlocks_eq, true_and, Bool.not_eq_true',
      Bool.not_eq_false, Bool.and_eq_true] at hblock
    exact hblock
  · rintro ⟨t', v, g, hlead, -, -, hall, -⟩
    obtain ⟨g', hg, heq⟩ := Option.map_eq_some_iff.mp hlead
    cases heq
    have hjall := hall j (hmem hg)
    simp only [claimableJob, haction, hg, ne_eq, not_true, decide_false, Bool.false_or,
      Bool.and_eq_true, Option.isSome_some, Bool.not_eq_true', List.any_eq_false]
    refine ⟨⟨⟨claimableStatus_of_purgeRunnable haction hjall.2 due, by simp⟩, hjall.1⟩,
      trivial, fun p hp => ?_⟩
    simp only [decide_eq_true_eq, purgePeerBlocks_eq, Bool.not_eq_true']
    rintro ⟨⟨⟨⟨hv, hpg⟩, hpa⟩, hpo⟩, hblock⟩
    have hpall := hall p (mem_activePurges.mpr ⟨hp, hv, hpg, hpa, hpo⟩)
    rw [hpall.1, hpall.2] at hblock
    cases hblock

lemma mem_claimableRows {vaults : VaultId → Option VaultAdmission} {due : Stamp} :
    j ∈ t.claimableRows vaults autoUpload now due ↔
      j ∈ t.rows ∧ (vaults j.vaultId).any (·.admits j) ∧ t.claimableJob autoUpload j now due := by
  simp [claimableRows, List.mem_insertionSort]

/-- A candidate that is listed is one; all are listed when the batch has room for them. -/
lemma mem_listClaimableJobs {vaults : VaultId → Option VaultAdmission} {due : Stamp} {limit : ℤ} :
    (j ∈ t.listClaimableJobs vaults autoUpload now due limit →
      j ∈ t.claimableRows vaults autoUpload now due) ∧
    (((t.claimableRows vaults autoUpload now due).length : ℤ) ≤ limit →
      j ∈ t.claimableRows vaults autoUpload now due →
        j ∈ t.listClaimableJobs vaults autoUpload now due limit) := by
  unfold listClaimableJobs
  constructor
  · intro h
    split at h
    · cases h
    · exact List.mem_of_mem_take h
  · intro hroom hj
    have hpos : 0 < (t.claimableRows vaults autoUpload now due).length :=
      List.length_pos_of_mem hj
    rw [if_neg (by omega), List.take_of_length_le (by omega)]
    exact hj

end JobTable

/-! ### Whole groups -/

/-- **Purge groups are leased whole.**

* In every state an interleaving of an installation reaches, two open Jobs of one group hold no
  two different live tokens.
* In every state, a claim of a group that succeeds found every open member due and unleased, and
  every open member is leased under its token.
* In every state, an open purge Job of an admitted Vault that the scheduler lists is one whose
  group can be claimed, and it is listed if its group can be claimed and the batch has room for
  all the candidates. -/
theorem purge_groups_leased_whole :
    (∀ clock es w, Runs.run jobStep (.start .empty clock) es = some w →
      ∀ j ∈ w.table.rows, ∀ k ∈ w.table.rows, SamePurge j k →
        ∀ now x y, j.ownedBy x now → k.ownedBy y now → x = y) ∧
    (∀ (t : JobTable) lead token claimedAt expires now message messageKey acquired t',
      t.claimPurgeGroup lead token claimedAt expires now message messageKey acquired = some t' →
        ∃ v g, t.purgeLead lead = some (v, g) ∧
          ∀ j ∈ t.activePurges v g, j.claimAvailable now ∧ j.purgeRunnable now ∧
            ∃ j', t'.row? j.id = some j' ∧ j'.claimToken = some token ∧
              j'.claimExpiresAt = some expires ∧ j'.status = .cleaning) ∧
    (∀ (t : JobTable) vaults autoUpload now due, ∀ j ∈ t.rows, j.action = .cloudPurge →
      j.status.terminal = false → (vaults j.vaultId).any (·.admits j) →
        ∀ token claimedAt expires message messageKey limit,
          (j ∈ t.listClaimableJobs vaults autoUpload now due limit →
            (t.claimPurgeGroup j.id token claimedAt expires now message messageKey true).isSome) ∧
          (((t.claimableRows vaults autoUpload now due).length : ℤ) ≤ limit →
            (t.claimPurgeGroup j.id token claimedAt expires now message messageKey true).isSome →
              j ∈ t.listClaimableJobs vaults autoUpload now due limit)) := by
  refine ⟨?_, ?_, ?_⟩
  · intro clock es w h j hj k hk hsame now x y hx hy
    have hagree : w.table.GroupsAgree := JobWorld.groupsAgree_run h fun j hj => nomatch hj
    have hx := ((JobRow.ownedBy_iff_live [] now).mp hx).holds
    have hy := ((JobRow.ownedBy_iff_live [] now).mp hy).holds
    exact hagree j hj k hk hsame x y hx hy
  · intro t lead token claimedAt expires now message messageKey acquired t' hw
    obtain ⟨v, g, hlead, -, hall, hleased, -⟩ := JobTable.claimPurgeGroup_spec hw
    exact ⟨v, g, hlead, fun j hj => ⟨(hall j hj).1, (hall j hj).2, hleased j hj⟩⟩
  · intro t vaults autoUpload now due j hj haction hopen hadmits token claimedAt expires message
      messageKey limit
    have hiff : t.claimableJob autoUpload j now due ↔
        (t.claimPurgeGroup j.id token claimedAt expires now message messageKey true).isSome :=
      JobTable.claimableJob_iff_claimPurgeGroup hj haction hopen due token claimedAt expires
        message messageKey
    constructor
    · intro hlisted
      have hrow := JobTable.mem_listClaimableJobs.1 hlisted
      exact hiff.mp (JobTable.mem_claimableRows.mp hrow).2.2
    · intro hroom hclaim
      exact JobTable.mem_listClaimableJobs.2 hroom
        (JobTable.mem_claimableRows.mpr ⟨hj, hadmits, hiff.mpr hclaim⟩)

/-! ### A member that is over -/

/-- A purge Job of the group 1, due since time 10. -/
def dueSince10 : JobRow where
  id := 0
  vaultId := 1
  vaultFileId := 1
  path := ['a']
  action := .cloudPurge
  status := .pendingDelay
  origin := .manual
  groupId := some 1
  requestedAt := 0
  pendingUntil := some 10
  claimToken := none
  claimExpiresAt := none
  message := ⟨"", none, none⟩
  transferredBytes := 0
  totalBytes := 0
  retryCount := 0
  retryAfter := none
  updatedAt := 0
  claimedAt := none
  terminalNotificationStatus := none

/-- A group of two is claimed, its worker fails with its own Job, and after the lease ran out the
other member is queued again. -/
def failedLead : List JobEvent :=
  [⟨0, .insert dueSince10⟩, ⟨0, .insert dueSince10⟩, ⟨10, .claimGroup 1 7 "" "" true⟩,
    ⟨20, .setJob 7 .failed ⟨"", none, none⟩⟩, ⟨400, .reconcileGroup 1 1 .requeued ""⟩]

/-- A Vault whose Jobs are admitted. -/
def admittedVault : JobTable.VaultAdmission := ⟨true, true, .active⟩

/-- A Job that is over is not offered, but a claim that names it would lease its whole group. -/
theorem ended_member_not_offered :
    ∃ w ∈ Runs.run jobStep (.start .empty 0) failedLead, ∃ j ∈ w.table.rows,
      j.action = .cloudPurge ∧ admittedVault.admits j ∧
      ¬ (j ∈ w.table.listClaimableJobs (fun _ => some admittedVault) (fun _ => none) 500 0 100 ↔
        (w.table.claimPurgeGroup j.id 8 500 800 500 "" "" true).isSome) := by
  decide

end Frostvault
