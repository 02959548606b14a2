import Frostvault.Deletion.ProtectionStop
import Frostvault.Deletion.PurgeMoves

/-!
A released root has no live work (`app/services/protection_stop.py`).

The invariant speaks of the Vault row, its stop and its Jobs, and everything in it is kept while
others go on, so it can be carried from one statement of a transaction to the next.

* `Closed`, `Finished`, `Covers`: what is known of the Jobs; `Among`: what others leave of it;
* `executes_purgeStep`: the workers of a deletion leave it;
* `StopInv`: the invariant, and `serves_stopProtection`, `serves_cancelDeletion`,
  `serves_reconcileOne`, `serves_admission`: **each transaction keeps it**;
* `stopInv_run`: every run does;
* `released_root_has_no_work`: **a released root has no live work, and gets none**.
-/

namespace Frostvault

open List Effects

/-! ### What is known of the Jobs -/

/-- No Job of the Vault is open. -/
def Closed (v : VaultId) (cat : Catalog) : Prop :=
  ∀ j ∈ vaultJobs cat v, j.status.terminal = true

/-- Every Job of the group is completed. -/
def Finished (v : VaultId) (g : GroupId) (cat : Catalog) : Prop :=
  ∀ j ∈ vaultJobs cat v, j.groupId = some g → j.status = .completed

/-- The open Jobs of the Vault are those of a deletion by the stop. -/
def Covers (v : VaultId) (stop : ProtectionStop) (cat : Catalog) : Prop :=
  ∀ j ∈ vaultJobs cat v, j.status.terminal = false →
    stop.cloudDisposition = .delete ∧ j.action = .cloudPurge ∧ stop.groupId.isSome = true ∧
      j.groupId = stop.groupId

/-- What a release needs: no open Job, and a deletion that was not given up is complete. -/
structure Freed (v : VaultId) (w : StopWorld) : Prop where
  closed : Closed v w.cat
  complete : ∀ stop g, w.stop = some stop → stop.cloudDisposition = .delete →
    stop.groupId = some g → Finished v g w.cat

variable {v : VaultId} {cat cat' : Catalog} {stop : ProtectionStop} {g : GroupId}
  {w w' : StopWorld}

lemma mem_vaultJobs {j : Job} : j ∈ vaultJobs cat v ↔ j ∈ cat.jobs ∧ j.vaultId = v := by
  simp [vaultJobs]

lemma Closed.covers (hc : Closed v cat) (stop : ProtectionStop) : Covers v stop cat := by
  intro j hj hopen
  rw [hc j hj] at hopen
  cases hopen

namespace Executes

lemma exists_of_mem (h : Executes v cat cat') {j' : Job} (hj' : j' ∈ vaultJobs cat' v) :
    ∃ j ∈ vaultJobs cat v, j.GoesOn j' := by
  unfold Executes at h
  generalize vaultJobs cat v = js at h
  generalize vaultJobs cat' v = js' at h hj'
  induction h with
  | nil => cases hj'
  | cons hab _ ih =>
      rcases mem_cons.mp hj' with rfl | hj'
      · exact ⟨_, mem_cons_self, hab⟩
      · obtain ⟨j, hj, hgo⟩ := ih hj'
        exact ⟨j, mem_cons_of_mem _ hj, hgo⟩

lemma refl (v : VaultId) (cat : Catalog) : Executes v cat cat :=
  forall₂_same.mpr fun _ _ => ⟨rfl, rfl, rfl, fun _ => rfl⟩

lemma closed (h : Executes v cat cat') (hc : Closed v cat) : Closed v cat' := by
  intro j' hj'
  obtain ⟨j, hj, -, -, -, hover⟩ := h.exists_of_mem hj'
  rw [hover (hc j hj)]
  exact hc j hj

lemma finished (h : Executes v cat cat') (hf : Finished v g cat) : Finished v g cat' := by
  intro j' hj' hg
  obtain ⟨j, hj, -, -, hgroup, hover⟩ := h.exists_of_mem hj'
  have hdone : j.status = .completed := hf j hj (hgroup.symm.trans hg)
  rw [hover (by rw [hdone]; rfl), hdone]

lemma covers (h : Executes v cat cat') (hc : Covers v stop cat) : Covers v stop cat' := by
  intro j' hj' hopen
  obtain ⟨j, hj, -, haction, hgroup, hover⟩ := h.exists_of_mem hj'
  have hbefore : j.status.terminal = false := by
    cases hterm : j.status.terminal with
    | false => rfl
    | true =>
        rw [hover hterm, hterm] at hopen
        cases hopen
  obtain ⟨hdelete, hpurge, hsome, heq⟩ := hc j hj hbefore
  exact ⟨hdelete, haction.trans hpurge, hsome, hgroup.trans heq⟩

end Executes

/-! ### The workers -/

lemma executes_of_map {f : Job → Job} (hjobs : cat'.jobs = cat.jobs.map f)
    (hf : ∀ j ∈ cat.jobs, (f j).vaultId = j.vaultId ∧ j.GoesOn (f j)) : Executes v cat cat' := by
  have hvault : vaultJobs cat' v = (vaultJobs cat v).map f := by
    rw [vaultJobs, hjobs, filter_map]
    refine congrArg (List.map f) (filter_congr fun j hj => ?_)
    simp [(hf j hj).1]
  rw [Executes, hvault, forall₂_map_right_iff, forall₂_same]
  exact fun j hj => (hf j (mem_of_mem_filter hj)).2

/-- Open Jobs may be given another status. -/
lemma executes_of_open {p : Job → Prop} [DecidablePred p] {f : Job → Job}
    (hjobs : cat'.jobs = cat.jobs.map fun j => if p j then f j else j)
    (hf : ∀ j, (f j).vaultId = j.vaultId ∧ (f j).id = j.id ∧ (f j).action = j.action ∧
      (f j).groupId = j.groupId)
    (hopen : ∀ j ∈ cat.jobs, p j → j.status.terminal = false) : Executes v cat cat' := by
  refine executes_of_map hjobs fun j hj => ?_
  split
  · rename_i hp
    obtain ⟨hv, hid, haction, hgroup⟩ := hf j
    refine ⟨hv, hid, haction, hgroup, fun hover => ?_⟩
    rw [hopen j hj hp] at hover
    cases hover
  · exact ⟨rfl, rfl, rfl, rfl, fun _ => rfl⟩

lemma open_of_mem_activePurges {u : VaultId} {j : Job} (hj : j ∈ cat.jobs)
    (hid : j.id ∈ (activePurges cat u g).map Job.id) : j.status.terminal = false := by
  obtain ⟨k, hk, hkid⟩ := mem_map.mp hid
  simp only [activePurges, purgeGroup, mem_filter, Bool.not_eq_true'] at hk
  rw [← cat.job_eq_of_id_eq hk.1.1 hj hkid]
  exact hk.2

lemma executes_cancelRows (u : VaultId) (g : GroupId) :
    Executes v cat (cancelRows cat (activePurges cat u g)) :=
  executes_of_open (rewrites_cancelRows cat _).jobs (fun _ => ⟨rfl, rfl, rfl, rfl⟩) fun _ hj =>
    open_of_mem_activePurges hj

lemma executes_reconcile (rows : List Job) (st : JobStatus) (now : Stamp) :
    Executes v cat (reconcileJobTransitions cat rows st now) :=
  executes_of_open (rewrites_reconcileJobTransitions cat rows st now).jobs
    (fun _ => ⟨rfl, rfl, rfl, rfl⟩) fun _ _ hp => hp.2.2

lemma executes_schedule {u : VaultId} (hu : u ≠ v) (origin : JobOrigin) (at_ : Stamp)
    (files : List VaultFile) :
    Executes v cat (files.foldl (schedulePurgeOf u origin g at_) cat) := by
  have hsame (cat : Catalog) :
      vaultJobs (files.foldl (schedulePurgeOf u origin g at_) cat) v = vaultJobs cat v := by
    induction files generalizing cat with
    | nil => rfl
    | cons f files ih =>
        rw [foldl_cons, ih]
        refine filter_append _ _ |>.trans ?_
        simp [purgeJob, hu, vaultJobs]
  rw [Executes, hsame]
  exact Executes.refl v cat

/-- A request for another Vault, the outcome of a Job that is open, or any other transaction. -/
def PurgeAct.Executing (cat : Catalog) (v : VaultId) : PurgeAct → Prop
  | .schedule _ u .. => u ≠ v
  | .finalize job _ => ∀ j ∈ cat.jobs, j.id = job → j.status.terminal = false
  | _ => True

/-- **The workers only execute**: what a claim, a validation, the answers of the provider, an
outcome, a cancellation or a restart does to the Jobs is a move of the others. -/
theorem executes_purgeStep {a : PurgeAct} (ha : a.Executing cat v)
    (h : purgeStep cat a = some cat') : Executes v cat cat' := by
  cases a with
  | schedule vaults u sel at_ confirmation reason origin =>
      obtain ⟨files, rfl⟩ := scheduleCloudPurge_spec h
      exact executes_schedule ha origin at_ files
  | cancel vaults u g =>
      simp only [purgeStep, cancelCloudDeletion, Option.bind_eq_bind, Option.bind_eq_some_iff,
        Option.guard_eq_some', exists_const, Option.some.injEq] at h
      obtain ⟨-, -, ⟨-, hall⟩, rfl⟩ := h
      rw [← activePurges_eq_purgeGroup fun j hj => (hall j hj).1]
      exact executes_cancelRows u g
  | claim lead token now expires =>
      simp only [purgeStep, claimPurgeGroup, Option.bind_eq_bind, Option.bind_eq_some_iff,
        Option.some.injEq] at h
      obtain ⟨job, -, g, -, -, -, rfl⟩ := h
      exact executes_of_open rfl (fun _ => ⟨rfl, rfl, rfl, rfl⟩) fun _ hj =>
        open_of_mem_activePurges hj
  | validate vaults u g at_ =>
      obtain ⟨⟨_, valid⟩, hvalid, rfl⟩ := Option.map_eq_some_iff.mp h
      obtain ⟨-, -, ⟨-, rfl, -⟩ | ⟨-, rfl⟩⟩ := validateExecution_cases hvalid
      · exact .refl v _
      · exact executes_cancelRows u g
  | markDeleted ids at_ =>
      cases h
      exact Executes.refl v cat
  | markFailed ids =>
      cases h
      exact Executes.refl v cat
  | finalize job file =>
      exact executes_of_open (rewrites_finalizePurgeJob h).2.jobs (fun _ => ⟨rfl, rfl, rfl, rfl⟩)
        ha
  | reconcile listing lead now =>
      obtain ⟨j, -, -, ⟨-, rfl⟩ | ⟨g, -, ⟨-, rfl | ⟨ids, rfl⟩⟩ | ⟨-, rfl⟩⟩⟩ :=
        reconcileInterruptedPurge_spec h
      · exact .refl v _
      · exact .refl v _
      · change Executes v (markItemsDeleted cat ids now) _
        exact executes_reconcile _ .queued now
      · exact executes_reconcile _ .failed now

/-- What happens between two statements of a transaction. -/
structure Among (v : VaultId) (w w' : StopWorld) : Prop where
  vault : w'.vault = w.vault
  stop : w'.stop = w.stop
  jobs : Executes v w.cat w'.cat

lemma among_executed (v : VaultId) (cat : Catalog) (w : StopWorld) :
    Among v w (executed v cat w) := by
  unfold executed
  split
  · rename_i h
    exact ⟨rfl, rfl, h⟩
  · exact ⟨rfl, rfl, .refl v w.cat⟩

lemma Freed.among (hw : Freed v w) (h : Among v w w') : Freed v w' where
  closed := h.jobs.closed hw.closed
  complete stop g hstop hdelete hg :=
    h.jobs.finished (hw.complete stop g (h.stop.symm.trans hstop) hdelete hg)

/-! ### The invariant -/

/-- The state moves on by one, or stays. -/
def DecommissionState.Onward (a b : DecommissionState) : Prop :=
  a = b ∨ (a = .active ∧ b = .decommissioning) ∨ (a = .decommissioning ∧ b = .decommissioned)

/-- **The invariant of a Vault**: a protected one has no stop, the open Jobs of a stopped one
are those of its deletion, and a released one has none. -/
structure StopInv (v : VaultId) (w : StopWorld) : Prop where
  active : w.vault.decommissionState = .active → w.stop = none
  stopped : w.vault.decommissionState ≠ .active → ∃ stop, w.stop = some stop ∧
    Covers v stop w.cat
  released : w.vault.rootReleased = true ↔ w.vault.decommissionState = .decommissioned
  freed : w.vault.rootReleased = true → Freed v w

section

variable (hw : StopInv v w)

include hw

lemma StopInv.among (h : Among v w w') : StopInv v w' where
  active := by
    rw [h.vault, h.stop]
    exact hw.active
  stopped hstate := by
    rw [h.vault] at hstate
    obtain ⟨stop, hstop, hcovers⟩ := hw.stopped hstate
    exact ⟨stop, h.stop.trans hstop, h.jobs.covers hcovers⟩
  released := by
    rw [h.vault]
    exact hw.released
  freed hreleased := by
    rw [h.vault] at hreleased
    exact (hw.freed hreleased).among h

/-- A protected Vault may be given any Jobs. -/
lemma StopInv.newJobs (hactive : w.vault.decommissionState = .active) (cat : Catalog) :
    StopInv v { w with cat := cat } where
  active := hw.active
  stopped hstate := absurd hactive hstate
  released := hw.released
  freed hreleased := by
    rw [hw.released.mp hreleased] at hactive
    cases hactive

/-- The deletion of a closed Vault may be given up. -/
lemma StopInv.keepCloud (hc : Closed v w.cat) : StopInv v w.keepCloud where
  active hactive := by rw [StopWorld.keepCloud, hw.active hactive, Option.map_none]
  stopped hstate := by
    obtain ⟨stop, hstop, -⟩ := hw.stopped hstate
    refine ⟨⟨.keep, stop.groupId⟩, by rw [StopWorld.keepCloud, hstop, Option.map_some], ?_⟩
    exact hc.covers _
  released := hw.released
  freed hreleased := by
    refine ⟨hc, fun stop g hstop hdelete _ => ?_⟩
    obtain ⟨stop', -, rfl⟩ := Option.map_eq_some_iff.mp hstop
    cases hdelete

/-- The Jobs of a root that is not released may close. -/
lemma StopInv.withJobs (hheld : w.vault.rootReleased = false) (hc : Closed v cat) :
    StopInv v { w with cat := cat } where
  active := hw.active
  stopped hstate := by
    obtain ⟨stop, hstop, -⟩ := hw.stopped hstate
    exact ⟨stop, hstop, hc.covers stop⟩
  released := hw.released
  freed hreleased := nomatch hheld.symm.trans hreleased

/-- A stopped root that is not released is being decommissioned. -/
lemma StopInv.decommissioning (hstop : w.stop = some stop) (hheld : w.vault.rootReleased = false) :
    w.vault.decommissionState = .decommissioning := by
  cases hstate : w.vault.decommissionState with
  | active =>
      rw [hw.active hstate] at hstop
      cases hstop
  | decommissioning => rfl
  | decommissioned =>
      rw [hw.released.mpr hstate] at hheld
      cases hheld

lemma StopInv.covers (hstop : w.stop = some stop) : Covers v stop w.cat := by
  have hstate : w.vault.decommissionState ≠ .active := by
    intro hactive
    rw [hw.active hactive] at hstop
    cases hstop
  obtain ⟨stop', hstop', hcovers⟩ := hw.stopped hstate
  rwa [Option.some.inj (hstop.symm.trans hstop')]

end

/-! ### Statements -/

/-- What every action of a transaction does to the state of the Vault. -/
abbrev Forward : List Unit → Unit → StopWorld → StopWorld → Prop := fun _ _ w w' =>
  w.vault.decommissionState.Onward w'.vault.decommissionState

/-- The transaction ends in `Q`, whatever others do. -/
abbrev Serves {α : Type} (v : VaultId) (Q : α → List Unit → StopWorld → Prop) (p : StopProg α)
    (h : List Unit) (w : StopWorld) : Prop :=
  Wp (Among v) Forward Q (fun _ _ _ => True) p h w

variable {e : StopError}

section Statements

variable {α : Type} {h : List Unit}

lemma serves_readVault {Q : VaultLifecycle → List Unit → StopWorld → Prop}
    (hQ : ∀ w', Among v w w' → Q w'.vault (h ++ [()]) w') : Serves v Q readVault h w :=
  wp_ask.mpr fun w' hw' => ⟨.inl rfl, fun a ha => by
    cases ha
    exact hQ w' hw', fun _ _ => trivial⟩

lemma serves_readStop {Q : Option ProtectionStop → List Unit → StopWorld → Prop}
    (hQ : ∀ w', Among v w w' → Q w'.stop (h ++ [()]) w') : Serves v Q readStop h w :=
  wp_ask.mpr fun w' hw' => ⟨.inl rfl, fun a ha => by
    cases ha
    exact hQ w' hw', fun _ _ => trivial⟩

lemma serves_readJobs {p : Job → Bool} {Q : List Job → List Unit → StopWorld → Prop}
    (hQ : ∀ w', Among v w w' → Q ((vaultJobs w'.cat v).filter p) (h ++ [()]) w') :
    Serves v Q (readJobs v p) h w :=
  wp_ask.mpr fun w' hw' => ⟨.inl rfl, fun a ha => by
    cases ha
    exact hQ w' hw', fun _ _ => trivial⟩

variable {Q : Unit → List Unit → StopWorld → Prop}

lemma serves_writeRow {f : StopWorld → StopWorld} (hQ : ∀ w', Among v w w' →
      w'.vault.decommissionState.Onward (f w').vault.decommissionState ∧
        Q () (h ++ [()]) (f w')) : Serves v Q (writeRow f) h w :=
  wp_commit.mpr fun w' hw' => ⟨fun _ w'' hf => by
    cases hf
    exact hQ w' hw', fun _ _ => ⟨.inl rfl, trivial⟩⟩

lemma serves_writeCatalog {f : StopWorld → Option Catalog}
    (hQ : ∀ w' cat, Among v w w' → f w' = some cat →
      Q () (h ++ [()]) { w' with cat := cat }) : Serves v Q (writeCatalog e f) h w := by
  refine wp_commit.mpr fun w' hw' => ⟨fun a w'' hf => ?_, fun _ _ => ⟨.inl rfl, trivial⟩⟩
  cases hcat : f w' with
  | none =>
      rw [hcat] at hf
      cases hf
  | some cat =>
      rw [hcat] at hf
      cases hf
      exact ⟨.inl rfl, hQ w' cat hw' hcat⟩

lemma serves_require {c : Prop} [Decidable c] (hQ : c → Q () h w) :
    Serves v Q (.require c e) h w :=
  wp_require.mpr ⟨hQ, fun _ => trivial⟩

end Statements

/-! ### `reconcile_one` -/

section Transactions

variable {h : List Unit}

/-- A transaction ends with the invariant. -/
abbrev KeepsStop (v : VaultId) (p : StopProg Unit) (h : List Unit) (w : StopWorld) : Prop :=
  Serves v (fun _ _ => StopInv v) p h w

/-- What is decommissioned is released once nothing is open. -/
lemma serves_release (hfreed : Freed v w) (hstop : w.stop = some stop)
    (hstate : w.vault.decommissionState = .decommissioning) :
    KeepsStop v (writeRow StopWorld.release) h w := by
  refine serves_writeRow fun w' hw' => ⟨?_, ?_⟩
  · rw [hw'.vault, hstate]
    exact .inr (.inr ⟨rfl, rfl⟩)
  · have hfreed' : Freed v w' := hfreed.among hw'
    refine ⟨(fun hactive => nomatch hactive), fun _ => ?_, ⟨fun _ => rfl, fun _ => rfl⟩,
      fun _ => ⟨hfreed'.closed, hfreed'.complete⟩⟩
    refine ⟨stop, hw'.stop.trans hstop, fun j hj hopen => ?_⟩
    rw [hfreed'.closed j hj] at hopen
    cases hopen

/-- A stop without a deletion to wait for has no open Job. -/
lemma Covers.closed (hc : Covers v stop cat)
    (hnone : stop.cloudDisposition = .delete → stop.groupId = none) : Closed v cat := by
  intro j hj
  by_contra hopen
  rw [Bool.not_eq_true] at hopen
  obtain ⟨hdelete, -, hsome, -⟩ := hc j hj hopen
  rw [hnone hdelete] at hsome
  cases hsome

/-- The release after the group was read. -/
lemma serves_releaseAfterGroup (hw : StopInv v w) (hstop : w.stop = some stop)
    (hg : stop.groupId = some g) (hheld : w.vault.rootReleased = false) :
    KeepsStop v (releaseAfterGroup ((vaultJobs w.cat v).filter fun j => j.groupId = some g))
      h w := by
  unfold releaseAfterGroup
  split
  · exact hw
  · rename_i hjobs
    have hstate := hw.decommissioning hstop hheld
    have hover : ∀ j ∈ vaultJobs w.cat v, j.groupId = some g →
        j.status = .completed ∨ j.status = .cancelled := by
      intro j hj hgroup
      by_contra hne
      push Not at hne hjobs
      refine hjobs.2 (any_eq_true.mpr ⟨j, ?_, ?_⟩)
      · exact mem_filter.mpr ⟨hj, decide_eq_true hgroup⟩
      · simp [hne.1, hne.2]
    -- the open Jobs were those of the group
    have hclosed : Closed v w.cat := by
      intro j hj
      by_contra hopen
      rw [Bool.not_eq_true] at hopen
      obtain ⟨-, -, -, hgroup⟩ := hw.covers hstop j hj hopen
      rcases hover j hj (hgroup.trans hg) with hdone | hdone <;> rw [hdone] at hopen <;>
        cases hopen
    refine wp_bind.mpr ?_
    unfold keepIfCancelled
    split
    · refine serves_writeRow fun w₁ hw₁ => ⟨.inl rfl, ?_⟩
      have hkept : w₁.keepCloud.stop = some ⟨.keep, stop.groupId⟩ := by
        rw [StopWorld.keepCloud, hw₁.stop, hstop]
        rfl
      refine serves_release ⟨hw₁.jobs.closed hclosed, fun s _ hs hdelete _ => ?_⟩ hkept ?_
      · cases hkept.symm.trans hs
        cases hdelete
      · exact (congrArg VaultLifecycle.decommissionState hw₁.vault).trans hstate
    · rename_i hnone
      refine serves_release ⟨hclosed, fun s g' hs _ hg' j hj hgroup => ?_⟩ hstop hstate
      cases hstop.symm.trans hs
      cases hg.symm.trans hg'
      refine (hover j hj hgroup).resolve_right fun hcancelled => hnone ?_
      exact any_eq_true.mpr ⟨j, mem_filter.mpr ⟨hj, decide_eq_true hgroup⟩,
        decide_eq_true hcancelled⟩

lemma serves_releaseStop (hw : StopInv v w) (hstop : w.stop = some stop)
    (hheld : w.vault.rootReleased = false) : KeepsStop v (releaseStop v stop) h w := by
  unfold releaseStop
  split
  · rename_i g hg _
    refine wp_bind.mpr (serves_readJobs fun w₁ hw₁ => ?_)
    refine serves_releaseAfterGroup (hw.among hw₁) (hw₁.stop.trans hstop) hg ?_
    rw [hw₁.vault]
    exact hheld
  · rename_i hother
    have hnone : stop.cloudDisposition = .delete → stop.groupId = none := by
      intro hdelete
      cases hg : stop.groupId with
      | none => rfl
      | some g => exact (hother g hg hdelete).elim
    refine serves_release ⟨(hw.covers hstop).closed hnone, fun s g hs hdelete hg => ?_⟩ hstop
      (hw.decommissioning hstop hheld)
    cases hstop.symm.trans hs
    rw [hnone hdelete] at hg
    cases hg

/-- **`reconcile_one` keeps the invariant.** -/
lemma serves_reconcileOne (hw : StopInv v w) : KeepsStop v (reconcileOne v) h w := by
  refine wp_bind.mpr (serves_readVault fun w₁ hw₁ => ?_)
  refine wp_bind.mpr (serves_readStop fun w₂ hw₂ => ?_)
  have hinv : StopInv v w₂ := (hw.among hw₁).among hw₂
  cases hstop : w₂.stop with
  | none => exact hinv
  | some stop =>
      by_cases hreleased : w₁.vault.rootReleased
      · simp only [hreleased, if_true]
        exact hinv
      · simp only [hreleased, if_false, Bool.false_eq_true]
        refine serves_releaseStop hinv hstop ?_
        rw [hw₂.vault]
        exact (Bool.not_eq_true _).mp hreleased

/-! ### `stop_protection` -/

variable {origin : JobOrigin} {vaults : VaultTable}

/-- The Job a selected file is given belongs to the deletion. -/
lemma mem_schedulePurgeOf_jobs {at_ : Stamp} {f : VaultFile} {j : Job}
    (hj : j ∈ (schedulePurgeOf v origin g at_ cat f).jobs) :
    j ∈ cat.jobs ∨ j.action = .cloudPurge ∧ j.groupId = some g := by
  unfold schedulePurgeOf Catalog.insertJob at hj
  rcases mem_append.mp hj with hj | hj
  · exact .inl hj
  · rw [mem_singleton.mp hj]
    exact .inr ⟨rfl, rfl⟩

lemma mem_foldl_schedulePurgeOf_jobs {at_ : Stamp} {j : Job}
    (files : List VaultFile) (cat : Catalog)
    (hj : j ∈ (files.foldl (schedulePurgeOf v origin g at_) cat).jobs) :
    j ∈ cat.jobs ∨ j.action = .cloudPurge ∧ j.groupId = some g := by
  induction files generalizing cat with
  | nil => exact .inl hj
  | cons f files ih => exact (ih _ hj).elim mem_schedulePurgeOf_jobs .inr

/-- The deletion of a stop opens Jobs of its group only. -/
lemma covers_scheduleCloudPurge {sel : Selection} {at_ : Stamp}
    {confirmation reason : String} (hc : Closed v cat)
    (h : scheduleCloudPurge vaults cat v sel at_ confirmation reason origin = some cat') :
    Covers v ⟨.delete, some (freshGroupId cat)⟩ cat' := by
  intro j hj hopen
  obtain ⟨hj, hv⟩ := mem_vaultJobs.mp hj
  obtain ⟨files, rfl⟩ := scheduleCloudPurge_spec h
  rcases mem_foldl_schedulePurgeOf_jobs files cat hj with hj | ⟨hpurge, hgroup⟩
  · rw [hc j (mem_vaultJobs.mpr ⟨hj, hv⟩)] at hopen
    cases hopen
  · exact ⟨rfl, hpurge, rfl, hgroup⟩

/-- A protected Vault whose open Jobs are those of the stop to come. -/
structure Stopping (v : VaultId) (stop : ProtectionStop) (w : StopWorld) : Prop where
  active : w.vault.decommissionState = .active
  held : w.vault.rootReleased = false
  covers : Covers v stop w.cat

lemma Stopping.among (hw : Stopping v stop w) (h : Among v w w') : Stopping v stop w' where
  active := by
    rw [h.vault]
    exact hw.active
  held := by
    rw [h.vault]
    exact hw.held
  covers := h.jobs.covers hw.covers

lemma serves_stopGroupOf (req : StopRequest) (disposition : CloudDisposition)
    (hactive : w.vault.decommissionState = .active) (hheld : w.vault.rootReleased = false)
    (hc : Closed v w.cat) :
    Serves v (fun group _ w' => Stopping v ⟨disposition, group⟩ w')
      (stopGroupOf v req disposition) h w := by
  cases disposition with
  | keep => exact ⟨hactive, hheld, hc.covers _⟩
  | delete =>
      refine wp_bind.mpr (wp_ask.mpr fun w₁ hw₁ =>
        ⟨.inl rfl, fun files _ => ?_, fun _ _ => trivial⟩)
      have hactive₁ : w₁.vault.decommissionState = .active := by rw [hw₁.vault, hactive]
      have hheld₁ : w₁.vault.rootReleased = false := by rw [hw₁.vault, hheld]
      have hc₁ : Closed v w₁.cat := hw₁.jobs.closed hc
      split
      · exact ⟨hactive₁, hheld₁, hc₁.covers _⟩
      · refine wp_bind.mpr (wp_commit.mpr fun w₂ hw₂ => ⟨fun g w₃ hg => ?_, fun _ _ =>
          ⟨.inl rfl, trivial⟩⟩)
        split at hg
        · rename_i cat hcat
          cases hg
          refine ⟨.inl rfl, ?_, ?_, covers_scheduleCloudPurge (hw₂.jobs.closed hc₁) hcat⟩
          · exact (congrArg VaultLifecycle.decommissionState hw₂.vault).trans hactive₁
          · exact (congrArg VaultLifecycle.rootReleased hw₂.vault).trans hheld₁
        · cases hg

/-- **The stop of a protected folder.** -/
lemma serves_stopActive (req : StopRequest) (disposition : CloudDisposition) (hw : StopInv v w)
    (hactive : w.vault.decommissionState = .active) :
    KeepsStop v (stopActive v w.vault req disposition) h w := by
  have hheld : w.vault.rootReleased = false := by
    rw [← Bool.not_eq_true, hw.released, hactive]
    exact fun h => nomatch h
  refine wp_bind.mpr (serves_require fun _ => ?_)
  refine wp_bind.mpr (serves_readJobs fun w₁ hw₁ => ?_)
  refine wp_bind.mpr (serves_require fun hnone => ?_)
  have hclosed : Closed v w₁.cat := by
    intro j hj
    simpa using filter_eq_nil_iff.mp hnone j hj
  have hgroup := serves_stopGroupOf (h := h ++ [()]) req disposition
    ((congrArg VaultLifecycle.decommissionState hw₁.vault).trans hactive)
    ((congrArg VaultLifecycle.rootReleased hw₁.vault).trans hheld) hclosed
  refine wp_bind.mpr (hgroup.mono (fun group h₂ w₂ hw₂ => ?_) fun _ _ _ _ => trivial)
  refine wp_bind.mpr (wp_commit.mpr fun w₃ hw₃ => ⟨fun _ w₄ hins => ?_, fun _ _ =>
    ⟨.inl rfl, trivial⟩⟩)
  split at hins
  · cases hins
  · cases hins
    have hstopping : Stopping v ⟨disposition, group⟩ w₃ := hw₂.among hw₃
    refine ⟨.inl rfl, wp_bind.mpr (serves_writeRow fun w₅ hw₅ => ?_)⟩
    have hstate : w₅.vault.decommissionState = .active :=
      (congrArg VaultLifecycle.decommissionState hw₅.vault).trans hstopping.active
    have hheld₅ : w₅.vault.rootReleased = false :=
      (congrArg VaultLifecycle.rootReleased hw₅.vault).trans hstopping.held
    refine ⟨hstate ▸ .inr (.inl ⟨rfl, rfl⟩), serves_reconcileOne ⟨?_, ?_, ?_, ?_⟩⟩
    · exact fun h => nomatch h
    · exact fun _ => ⟨_, hw₅.stop, hw₅.jobs.covers hstopping.covers⟩
    · change w₅.vault.rootReleased = true ↔ _
      rw [hheld₅]
      exact ⟨(fun h => nomatch h), (fun h => nomatch h)⟩
    · intro hreleased
      exact nomatch hheld₅.symm.trans hreleased

/-- The Owner keeps what a deletion has left. -/
lemma serves_keepAfterStop (hw : StopInv v w) :
    KeepsStop v (keepAfterStop v) h w := by
  refine wp_bind.mpr (serves_readJobs fun w₁ hw₁ => ?_)
  refine wp_bind.mpr (serves_require fun hnone => ?_)
  have hclosed : Closed v w₁.cat := by
    intro j hj
    simpa using filter_eq_nil_iff.mp hnone j hj
  refine wp_bind.mpr (serves_writeRow fun w₂ hw₂ => ⟨.inl rfl, serves_reconcileOne ?_⟩)
  have hinv : StopInv v w₂ := (hw.among hw₁).among hw₂
  exact hinv.keepCloud (hw₂.jobs.closed hclosed)

/-- **`stop_protection` keeps the invariant.** -/
lemma serves_stopProtection (req : StopRequest) (hw : StopInv v w) :
    KeepsStop v (stopProtection v req) h w := by
  refine wp_bind.mpr (serves_readVault fun w₁ hw₁ => ?_)
  refine wp_bind.mpr (serves_require fun _ => ?_)
  have hinv : StopInv v w₁ := hw.among hw₁
  cases req.disposition with
  | none => exact trivial
  | some disposition =>
      by_cases hactive : w₁.vault.decommissionState = .active
      · simp only [hactive, if_true]
        exact serves_stopActive req disposition hinv hactive
      · simp only [hactive, if_false]
        refine wp_bind.mpr (serves_readStop fun w₂ hw₂ => ?_)
        have hinv₂ : StopInv v w₂ := hinv.among hw₂
        cases hstop : w₂.stop with
        | none => exact trivial
        | some stop =>
            by_cases hsame : stop.cloudDisposition = disposition
            · simp only [hsame, if_true]
              exact hinv₂
            · simp only [hsame, if_false]
              split
              · exact serves_keepAfterStop hinv₂
              · exact trivial

/-! ### `cancel_deletion` -/

/-- A deletion that is cancelled leaves no Job open. -/
lemma closed_cancelCloudDeletion (hc : Covers v stop cat)
    (hg : stop.groupId = some g) (h : cancelCloudDeletion vaults cat v g = some cat') :
    Closed v cat' := by
  simp only [cancelCloudDeletion, Option.bind_eq_bind, Option.bind_eq_some_iff,
    Option.guard_eq_some', exists_const, Option.some.injEq] at h
  obtain ⟨-, -, -, rfl⟩ := h
  intro j' hj'
  obtain ⟨hj', hv⟩ := mem_vaultJobs.mp hj'
  rw [cancelRows, (foldl_cancelRow _ cat).1] at hj'
  obtain ⟨j, hj, rfl⟩ := mem_map.mp hj'
  unfold cancelJob at hv ⊢
  split
  · rfl
  · rename_i hother
    rw [if_neg hother] at hv
    by_contra hopen
    rw [Bool.not_eq_true] at hopen
    obtain ⟨-, hpurge, -, hgroup⟩ := hc j (mem_vaultJobs.mpr ⟨hj, hv⟩) hopen
    refine hother (mem_map_of_mem (mem_filter.mpr ⟨hj, ?_⟩))
    simp [hv, hpurge, hgroup, hg]

lemma not_closed_of_cancel
    (h : cancelCloudDeletion vaults cat v g = some cat') : ¬Closed v cat := by
  simp only [cancelCloudDeletion, Option.bind_eq_bind, Option.bind_eq_some_iff,
    Option.guard_eq_some', exists_const, Option.some.injEq] at h
  obtain ⟨-, -, ⟨hsome, hall⟩, -⟩ := h
  obtain ⟨j, hj⟩ := exists_mem_of_ne_nil _ hsome
  intro hclosed
  have hterm : j.status.terminal := by
    obtain ⟨hmem, hrow⟩ := mem_filter.mp hj
    simp only [Bool.and_eq_true, decide_eq_true_eq] at hrow
    exact hclosed j (mem_vaultJobs.mpr ⟨hmem, hrow.1.1⟩)
  rw [(hall j hj).1] at hterm
  cases hterm

/-- **`cancel_deletion` keeps the invariant.** -/
lemma serves_cancelDeletion (health : VaultHealth) (hw : StopInv v w) :
    KeepsStop v (cancelDeletion v health) h w := by
  refine wp_bind.mpr (serves_readVault fun w₁ hw₁ => ?_)
  refine wp_bind.mpr (serves_readStop fun w₂ hw₂ => ?_)
  have hinv : StopInv v w₂ := (hw.among hw₁).among hw₂
  cases hstop : w₂.stop with
  | none => exact trivial
  | some stop =>
      cases hg : stop.groupId with
      | none =>
          simp only [Option.bind_some, hg]
          exact trivial
      | some g =>
          simp only [Option.bind_some, hg]
          refine wp_bind.mpr (serves_writeCatalog fun w₃ cat hw₃ hcat => ?_)
          have hinv₃ : StopInv v w₃ := hinv.among hw₃
          have hstop₃ : w₃.stop = some stop := hw₃.stop.trans hstop
          have hclosed : Closed v cat :=
            closed_cancelCloudDeletion (hinv₃.covers hstop₃) hg hcat
          -- a released root has nothing that could be cancelled
          have hheld : w₃.vault.rootReleased = false := by
            rw [← Bool.not_eq_true]
            intro hreleased
            exact not_closed_of_cancel hcat (hinv₃.freed hreleased).closed
          refine wp_bind.mpr (serves_writeRow fun w₄ hw₄ => ⟨.inl rfl, serves_reconcileOne ?_⟩)
          have hinv₄ : StopInv v w₄ := (hinv₃.withJobs hheld hclosed).among hw₄
          exact hinv₄.keepCloud (hw₄.jobs.closed hclosed)

/-! ### The admissions -/

/-- Whatever is admitted for a Vault that is protected. -/
lemma serves_writeCatalog_active {f : StopWorld → Option Catalog}
    (hw : StopInv v w) (hactive : w.vault.decommissionState = .active) :
    KeepsStop v (writeCatalog e f) h w :=
  serves_writeCatalog fun _ cat hw' _ =>
    (hw.among hw').newJobs ((congrArg VaultLifecycle.decommissionState hw'.vault).trans hactive) cat

lemma VaultLifecycle.active_of_ready {vault : VaultLifecycle} (h : vault.ready) :
    vault.decommissionState = .active := by
  simp only [VaultLifecycle.ready, Bool.and_eq_true, decide_eq_true_eq] at h
  exact h.1.1.2

/-- An admission that reads the Vault row first and finds it ready. -/
lemma serves_ready {p : StopProg Unit} (hw : StopInv v w)
    (hp : ∀ h w', StopInv v w' → w'.vault.decommissionState = .active → KeepsStop v p h w') :
    KeepsStop v (readVault >>= fun vault => .require (vault.ready) e >>= fun _ => p)
      h w := by
  refine wp_bind.mpr (serves_readVault fun w₁ hw₁ => ?_)
  refine wp_bind.mpr (serves_require fun hready => ?_)
  exact hp _ _ (hw.among hw₁) (VaultLifecycle.active_of_ready hready)

/-- `lock_vault` and the admission under it. -/
lemma serves_admitJobs {admission : Catalog → Option (Catalog × List JobId)}
    (hw : StopInv v w) : KeepsStop v (admitJobs admission) h w := by
  refine wp_bind.mpr (serves_readVault fun w₁ hw₁ => ?_)
  refine wp_bind.mpr (serves_require fun hactive => ?_)
  exact serves_writeCatalog_active (hw.among hw₁) hactive

/-- `schedule_cloud_purge` checks the state itself. -/
lemma active_of_scheduleCloudPurge {health : VaultHealth} {sel : Selection} {at_ : Stamp}
    {confirmation reason : String}
    (h : scheduleCloudPurge (w.views health v) cat v sel at_ confirmation reason origin =
      some cat') : w.vault.decommissionState = .active := by
  simp only [scheduleCloudPurge, StopWorld.views, if_true, Option.bind_eq_bind,
    Option.bind_some, Option.bind_eq_some_iff, Option.guard_eq_some'] at h
  obtain ⟨-, hstate, -⟩ := h
  exact hstate.1

/-- **Every transaction keeps the invariant.** -/
theorem serves_transaction (t : VaultTransaction) (hw : StopInv v w) :
    KeepsStop v (t.program v) h w := by
  cases t with
  | stopProtection req => exact serves_stopProtection req hw
  | cancelDeletion health => exact serves_cancelDeletion health hw
  | reconcileOne => exact serves_reconcileOne hw
  | queueJobs intercept mode q =>
      rw [VaultTransaction.program]
      exact serves_admitJobs hw
  | queueAutoUploads intercept mode a =>
      rw [VaultTransaction.program]
      exact serves_admitJobs hw
  | purge health sel requestedAt confirmation reason =>
      refine serves_writeCatalog fun w' cat hw' hcat => (hw.among hw').newJobs ?_ cat
      exact active_of_scheduleCloudPurge hcat
  | remediate allowed file job hid =>
      exact serves_ready hw fun h _ hw' hactive => serves_writeCatalog_active hw' hactive
  | resume resumable file job hid =>
      exact serves_ready hw fun h _ hw' hactive => serves_writeCatalog_active hw' hactive
  | moveClass acknowledged eligible requestedAt g =>
      refine serves_ready hw fun h _ hw' hactive => wp_bind.mpr (serves_require fun _ => ?_)
      exact serves_writeCatalog_active hw' hactive
  | settings name enabled relocationReady =>
      refine serves_writeRow fun w' hw' => ⟨.inl rfl, ?_⟩
      have hinv : StopInv v w' := hw.among hw'
      exact ⟨hinv.active, hinv.stopped, hinv.released, fun hreleased =>
        ⟨(hinv.freed hreleased).closed, (hinv.freed hreleased).complete⟩⟩

end Transactions

/-! ### Runs -/

/-- How far the Vault has gone. -/
def DecommissionState.rank : DecommissionState → ℕ
  | .active => 0
  | .decommissioning => 1
  | .decommissioned => 2

lemma DecommissionState.Onward.rank_le {a b : DecommissionState} (h : a.Onward b) :
    a.rank ≤ b.rank := by
  obtain rfl | ⟨rfl, rfl⟩ | ⟨rfl, rfl⟩ := h
  · exact le_refl _
  · decide
  · decide

/-- The end of a transaction that committed. -/
lemma stopStep_transaction {t : VaultTransaction} {moves : List Catalog}
    (h : stopStep v w (.transaction t moves) = some w') :
    ((t.program v).play (executed v) w moves).ending = .returned () ∧
      ((t.program v).play (executed v) w moves).world = w' := by
  simp only [stopStep] at h
  split at h
  · rename_i heq
    rw [heq]
    exact ⟨rfl, Option.some.inj h⟩
  · cases h

/-- **Every step keeps the invariant**, and goes no step back. -/
lemma stopInv_step {a : StopAct} (hw : StopInv v w) (h : stopStep v w a = some w') :
    StopInv v w' ∧ w.vault.decommissionState.rank ≤ w'.vault.decommissionState.rank := by
  cases a with
  | execute cat =>
      cases h
      have hmove := among_executed v cat w
      exact ⟨hw.among hmove, by rw [hmove.vault]⟩
  | transaction t moves =>
      obtain ⟨hend, rfl⟩ := stopStep_transaction h
      have hplay := Wp.above (r := fun w w' : StopWorld =>
          w.vault.decommissionState.rank ≤ w'.vault.decommissionState.rank)
        (fun _ => le_refl _) (fun _ _ _ => le_trans) (fun _ _ hE => by rw [hE.vault])
        (fun _ _ _ _ hG => hG.rank_le) (serves_transaction (h := []) t hw)
      exact (hplay.play (fun cat w => among_executed v cat w) moves).1 () hend

lemma stopInv_run {as : List StopAct} (hw : StopInv v w)
    (h : Runs.run (stopStep v) w as = some w') :
    StopInv v w' ∧ w.vault.decommissionState.rank ≤ w'.vault.decommissionState.rank :=
  Runs.run_induction (I := fun u => StopInv v u ∧
      w.vault.decommissionState.rank ≤ u.vault.decommissionState.rank)
    (fun _ _ _ hI hstep => ⟨(stopInv_step hI.1 hstep).1, hI.2.trans (stopInv_step hI.1 hstep).2⟩)
    ⟨hw, le_refl _⟩ h

/-- A protected Vault, with any Jobs. -/
structure Protected (w : StopWorld) : Prop where
  active : w.vault.decommissionState = .active
  held : w.vault.rootReleased = false
  unstopped : w.stop = none

lemma Protected.stopInv (hw : Protected w) : StopInv v w where
  active _ := hw.unstopped
  stopped hstate := absurd hw.active hstate
  released := by
    rw [hw.held, hw.active]
    exact ⟨(fun h => nomatch h), (fun h => nomatch h)⟩
  freed hreleased := nomatch hw.held.symm.trans hreleased

/-- **A released root has no live work, and never gets any.**  In every run from a protected
Vault: a released root has no open Job, then or later, and stays released; every statement of a
transaction, committed or not, moves `decommission_state` on by at most one; and a stop that
still asks for the deletion has released the root only with every Job of its group completed. -/
theorem released_root_has_no_work {w₀ : StopWorld} {as : List StopAct} (h₀ : Protected w₀)
    (hrun : Runs.run (stopStep v) w₀ as = some w) :
    (w.vault.rootReleased = true → ∀ bs w', Runs.run (stopStep v) w bs = some w' →
      w'.vault.rootReleased = true ∧ ∀ j ∈ w'.cat.jobs, j.vaultId = v →
        j.status.terminal = true) ∧
    (∀ (t : VaultTransaction) (moves : List Catalog),
      ∀ s ∈ (t.program v).steps (executed v) w moves,
        s.before.vault.decommissionState.Onward s.after.vault.decommissionState) ∧
    (∀ bs w', Runs.run (stopStep v) w bs = some w' →
      w.vault.decommissionState.rank ≤ w'.vault.decommissionState.rank) ∧
    (w.vault.rootReleased = true → ∀ stop g, w.stop = some stop →
      stop.cloudDisposition = .delete → stop.groupId = some g →
        ∀ j ∈ w.cat.jobs, j.vaultId = v → j.groupId = some g → j.status = .completed) := by
  have hinv : StopInv v w := (stopInv_run h₀.stopInv hrun).1
  refine ⟨fun hreleased bs w' hmore => ?_, fun t moves s hs => ?_, fun bs w' hmore => ?_,
    fun hreleased stop g hstop hdelete hg j hj hv hgroup => ?_⟩
  · obtain ⟨hinv', hrank⟩ := stopInv_run hinv hmore
    have hlast : w'.vault.decommissionState = .decommissioned := by
      rw [hinv.released.mp hreleased] at hrank
      cases hstate : w'.vault.decommissionState with
      | active => cases hstate ▸ hrank
      | decommissioning => exact absurd (hstate ▸ hrank) (by decide)
      | decommissioned => rfl
    have hreleased' : w'.vault.rootReleased = true := hinv'.released.mpr hlast
    exact ⟨hreleased', fun j hj hv =>
      (hinv'.freed hreleased').closed j (mem_vaultJobs.mpr ⟨hj, hv⟩)⟩
  · obtain ⟨before, after, hsplit⟩ := append_of_mem hs
    exact (serves_transaction (h := []) t hinv).steps (fun cat w => among_executed v cat w) hsplit
  · exact (stopInv_run hinv hmore).2
  · exact (hinv.freed hreleased).complete stop g hstop hdelete hg j (mem_vaultJobs.mpr ⟨hj, hv⟩)
      hgroup

/-- A protected Vault with one file, in the cloud only. -/
def protectedWorld : StopWorld where
  vault := ⟨"photos", .active, false, true, true⟩
  stop := none
  cat := cloudOnlyCatalog

/-- A stop that asks for the deletion. -/
def stopAndDelete : StopRequest where
  cloudDisposition := "delete"
  confirmation := "photos"
  reason := "moved"
  requestedAt := 0
  health := ⟨fun _ => true, false, fun _ => true⟩

/-- The catalog of the stop, with its Job completed. -/
def deletedCatalog : Catalog :=
  (cloudOnlyCatalog.files.foldl (schedulePurgeOf 0 .stopProtection 1 0) cloudOnlyCatalog).mapJobs
    (fun j => { j with status := .completed }) fun _ => rfl

/-- The deletion is admitted, and executed while it is reconciled. -/
def stopRun : List StopAct :=
  [.transaction (.stopProtection stopAndDelete) (List.replicate 12 cloudOnlyCatalog),
    .transaction .reconcileOne (List.replicate 4 deletedCatalog)]

/-- The root is released with its one Job completed. -/
theorem released_root_after_deletion :
    ∃ w, Runs.run (stopStep 0) protectedWorld stopRun = some w ∧ w.vault.rootReleased = true ∧
      w.stop = some ⟨.delete, some 1⟩ ∧
      ∀ j ∈ w.cat.jobs, j.vaultId = 0 → j.groupId = some 1 → j.status = .completed := by
  have hstart : Protected protectedWorld := ⟨rfl, rfl, rfl⟩
  have hrun : Runs.run (stopStep 0) protectedWorld stopRun = some _ := rfl
  exact ⟨_, hrun, rfl, rfl, (released_root_has_no_work hstart hrun).2.2.2 rfl _ 1 rfl rfl rfl⟩

end Frostvault
