import Frostvault.LocalFiles.Restart

/-!
Restart reconciliation and the downloads of live recoveries (`reconcile_interrupted_jobs` and
`_remove_abandoned_restore_files` of `app/storage.py`).

Every poll of the scheduler reconciles the stale Jobs.  For a recovery it removes the recognised
downloads of the directory of its destination, whoever they belong to.

* `interruptedJobs`, `reconcileInterruptedJobs`: the reconciliation;
* `LiveRecovery`, `SparesLive`, `ClearOfLive`: the property of a run and its condition;
* `sweepLaw_swept`, `sweeps_unlink`, `sweeps_link`: what the actions on files do;
* `meets_reconcileInterruptedJobs`: **every action of a reconciliation is lawful**;
* `sparesLive_iff`: the property holds of a run exactly when the condition does.
-/

namespace Frostvault

open Effects Directory

/-! ### The reconciliation -/

/-- `_INTERRUPTED_JOB_SQL`. -/
def Job.interrupted (j : Job) : Bool :=
  match j.action, j.status with
  | .recover, .downloading | .recover, .verifying | .upload, .uploading | .upload, .verifying
  | .rename, .uploading | .rename, .verifying | .rename, .cleaning | .freeSpace, .cleaning
  | .storageClass, .uploading | .cloudPurge, .cleaning => true
  | _, _ => false

/-- `EXPIRED_LEASE_RECONCILE_BATCH`. -/
def expiredLeaseReconcileBatch : ℕ := 100

/-- The Jobs of one reconciliation. -/
def interruptedJobs (cat : Catalog) (timestamp : Stamp) : List Job :=
  ((cat.jobs.filter fun j => j.interrupted && j.claimAvailable timestamp).insertionSort fun a b =>
    a.requestedAt < b.requestedAt ∨ a.requestedAt = b.requestedAt ∧ a.id ≤ b.id).take
      expiredLeaseReconcileBatch

/-- The Job as the reconciliation reads it. -/
def Job.asLocal (j : Job) : LocalJob where
  id := j.id
  vaultId := j.vaultId
  vaultFileId := j.vaultFileId
  path := j.path
  token := j.claimToken.getD 0

/-- What the provider answers a reconciliation. -/
structure Postconditions where
  listing : ProviderListing
  /-- What `_reconcile_storage_class_job` decides. -/
  storageClass : JobId → JobStatus

/-- A Job that is only moved back to the queue. -/
def requeue (job : LocalJob) (at_ : Stamp) : Working Unit := do
  let _ ← transition job.id .queued none at_
  pure ()

/-- One Job of the loop of `_reconcile_interrupted_jobs_impl`. -/
def reconcileJob (vaults : VaultTable) (answers : Postconditions) (at_ : Stamp) (j : Job) :
    Working Unit :=
  match j.action with
  | .recover => reconcileRecover vaults j.asLocal at_
  | .freeSpace => reconcileFreeSpace j.asLocal at_
  | .upload | .rename => do
      let allowed ← look fun w => .ok (w.access j.vaultId)
      if allowed then requeue j.asLocal at_ else pure ()
  | .cloudArchive => requeue j.asLocal at_
  | .storageClass => do
      let _ ← transition j.id (answers.storageClass j.id) none at_
      pure ()
  | .cloudPurge => .commit (fun _ => .checked) fun w => .ok ((), { w with
      cat := (reconcileInterruptedPurge answers.listing w.cat j.id at_).getD w.cat })

/-- The loop. -/
def reconcileEach (vaults : VaultTable) (answers : Postconditions) (at_ : Stamp) :
    List Job → Working Unit
  | [] => pure ()
  | j :: js => do
      reconcileJob vaults answers at_ j
      reconcileEach vaults answers at_ js

/-- `reconcile_interrupted_jobs`. -/
def reconcileInterruptedJobs (vaults : VaultTable) (answers : Postconditions) : Working Unit := do
  let (timestamp, jobs) ← look fun w => .ok (w.now, interruptedJobs w.cat w.now)
  reconcileEach vaults answers timestamp jobs

/-! ### The property and its condition -/

/-- The Job is a recovery with a live lease. -/
def LiveRecovery (w : LocalWorld) (id : JobId) : Prop :=
  ∃ j, w.cat.job? id = some j ∧ j.action = .recover ∧ j.claimToken.isSome = true ∧
    j.status.terminal = false ∧ ∃ t, j.claimExpiresAt = some t ∧ w.now < t

/-- A file of a download of a live recovery. -/
def LiveFile (w : LocalWorld) (p : Place) : Prop :=
  ∃ d ∈ w.downloads, LiveRecovery w d.job ∧ p ∈ d.files

/-- In a run: the files of live recoveries stay. -/
def SparesLive (ss : List LocalStep) : Prop :=
  ∀ s ∈ ss, ∀ p, LiveFile s.before p → ∀ n, s.before.files.lookup p = some n →
    s.after.files.lookup p = some n

/-- In a run: where a directory is cleared no file of a live recovery is recognised in it, unless it
cannot be removed. -/
def ClearOfLive (ss : List LocalStep) : Prop :=
  ∀ s ∈ ss, ∀ dir, s.event = .swept dir → ∀ p, LiveFile s.before p → p.dir = dir →
    isRestoreTemporary p.name = true → ∀ n, s.before.files.lookup p = some n →
      s.before.refuses p = true ∨ n.kind = .directory

/-! ### The law of an action -/

/-- **What an action of a reconciliation does** to the files of live recoveries. -/
structure SweepLaw (h : List LocalEvent) (ev : LocalEvent) (w w' : LocalWorld) : Prop where
  spares : (∀ p, LiveFile w p → ∀ n, w.files.lookup p = some n → w'.files.lookup p = some n) ↔
    ∀ dir, ev = .swept dir → ∀ p, LiveFile w p → p.dir = dir → isRestoreTemporary p.name = true →
      ∀ n, w.files.lookup p = some n → w.refuses p = true ∨ n.kind = .directory

variable {vaults : VaultTable} {answers : Postconditions} {job : LocalJob} {at_ : Stamp}
  {h : List LocalEvent} {ev : LocalEvent} {w w' : LocalWorld} {p : Place}

lemma sweepLaw_of_kept (hev : ∀ dir, ev ≠ .swept dir)
    (hkept : ∀ p, LiveFile w p → ∀ n, w.files.lookup p = some n → w'.files.lookup p = some n) :
    SweepLaw h ev w w' :=
  ⟨⟨fun _ dir hdir => (hev dir hdir).elim, fun _ => hkept⟩⟩

lemma sweepLaw_of_files (hev : ∀ dir, ev ≠ .swept dir) (hfiles : w'.files = w.files) :
    SweepLaw h ev w w' :=
  sweepLaw_of_kept hev fun _ _ _ hn => hfiles ▸ hn

/-- **A directory that is cleared** loses what is recognised in it. -/
lemma sweepLaw_swept (dir : ℕ) : SweepLaw h (.swept dir) w (w.sweep dir) := by
  refine ⟨⟨fun hkept dir' hdir p hlive hp hname n hn => ?_, fun hclear p hlive n hn => ?_⟩⟩
  · obtain rfl := LocalEvent.swept.inj hdir
    by_contra hno
    push Not at hno
    have hafter := hkept p hlive n hn
    rw [lookup_sweep, if_pos ((mem_abandoned hn).mpr ⟨hp, hname, by simpa using hno.1, hno.2⟩)]
      at hafter
    cases hafter
  · rw [lookup_sweep, if_neg, hn]
    intro hmem
    obtain ⟨hp, hname, hrefuses, hkind⟩ := (mem_abandoned hn).mp hmem
    rcases hclear dir rfl p hlive hp hname n hn with hrefused | hdirectory
    · cases hrefused.symm.trans hrefuses
    · exact hkind hdirectory

/-- A file of a recovery is no claim. -/
lemma LiveFile.not_cleanup (hlive : LiveFile w p) : isCleanupTemporary p.name = false := by
  obtain ⟨d, -, -, hp⟩ := hlive
  have hno : isCleanupTemporary d.temporary.name = false ∧
      isCleanupTemporary d.filling.name = false :=
    not_cleanup_of_restore d.hex_uuid d.ext_length d.ext_alphanum
  obtain ⟨htemporary, hfilling⟩ := hno
  rcases List.mem_cons.mp hp with rfl | hp
  · exact htemporary
  · obtain rfl := List.mem_singleton.mp hp
    exact hfilling

/-! ### The actions -/

lemma sweeps_look {α : Type} {Q : α → List LocalEvent → Prop}
    {f : LocalWorld → Except LocalError α} (hQ : ∀ w a, f w = .ok a → Q a (h ++ [.checked])) :
    Meets SweepLaw Q (fun _ _ => True) (look f) h :=
  meets_ask (fun _ => sweepLaw_of_files (fun _ h => nomatch h) rfl) hQ fun _ _ _ => trivial

lemma sweeps_transition {id : JobId} {status : JobStatus} {named : Option Place} :
    Meets SweepLaw (fun _ _ => True) (fun _ _ => True) (transition id status named at_) h := by
  refine meets_commit (fun w a w' hw => ⟨?_, trivial⟩) fun w e hw => nomatch hw
  cases hw
  refine sweepLaw_of_files (fun dir => ?_) rfl
  split <;> exact fun h => nomatch h

lemma sweeps_decide {id : JobId} {status : JobStatus} {named : Option Place} :
    Meets SweepLaw (fun _ _ => True) (fun _ _ => True)
      (do let _ ← transition id status named at_; pure ()) h :=
  Meets.bind sweeps_transition fun _ _ _ => meets_pure trivial

lemma sweeps_locate {v : VaultId} {path : Path} :
    Meets SweepLaw (fun _ _ => True) (fun _ _ => True) (locate v path) h := by
  refine meets_ask (fun w => ?_) (fun _ _ _ => trivial) fun _ _ _ => trivial
  cases w.entryPath v path <;> exact sweepLaw_of_files (fun _ h => nomatch h) rfl

lemma sweeps_hash : Meets SweepLaw (fun _ _ => True) (fun _ _ => True)
    (hashStableRegularFile p) h := by
  refine meets_act fun w => ?_
  cases hashStableRegularFile.read p w with
  | error e => exact ⟨sweepLaw_of_files (fun _ h => nomatch h) rfl, meets_raise trivial⟩
  | ok r => exact ⟨sweepLaw_of_files (fun _ h => nomatch h) rfl, meets_ret trivial⟩

/-- **A claim is removed**, not a download. -/
lemma sweeps_unlink (hp : isCleanupTemporary p.name) :
    Meets SweepLaw (fun _ _ => True) (fun _ _ => True) (unlink p) h := by
  refine meets_commit (fun w a w' hw => ⟨?_, trivial⟩)
    fun w e _ => ⟨sweepLaw_of_files (fun _ h => nomatch h) rfl, trivial⟩
  obtain ⟨w'', hunlinked, hw''⟩ := map_eq_ok.mp hw
  cases hw''
  refine sweepLaw_of_kept (fun _ h => nomatch h) fun q hlive n hn => ?_
  have hne : q ≠ p := by
    rintro rfl
    cases hp.symm.trans hlive.not_cleanup
  rw [LocalWorld.unlinked] at hunlinked
  split at hunlinked
  · cases hunlinked
  · split at hunlinked
    · cases hunlinked
    · cases hunlinked
      exact (AList.lookup_erase_ne hne).trans hn

/-- A link takes the place of nothing. -/
lemma sweeps_link {s q : Place} :
    Meets SweepLaw (fun _ _ => True) (fun _ _ => True) (link s q) h := by
  refine meets_commit (fun w a w' hw => ⟨?_, trivial⟩) fun w e he => ⟨?_, trivial⟩
  · obtain ⟨w'', hlinked, hw''⟩ := map_eq_ok.mp hw
    cases hw''
    rw [hlinked]
    refine sweepLaw_of_kept (fun _ h => nomatch h) fun r _ n hn => ?_
    obtain ⟨m, -, hfree, -, -, rfl⟩ := linkedTo_spec hlinked
    have hne : r ≠ q := by
      rintro rfl
      cases hfree.symm.trans hn
    exact (AList.lookup_insert_ne hne).trans hn
  · split <;> exact sweepLaw_of_files (fun _ h => nomatch h) rfl

/-- **A claim is linked back**, where there is nothing. -/
lemma sweeps_restoreClaimed {claimed target : Place}
    (hclaimed : isCleanupTemporary claimed.name) :
    Meets SweepLaw (fun _ _ => True) (fun _ _ => True)
      (restoreClaimedLocalCopy claimed target) h := by
  refine Meets.bind (sweeps_look (Q := fun _ _ => True) fun _ _ _ => trivial) fun there _ _ => ?_
  cases there with
  | false => exact meets_pure trivial
  | true =>
      refine Meets.bind (sweeps_link.outcome (S := fun _ _ => True) (fun _ _ _ => trivial)
        fun _ _ _ => trivial) fun r _ _ => ?_
      match r with
      | .ok () => exact Meets.bind (sweeps_unlink hclaimed) fun _ _ _ => meets_pure trivial
      | .error .occupied => exact meets_pure trivial
      | .error .cancelled | .error .leaseLost | .error (.refused _) | .error .notFound |
        .error .os | .error .provider =>
          refine Meets.bind (sweeps_look (Q := fun _ _ => True) fun _ _ _ => trivial)
            fun still _ _ => ?_
          cases still with
          | true => exact meets_pure trivial
          | false => exact meets_raise trivial

lemma sweeps_restoreFirst {target : Place} {cs : List FileName}
    (hcs : ∀ c ∈ cs, isCleanupTemporary c) :
    Meets SweepLaw (fun _ _ => True) (fun _ _ => True) (restoreFirst target cs) h := by
  induction cs generalizing h with
  | nil => exact meets_pure trivial
  | cons c cs ih =>
      have hrest : ∀ c ∈ cs, isCleanupTemporary c := fun c hc =>
        hcs c (List.mem_cons_of_mem _ hc)
      refine Meets.bind (sweeps_restoreClaimed (hcs c List.mem_cons_self)) fun restored _ _ => ?_
      cases restored with
      | false => exact ih hrest
      | true =>
          refine Meets.bind (sweeps_look (Q := fun _ _ => True) fun _ _ _ => trivial)
            fun there _ _ => ?_
          cases there with
          | true => exact meets_pure trivial
          | false => exact ih hrest

lemma sweeps_afterClaims {target : Place} {found : List FileName} {restored : Bool} :
    Meets SweepLaw (fun _ _ => True) (fun _ _ => True)
      (afterClaims job target at_ found restored) h := by
  cases restored with
  | true => exact sweeps_decide
  | false =>
      refine Meets.bind (sweeps_look (Q := fun _ _ => True) fun _ _ _ => trivial)
        fun remaining _ _ => ?_
      cases remaining with
      | cons c cs => exact sweeps_decide
      | nil =>
          refine Meets.bind (Q := fun _ _ => True) (meets_commit (fun w a w' hw => ⟨?_, trivial⟩)
            fun w e hw => nomatch hw) fun _ _ _ => sweeps_decide
          cases hw
          exact sweepLaw_of_files (fun _ h => nomatch h) rfl

/-! ### The branches -/

lemma sweeps_orFailed {b : Working Unit}
    (hb : Meets SweepLaw (fun _ _ => True) (fun _ _ => True) b h) :
    Meets SweepLaw (fun _ _ => True) (fun _ _ => True) (orFailed job at_ b) h :=
  Meets.handle hb fun _ _ _ => sweeps_decide

/-- **A release** takes no file of a recovery. -/
lemma sweeps_reconcileFreeSpace :
    Meets SweepLaw (fun _ _ => True) (fun _ _ => True) (reconcileFreeSpace job at_) h := by
  refine Meets.bind (sweeps_look (Q := fun _ _ => True) fun _ _ _ => trivial) fun allowed _ _ => ?_
  cases allowed with
  | false => exact meets_pure trivial
  | true =>
      refine sweeps_orFailed ?_
      refine Meets.bind (sweeps_look (Q := fun _ _ => True) fun _ _ _ => trivial)
        fun isDir _ _ => ?_
      refine Meets.bind (meets_require (Q := fun _ _ => True) (fun _ => trivial) fun _ => trivial)
        fun _ _ _ => ?_
      refine Meets.bind sweeps_locate fun target _ _ => ?_
      refine Meets.bind (sweeps_look (Q := fun _ _ => True) fun _ _ _ => trivial)
        fun there _ _ => ?_
      cases there with
      | true => exact sweeps_decide
      | false =>
          refine Meets.bind (sweeps_look
            (Q := fun found _ => ∀ c ∈ found, isCleanupTemporary c) fun w found hfound => ?_)
            fun found _ hfound => ?_
          · cases hfound
            exact fun c hc => (foundClaims_there hc).2
          · exact Meets.bind (sweeps_restoreFirst hfound) fun _ _ _ => sweeps_afterClaims

/-- The decision of a recovery writes no file. -/
lemma sweeps_reconcileRecoverJob :
    Meets SweepLaw (fun _ _ => True) (fun _ _ => True) (reconcileRecoverJob vaults job p at_) h := by
  refine Meets.bind (Q := fun _ _ => True) (meets_act fun w => ⟨?_, meets_pure trivial⟩)
    fun target _ _ => ?_
  · cases restartTarget w.cat job.id <;> exact sweepLaw_of_files (fun _ h => nomatch h) rfl
  refine Meets.bind (sweeps_look (Q := fun _ _ => True) fun _ _ _ => trivial) fun there _ _ => ?_
  cases there with
  | false => exact sweeps_decide
  | true =>
      refine Meets.bind (sweeps_look (Q := fun _ _ => True) fun _ _ _ => trivial)
        fun regular _ _ => ?_
      cases regular with
      | false => exact sweeps_decide
      | true =>
          cases target with
          | none => exact sweeps_decide
          | some t =>
              refine Meets.bind (sweeps_hash.outcome (S := fun _ _ => True) (fun _ _ _ => trivial)
                fun _ _ _ => trivial) fun r _ _ => ?_
              cases r with
              | error e => exact sweeps_decide
              | ok r =>
                  dsimp only
                  split
                  · refine meets_act fun w => ⟨?_, ?_⟩
                    · refine sweepLaw_of_files (fun dir => ?_) (adopted_files _ t)
                      split <;> exact fun h => nomatch h
                    · cases (adopt.adopted vaults job r.2 t at_ w).1 with
                      | error e => exact meets_raise trivial
                      | ok u => exact meets_ret trivial
                  · exact sweeps_decide

/-- **A recovery** clears its directory, and removes nothing else. -/
lemma sweeps_reconcileRecover :
    Meets SweepLaw (fun _ _ => True) (fun _ _ => True) (reconcileRecover vaults job at_) h := by
  refine Meets.bind (sweeps_look (Q := fun _ _ => True) fun _ _ _ => trivial) fun allowed _ _ => ?_
  cases allowed with
  | false => exact meets_pure trivial
  | true =>
      refine sweeps_orFailed ?_
      refine Meets.bind (sweeps_look (Q := fun _ _ => True) fun _ _ _ => trivial)
        fun isDir _ _ => ?_
      refine Meets.bind (meets_require (Q := fun _ _ => True) (fun _ => trivial) fun _ => trivial)
        fun _ _ _ => ?_
      refine Meets.bind sweeps_locate fun p _ _ => ?_
      refine Meets.bind (Q := fun _ _ => True) (meets_commit (fun w a w' hw => ⟨?_, trivial⟩)
        fun w e hw => nomatch hw) fun _ _ _ => sweeps_reconcileRecoverJob
      cases hw
      exact sweepLaw_swept p.dir

lemma sweeps_reconcileJob (j : Job) :
    Meets SweepLaw (fun _ _ => True) (fun _ _ => True) (reconcileJob vaults answers at_ j) h := by
  have hrequeue {h : List LocalEvent} : Meets SweepLaw (fun _ _ => True) (fun _ _ => True)
      (do let allowed ← look fun w => .ok (w.access j.vaultId)
          if allowed then requeue j.asLocal at_ else pure ()) h := by
    refine Meets.bind (sweeps_look (Q := fun _ _ => True) fun _ _ _ => trivial) fun allowed _ _ => ?_
    cases allowed with
    | false => exact meets_pure trivial
    | true => exact sweeps_decide
  rw [reconcileJob]
  cases j.action with
  | recover => exact sweeps_reconcileRecover
  | freeSpace => exact sweeps_reconcileFreeSpace
  | upload => exact hrequeue
  | rename => exact hrequeue
  | cloudArchive => exact sweeps_decide
  | storageClass => exact sweeps_decide
  | cloudPurge =>
      refine meets_commit (fun w a w' hw => ⟨?_, trivial⟩) fun w e hw => nomatch hw
      cases hw
      exact sweepLaw_of_files (fun _ h => nomatch h) rfl

/-- **Every action of a reconciliation is lawful**, however many Jobs there are. -/
theorem meets_reconcileInterruptedJobs (vaults : VaultTable) (answers : Postconditions) :
    Meets SweepLaw (fun _ _ => True) (fun _ _ => True) (reconcileInterruptedJobs vaults answers)
      [] := by
  refine Meets.bind (sweeps_look (Q := fun _ _ => True) fun _ _ _ => trivial) fun r h _ => ?_
  obtain ⟨timestamp, jobs⟩ := r
  clear * -
  change Meets SweepLaw _ _ (reconcileEach vaults answers timestamp jobs) h
  induction jobs generalizing h with
  | nil => exact meets_pure trivial
  | cons j js ih => exact Meets.bind (sweeps_reconcileJob j) fun _ h _ => ih h

/-- **The files of live recoveries stay** in a run exactly when it clears no directory that holds
one. -/
theorem sparesLive_iff {χ : Type} (env : χ → LocalWorld → LocalWorld) (w : LocalWorld)
    (xs : List χ) :
    SparesLive ((reconcileInterruptedJobs vaults answers).steps env w xs) ↔
      ClearOfLive ((reconcileInterruptedJobs vaults answers).steps env w xs) := by
  refine forall₂_congr fun s hs => ?_
  obtain ⟨before, after, hsplit⟩ := List.append_of_mem hs
  exact ((meets_reconcileInterruptedJobs vaults answers).steps env w hsplit).spares

end Frostvault
