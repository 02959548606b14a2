import Frostvault.Remediation.Transitions

/-!
Ordinary uploads beside open episodes (`intercept_upload` and `_void` of
`app/services/upload_remediation.py`).

A file's ordinary uploads are let through when the ledger finds no live episode among the oldest
ones that are not resolved.  Cancelled episodes that went void stay among them for ever.

* `LedgerAct`, `ledgerStep`: what may happen to the ledger;
* `LedgerAct.looks`: the ledgers an upload looks at, one for each candidate;
* `inserted_of_looks`: an ordinary Job was let through by such a look;
* `interception_complete`: **the looks are complete exactly if no file is crowded with void
  episodes**, and `VOID_SQL` is `_void`;
* `live_episode_hidden`: eight cancelled uploads hide the ninth.
-/

namespace Frostvault

open Runs Checks

/-! ### Runs of the ledger -/

/-- What may happen: discovery, admission by the sweep, by a retry or by an upload, a status
change, the steps of a worker around a send, and anything that is not the ledger's. -/
inductive LedgerAct
  | enroll (job : JobId) (stamp : Stamp)
  | drain (v : VaultId) (stamp : Stamp) (limit : ℕ) (file : Option FileId)
  | admission (id : RemediationId) (stamp : Stamp) (automatic explicit : Bool) (group : GroupId)
  | upload (q : QueueRequest) (mode : Option VerificationMode)
  | claim (job : JobId) (token : ℕ)
  | setJob (claim : Option ℕ) (job : JobId) (status : JobStatus) (stamp : Stamp)
      (suspension : Option BlockReason)
  | cancel (job : JobId) (stamp : Stamp)
  | metadataRestore (stamp : Stamp)
  | send (job : WorkerJob) (p : Prepared) (stamp : Stamp)
  | rearm (job : WorkerJob) (key : ObjectKey) (intent : IntentId) (stamp : Stamp)
  | recordCleanup (job inventory : JobId)
  | observe (file : FileId) (copy : LocalCopy)
  | elsewhere (world : Ledger)

namespace Ledger

/-- The Job is claimed by a worker. -/
def claimJob (L : Ledger) (job : JobId) (token : ℕ) : Ledger :=
  L.withJournal (L.db.updateJob job
    (fun j => if j.status.terminal then j else { j with claimToken := some token })
    fun j => by split <;> rfl)

/-- A scan finds other content at the path of the file. -/
def observeCopy (L : Ledger) (file : FileId) (copy : LocalCopy) : Ledger :=
  L.withJournal { L.db with
    cat := L.db.cat.mapLocalCopies fun f => if f.id = file then some copy else f.localCopy }

/-- The sweep takes a failed original out of its inbox. -/
def sweepOriginal (names : KeyNames) (L : Ledger) (job : JobId) (stamp : Stamp) :
    LedgerOutcome Ledger :=
  match L.db.cat.job? job with
  | none => .ok L
  | some j =>
      match L.db.vaults j.vaultId with
      | none => .ok L
      | some vault => do
          let (L, _) ← enroll names L (some j) j.vaultId vault stamp none none
          pure { L with
            discovery := L.discovery.filter fun q => q.jobId ≠ job || q.rejectedReason.isSome }

end Ledger

open Ledger

/-- One action; one that raises is undone. -/
def ledgerStep (names : KeyNames) (L : Ledger) : LedgerAct → Option Ledger
  | .enroll job stamp => (L.sweepOriginal names job stamp).toOption
  | .drain v stamp limit file => do
      let vault ← L.db.vaults v
      (L.drain names v vault stamp limit file).toOption
  | .admission id stamp automatic explicit group => do
      let e ← L.episode? id
      let vault ← L.db.vaults e.vaultId
      let r ← (L.admitEpisode id e.vaultId vault stamp automatic explicit group).toOption
      some r.1
  | .upload q mode => do
      let vault ← L.db.vaults q.vaultId
      let r ← (queueUploads names mode vault L q).toOption
      some r.1
  | .claim job token => some (L.claimJob job token)
  | .setJob claim job status stamp suspension =>
      (L.setJob claim job status stamp suspension).toOption
  | .cancel job stamp => (L.cancelUpload job stamp).toOption
  | .metadataRestore stamp => some (L.metadataRestore stamp)
  | .send job p stamp => (do
      let (L, intent) ← L.prepareSend job p stamp
      L.startSend job intent stamp : LedgerOutcome Ledger).toOption
  | .rearm job key intent stamp => do
      let i ← L.db.intent? intent
      (L.rearm job key i stamp).toOption
  | .recordCleanup job inventory => some (L.recordCleanup job inventory)
  | .observe file copy => some (L.observeCopy file copy)
  -- whatever happens elsewhere, the ledger's rows are its own
  | .elsewhere world => if world.episodes = L.episodes then some world else none

/-! ### What an upload looks at -/

namespace Ledger

variable {names : KeyNames} {vault : VaultRow} {q : QueueRequest} {L L' : Ledger}

/-- The ledger a candidate is looked up in, with its file. -/
def lookAt (names : KeyNames) (vault : VaultRow) (q : QueueRequest) (acc : Found)
    (r : QueueRow) : Option (FileId × Ledger) :=
  if localCopyIsUploadEligible (r.visible acc.ledger.db.cat.jobs) then
    (acc.ledger.discoverFile names q.vaultId vault r.file.id q.requestedAt).toOption.map
      fun L => (r.file.id, L)
  else none

/-- The ledgers the candidates are looked up in, one after the other. -/
def looksAt (names : KeyNames) (vault : VaultRow) (q : QueueRequest) (acc : Found) :
    List QueueRow → List (FileId × Ledger)
  | [] => []
  | r :: rs => (lookAt names vault q acc r).toList ++
      match considerUpload names vault q acc r with
      | .ok acc' => looksAt names vault q acc' rs
      | .error _ => []

/-- A look finds nothing only if every episode of the file that is not resolved is void. -/
def Complete (L : Ledger) (file : FileId) : Prop :=
  L.intercepting file = none →
    ∀ e ∈ L.episodes, e.vaultFileId = file → e.state ≠ .resolved → L.void e = true

/-- Eight void episodes of the file are older than its oldest live one. -/
def Crowded (L : Ledger) (file : FileId) : Prop :=
  Lookahead.Crowded L.void interceptLimit (L.unresolved file)

instance (L : Ledger) (file : FileId) : Decidable (L.Crowded file) := by
  unfold Crowded
  infer_instance

lemma complete_iff_not_crowded {file : FileId} : L.Complete file ↔ ¬L.Crowded file := by
  rw [Crowded, ← Lookahead.look_complete_iff]
  simp only [Complete, intercepting, mem_unresolved, and_imp]

end Ledger

/-- The looks of an action. -/
def LedgerAct.looks (names : KeyNames) (L : Ledger) : LedgerAct → List (FileId × Ledger)
  | .upload q _ =>
      match L.db.vaults q.vaultId with
      | some vault => looksAt names vault q ⟨L, [], []⟩ (L.db.cat.files.filterMap (q.row L.db.cat))
      | none => []
  | _ => []

/-! ### Ordinary Jobs were let through -/

section Inserted

variable {names : KeyNames} {vault : VaultRow} {q : QueueRequest} {L L' : Ledger}
  {mode : Option VerificationMode}

lemma considerUpload_spec {acc acc' : Found} {r : QueueRow}
    (h : considerUpload names vault q acc r = .ok acc') :
    (∀ j ∈ acc'.ledger.db.cat.jobs, j ∈ acc.ledger.db.cat.jobs ∨ j.uploadReconcileOnly) ∧
      (acc'.rows = acc.rows ∨ acc'.rows = acc.rows ++ [r] ∧
        ∃ L₁, lookAt names vault q acc r = some (r.file.id, L₁) ∧
          L₁.intercepting r.file.id = none) := by
  unfold considerUpload at h
  unfold lookAt
  split at h
  swap
  · rw [← pure_eq_ok_iff.mp h]
    exact ⟨fun j hj => .inl hj, .inl rfl⟩
  rename_i heligible
  rw [if_pos heligible]
  obtain ⟨⟨L₂, handled, job⟩, hintercept, h⟩ := bind_eq_ok_iff.mp h
  obtain ⟨L₁, hL₁, hintercept⟩ := bind_eq_ok_iff.mp hintercept
  have hcat := (sameTables_discoverFile hL₁).cat
  cases hlook : L₁.intercepting r.file.id with
  | none =>
      simp only [hlook] at hintercept
      obtain ⟨rfl, rfl, rfl⟩ : L₁ = L₂ ∧ false = handled ∧ none = job := by
        simpa using pure_eq_ok_iff.mp hintercept
      rw [← pure_eq_ok_iff.mp h]
      refine ⟨fun j hj => .inl (hcat ▸ hj), .inr ⟨rfl, L₁, ?_, hlook⟩⟩
      rw [hL₁]
      rfl
  | some e =>
      simp only [hlook] at hintercept
      obtain ⟨⟨L₃, job'⟩, hadmission, hintercept⟩ := bind_eq_ok_iff.mp hintercept
      obtain ⟨rfl, rfl, rfl⟩ : L₃ = L₂ ∧ true = handled ∧ job' = job := by
        simpa using pure_eq_ok_iff.mp hintercept
      rw [← pure_eq_ok_iff.mp h]
      refine ⟨fun j hj => ?_, .inl rfl⟩
      obtain ⟨-, hcat'⟩ | ⟨e', -, -, -, hcat'⟩ := cat_admitEpisode hadmission
      · exact .inl (hcat ▸ hcat' ▸ hj)
      · change j ∈ L₃.db.cat.jobs at hj
        rw [hcat'] at hj
        obtain hj | hj := List.mem_append.mp hj
        · exact .inl (hcat ▸ hj)
        · rw [List.mem_singleton.mp hj]
          exact .inr rfl

lemma foldlM_considerUpload_spec {rs : List QueueRow} {acc acc' : Found}
    (h : rs.foldlM (considerUpload names vault q) acc = .ok acc') :
    (∀ j ∈ acc'.ledger.db.cat.jobs, j ∈ acc.ledger.db.cat.jobs ∨ j.uploadReconcileOnly) ∧
      ∀ r ∈ acc'.rows, r ∈ acc.rows ∨
        ∃ L₁, (r.file.id, L₁) ∈ looksAt names vault q acc rs ∧
          L₁.intercepting r.file.id = none := by
  induction rs generalizing acc with
  | nil =>
      rw [← pure_eq_ok_iff.mp h]
      exact ⟨fun j hj => .inl hj, fun r hr => .inl hr⟩
  | cons r rs ih =>
      rw [List.foldlM_cons] at h
      obtain ⟨acc₁, hacc₁, h⟩ := bind_eq_ok_iff.mp h
      obtain ⟨hjobs₁, hrows₁⟩ := considerUpload_spec hacc₁
      obtain ⟨hjobs, hrows⟩ := ih h
      have hlooks : looksAt names vault q acc (r :: rs) =
          (lookAt names vault q acc r).toList ++ looksAt names vault q acc₁ rs := by
        rw [looksAt, hacc₁]
      refine ⟨fun j hj => (hjobs j hj).elim (hjobs₁ j) .inr, fun r' hr' => ?_⟩
      rw [hlooks]
      obtain hr' | ⟨L₁, hL₁, hnone⟩ := hrows r' hr'
      · obtain heq | ⟨heq, L₁, hL₁, hnone⟩ := hrows₁
        · exact .inl (heq ▸ hr')
        · rw [heq] at hr'
          obtain hr' | hr' := List.mem_append.mp hr'
          · exact .inl hr'
          · obtain rfl := List.mem_singleton.mp hr'
            exact .inr ⟨L₁, List.mem_append_left _ (by rw [hL₁]; exact List.mem_singleton_self _),
              hnone⟩
      · exact .inr ⟨L₁, List.mem_append_right _ hL₁, hnone⟩

lemma foldl_insertUpload_spec {rows : List QueueRow} {acc : Ledger × List JobId} :
    ∀ j ∈ (rows.foldl (insertUpload q mode) acc).1.db.cat.jobs,
      j ∈ acc.1.db.cat.jobs ∨ ∃ r ∈ rows, j.vaultFileId = r.file.id := by
  induction rows generalizing acc with
  | nil => exact fun j hj => .inl hj
  | cons r rows ih =>
      intro j hj
      rw [List.foldl_cons] at hj
      obtain hj | ⟨r', hr', hfile⟩ := ih j hj
      · unfold insertUpload insertOpenJob at hj
        by_cases hpending : hasPendingJob acc.1.db.cat r.file.id
        · rw [if_pos hpending] at hj
          exact .inl hj
        · rw [if_neg hpending] at hj
          obtain hj | hj := List.mem_append.mp hj
          · exact .inl hj
          · rw [List.mem_singleton.mp hj]
            exact .inr ⟨r, List.mem_cons_self, rfl⟩
      · exact .inr ⟨r', List.mem_cons_of_mem _ hr', hfile⟩

/-- **An ordinary Job was let through**: its file was looked up, and no live episode was seen. -/
lemma inserted_of_looks (h : ledgerStep names L (.upload q mode) = some L') {j : Job}
    (hj : j ∈ L'.db.cat.jobs) (hnew : j ∉ L.db.cat.jobs)
    (hordinary : j.uploadReconcileOnly = false) :
    ∃ L₁, (j.vaultFileId, L₁) ∈ (LedgerAct.upload q mode).looks names L ∧
      L₁.intercepting j.vaultFileId = none := by
  simp only [ledgerStep] at h
  cases hvault : L.db.vaults q.vaultId with
  | none => simp [hvault] at h
  | some vault =>
      have h : ((queueUploads names mode vault L q).toOption.bind fun r => some r.1) = some L' := by
        rw [hvault] at h
        exact h
      obtain ⟨r, hr, h⟩ := Option.bind_eq_some_iff.mp h
      cases h
      rw [toOption_eq_some_iff] at hr
      obtain ⟨-, hr⟩ := require_bind_eq_ok_iff.mp hr
      obtain ⟨found, hfound, hr⟩ := bind_eq_ok_iff.mp hr
      rw [← pure_eq_ok_iff.mp hr] at hj
      obtain ⟨hjobs, hrows⟩ := foldlM_considerUpload_spec hfound
      simp only [LedgerAct.looks, hvault]
      obtain hj | ⟨row, hrow, hfile⟩ := foldl_insertUpload_spec j hj
      · obtain hj | hreconcile := hjobs j hj
        · exact absurd hj hnew
        · rw [hordinary] at hreconcile
          cases hreconcile
      · rw [hfile]
        obtain hrow | hlook := hrows row hrow
        · cases hrow
        · exact hlook

end Inserted

/-! ### The claims of `intercept_upload` -/

/-- No file an upload looks up is crowded. -/
def LedgerAct.Uncrowded (names : KeyNames) (L : Ledger) (a : LedgerAct) : Prop :=
  ∀ w ∈ a.looks names L, ¬w.2.Crowded w.1

/-- **Interception.**  `VOID_SQL` selects the episodes that are void.  In every run of the ledger,
the looks of the uploads are complete exactly if no file they look up is crowded; and then an
ordinary Job is only inserted beside void episodes. -/
theorem interception_complete (names : KeyNames) :
    (∀ (L : Ledger) (e : Episode), L.voidSql e = L.void e) ∧
    ∀ (s : Ledger) (acts : List LedgerAct) (t : Ledger),
      run (ledgerStep names) s acts = some t →
      (Along (ledgerStep names) (LedgerAct.Uncrowded names) s acts ↔
        ∀ bs a cs u, acts = bs ++ a :: cs → run (ledgerStep names) s bs = some u →
          ∀ w ∈ a.looks names u, w.2.Complete w.1) ∧
      (Along (ledgerStep names) (LedgerAct.Uncrowded names) s acts →
        ∀ bs q mode cs u u', acts = bs ++ .upload q mode :: cs →
          run (ledgerStep names) s bs = some u →
          ledgerStep names u (.upload q mode) = some u' →
          ∀ j ∈ u'.db.cat.jobs, j ∉ u.db.cat.jobs → j.uploadReconcileOnly = false →
            ∃ L₁, (j.vaultFileId, L₁) ∈ (LedgerAct.upload q mode).looks names u ∧
              ∀ e ∈ L₁.episodes, e.vaultFileId = j.vaultFileId → e.state ≠ .resolved →
                L₁.void e = true) := by
  refine ⟨fun L e => L.voidSql_eq e, fun s acts t hrun => ?_⟩
  have hsteps := along_iff_forall_step (G := LedgerAct.Uncrowded names) hrun
  refine ⟨?_, fun halong bs q mode cs u u' hsplit hu hstep j hj hnew hordinary => ?_⟩
  · rw [hsteps]
    simp only [LedgerAct.Uncrowded, complete_iff_not_crowded]
  · obtain ⟨L₁, hL₁, hnone⟩ := inserted_of_looks hstep hj hnew hordinary
    have huncrowded := hsteps.mp halong bs _ cs u hsplit hu (j.vaultFileId, L₁) hL₁
    exact ⟨L₁, hL₁, complete_iff_not_crowded.mpr huncrowded hnone⟩

/-! ### A history that crowds a file -/

/-- Keys of a bucket with one object. -/
def soleKey : KeyNames := ⟨fun _ _ => 0, fun _ _ => some ['a']⟩

/-- A Vault that is ready. -/
def readyVault : VaultRow := ⟨"", "", "", true, .active, .ready, false, none, none⟩

/-- A file that was never archived. -/
def unarchivedFile : VaultFile where
  id := 0
  vaultId := 0
  status := .active
  currentPath := some ['a']
  pathSince := 0
  pathHistory := []
  localCopy := some ⟨.present, .regular, some 1, none, some 1, none, none, none, 0, none, none⟩
  versions := []
  deleteMarkers := []

/-- A ledger without episodes, over a catalog with one file. -/
def freshLedger : Ledger where
  db :=
    { cat :=
        { files := [unarchivedFile]
          jobs := []
          items := []
          ids_nodup := by simp
          paths_unique := by simp
          versions_unique := by simp [unarchivedFile, VaultFile.versionKeys]
          jobIds_nodup := List.nodup_nil }
      vaults := fun _ => some readyVault
      remediations := []
      intents := []
      intentJobs := []
      receipts := []
      nextUuid := 0
      intentIds_nodup := List.nodup_nil
      tokens_nodup := List.nodup_nil
      uuids_lt := UploadIntent.nil_lt
      intentJobs_nodup := List.nodup_nil }
  episodes := []
  jobColumns := fun _ => ⟨0, none, none, 0⟩
  versionColumns := fun _ => ⟨none, none⟩
  blocks := []
  cleanups := []
  discovery := []
  facts := []
  sourceErrors := []
  autoUploads := fun _ _ => true
  sees := rfl
  ids_nodup := List.nodup_nil

/-- The Owner asks for an upload of the file. -/
def uploadRequest (at_ : Stamp) : QueueRequest where
  vaultId := 0
  path := ['a']
  action := .upload
  origin := .manual
  isDirectory := false
  wholeVault := false
  archiveVersionId := none
  targetStorageClass := none
  initialStatus := .queued
  pendingUntil := none
  requestedAt := at_
  groupId := 0

/-- A claimed upload Job of the file, as its worker holds it. -/
def claimedAttempt (id : JobId) (reconcileOnly : Bool) : WorkerJob where
  row :=
    { id := id
      vaultId := 0
      vaultFileId := 0
      path := ['a']
      action := .upload
      status := .queued
      origin := .manual
      groupId := some 0
      requestedAt := 0
      pendingUntil := none
      claimToken := some 0
      claimExpiresAt := none
      uploadReconcileOnly := reconcileOnly }
  token := 0
  sourceRoot := ""
  s3Bucket := ""
  s3Prefix := ""

/-- What the worker freezes before it sends. -/
def frozenSend : Prepared :=
  ⟨⟨0, 0, "", "", 0, "", ['a'], 0, "", none, none⟩, ⟨1, 1, "", "", 1, []⟩, .readBack, ⟨[], []⟩⟩

/-- An upload whose outcome is not known, and the sweep that finds it. -/
def lostUpload (k : ℕ) : List LedgerAct :=
  [.upload (uploadRequest k) none, .claim (2 * k + 1) 0,
    .send (claimedAttempt (2 * k + 1) false) frozenSend k,
    .setJob (some 0) (2 * k + 1) .failed k none, .enroll (2 * k + 1) k]

/-- Its episode is admitted, the absence is proven, and the Owner cancels before it sends. -/
def cancelledRearm (k : ℕ) : List LedgerAct :=
  [.admission (3 * k + 2) k true false 0, .claim (2 * k + 2) 0,
    .rearm (claimedAttempt (2 * k + 2) true) 0 (3 * k) k, .cancel (2 * k + 2) k]

/-- Eight uploads end so; the ninth one is lost and not yet reconciled. -/
def crowdingHistory : List LedgerAct :=
  ((List.range interceptLimit).flatMap fun k => lostUpload k ++ cancelledRearm k) ++
    lostUpload interceptLimit

/-- **A live episode is hidden** behind eight cancelled ones that are void: the file gets an
ordinary upload beside it. -/
theorem live_episode_hidden :
    ∃ u u', run (ledgerStep soleKey) freshLedger crowdingHistory = some u ∧
      ledgerStep soleKey u (.upload (uploadRequest 9) none) = some u' ∧
      (∃ e ∈ u'.episodes, e.vaultFileId = 0 ∧ e.state = .pending ∧ u'.void e = false) ∧
      ∃ j ∈ u'.db.cat.jobs, j ∉ u.db.cat.jobs ∧ j.vaultFileId = 0 ∧ j.status = .queued ∧
        j.uploadReconcileOnly = false := by
  have hcheck : ((run (ledgerStep soleKey) freshLedger crowdingHistory).any fun u =>
      (ledgerStep soleKey u (.upload (uploadRequest 9) none)).any fun u' =>
        (u'.episodes.any fun e => e.vaultFileId = 0 && e.state = .pending && !u'.void e) &&
        u'.db.cat.jobs.any fun j => !u.db.cat.jobs.contains j && j.vaultFileId = 0 &&
          j.status = .queued && !j.uploadReconcileOnly) = true := by
    decide +kernel
  obtain ⟨u, hu, hcheck⟩ := (Option.any_eq_true _ _).mp hcheck
  obtain ⟨u', hu', hcheck⟩ := (Option.any_eq_true _ _).mp hcheck
  refine ⟨u, u', hu, hu', ?_⟩
  simpa [and_assoc] using hcheck

/-- The first upload of a file, which is lost: its looks are complete. -/
theorem interception_complete_lostUpload :
    ∃ t, run (ledgerStep soleKey) freshLedger (lostUpload 0) = some t ∧
      (Along (ledgerStep soleKey) (LedgerAct.Uncrowded soleKey) freshLedger (lostUpload 0) ↔
        ∀ bs a cs u, lostUpload 0 = bs ++ a :: cs →
          run (ledgerStep soleKey) freshLedger bs = some u →
          ∀ w ∈ a.looks soleKey u, w.2.Complete w.1) := by
  have hsome : (run (ledgerStep soleKey) freshLedger (lostUpload 0)).isSome = true := by
    decide +kernel
  obtain ⟨t, ht⟩ := Option.isSome_iff_exists.mp hsome
  exact ⟨t, ht, ((interception_complete soleKey).2 freshLedger (lostUpload 0) t ht).1⟩

end Frostvault
