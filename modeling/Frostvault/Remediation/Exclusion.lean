import Frostvault.Remediation.Findings
import Frostvault.Remediation.Interception

/-!
Uploads of a file with a history of cancellations (`queue_jobs` of `app/catalog.py`,
`intercept_upload` and `admit` of `app/services/upload_remediation.py`).

An upload of a file that is free for one gets a Job unless the oldest live episode of the file
keeps it back.  A cancelled send that is not settled keeps its episode live, and `admit` has no
Job for it.

* `Uploadable`: the file is free for an upload;
* `Resumable`: an episode that gets a reconcile-only Job;
* `UploadAdmitted`: the findings of the file settled, no live row of it is looked at, or one that
  is resumable;
* `upload_inserts_iff`: **an upload inserts a Job exactly if it is admitted in the state before**;
* `cancelled_upload_excluded`: a cancelled send keeps back the uploads of other content.
-/

namespace Frostvault

open List Checks Ledger

/-! ### Files that are free for an upload -/

/-- The row of the selection for a file at its path. -/
def uploadRow (q : QueueRequest) (f : VaultFile) (p : Path) : QueueRow := ⟨f, p, q.latest f⟩

/-- An active file of a Vault that is ready, with an eligible Local Copy, no Job that is not over
and no deletion that is pending.  `known` is a foreign key of the upload journal. -/
structure Uploadable (L : Ledger) (vault : VaultRow) (q : QueueRequest) (f : VaultFile)
    (p : Path) : Prop where
  mem : f ∈ L.db.cat.files
  inVault : f.vaultId = q.vaultId
  ready : vault.Ready
  healthy : q.vaultId ∉ L.sourceErrors
  active : f.status = .active
  atPath : f.currentPath = some p
  idle : hasPendingJob L.db.cat f.id = false
  noDeletion : ∀ i ∈ L.db.cat.items, i.vaultFileId = f.id → i.status ≠ .pending
  eligible : localCopyIsUploadEligible ((uploadRow q f p).visible L.db.cat.jobs) = true
  known : L.OriginalsKnown

/-- A request of `queue_jobs` for an upload of one path. -/
structure ForPath (q : QueueRequest) (p : Path) : Prop where
  action : q.action = .upload
  origin : q.origin = .manual ∨ q.origin = .automatic
  single : q.isDirectory = false ∧ q.wholeVault = false
  path : q.path = p

/-- The episode waits, no Job of it was cancelled, its target is where it was pinned, no other
send of the file is open, and its version can be reconciled. -/
structure Resumable (L : Ledger) (vault : VaultRow) (q : QueueRequest) (f : VaultFile)
    (e : Episode) : Prop where
  waits : e.state = .pending ∨ e.state = .suspended
  idle : L.attemptActive e = false
  originals : L.originalCancelled e = false
  sends : L.boundCancelled e = false
  root : e.SameRoot vault
  path : e.SamePath f
  only : L.otherSend e = false
  version : L.versionBlocked e = none
  policy : q.origin = .automatic →
    (e.target.map EpisodeTarget.path).any fun p => L.autoUploads q.vaultId p

instance (L : Ledger) (vault : VaultRow) (q : QueueRequest) (f : VaultFile) (e : Episode) :
    Decidable (Resumable L vault q f e) :=
  decidable_of_iff ((e.state = .pending ∨ e.state = .suspended) ∧ L.attemptActive e = false ∧
      L.originalCancelled e = false ∧ L.boundCancelled e = false ∧ e.SameRoot vault ∧
      e.SamePath f ∧ L.otherSend e = false ∧ L.versionBlocked e = none ∧
      (q.origin = .automatic →
        (e.target.map EpisodeTarget.path).any fun p => L.autoUploads q.vaultId p))
    ⟨fun ⟨h₁, h₂, h₃, h₄, h₅, h₆, h₇, h₈, h₉⟩ => ⟨h₁, h₂, h₃, h₄, h₅, h₆, h₇, h₈, h₉⟩,
      fun ⟨h₁, h₂, h₃, h₄, h₅, h₆, h₇, h₈, h₉⟩ => ⟨h₁, h₂, h₃, h₄, h₅, h₆, h₇, h₈, h₉⟩⟩

/-- The live row an upload of the file looks at. -/
def Ledger.liveRow (L : Ledger) (file : FileId) (s : LedgerRows) : Option Episode :=
  Lookahead.look L.void interceptLimit
    ((s.episodes.filter fun e => e.vaultFileId = file && e.state ≠ .resolved).insertionSort Older)

/-- **The upload is admitted**: the findings of the file are settled without breaking an index,
and then no live row is looked at, or one that is resumable. -/
def UploadAdmitted (names : KeyNames) (L : Ledger) (vault : VaultRow) (q : QueueRequest)
    (f : VaultFile) : Prop :=
  ∃ s, (L.findings names q.vaultId vault f.id q.requestedAt).foldlM
      (Finding.settle L q.vaultId q.requestedAt) L.rows = some s ∧
    ∀ e, L.liveRow f.id s = some e → Resumable L vault q f e

variable {names : KeyNames} {L L' : Ledger} {vault : VaultRow} {q : QueueRequest} {f : VaultFile}
  {p : Path} {mode : Option VerificationMode}

section

variable (h : Uploadable L vault q f p)

include h

lemma Uploadable.hold : f.hold = none := by
  have heligible := h.eligible
  simp only [localCopyIsUploadEligible, QueueRow.visible, uploadRow, rowAt, Bool.and_eq_true,
    Option.isNone_iff_eq_none] at heligible
  exact heligible.1.2

lemma Uploadable.row (hq : ForPath q p) :
    q.row L.db.cat f = some (uploadRow q f p) := by
  have hcovers : q.covers p := by simp [QueueRequest.covers, hq.single, hq.path]
  simp [QueueRequest.row, QueueRequest.pinned, h.atPath, h.inVault, h.active, h.idle, hcovers,
    hq.action, uploadRow, guard]

lemma Uploadable.row_ne (hq : ForPath q p) {g : VaultFile} (hg : g ∈ L.db.cat.files) (hne : g ≠ f) :
    q.row L.db.cat g = none := by
  unfold QueueRequest.row
  cases hpath : g.currentPath with
  | none => rfl
  | some p' =>
      have hfail : ¬(g.vaultId = q.vaultId ∧ g.status = .active ∧
          hasPendingJob L.db.cat g.id = false ∧ q.covers p') := by
        rintro ⟨hvault, -, -, hcovers⟩
        have hp' : p' = p := by simpa [QueueRequest.covers, hq.single, hq.path] using hcovers
        exact hne (L.db.cat.eq_of_path_eq hg h.mem (hvault.trans h.inVault.symm)
          (hpath.trans (congrArg some hp')) h.atPath)
      simp [guard, hfail]

lemma Uploadable.candidates (hq : ForPath q p) :
    L.db.cat.files.filterMap (q.row L.db.cat) = [uploadRow q f p] := by
  obtain ⟨pre, post, hsplit⟩ := append_of_mem h.mem
  have hnodup := L.db.cat.ids_nodup.of_map
  rw [hsplit, nodup_append, nodup_cons] at hnodup
  have hpre : pre.filterMap (q.row L.db.cat) = [] := by
    refine filterMap_eq_nil_iff.mpr fun g hg => h.row_ne hq ?_ ?_
    · rw [hsplit]
      exact mem_append_left _ hg
    · exact hnodup.2.2 g hg f mem_cons_self
  have hpost : post.filterMap (q.row L.db.cat) = [] := by
    refine filterMap_eq_nil_iff.mpr fun g hg => h.row_ne hq ?_ ?_
    · rw [hsplit]
      exact mem_append_right _ (mem_cons_of_mem _ hg)
    · rintro rfl
      exact hnodup.2.1.1 hg
  rw [hsplit, filterMap_append, filterMap_cons, h.row hq, hpre, hpost]
  rfl

lemma Uploadable.of_sameTables (hsame : SameTables L L') :
    Uploadable L' vault q f p := by
  have hfree := h
  obtain ⟨hmem, hvault, hready, hhealthy, hactive, hpath, hidle, hdeletion, heligible, hknown⟩ := h
  refine ⟨?_, hvault, hready, ?_, hactive, hpath, ?_, ?_, ?_, ?_⟩
  · rw [hsame.cat]
    exact hmem
  · rw [hsame.sourceErrors]
    exact hhealthy
  · rw [hsame.cat]
    exact hidle
  · rw [hsame.cat]
    exact hdeletion
  · rw [hsame.cat]
    exact heligible
  · intro i hi
    rw [hsame.intents] at hi
    rw [hsame.cat]
    exact hknown i hi

lemma Uploadable.fileIn? : L.fileIn? q.vaultId f.id = some f := by
  cases hfind : L.fileIn? q.vaultId f.id with
  | none =>
      have := find?_eq_none.mp hfind f h.mem
      simp [h.inVault] at this
  | some g =>
      have hg : g.id = f.id ∧ g.vaultId = q.vaultId := by simpa using find?_some hfind
      rw [L.db.cat.eq_of_id_eq (mem_of_find?_eq_some hfind) h.mem hg.1]

/-- **Admission of a file that is free**: the episode gets a Job exactly if it is resumable. -/
lemma Uploadable.admitted_iff {e : Episode} (he : L.intercepting f.id = some e) {stamp : Stamp}
    {group : GroupId} :
    (∃ L' job, L.admitEpisode e.id q.vaultId vault stamp (q.origin = .automatic) false group =
      .ok (L', some job)) ↔ Resumable L vault q f e := by
  have hfind := Lookahead.find?_of_look he
  obtain ⟨hmem, hfile, -⟩ := mem_unresolved.mp (mem_of_find?_eq_some hfind)
  have hvoid : L.void e = false := by simpa using find?_some hfind
  rw [admitEpisode_eq_some_iff h.known (L.episode?_of_mem hmem), suspension_eq_none_iff, hfile,
    h.fileIn?]
  constructor
  · rintro ⟨hopen, horiginal, ⟨-, hroot, ⟨g, hg, -, hpath, -⟩, honly, -, -, -, hpolicy⟩,
      hversion, hsends⟩
    cases hg
    simp only [admissible, hvoid, Bool.and_false, Bool.or_false, Bool.not_false, Bool.and_true,
      Bool.false_and, Bool.and_eq_true, Bool.or_eq_true, decide_eq_true_eq,
      Bool.not_eq_true'] at hopen
    exact ⟨hopen.1, hopen.2, horiginal, hsends, hroot, hpath, honly, hversion,
      fun hauto => hpolicy (by simpa using hauto)⟩
  · intro hr
    refine ⟨?_, hr.originals, ⟨h.ready, hr.root, ⟨f, rfl, by simp [h.atPath], hr.path, h.hold⟩,
      hr.only, h.idle, h.noDeletion, h.healthy, fun hauto => hr.policy (by simpa using hauto)⟩,
      hr.version, hr.sends⟩
    simp [admissible, hvoid, hr.waits, hr.idle]

end

/-- A Job of the file that was not there before. -/
def Inserted (L L' : Ledger) (file : FileId) : Prop :=
  ∃ j ∈ L'.db.cat.jobs, j ∉ L.db.cat.jobs ∧ j.vaultFileId = file

lemma freshJob_not_mem {cat : Catalog} {j : Job} (h : j.id = cat.freshJobId) : j ∉ cat.jobs := by
  intro hj
  have hlt : j.id < cat.freshJobId := Catalog.lt_fresh (mem_map_of_mem hj)
  exact absurd h (Nat.ne_of_lt hlt)

lemma inserted_insertUpload {L₁ : Ledger} (h : Uploadable L vault q f p)
    (hcat : L₁.db.cat = L.db.cat) (ids : List JobId) :
    Inserted L (insertUpload q mode (L₁, ids) (uploadRow q f p)).1 f.id := by
  have hpending : ¬hasPendingJob L₁.db.cat (uploadRow q f p).file.id := by
    rw [hcat]
    exact Bool.eq_false_iff.mp h.idle
  unfold insertUpload insertOpenJob
  rw [if_neg hpending]
  refine ⟨q.job mode (uploadRow q f p) L₁.db.cat.freshJobId, ?_, ?_, rfl⟩
  · exact mem_append_right _ (mem_singleton_self _)
  · rw [hcat]
    exact freshJob_not_mem rfl

/-- The upload of one candidate, in the order of `queue_jobs`: discovery, then the oldest live
episode, else the ordinary Job. -/
lemma queueUploads_eq (h : Uploadable L vault q f p) (hq : ForPath q p) :
    queueUploads names mode vault L q = (do
      let L₁ ← L.discoverFile names q.vaultId vault f.id q.requestedAt
      match L₁.intercepting f.id with
      | none => pure (insertUpload q mode (L₁, []) (uploadRow q f p))
      | some e => do
          let (L₂, job) ← L₁.admitEpisode e.id q.vaultId vault q.requestedAt
            (q.origin = .automatic) false q.groupId
          pure (L₂, job.toList)) := by
  have heligible : localCopyIsUploadEligible
      (QueueRow.visible L.db.cat.jobs ⟨f, p, q.latest f⟩) := h.eligible
  unfold queueUploads considerUpload
  rw [h.candidates hq]
  simp only [foldlM_cons, foldlM_nil, uploadRow, heligible, if_true, require, hq.origin,
    interceptUpload, nil_append]
  cases hL₁ : L.discoverFile names q.vaultId vault f.id q.requestedAt with
  | error err => rfl
  | ok L₁ =>
      cases hlook : L₁.intercepting f.id with
      | none => simp [bind, Except.bind, pure, Except.pure, hlook]
      | some e =>
          cases hadmit : L₁.admitEpisode e.id q.vaultId vault q.requestedAt
              (q.origin = .automatic) false q.groupId with
          | error err => simp [bind, Except.bind, hlook, hadmit]
          | ok r => simp [bind, Except.bind, pure, Except.pure, hlook, hadmit]

lemma not_inserted_of_cat {file : FileId} (h : L'.db.cat = L.db.cat) : ¬Inserted L L' file := by
  rintro ⟨j, hj, hnew, -⟩
  exact hnew (h ▸ hj)

/-- The oldest live episode gets a Job for the file exactly if it is resumable. -/
lemma admission_inserts_iff {L₁ : Ledger} (h : Uploadable L vault q f p) (hsame : SameTables L L₁)
    {e : Episode} (he : L₁.intercepting f.id = some e) {stamp : Stamp} {group : GroupId} :
    (∃ L₂ job, L₁.admitEpisode e.id q.vaultId vault stamp (q.origin = .automatic) false group =
      .ok (L₂, job) ∧ Inserted L L₂ f.id) ↔ Resumable L₁ vault q f e := by
  have hfree := h.of_sameTables hsame
  obtain ⟨hmem, hfile, -⟩ :=
    mem_unresolved.mp (mem_of_find?_eq_some (Lookahead.find?_of_look he))
  rw [← @Uploadable.admitted_iff L₁ vault q f p hfree e he stamp group]
  constructor
  · rintro ⟨L₂, job, hadmission, hinserted⟩
    obtain ⟨-, hcat⟩ | ⟨e', -, rfl, -⟩ := cat_admitEpisode hadmission
    · exact absurd hinserted (not_inserted_of_cat (hcat.trans hsame.cat))
    · exact ⟨L₂, _, hadmission⟩
  · rintro ⟨L₂, job, hadmission⟩
    refine ⟨L₂, some job, hadmission, ?_⟩
    obtain ⟨hnone, -⟩ | ⟨e', he', -, -, hcat⟩ := cat_admitEpisode hadmission
    · cases hnone
    · cases (L₁.episode?_of_mem hmem).symm.trans he'
      refine ⟨Ledger.reconcileJob e q.vaultId stamp (q.origin = .automatic) group
        L₁.db.cat.freshJobId, ?_, ?_, hfile⟩
      · rw [hcat]
        exact mem_append_right _ (mem_singleton_self _)
      · rw [← hsame.cat]
        exact freshJob_not_mem rfl

/-- A request for the file inserts a Job exactly if discovery returns, and in the ledger it leaves
no live episode of the file is found, or the oldest one found is resumable. -/
lemma inserts_iff_discovered (h : Uploadable L vault q f p) (hq : ForPath q p) :
    (∃ L' ids, queueUploads names mode vault L q = .ok (L', ids) ∧ Inserted L L' f.id) ↔
      ∃ L₁, L.discoverFile names q.vaultId vault f.id q.requestedAt = .ok L₁ ∧
        ∀ e, L₁.intercepting f.id = some e → Resumable L₁ vault q f e := by
  rw [queueUploads_eq h hq]
  cases hL₁ : L.discoverFile names q.vaultId vault f.id q.requestedAt with
  | error err => simp [bind, Except.bind]
  | ok L₁ =>
      have hsame := sameTables_discoverFile hL₁
      cases hlook : L₁.intercepting f.id with
      | none =>
          refine ⟨fun _ => ⟨L₁, rfl, fun e he => ?_⟩, fun _ => ?_⟩
          · rw [hlook] at he
            cases he
          · refine ⟨_, (insertUpload q mode (L₁, []) (uploadRow q f p)).2,
              bind_eq_ok_iff.mpr ⟨L₁, rfl, ?_⟩,
              @inserted_insertUpload L vault q f p mode L₁ h hsame.cat []⟩
            simp only [hlook]
            rfl
      | some e =>
          constructor
          · rintro ⟨L', ids, hqueue, hinserted⟩
            refine ⟨L₁, rfl, fun e' he' => ?_⟩
            cases hlook.symm.trans he'
            obtain ⟨_, hfirst, hqueue⟩ := bind_eq_ok_iff.mp hqueue
            cases hfirst
            simp only [hlook] at hqueue
            obtain ⟨⟨L₂, job⟩, hadmission, hreturn⟩ := bind_eq_ok_iff.mp hqueue
            cases pure_eq_ok_iff.mp hreturn
            exact (admission_inserts_iff h hsame hlook).mp ⟨L₂, job, hadmission, hinserted⟩
          · rintro ⟨L₁', hfirst, hresume⟩
            cases hfirst
            obtain ⟨L₂, job, hadmission, hinserted⟩ :=
              (admission_inserts_iff h hsame hlook).mpr (hresume e hlook)
            refine ⟨L₂, job.toList, bind_eq_ok_iff.mpr ⟨L₁, rfl, ?_⟩, hinserted⟩
            simp only [hlook]
            exact bind_eq_ok_iff.mpr ⟨_, hadmission, rfl⟩

lemma resumable_congr (h : SameTables L L') {e : Episode} :
    Resumable L' vault q f e ↔ Resumable L vault q f e := by
  have hactive : L'.attemptActive e = L.attemptActive e := by
    rw [attemptActive, attemptActive, h.cat]
  have horiginal : L'.originalCancelled e = L.originalCancelled e := by
    rw [originalCancelled, originalCancelled, h.cat]
  have hintent : L'.db.intent? = L.db.intent? := by
    funext id
    rw [UploadDb.intent?, UploadDb.intent?, h.intents]
  have hsend : L'.boundCancelled e = L.boundCancelled e := by
    have hone : L'.sendCancelled = L.sendCancelled := by
      funext i
      rw [sendCancelled, sendCancelled, h.cat, h.intentJobs]
    rw [boundCancelled, boundCancelled, hone, hintent]
  have hother : L'.otherSend e = L.otherSend e := by
    rw [otherSend, otherSend, hintent, h.intents]
  have hversion : L'.versionBlocked e = L.versionBlocked e := by
    rw [versionBlocked, versionBlocked, h.cat]
  constructor
  · rintro ⟨h₁, h₂, h₃, h₄, h₅, h₆, h₇, h₈, h₉⟩
    exact ⟨h₁, hactive ▸ h₂, horiginal ▸ h₃, hsend ▸ h₄, h₅, h₆, hother ▸ h₇, hversion ▸ h₈,
      h.autoUploads ▸ h₉⟩
  · rintro ⟨h₁, h₂, h₃, h₄, h₅, h₆, h₇, h₈, h₉⟩
    exact ⟨h₁, hactive ▸ h₂, horiginal ▸ h₃, hsend ▸ h₄, h₅, h₆, hother ▸ h₇, hversion ▸ h₈,
      h.autoUploads ▸ h₉⟩

/-- What is looked at depends on the rows only. -/
lemma intercepting_eq_liveRow (h : SameTables L L') (file : FileId) :
    L'.intercepting file = L.liveRow file L'.rows := by
  have hvoid : L'.void = L.void := by
    funext e
    rw [void, void, provenAbsent, provenAbsent, unsent, unsent, h.receipts, h.intents]
  rw [intercepting, liveRow, hvoid]
  rfl

/-- **Uploads of a file that is free.**  A request for the file inserts a Job exactly if it is
admitted in the state before it. -/
theorem upload_inserts_iff (names : KeyNames) (mode : Option VerificationMode)
    (h : Uploadable L vault q f p) (hq : ForPath q p) :
    (∃ L' ids, queueUploads names mode vault L q = .ok (L', ids) ∧ Inserted L L' f.id) ↔
      UploadAdmitted names L vault q f := by
  rw [inserts_iff_discovered h hq, UploadAdmitted, ← rows_discoverFile h.idle]
  constructor
  · rintro ⟨L₁, hL₁, hlook⟩
    have hsame := sameTables_discoverFile hL₁
    refine ⟨L₁.rows, by rw [hL₁]; rfl, fun e he => ?_⟩
    rw [← intercepting_eq_liveRow hsame] at he
    exact (resumable_congr hsame).mp (hlook e he)
  · rintro ⟨s, hs, hlook⟩
    obtain ⟨L₁, hL₁, rfl⟩ := Option.map_eq_some_iff.mp hs
    have hL₁ := toOption_eq_some_iff.mp hL₁
    have hsame := sameTables_discoverFile hL₁
    refine ⟨L₁, hL₁, fun e he => (resumable_congr hsame).mpr (hlook e ?_)⟩
    rwa [← intercepting_eq_liveRow hsame]

/-! ### A cancelled send -/

/-- The content of the file changed after the upload was cancelled. -/
def changedCopy : LocalCopy :=
  ⟨.present, .regular, some 2, none, some 2, none, none, none, 2, none, none⟩

/-- The Owner cancels an upload whose send has started; then the file changes. -/
def cancelledSend : List LedgerAct :=
  [.upload (uploadRequest 0) none, .claim 1 0, .send (claimedAttempt 1 false) frozenSend 0,
    .cancel 1 1, .observe 0 changedCopy]

/-- The file of the counterexample with its new content. -/
def changedFile : VaultFile := { unarchivedFile with localCopy := some changedCopy }

/-- The tables say that the file is free for the request. -/
def freeFor (L : Ledger) (q : QueueRequest) (f : VaultFile) (p : Path) : Bool :=
  L.db.cat.files.contains f && f.vaultId = q.vaultId && !L.sourceErrors.contains q.vaultId &&
    f.status = .active && f.currentPath = some p && !hasPendingJob L.db.cat f.id &&
    (L.db.cat.items.all fun i => i.vaultFileId ≠ f.id || i.status ≠ .pending) &&
    localCopyIsUploadEligible ((uploadRow q f p).visible L.db.cat.jobs) &&
    L.db.intents.all fun i => (L.db.cat.job? i.originalJobId).isSome

lemma uploadable_of_freeFor (h : freeFor L q f p) (hready : vault.Ready) :
    Uploadable L vault q f p := by
  simp only [freeFor, Bool.and_eq_true, Bool.not_eq_true', decide_eq_true_eq,
    contains_iff_mem, all_eq_true, Bool.or_eq_true] at h
  obtain ⟨⟨⟨⟨⟨⟨⟨⟨hmem, hvault⟩, hhealthy⟩, hactive⟩, hpath⟩, hidle⟩, hdeletion⟩, heligible⟩,
    hknown⟩ := h
  refine ⟨hmem, hvault, hready, by simpa using hhealthy, hactive, hpath, hidle, ?_, heligible,
    hknown⟩
  intro i hi hfile
  exact (hdeletion i hi).resolve_left fun hne => hne hfile

/-- **A cancelled send keeps its file back**: the file is free for an upload, its content is that
of no upload, and the upload inserts nothing. -/
theorem cancelled_upload_excluded :
    ∃ u u', Runs.run (ledgerStep soleKey) freshLedger cancelledSend = some u ∧
      Uploadable u readyVault (uploadRequest 2) changedFile ['a'] ∧
      (∀ i ∈ u.db.intents, some i.snapshot.plaintextSha256 ≠ changedCopy.plaintextSha256) ∧
      queueUploads soleKey none readyVault u (uploadRequest 2) = .ok (u', []) ∧
      ¬Inserted u u' changedFile.id ∧ ∀ j ∈ u'.db.cat.jobs, j.status = .cancelled := by
  have hcheck : ((Runs.run (ledgerStep soleKey) freshLedger cancelledSend).any fun u =>
      freeFor u (uploadRequest 2) changedFile ['a'] &&
      (u.db.intents.all fun i => some i.snapshot.plaintextSha256 ≠ changedCopy.plaintextSha256) &&
      (queueUploads soleKey none readyVault u (uploadRequest 2)).toOption.any fun r =>
        r.2 = [] && (r.1.db.cat.jobs.all fun j => u.db.cat.jobs.contains j) &&
        r.1.db.cat.jobs.all fun j => j.status = .cancelled) = true := by
    decide +kernel
  obtain ⟨u, hu, hcheck⟩ := (Option.any_eq_true _ _).mp hcheck
  simp only [Bool.and_eq_true, all_eq_true, decide_eq_true_eq] at hcheck
  obtain ⟨⟨hfree, hcontent⟩, hqueue⟩ := hcheck
  obtain ⟨⟨u', ids⟩, hu', hnothing⟩ := (Option.any_eq_true _ _).mp hqueue
  simp only [Bool.and_eq_true, all_eq_true, decide_eq_true_eq, contains_iff_mem]
    at hnothing
  obtain ⟨⟨rfl, hsame⟩, hcancelled⟩ := hnothing
  refine ⟨u, u', hu, uploadable_of_freeFor hfree (by decide), hcontent,
    toOption_eq_some_iff.mp hu', ?_, hcancelled⟩
  rintro ⟨j, hj, hnew, -⟩
  exact hnew (hsame j hj)

/-- An upload whose outcome is not known is resumed: the episode of the file waits, and the next
request inserts its reconcile-only Job. -/
theorem upload_inserts_resumed :
    ∃ u, Runs.run (ledgerStep soleKey) freshLedger (lostUpload 0) = some u ∧
      (u.episodes.map Episode.state = [.pending]) ∧
      ∃ L' ids, queueUploads soleKey none readyVault u (uploadRequest 1) = .ok (L', ids) ∧
        Inserted u L' unarchivedFile.id := by
  have hcheck : ((Runs.run (ledgerStep soleKey) freshLedger (lostUpload 0)).any fun u =>
      freeFor u (uploadRequest 1) unarchivedFile ['a'] &&
      u.episodes.map Episode.state = [.pending] &&
      ((u.findings soleKey 0 readyVault 0 1).foldlM (Finding.settle u 0 1) u.rows).any fun s =>
        (u.liveRow 0 s).all fun e =>
          Resumable u readyVault (uploadRequest 1) unarchivedFile e) = true := by
    decide +kernel
  obtain ⟨u, hu, hcheck⟩ := (Option.any_eq_true _ _).mp hcheck
  simp only [Bool.and_eq_true, decide_eq_true_eq] at hcheck
  obtain ⟨⟨hfree, hstate⟩, hsettled⟩ := hcheck
  obtain ⟨s, hs, hlook⟩ := (Option.any_eq_true _ _).mp hsettled
  refine ⟨u, hu, hstate, (upload_inserts_iff soleKey none
    (uploadable_of_freeFor hfree (by decide)) ⟨rfl, .inl rfl, ⟨rfl, rfl⟩, rfl⟩).mpr
    ⟨s, hs, fun e he => ?_⟩⟩
  simpa using (Option.all_eq_true _ _).mp hlook e he

end Frostvault
