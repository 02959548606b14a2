import Frostvault.Remediation.Admission

/-!
What discovery does to the rows of the ledger, read off the state before it (`discover_file` of
`app/services/upload_remediation.py`, `enroll` and `drain` of
`app/services/upload_remediation_discovery.py`).

An obligation rests on tables discovery does not write, so the findings are known beforehand.
They are settled over the rows, one after the other.

* `findings`: what there is to enroll for a file;
* `Finding.settle`: what an obligation does to the rows;
* `rows_discoverFile`: **discovery settles the findings of the state before it.**
-/

namespace Frostvault

open Checks

/-- The rows of a ledger, and the id of the next one. -/
structure LedgerRows where
  episodes : List Episode
  next : RemediationId

namespace Ledger

/-- An obligation that is to be enrolled, with its original and its evidence. -/
structure Finding where
  original : Option Job
  evidence : Evidence
  obligation : Obligation

/-- The rows of the ledger. -/
def rows (L : Ledger) : LedgerRows := ⟨L.episodes, L.db.nextUuid⟩

/-- The finding of an original or of a fact, unless it is rejected or needless. -/
def finding? (names : KeyNames) (L : Ledger) (v : VaultId) (vault : VaultRow)
    (original : Option Job) (intentId : Option IntentId) (versionId : Option RowId) :
    Option Finding :=
  match L.evidence original v intentId versionId with
  | .error _ => none
  | .ok ev =>
      if L.needless original ev then none
      else some ⟨original, ev, obligation names L original v vault ev⟩

/-- **The findings of a file**: its failed originals, then its facts that are due, a block of the
file counted among them. -/
def findings (names : KeyNames) (L : Ledger) (v : VaultId) (vault : VaultRow) (file : FileId)
    (stamp : Stamp) : List Finding :=
  let captured := if (L.block? file).isSome then L.captureFile stamp file else L
  (L.failedOriginals file).filterMap (fun j => L.finding? names v vault (some j) none none) ++
    (captured.dueFacts v stamp targetBatch (some file)).filterMap fun f =>
      L.finding? names v vault none f.intentId f.archiveVersionId

/-- The original is linked to a row. -/
def linkRows (original : Option Job) (o : Obligation) (id : RemediationId)
    (rows : List Episode) : List Episode :=
  match original with
  | none => rows
  | some j =>
      if o.reason = some .proofMismatch ∨ rows.any fun e => e.originals.contains j.id then rows
      else rows.map fun e => if e.id = id then { e with originals := e.originals ++ [j.id] } else e

/-- A row is blocked. -/
def blockRow (stamp : Stamp) (reason : EpisodeReason) (id : RemediationId)
    (rows : List Episode) : List Episode :=
  rows.map fun e => if e.id = id then blockEpisode stamp reason e else e

/-- **A finding is settled**: nothing to do for an original that has a row; else the row is
blocked, kept or added.  It fails when the added row breaks a unique index. -/
def Finding.settle (L : Ledger) (v : VaultId) (stamp : Stamp) (s : LedgerRows) (d : Finding) :
    Option LedgerRows :=
  if d.original.any fun j => s.episodes.any fun e => e.originals.contains j.id then some s
  else
    match L.settlement d.original d.evidence d.obligation s.episodes with
    | .mismatch e => some ⟨blockRow stamp (.remedy .proofMismatch) e.id s.episodes, s.next⟩
    | .block e r =>
        some ⟨linkRows d.original d.obligation e.id (blockRow stamp r e.id s.episodes), s.next⟩
    | .keep e => some ⟨linkRows d.original d.obligation e.id s.episodes, s.next⟩
    | .fresh =>
        let e := L.newEpisode d.original v stamp d.evidence d.obligation s.episodes s.next
        if ∀ e' ∈ s.episodes, ¬Clashes e e' then
          some ⟨linkRows d.original d.obligation e.id (s.episodes ++ [e]), s.next + 1⟩
        else none

variable {names : KeyNames} {L M : Ledger} {v : VaultId} {vault : VaultRow} {stamp : Stamp}
  {original : Option Job} {intentId : Option IntentId} {versionId : Option RowId} {ev : Evidence}
  {o : Obligation} {file : FileId}

/-! ### Obligations rest on tables discovery does not write -/

section

variable (h : SameTables L M)

include h

lemma SameTables.evidence :
    M.evidence original v intentId versionId = L.evidence original v intentId versionId := by
  have hversion : M.versionIn? v = L.versionIn? v := by
    funext id
    rw [versionIn?, versionIn?, h.cat]
  have hsend : M.sendOf original = L.sendOf original := by
    funext f w
    rw [sendOf, sendOf, h.intents]
  have hfile : M.fileIn? v = L.fileIn? v := by
    funext id
    rw [fileIn?, fileIn?, h.cat]
  have hintent : M.db.intent? = L.db.intent? := by
    funext id
    rw [UploadDb.intent?, UploadDb.intent?, h.intents]
  have hstart : M.startingPoint original v intentId versionId =
      L.startingPoint original v intentId versionId := by
    unfold startingPoint loadForJob
    rw [hintent, h.intentJobs]
  unfold Ledger.evidence
  rw [hstart, hversion, hsend, hfile]

lemma SameTables.block : M.block? file = L.block? file := by
  rw [block?, block?, h.blocks]

lemma SameTables.needless :
    M.needless original ev = L.needless original ev := by
  rw [Ledger.needless, Ledger.needless, h.block]

lemma SameTables.obligation :
    obligation names M original v vault ev = obligation names L original v vault ev := by
  have hfrozen : M.frozenSnapshot original ev = L.frozenSnapshot original ev := by
    rw [frozenSnapshot, frozenSnapshot, h.versionColumns]
  have hmode : M.frozenMode original ev = L.frozenMode original ev := by
    rw [frozenMode, frozenMode, h.versionColumns]
  have hexpect : M.expectation original ev = L.expectation original ev := by
    unfold expectation firstProof
    rw [hfrozen, hmode, h.cat]
  have hproof : M.proofReason original ev = L.proofReason original ev := by
    rw [proofReason, proofReason, hexpect, hfrozen]
  have hreason : blockedFor names M original v vault ev =
      blockedFor names L original v vault ev := by
    rw [blockedFor, blockedFor, hproof]
  have hcancelled : M.cancelledTarget ev = L.cancelledTarget ev := by
    rw [cancelledTarget, cancelledTarget, h.cat, h.intentJobs]
  have hsize : M.frozenSize original ev = L.frozenSize original ev := by
    unfold frozenSize
    rw [hfrozen, h.jobColumns]
  rw [Ledger.obligation, Ledger.obligation, hexpect, hfrozen, hsize, hreason, hcancelled,
    h.jobColumns]

lemma SameTables.settlement (rows : List Episode) :
    M.settlement original ev o rows = L.settlement original ev o rows := by
  have hcovers : (fun e => decide (M.Covers original ev o e)) =
      fun e => decide (L.Covers original ev o e) := by
    funext e
    rw [decide_eq_decide, Covers, Covers, h.block, h.jobColumns]
  rw [Ledger.settlement, Ledger.settlement, hcovers]

lemma SameTables.newEpisode (rows : List Episode) (id : RemediationId) :
    M.newEpisode original v stamp ev o rows id = L.newEpisode original v stamp ev o rows id := by
  unfold Ledger.newEpisode
  rw [h.block]

end

/-! ### Discovery settles the findings -/

lemma rows_reject (reason : BlockReason) :
    (L.reject original stamp reason).rows = L.rows := by
  unfold reject
  cases original with
  | none => rfl
  | some j =>
      dsimp only
      split <;> rfl

lemma rows_linkOriginal (id : RemediationId) : (L.linkOriginal original stamp o id).rows =
    ⟨linkRows original o id L.episodes, L.db.nextUuid⟩ := by
  unfold linkOriginal linkRows
  cases original with
  | none => rfl
  | some j =>
      by_cases hproof : o.reason = some .proofMismatch
      · simp only [hproof, if_true, true_or]
        exact rows_reject _
      · simp only [hproof, if_false, false_or]
        split <;> rfl

/-- An obligation is settled, unless its original has a row. -/
lemma rows_enrollObligation (h : SameTables L M)
    (hlinked : (original.any fun j => M.episodes.any fun e => e.originals.contains j.id) = false) :
    (M.enrollObligation original v stamp ev o).toOption.map (fun r => r.1.rows) =
      Finding.settle L v stamp M.rows ⟨original, ev, o⟩ := by
  unfold enrollObligation
  simp only [Finding.settle, Ledger.rows, hlinked, Bool.false_eq_true, if_false, h.settlement]
  cases L.settlement original ev o M.episodes with
  | mismatch e => exact congrArg some (rows_reject _)
  | block e r => exact congrArg some (rows_linkOriginal _)
  | keep e => exact congrArg some (rows_linkOriginal _)
  | fresh =>
      have hnew : M.newEpisode original v stamp ev o M.episodes =
          L.newEpisode original v stamp ev o M.episodes := funext (h.newEpisode M.episodes)
      dsimp only
      rw [hnew]
      unfold insertEpisode
      by_cases hclash : ∀ e' ∈ M.episodes,
          ¬Clashes (L.newEpisode original v stamp ev o M.episodes M.db.nextUuid) e'
      · refine Eq.trans ?_ (if_pos hclash).symm
        dsimp only
        rw [dif_pos hclash]
        exact congrArg some (rows_linkOriginal _)
      · refine Eq.trans ?_ (if_neg hclash).symm
        dsimp only
        rw [dif_neg hclash]
        rfl

/-- **`enroll` settles its finding.** -/
lemma rows_enroll (h : SameTables L M)
    (hfailed : original.any (fun j => j.uploadReconcileOnly || j.status ≠ .failed) = false) :
    (enroll names M original v vault stamp intentId versionId).toOption.map (fun r => r.1.rows) =
      (L.finding? names v vault original intentId versionId).elim (some M.rows)
        (Finding.settle L v stamp M.rows) := by
  unfold enroll finding?
  rw [if_neg (Bool.eq_false_iff.mp hfailed), h.evidence]
  cases hlinked : original.bind fun j => M.episodes.find? fun e => e.originals.contains j.id with
  | some e =>
      have hany : (original.any fun j =>
          M.episodes.any fun e => e.originals.contains j.id) := by
        obtain ⟨j, rfl, hfind⟩ := Option.bind_eq_some_iff.mp hlinked
        have hcontains := List.find?_some hfind
        exact List.any_eq_true.mpr ⟨e, List.mem_of_find?_eq_some hfind, hcontains⟩
      cases L.evidence original v intentId versionId with
      | error r => rfl
      | ok ev =>
          dsimp only
          split
          · rfl
          · exact (if_pos hany).symm
  | none =>
      have hany : (original.any fun j =>
          M.episodes.any fun e => e.originals.contains j.id) = false := by
        cases original with
        | none => rfl
        | some j => exact List.any_eq_false.mpr (List.find?_eq_none.mp hlinked)
      cases L.evidence original v intentId versionId with
      | error r => exact congrArg some (rows_reject r)
      | ok ev =>
          simp only [h.needless, h.obligation]
          split
          · rfl
          · exact rows_enrollObligation h hany

/-- A loop whose rounds settle findings settles them in order. -/
lemma rows_foldlM {α : Type} {step : Ledger → α → LedgerOutcome Ledger} {found : α → Option Finding}
    {as : List α} (hsame : ∀ M a M', step M a = .ok M' → SameTables M M')
    (hstep : ∀ M, SameTables L M → ∀ a ∈ as, (step M a).toOption.map rows =
      (found a).elim (some M.rows) (Finding.settle L v stamp M.rows)) (h : SameTables L M) :
    (as.foldlM step M).toOption.map rows =
      (as.filterMap found).foldlM (Finding.settle L v stamp) M.rows := by
  induction as generalizing M with
  | nil => rfl
  | cons a as ih =>
      have hfirst := hstep M h a List.mem_cons_self
      rw [List.foldlM_cons, List.filterMap_cons]
      cases hM : step M a with
      | error e =>
          rw [hM] at hfirst
          cases hfound : found a with
          | none =>
              rw [hfound] at hfirst
              cases hfirst
          | some d =>
              rw [hfound] at hfirst
              rw [List.foldlM_cons, ← show none = Finding.settle L v stamp M.rows d from hfirst]
              rfl
      | ok M' =>
          have hrest := ih (fun M hM a ha => hstep M hM a (List.mem_cons_of_mem _ ha))
            (h.trans (hsame M a M' hM))
          rw [hM] at hfirst
          refine hrest.trans ?_
          cases hfound : found a with
          | none =>
              rw [hfound] at hfirst
              rw [show M'.rows = M.rows from Option.some.inj hfirst]
          | some d =>
              rw [hfound] at hfirst
              rw [List.foldlM_cons,
                ← show some M'.rows = Finding.settle L v stamp M.rows d from hfirst]
              rfl

lemma facts_reject (reason : BlockReason) : (L.reject original stamp reason).facts = L.facts := by
  unfold reject
  cases original with
  | none => rfl
  | some j =>
      dsimp only
      split <;> rfl

lemma facts_linkOriginal (id : RemediationId) :
    (L.linkOriginal original stamp o id).facts = L.facts := by
  unfold linkOriginal
  cases original with
  | none => rfl
  | some j =>
      dsimp only
      split
      · exact facts_reject _
      · split <;> rfl

lemma facts_insertEpisode {row : RemediationId → Episode} {r : Ledger × Episode}
    (h : L.insertEpisode row = .ok r) : r.1.facts = L.facts := by
  unfold insertEpisode at h
  dsimp only at h
  split at h
  · rw [← Except.ok.inj h]
  · cases h

/-- `enroll` leaves the facts alone. -/
lemma facts_enroll {r : Ledger × Option RemediationId}
    (h : enroll names M original v vault stamp intentId versionId = .ok r) :
    r.1.facts = M.facts := by
  unfold enroll enrollObligation at h
  repeat' split at h
  all_goals first
    | rw [← Except.ok.inj h]
    | obtain ⟨a, ha, hr⟩ := bind_eq_ok_iff.mp h
      rw [← pure_eq_ok_iff.mp hr]
      exact (facts_linkOriginal _).trans (facts_insertEpisode ha)
  · exact facts_reject _
  · exact facts_reject _
  · exact facts_linkOriginal _
  · exact facts_linkOriginal _

/-- A capture adds facts of tables discovery does not write. -/
lemma facts_captureFile (h : SameTables L M) (hfacts : M.facts = L.facts) :
    (M.captureFile stamp file).facts = (L.captureFile stamp file).facts := by
  have hof (f : VaultFile) (w : ArchiveVersion) : M.factsOf stamp f w = L.factsOf stamp f w := by
    rw [factsOf, factsOf, h.intents]
  simp only [captureFile, capturedFacts, h.cat, hfacts, hof]

lemma rows_originals (h : SameTables L M) :
    ((L.failedOriginals file).foldlM (enrollOriginal names v vault stamp) M).toOption.map rows =
      ((L.failedOriginals file).filterMap fun j =>
        L.finding? names v vault (some j) none none).foldlM (Finding.settle L v stamp) M.rows := by
  refine rows_foldlM (fun M j M' => sameTables_enrollOriginal) (fun M hM j hj => ?_) h
  have hfailed : (some j).any (fun j => j.uploadReconcileOnly || j.status ≠ .failed) = false := by
    have hj := List.mem_of_mem_take hj
    rw [List.mem_insertionSort, List.mem_filter] at hj
    simp only [Bool.and_eq_true, decide_eq_true_eq, Bool.not_eq_true'] at hj
    simp [hj.2]
  rw [← rows_enroll hM hfailed, enrollOriginal]
  cases enroll names M (some j) v vault stamp none none <;> rfl

lemma rows_facts (h : SameTables L M) (hidle : hasPendingJob L.db.cat file = false)
    {fs : List RemediationFact} (hfs : ∀ f ∈ fs, f.vaultFileId = file) :
    (fs.foldlM (drainFact names v vault stamp) M).toOption.map rows =
      (fs.filterMap fun f => L.finding? names v vault none f.intentId f.archiveVersionId).foldlM
        (Finding.settle L v stamp) M.rows := by
  refine rows_foldlM (fun M f M' => sameTables_drainFact) (fun M hM f hf => ?_) h
  have hpending : ¬hasPendingJob M.db.cat f.vaultFileId := by
    rw [hM.cat, hfs f hf, hidle]
    exact Bool.false_ne_true
  rw [← rows_enroll hM rfl, drainFact, if_neg hpending]
  cases enroll names M none v vault stamp f.intentId f.archiveVersionId <;> rfl

/-- **Discovery settles the findings of the state before it.** -/
lemma rows_discoverFile (hidle : hasPendingJob L.db.cat file = false) :
    (L.discoverFile names v vault file stamp).toOption.map rows =
      (L.findings names v vault file stamp).foldlM (Finding.settle L v stamp) L.rows := by
  unfold discoverFile findings
  rw [List.foldlM_append, ← rows_originals (.refl L)]
  cases hL₁ : (L.failedOriginals file).foldlM (enrollOriginal names v vault stamp) L with
  | error e => rfl
  | ok L₁ =>
      have hsame : SameTables L L₁ :=
        foldlM_related .refl .trans (fun _ _ _ => sameTables_enrollOriginal) hL₁
      have hfacts : L₁.facts = L.facts := by
        refine foldlM_related (R := fun L M => M.facts = L.facts) (fun _ => rfl)
          (fun h h' => h'.trans h) (fun L j L' h => ?_) hL₁
        obtain ⟨a, ha, hr⟩ := bind_eq_ok_iff.mp h
        rw [← pure_eq_ok_iff.mp hr]
        exact facts_enroll ha
      have hcapture : ∃ L₂,
          (if (L₁.block? file).isSome then L₁.captureFile stamp file else L₁) = L₂ ∧
          SameTables L L₂ ∧ L₂.rows = L₁.rows ∧
          L₂.facts = (if (L.block? file).isSome then L.captureFile stamp file else L).facts := by
        rw [hsame.block]
        split
        · exact ⟨_, rfl, hsame.trans (L₁.sameTables_captureFile stamp file), rfl,
            facts_captureFile hsame hfacts⟩
        · exact ⟨_, rfl, hsame, rfl, hfacts⟩
      obtain ⟨L₂, hL₂, hsame₂, hrows, hfacts₂⟩ := hcapture
      have hdue : L₂.dueFacts v stamp targetBatch (some file) =
          (if (L.block? file).isSome then L.captureFile stamp file else L).dueFacts v stamp
            targetBatch (some file) := by
        rw [dueFacts, dueFacts, hfacts₂]
      have hfile : ∀ f ∈ L₂.dueFacts v stamp targetBatch (some file), f.vaultFileId = file := by
        intro f hf
        have hf := List.mem_of_mem_take hf
        rw [List.mem_insertionSort, List.mem_filter] at hf
        simpa using (Bool.and_eq_true_iff.mp hf.2).2
      change ((if (L₁.block? file).isSome then L₁.captureFile stamp file else L₁).drain names v
        vault stamp targetBatch (some file)).toOption.map rows = _
      rw [hL₂, drain, rows_facts hsame₂ hidle hfile, hdue, hrows]
      rfl

end Ledger

end Frostvault
