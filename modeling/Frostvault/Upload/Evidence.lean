import Frostvault.Upload.Verification

/-!
What an attempt has seen by the time it marks a version verified or matches the Local Copy to it.

Almost every part of an attempt is quiet, so what has been seen is followed through the few that
are not.

* `Agreeing`: no HEAD of a verification contradicts the snapshot;
* `HashedAt`: all of a file was read between two equal stats;
* `Proven`, `Matched`: what stands behind a version marked verified, and behind a match;
* `goes_pass`, `goes_see`: a quiet part, and what it saw;
* `goes_versionHead`, `goes_verifyVersion`, `goes_completeVerifiedUpload`: the other parts;
* `marked_on_evidence`: **a version is marked verified on the evidence of the attempt**;
* `matched_to_hashed_copy`: **the Local Copy is matched to what was hashed**.
-/

namespace Frostvault

open List Effects LockFence

/-! ### What stands behind a completion -/

/-- A HEAD contradicts the snapshot of the version. -/
def VerifyTarget.Contradicts (t : VerifyTarget) (head : Head) : Prop :=
  ∃ snap, t.snapshot = some snap ∧ head.proof t.providerVersionId snap = none

/-- No HEAD the verification made of the version contradicts its snapshot. -/
def Agreeing (t : VerifyTarget) (h : List VerifyEvent) : Prop :=
  ∀ mode head, .headed t.objectKey t.providerVersionId mode (.ok head) ∈ h → ¬t.Contradicts head

/-- All of a file with the digest `d` was read between two `fstat`s that agree with `st`. -/
def HashedIn (d : Digest) (st : SourceStat) (reads : List QuietEvent) : Prop :=
  ∃ a b es es', .opened (some a) :: es ++ .readThrough d :: es' ++ [.opened (some b)] <:+: reads ∧
    a.SameFile st ∧ b.SameFile st ∧ ∀ e ∈ es ++ es', e = .checked

/-- A file was hashed. -/
def HashedAt (d : Digest) (st : SourceStat) (h : List VerifyEvent) : Prop :=
  ∃ reads, HashedIn d st reads ∧ reads.map .quiet <:+: h

/-- The catalog named the version and its snapshot; the digest is that of the snapshot, or the one
a Job captured for the version. -/
def Identified (t : VerifyTarget) (h : List VerifyEvent) : Prop :=
  ∃ b, .quiet (.named (some b)) ∈ h ∧ b.row = t.versionId ∧
    (t.entry ≠ .fresh → b.objectKey = t.objectKey) ∧
    b.providerVersionId = some t.providerVersionId ∧ b.snapshot = t.snapshot ∧
    (b.captured = some t.uploadDigest ∨
      ∃ snap, t.snapshot = some snap ∧ snap.plaintextSha256 = t.uploadDigest)

/-- The provider's checksum proved the snapshot, on the completion of the upload or in a HEAD. -/
def ByChecksum (t : VerifyTarget) (h : List VerifyEvent) : Prop :=
  t.requestedMode = .s3Checksum ∧ ∃ snap, t.snapshot = some snap ∧
    ((∃ r, .quiet (.sent r) ∈ h ∧ r.proof t.providerVersionId snap = some true) ∨
      ∃ head, .headed t.objectKey t.providerVersionId true (.ok head) ∈ h ∧
        head.proof t.providerVersionId snap = some true)

/-- All of the version was read back, and it was still there afterwards. -/
def ByReadBack (t : VerifyTarget) (h : List VerifyEvent) : Prop :=
  ∃ a head h₁ h₂, h = h₁ ++ .quiet (.streamed t.objectKey t.providerVersionId (.ok a)) :: h₂ ∧
    a.versionId = some t.providerVersionId ∧ a.sha256 = t.uploadDigest ∧
    t.cloudSize.all (· = a.size) = true ∧
    .headed t.objectKey t.providerVersionId false (.ok head) ∈ h₂ ∧
    head.response.versionId = some t.providerVersionId

/-- What stands behind a version that is marked verified. -/
structure Proven (t : VerifyTarget) (h : List VerifyEvent) : Prop where
  named : Identified t h
  evidence : ByChecksum t h ∨ ByReadBack t h

/-- What stands behind a match: the file was hashed, and after its row was read the path still
showed what had been hashed. -/
def Matched (t : VerifyTarget) (c : Completion) (h : List VerifyEvent) : Prop :=
  ∃ st cur h₁ h₂ h₃,
    h = h₁ ++ .quiet (.copyRead c.before) :: h₂ ++ .quiet (.statted (some cur)) :: h₃ ∧
    HashedAt t.uploadDigest st (h₁ ++ .quiet (.copyRead c.before) :: h₂) ∧
    cur.toFileStat = st.toFileStat ∧ c.stat = some (st.size, st.mtimeNs) ∧
    c.observedDigest = some t.uploadDigest

/-- What a completion asks of its history, and of the catalog before and after it. -/
structure Substantiated (job : WorkerJob) (t : VerifyTarget) (c : Completion) (h : List VerifyEvent)
    (w w' : VerifyWorld) : Prop where
  version : c.version = t.versionId
  digest : c.uploadDigest = t.uploadDigest
  agreeing : Agreeing t h
  proven : c.markVerified = true → Proven t h
  matched : c.stat.isSome = true → c.matchesSnapshot = true → Matched t c h
  copy : copyGeneration w'.db job.row.vaultFileId = copyGeneration w.db job.row.vaultFileId ∨
    copyGeneration w.db job.row.vaultFileId = c.before ∧ c.stat.isSome = true

/-- Every completion has what it asks for. -/
def Evidenced (job : WorkerJob) (h : List VerifyEvent) (e : VerifyEvent) (w w' : VerifyWorld) :
    Prop :=
  match e with
  | .persisted t c => Substantiated job t c h w w'
  | _ => True

/-- More was recorded, all of it quiet. -/
def Quieter (h h' : List VerifyEvent) : Prop :=
  ∃ reads : List QuietEvent, h' = h ++ reads.map .quiet

variable {t : VerifyTarget} {h h' h'' : List VerifyEvent} {head : Head} {d : Digest}
  {st : SourceStat}

lemma Quieter.grows (hq : Quieter h h') : h <+: h' := by
  obtain ⟨reads, rfl⟩ := hq
  exact prefix_append h _

lemma Quieter.refl : Quieter h h := ⟨[], by simp⟩

lemma Quieter.add (h : List VerifyEvent) (reads : List QuietEvent) :
    Quieter h (h ++ reads.map .quiet) :=
  ⟨reads, rfl⟩

lemma Quieter.trans (hq : Quieter h h') (hq' : Quieter h' h'') : Quieter h h'' := by
  obtain ⟨reads, rfl⟩ := hq
  obtain ⟨reads', rfl⟩ := hq'
  exact ⟨reads ++ reads', by simp⟩

lemma Agreeing.quieter (ha : Agreeing t h) (hq : Quieter h h') : Agreeing t h' := by
  obtain ⟨reads, rfl⟩ := hq
  intro mode head hhead
  refine ha mode head ((mem_append.mp hhead).resolve_right fun hreads => ?_)
  simp at hreads

/-- Where nothing but quiet actions happened no HEAD contradicts anything. -/
lemma agreeing_of_quieter (hq : Quieter [] h) : Agreeing t h :=
  Agreeing.quieter (fun _ _ hhead => absurd hhead not_mem_nil) hq

/-- A HEAD that contradicts nothing. -/
lemma Agreeing.headed (ha : Agreeing t h) {m : Bool} {r : Except ProviderError Head}
    (hr : ∀ head, r = .ok head → ¬t.Contradicts head) :
    Agreeing t (h ++ [.headed t.objectKey t.providerVersionId m r]) := by
  intro mode head hhead
  rcases mem_append.mp hhead with hhead | hhead
  · exact ha mode head hhead
  · have heq := mem_singleton.mp hhead
    exact hr head (VerifyEvent.headed.inj heq).2.2.2.symm

lemma HashedAt.grows (hd : HashedAt d st h) (hh : h <+: h') : HashedAt d st h' := by
  obtain ⟨reads, hreads, hin⟩ := hd
  exact ⟨reads, hreads, hin.trans hh.isInfix⟩

lemma Identified.grows (hn : Identified t h) (hh : h <+: h') : Identified t h' := by
  obtain ⟨b, hb, hrest⟩ := hn
  exact ⟨b, hh.subset hb, hrest⟩

lemma ByChecksum.grows (hc : ByChecksum t h) (hh : h <+: h') : ByChecksum t h' := by
  obtain ⟨hmode, snap, hsnap, ⟨r, hr, hproof⟩ | ⟨head, hhead, hproof⟩⟩ := hc
  · exact ⟨hmode, snap, hsnap, .inl ⟨r, hh.subset hr, hproof⟩⟩
  · exact ⟨hmode, snap, hsnap, .inr ⟨head, hh.subset hhead, hproof⟩⟩

lemma ByReadBack.grows (hb : ByReadBack t h) (hh : h <+: h') : ByReadBack t h' := by
  obtain ⟨a, head, h₁, h₂, rfl, hv, hd, hs, hhead, hr⟩ := hb
  obtain ⟨h₃, rfl⟩ := hh
  exact ⟨a, head, h₁, h₂ ++ h₃, by simp, hv, hd, hs, mem_append_left _ hhead, hr⟩

lemma Proven.grows (hp : Proven t h) (hh : h <+: h') : Proven t h' :=
  ⟨hp.named.grows hh, hp.evidence.imp (·.grows hh) (·.grows hh)⟩

/-! ### The Local Copy -/

/-- A specification of a quiet program. -/
abbrev Seen {α : Type} (Q : α → List QuietEvent → Prop) (p : Quietly α)
    (reads : List QuietEvent) : Prop :=
  Meets (Unchecked VerifyWorld QuietEvent) Q (fun _ _ => True) p reads

lemma unmarked {P : Prop} : false → P := fun hfalse => absurd hfalse (by simp)

variable {local? : Option (Digest × SourceStat)} {mode : VerificationMode} {snap : UploadSnapshot}

section Reads

variable {h h' : List QuietEvent} {α β : Type}

lemma seen_after {Q : β → List QuietEvent → Prop} {p : Quietly α} {f : α → Quietly β}
    (hf : ∀ a h', Seen Q (f a) h') : Seen Q (p >>= f) h :=
  (meets_unchecked _ _).bind fun a h' _ => hf a h'

lemma seen_checkpoint : Seen (fun _ h' => h' = h ++ [.checked]) checkpoint h :=
  meets_ask (fun _ => trivial) (fun _ _ _ => rfl) fun _ _ _ => trivial

lemma seen_statPath : Seen (fun st h' => h' = h ++ [.statted st]) statPath h :=
  meets_act fun _ => ⟨trivial, meets_ret rfl⟩

lemma seen_statDescriptor : Seen (fun st h' => h' = h ++ [.opened st]) statDescriptor h :=
  meets_act fun _ => ⟨trivial, meets_ret rfl⟩

lemma seen_readDescriptor :
    Seen (fun r h' => h' = h ++ [.readThrough r.sha256]) readDescriptor h :=
  meets_act fun _ => ⟨trivial, meets_ret rfl⟩

lemma seen_present {st : Option SourceStat} :
    Seen (fun a h' => st = some a ∧ h' = h) (present st) h := by
  cases st with
  | none => exact meets_raise trivial
  | some a => exact meets_ret ⟨rfl, rfl⟩

lemma seen_require {c : Prop} [Decidable c] {e : VerifyError} :
    Seen (fun _ h' => c ∧ h' = h) (.require c e) h :=
  meets_require (fun hc => ⟨hc, rfl⟩) fun _ => trivial

/-- A descriptor is opened on what has been seen. -/
lemma seen_opened {Q : β → List QuietEvent → Prop} {c : SourceStat → Prop} [DecidablePred c]
    {e : VerifyError} {f : SourceStat → Quietly β}
    (hf : ∀ a, c a → Seen Q (f a) (h ++ [.opened (some a)])) :
    Seen Q (do
      let opened ← present (← statDescriptor)
      .require (c opened) e
      f opened) h := by
  refine seen_statDescriptor.bind fun st h₁ hh₁ => seen_present.bind fun a h₂ ha => ?_
  refine seen_require.bind fun _ h₃ hc => ?_
  obtain ⟨rfl, rfl⟩ := ha
  obtain ⟨ha, rfl⟩ := hc
  exact hh₁ ▸ hf a ha

lemma sameFile_of_toFileStat {a b : SourceStat} (heq : a.toFileStat = b.toFileStat) :
    a.SameFile b :=
  ⟨congrArg FileStat.inode heq, congrArg FileStat.size heq, congrArg FileStat.mtimeNs heq⟩

/-- **A snapshot is of bytes read between two equal stats.** -/
lemma seen_prepareUploadSnapshot :
    Seen (fun r h' => HashedIn r.1.plaintextSha256 r.2 h') prepareUploadSnapshot h := by
  refine seen_after fun _ _ => seen_after fun _ _ => seen_after fun before _ => ?_
  refine seen_after fun _ _ => seen_after fun _ h₅ => seen_opened fun a ha => ?_
  refine seen_checkpoint.bind fun _ h₆ hh₆ => seen_readDescriptor.bind fun reading h₇ hh₇ => ?_
  refine seen_checkpoint.bind fun _ h₈ hh₈ => seen_opened fun b hb => ?_
  refine seen_statPath.bind fun last h₉ hh₉ => seen_present.bind fun _ h₁₀ hh₁₀ => ?_
  refine seen_require.bind fun _ h₁₁ hh₁₁ => meets_pure ?_
  obtain ⟨-, rfl⟩ := hh₁₁
  obtain ⟨-, rfl⟩ := hh₁₀
  subst hh₉ hh₈ hh₇ hh₆
  exact ⟨a, b, [.checked], [.checked], ⟨h₅, [.statted last], by simp [HashedContent.snapshot]⟩,
    sameFile_of_toFileStat ha, sameFile_of_toFileStat hb, by simp⟩

/-- A fingerprint is of bytes read between two equal stats. -/
lemma seen_hashStableSource :
    Seen (fun r h' => HashedIn r.1 r.2 h') hashStableSource h := by
  refine seen_after fun _ _ => seen_after fun before _ => ?_
  refine seen_after fun _ h₃ => seen_opened fun a ha => ?_
  refine seen_readDescriptor.bind fun reading h₄ hh₄ => seen_opened fun b hb => meets_pure ?_
  subst hh₄
  obtain ⟨-, hi, hs, hm⟩ := ha
  exact ⟨a, b, [], [], ⟨h₃, [], by simp⟩, ⟨hi.symm.trans hb.1, hs.symm.trans hb.2.1,
    hm.symm.trans hb.2.2⟩, ⟨rfl, rfl, rfl⟩, by simp⟩

lemma seen_localStatUnchanged : Seen (fun same h' => ∃ cur, h' = h ++ [.statted cur] ∧
    (same = true → ∃ a, cur = some a ∧ a.toFileStat = st.toFileStat))
    (localStatUnchanged st) h := by
  refine seen_statPath.bind fun cur h₁ hh₁ => meets_pure ⟨cur, hh₁, fun hsame => ?_⟩
  obtain ⟨a, ha, heq⟩ := Option.any_eq_true _ _ |>.mp hsame
  exact ⟨a, ha, of_decide_eq_true heq⟩

lemma seen_localObservationStable {observed : Option SourceStat} :
    Seen (fun stable h' => stable = true → ∃ st cur, observed = some st ∧
      h' = h ++ [.statted (some cur)] ∧ cur.toFileStat = st.toFileStat)
      (localObservationStable observed) h := by
  cases observed with
  | none => exact meets_pure unmarked
  | some st =>
      refine seen_localStatUnchanged.mono (fun same h' hs htrue => ?_) fun _ _ hR => hR
      obtain ⟨cur, hh', hsame⟩ := hs
      obtain ⟨a, rfl, heq⟩ := hsame htrue
      exact ⟨st, a, rfl, hh', heq⟩

/-- What an inspection found behind a match: it hashed the Local Copy, or that was done before. -/
def Inspection.Found (d : Digest) (local? : Option (Digest × SourceStat)) (seen : Inspection)
    (reads : List QuietEvent) : Prop :=
  seen.matchesSnapshot = true → ∃ st, seen.stat = some st ∧ seen.digest = some d ∧
    (HashedIn d st reads ∨ local? = some (d, st))

lemma seen_inspectAnew {totalBytes : Option ℕ} :
    Seen (Inspection.Found d local?) (inspectAnew totalBytes d) h := by
  refine seen_after fun cur h₁ => ?_
  have hnone (d' : Option Digest) (st' : Option SourceStat) (h' : List QuietEvent) :
      Inspection.Found d local? ⟨d', st', false⟩ h' := unmarked
  cases cur with
  | none => exact meets_pure (hnone _ _ _)
  | some cur =>
      dsimp only
      split_ifs
      · exact meets_pure (hnone _ _ _)
      · exact meets_pure (hnone _ _ _)
      · refine Meets.bind (Q := fun r h' => ∀ x, r = .ok x → HashedIn x.1 x.2 h')
          (seen_hashStableSource.outcome (fun a h' ha x hx => ?_) fun e h' _ x hx => ?_) ?_
        · cases hx
          exact ha
        · cases hx
        · rintro (e | ⟨d', st'⟩) h' hr
          · exact meets_pure (hnone _ _ _)
          · refine meets_pure fun hd => ?_
            obtain rfl : d' = d := by simpa using hd
            exact ⟨st', rfl, rfl, .inl (hr _ rfl)⟩

lemma seen_inspectLocalCopy {totalBytes : Option ℕ} :
    Seen (Inspection.Found d local?) (inspectLocalCopy totalBytes d local?) h := by
  cases local? with
  | none => exact seen_inspectAnew
  | some r =>
      obtain ⟨d', st'⟩ := r
      refine seen_after fun same h₁ => ?_
      cases same
      · exact seen_inspectAnew
      · refine meets_pure fun hd => ?_
        obtain rfl : d' = d := by simpa using hd
        exact ⟨st', rfl, rfl, .inr rfl⟩

end Reads

/-! ### The completion -/

/-- A program of an attempt of the Job. -/
abbrev Goes {α : Type} (job : WorkerJob) (Q : α → List VerifyEvent → Prop) (p : Verifying α)
    (h : List VerifyEvent) : Prop :=
  Meets (Evidenced job) Q (fun _ _ => True) p h

variable {names : KeyNames} {vaults : VaultTable} {job : WorkerJob} {client : ProviderClient}
  {totalBytes : Option ℕ} {α β : Type}

/-- What a quiet program reads is added. -/
lemma goes_quiet {p : Quietly α} {S : α → List QuietEvent → Prop} (hm : Seen S p []) :
    Goes job (fun a h' => ∃ reads : List QuietEvent, h' = h ++ reads.map .quiet ∧ S a reads)
      (liftM p) h := by
  have hlift : Goes job (fun a h' => ∃ reads : List QuietEvent,
      h' = h ++ reads.map .quiet ∧ S a reads) (liftM p) (h ++ List.map .quiet []) :=
    (hm.within (fun _ _ _ _ => trivial) h).mono (fun _ _ hQ => hQ) fun _ _ _ => trivial
  rwa [map_nil, append_nil] at hlift

variable {Q : β → List VerifyEvent → Prop}

/-- A quiet program, and what comes after it. -/
lemma goes_see {p : Quietly α} {S : α → List QuietEvent → Prop} {f : α → Verifying β}
    (hm : Seen S p []) (hf : ∀ a reads, S a reads → Goes job Q (f a) (h ++ reads.map .quiet)) :
    Goes job Q (liftM p >>= f) h := by
  refine (goes_quiet hm).bind fun a h' hQ => ?_
  obtain ⟨reads, rfl, hS⟩ := hQ
  exact hf a reads hS

lemma goes_pass {p : Quietly α} {f : α → Verifying β} {h₀ : List VerifyEvent} (hq : Quieter h₀ h)
    (hf : ∀ a h', Quieter h₀ h' → Goes job Q (f a) h') : Goes job Q (liftM p >>= f) h :=
  goes_see (meets_unchecked _ _) fun a reads _ => hf a _ (hq.trans (.add h reads))

lemma goes_require {c : Prop} [Decidable c] {e : VerifyError} :
    Goes job (fun _ h' => c ∧ h' = h) (.require c e) h :=
  meets_require (fun hc => ⟨hc, rfl⟩) fun _ => trivial

/-- A verification was completed, or the Job is automatic and its content not stable. -/
def Ended (job : WorkerJob) (h : List VerifyEvent) : Prop :=
  (∃ t c, .persisted t c ∈ h) ∨ job.row.origin = .automatic

lemma goes_check (he : Ended job h) : Goes job (fun _ => Ended job) (liftM checkpoint) h := by
  refine (goes_quiet (meets_unchecked _ _)).mono (fun _ h' hh => ?_) fun _ _ hR => hR
  obtain ⟨reads, rfl, -⟩ := hh
  exact he.imp_left fun ⟨t, c, hmem⟩ => ⟨t, c, mem_append_left _ hmem⟩

/-- Only the row that was read is written over. -/
lemma copyGeneration_publishLocalTxn {c : Completion} {db db' : CleanupDb}
    (h : (publishLocalTxn vaults job c).alone db = some db') :
    copyGeneration db' job.row.vaultFileId = copyGeneration db job.row.vaultFileId ∨
      copyGeneration db job.row.vaultFileId = c.before ∧ c.stat.isSome := by
  rw [publishLocalTxn, Txn.alone_select] at h
  cases hstat : c.stat with
  | none =>
      rw [hstat] at h
      exact .inl (Option.some.inj h ▸ rfl)
  | some st =>
      by_cases hbefore : copyGeneration db job.row.vaultFileId = c.before
      · exact .inr ⟨hbefore, rfl⟩
      · rw [hstat] at h
        rw [copyGeneration] at hbefore
        dsimp only at h
        rw [if_pos hbefore] at h
        exact .inl (Option.some.inj h ▸ rfl)

/-- A mark leaves the Local Copies alone. -/
lemma copyGeneration_markVersionVerified {row : RowId} {db : CleanupDb} (file : FileId) :
    copyGeneration (onCatalog (fun cat => markVersionVerified cat row d) db) file =
      copyGeneration db file := by
  rw [copyGeneration, CleanupDb.file?, file?_withVersions db.upload.cat _ rfl, copyGeneration,
    CleanupDb.file?]
  cases db.upload.cat.file? file <;> rfl

lemma copyGeneration_verifyTxn {c : Completion} {db db' : CleanupDb}
    (h : (verifyTxn names vaults job c).alone db = some db') :
    copyGeneration db' job.row.vaultFileId = copyGeneration db job.row.vaultFileId ∨
      copyGeneration db job.row.vaultFileId = c.before ∧ c.stat.isSome := by
  rw [verifyTxn, unitTxn, alone_targetTxn] at h
  obtain ⟨-, -, h⟩ := Option.bind_eq_some_iff.mp h
  rw [Txn.alone_select, Txn.alone_check] at h
  split_ifs at h
  · have hcopy := copyGeneration_publishLocalTxn h
    rwa [copyGeneration_markVersionVerified] at hcopy
  · exact copyGeneration_publishLocalTxn h

lemma seen_readCopy : Seen (fun b reads => reads = [.copyRead b]) (readCopy job) [] :=
  meets_act fun _ => ⟨trivial, meets_ret rfl⟩

/-- **A completion.**  What it needs is there before it, and it adds the match itself. -/
lemma goes_completeVerifiedUpload {markVerified : Bool} (ha : Agreeing t h)
    (hp : markVerified → Proven t h) (hl : ∀ d st, local? = some (d, st) → HashedAt d st h) :
    Goes job (fun _ => Ended job)
      (completeVerifiedUpload names vaults job totalBytes t markVerified local?) h := by
  refine goes_pass .refl fun _ h₁ hq₁ => ?_
  refine goes_see seen_readCopy fun before es hes => ?_
  refine goes_see seen_inspectLocalCopy fun seen es₂ hfound => ?_
  refine goes_see seen_localObservationStable fun stable es₃ hstable => ?_
  refine goes_see (meets_unchecked _ _) fun verifiedAt es₄ _ => ?_
  have hq : Quieter h (h₁ ++ es.map .quiet ++ es₂.map .quiet ++ es₃.map .quiet ++ es₄.map .quiet) :=
    hq₁.trans ⟨es ++ es₂ ++ es₃ ++ es₄, by simp⟩
  have hmatched (c : Completion) (hbefore : c.before = before)
      (hstat : c.stat = if stable then seen.stat.map fun st => (st.size, st.mtimeNs) else none)
      (hobserved : c.observedDigest = seen.digest)
      (hmatches : c.matchesSnapshot = seen.matchesSnapshot) (hsome : c.stat.isSome)
      (hm : c.matchesSnapshot) : Matched t c
        (h₁ ++ es.map .quiet ++ es₂.map .quiet ++ es₃.map .quiet ++ es₄.map .quiet) := by
    obtain ⟨st, hst, hdigest, hhashed⟩ := hfound (hmatches ▸ hm)
    cases hs : stable with
    | false => simp [hstat, hs] at hsome
    | true =>
        obtain ⟨st', cur, hst', rfl, hcur⟩ := hstable hs
        cases hst.symm.trans hst'
        subst hes hbefore
        refine ⟨st, cur, h₁, es₂.map .quiet, es₄.map .quiet, by simp, ?_, hcur, ?_,
          hobserved.trans hdigest⟩
        · rcases hhashed with hin | hlocal
          · exact ⟨es₂, hin, ⟨h₁ ++ [.quiet (.copyRead c.before)], [], by simp⟩⟩
          · exact (hl _ _ hlocal).grows (hq₁.grows.trans (prefix_append h₁ _))
        · simp [hstat, hs, hst]
  refine Meets.bind (Q := fun _ => Ended job) (meets_commit (fun w u w' hok => ?_)
    fun w e he => ⟨?_, trivial⟩) fun _ h₆ he => goes_check he
  · split at hok
    · cases hok
    · rename_i db hdb
      cases hok
      rw [if_pos (by rw [hdb]; rfl)]
      exact ⟨⟨rfl, rfl, ha.quieter hq, fun hm => (hp hm).grows hq.grows,
        hmatched _ rfl rfl rfl rfl, copyGeneration_verifyTxn hdb⟩,
        .inl ⟨_, _, mem_append_right _ (mem_singleton_self _)⟩⟩
  · split at he
    · rename_i hdb
      rw [if_neg (by rw [hdb]; exact Bool.false_ne_true)]
      trivial
    · cases he

/-! ### Evidence from the provider -/

/-- A HEAD was the last thing that was not quiet, and what it says is still to be compared. -/
def Awaiting (t : VerifyTarget) (head : Head) (h : List VerifyEvent) : Prop :=
  ∃ h₀, Agreeing t h₀ ∧
    Quieter (h₀ ++ [.headed t.objectKey t.providerVersionId false (.ok head)]) h

lemma Awaiting.quieter (hw : Awaiting t head h) (hq : Quieter h h') : Awaiting t head h' := by
  obtain ⟨h₀, ha, hq₀⟩ := hw
  exact ⟨h₀, ha, hq₀.trans hq⟩

lemma Awaiting.agreeing (hw : Awaiting t head h) (hc : ¬t.Contradicts head) : Agreeing t h := by
  obtain ⟨h₀, ha, hq⟩ := hw
  exact (ha.headed fun _ heq => Except.ok.inj heq ▸ hc).quieter hq

lemma goes_headExact {mode : Bool} : Goes job
    (fun r h' => h' = h ++ [.headed t.objectKey t.providerVersionId mode r])
    (headExact t.objectKey t.providerVersionId mode) h :=
  meets_act fun _ => ⟨trivial, meets_ret rfl⟩

/-- The version was shown, and what its HEAD says is still to be compared. -/
def Shown (t : VerifyTarget) (h : List VerifyEvent) (head : Head) (h' : List VerifyEvent) : Prop :=
  Awaiting t head h' ∧ ∃ es, h' = h ++ es ∧
    .headed t.objectKey t.providerVersionId false (.ok head) ∈ es ∧
    head.response.versionId = some t.providerVersionId

/-- **A HEAD of the exact version.** -/
lemma goes_versionHead (ha : Agreeing t h) :
    Goes job (Shown t h) (versionHead job client t) h := by
  have hhead : Goes job (fun head h' => h' = h ++ [.headed t.objectKey t.providerVersionId false
      (.ok head)] ∧ head.response.versionId = some t.providerVersionId)
      (verificationVersionHead t) h := by
    refine goes_headExact.bind fun r h₁ hh₁ => ?_
    cases r with
    | error e =>
        exact Meets.bind (Q := fun _ _ => False) (meets_raise trivial) fun _ _ => False.elim
    | ok head =>
        refine Meets.bind (Q := fun a h' => a = head ∧ h' = h₁) (meets_ret ⟨rfl, rfl⟩) ?_
        rintro a h₂ ⟨rfl, rfl⟩
        refine goes_require.bind fun _ h₃ hh₃ => goes_require.bind fun _ h₄ hh₄ => ?_
        refine goes_require.bind fun _ h₅ hh₅ => meets_pure ⟨?_, hh₄.1⟩
        rw [hh₅.2, hh₄.2, hh₃.2, hh₁]
  refine hhead.bind fun head h₁ hh => ?_
  obtain ⟨rfl, hv⟩ := hh
  have hdone (h' : List VerifyEvent) (hq : Quieter (h ++ [.headed t.objectKey t.providerVersionId
      false (.ok head)]) h') : Shown t h head h' := by
    obtain ⟨reads, rfl⟩ := hq
    exact ⟨⟨h, ha, reads, rfl⟩, _, append_assoc _ _ _, by simp, hv⟩
  cases head.uploadToken with
  | none => exact meets_pure (hdone _ .refl)
  | some token =>
      refine goes_pass .refl fun known h₂ hq => ?_
      refine goes_require.bind fun _ h₃ hh₃ => goes_require.bind fun _ h₄ hh₄ => meets_pure ?_
      rw [hh₄.2, hh₃.2]
      exact hdone h₂ hq

/-- A response that contradicts the snapshot ends the attempt. -/
lemma seen_evaluateProviderProof {proof : UploadResponse} {deleteMarker completion : Bool}
    {reads : List QuietEvent} :
    Seen (fun proven _ =>
      checkS3Proof proof deleteMarker t.providerVersionId snap completion = some proven)
      (evaluateProviderProof names job t snap proof deleteMarker completion) reads := by
  rw [evaluateProviderProof]
  split
  · rename_i proven hproof
    exact meets_pure hproof
  · exact seen_after fun _ _ => meets_raise trivial

/-- A HEAD that proves or leaves open contradicts nothing. -/
lemma not_contradicts {proven : Bool} (hsnap : t.snapshot = some snap)
    (hproof : head.proof t.providerVersionId snap = some proven) : ¬t.Contradicts head := by
  rintro ⟨snap', hsnap', hnone⟩
  cases hsnap.symm.trans hsnap'
  cases hnone.symm.trans hproof

lemma goes_evaluateHead {f : Unit → Verifying β} (hw : Awaiting t head h)
    (hf : ∀ u h', Agreeing t h' → Quieter h h' → Goes job Q (f u) h') :
    Goes job Q (liftM (evaluateHead names job t head) >>= f) h := by
  have hseen : Seen (fun _ _ => ¬t.Contradicts head) (evaluateHead names job t head) [] := by
    rw [evaluateHead]
    split
    · rename_i hnone
      refine meets_pure fun ⟨snap, hsnap, _⟩ => ?_
      cases hnone.symm.trans hsnap
    · rename_i snap hsnap
      exact seen_evaluateProviderProof.bind fun proven _ hproof =>
        meets_pure (not_contradicts hsnap hproof)
  exact goes_see hseen fun u reads hc =>
    hf u _ ((hw.quieter (.add h reads)).agreeing hc) (.add h reads)

/-- The completion of the upload proved the snapshot. -/
def CompletionProved (t : VerifyTarget) (h : List VerifyEvent) : Prop :=
  ∃ r snap, .quiet (.sent r) ∈ h ∧ t.snapshot = some snap ∧
    r.proof t.providerVersionId snap = some true

/-- A checksum proof, of the completion or of a HEAD with checksums. -/
lemma goes_checksumProven {providerProof : Bool} (ha : Agreeing t h)
    (hp : providerProof = true → CompletionProved t h) :
    Goes job (fun proven h' => Agreeing t h' ∧ h <+: h' ∧ (proven = true → ByChecksum t h'))
      (checksumProven names job t providerProof) h := by
  rw [checksumProven]
  split
  · rename_i snap hmode hsnap
    split_ifs with hproof
    · obtain ⟨r, snap, hr, hsnap, hproved⟩ := hp hproof
      exact meets_pure ⟨ha, prefix_refl h, fun _ =>
        ⟨hmode, snap, hsnap, .inl ⟨r, hr, hproved⟩⟩⟩
    · refine goes_headExact.bind fun r h₁ hh₁ => ?_
      have hgrows : h <+: h₁ := hh₁ ▸ prefix_append h _
      rcases r with e | head
      · have ha₁ : Agreeing t h₁ := hh₁ ▸ ha.headed fun _ heq => by cases heq
        cases e with
        | unsupportedChecksum => exact meets_pure ⟨ha₁, hgrows, unmarked⟩
        | _ => exact meets_raise trivial
      · refine (goes_quiet seen_evaluateProviderProof).mono (fun _ h₂ hh₂ => ?_) fun _ _ hR => hR
        obtain ⟨reads, rfl, hproof⟩ := hh₂
        have hagrees := ha.headed (m := true) (r := .ok head)
          fun _ heq => Except.ok.inj heq ▸ not_contradicts hsnap hproof
        have hq : Quieter h₁ (h₁ ++ reads.map .quiet) := ⟨reads, rfl⟩
        refine ⟨(hh₁ ▸ hagrees).quieter hq, hgrows.trans hq.grows, fun htrue => ?_⟩
        exact ⟨hmode, snap, hsnap, .inr ⟨head, hq.grows.subset (by simp [hh₁]), htrue ▸ hproof⟩⟩
  · exact meets_pure ⟨ha, prefix_refl h, unmarked⟩

/-- A read of the version that ended well. -/
lemma seen_streamPlaintext {reads : List QuietEvent} :
    Seen (fun r reads' => ∃ a l l',
      reads' = l ++ .streamed t.objectKey t.providerVersionId (.ok a) :: l' ∧
      a.versionId = some t.providerVersionId ∧ r = (a.sha256, a.size))
      (streamPlaintext t) reads := by
  refine seen_after fun _ l => ?_
  refine Meets.bind (Q := fun a l' => l' = l ++ [.streamed t.objectKey t.providerVersionId (.ok a)])
    (meets_act fun w => ⟨trivial, ?_⟩) fun a l' hl' => ?_
  · cases hbody : w.body t.objectKey t.providerVersionId with
    | error e => exact meets_raise trivial
    | ok a => exact meets_ret rfl
  · refine seen_require.bind fun _ l₂ hv => seen_checkpoint.bind fun _ l₃ hl₃ => ?_
    obtain ⟨hv, rfl⟩ := hv
    subst hl'
    exact meets_pure ⟨a, l, [.checked], by simp [hl₃], hv, rfl⟩

/-- **The verification of a version.** -/
lemma goes_verifyVersion {providerProof : Bool} (hw : Awaiting t head h) (hn : Identified t h)
    (hp : providerProof = true → CompletionProved t h)
    (hl : ∀ d st, local? = some (d, st) → HashedAt d st h) :
    Goes job (fun _ => Ended job)
      (verifyVersion names vaults job client totalBytes t head providerProof local?) h := by
  refine goes_evaluateHead hw fun _ h₁ ha₁ hq₁ => ?_
  refine goes_pass .refl fun _ h₂ hq₂ => ?_
  have hgrows₂ := (hq₁.trans hq₂).grows
  refine (goes_checksumProven (ha₁.quieter hq₂) fun hproof => ?_).bind fun proven h₃ hh₃ => ?_
  · obtain ⟨r, snap, hr, hrest⟩ := hp hproof
    exact ⟨r, snap, hgrows₂.subset hr, hrest⟩
  obtain ⟨ha₃, hgrows₃, hproven⟩ := hh₃
  refine goes_pass .refl fun _ h₄ hq₄ => ?_
  have hgrows : h <+: h₄ := hgrows₂.trans (hgrows₃.trans hq₄.grows)
  cases proven with
  | true =>
      exact goes_completeVerifiedUpload (ha₃.quieter hq₄)
        (fun _ => ⟨hn.grows hgrows, .inl ((hproven rfl).grows hq₄.grows)⟩)
        fun d st hd => (hl d st hd).grows hgrows
  | false =>
      refine goes_see seen_streamPlaintext fun r reads hread => ?_
      obtain ⟨a, l, l', rfl, hv, rfl⟩ := hread
      refine goes_see (meets_unchecked _ _) fun _ es₆ _ => ?_
      refine (goes_versionHead (((ha₃.quieter hq₄).quieter ⟨_, rfl⟩).quieter
        ⟨es₆, rfl⟩)).bind fun final h₇ hh₇ => ?_
      obtain ⟨hw₇, es, rfl, hfinal, hfv⟩ := hh₇
      refine goes_evaluateHead hw₇ fun _ h₈ ha₈ hq₈ => goes_require.bind fun _ h₉ hs => ?_
      obtain ⟨hs, rfl⟩ := hs
      have hgrows₉ : h <+: h₉ := hgrows.trans (List.IsPrefix.trans (by
        simp only [append_assoc]
        exact prefix_append h₄ _) hq₈.grows)
      split_ifs with hd
      · refine goes_completeVerifiedUpload ha₈ (fun _ => ⟨hn.grows hgrows₉, .inr ?_⟩)
          fun d st hd => (hl d st hd).grows hgrows₉
        refine ByReadBack.grows ?_ hq₈.grows
        exact ⟨a, final, h₄ ++ l.map .quiet, l'.map .quiet ++ es₆.map .quiet ++ es, by simp, hv, hd,
          hs, mem_append_right _ hfinal, hfv⟩
      · exact goes_pass .refl fun _ _ _ => goes_pass .refl fun _ _ _ => meets_raise trivial

/-! ### The attempt -/

/-- What a Job is linked to, as the catalog was read. -/
lemma seen_readJobTarget : Seen (fun x reads => ∀ b, x.bind JobTarget.baseline = some b →
    .named (some b) ∈ reads) (readJobTarget names job) [] := by
  refine meets_commit (fun w x w' hok => ⟨trivial, fun b hb => ?_⟩) fun _ _ _ => ⟨trivial, trivial⟩
  simp [hok, Except.map, hb]

/-- A linked version is named as it is verified. -/
lemma linkedTarget_spec {x : JobTarget} {v : ArchiveVersion} (hx : linkedTarget x = .ok (v, t))
    (hn : ∀ b, x.baseline = some b → .quiet (.named (some b)) ∈ h) :
    Identified t h ∨ v.integrity = .verified := by
  rw [linkedTarget] at hx
  split at hx
  · cases hx
  · rename_i u hu
    obtain ⟨digest, hdigest, hx⟩ := Checks.bind_eq_ok_iff.mp hx
    dsimp only at hx
    by_cases hmismatch : u.integrity = .mismatch
    · rw [if_pos hmismatch] at hx
      cases hx
    by_cases hlost : u.availability ≠ .available
    · rw [if_neg hmismatch, if_pos hlost] at hx
      cases hx
    rw [if_neg hmismatch, if_neg hlost] at hx
    split at hx
    · cases hx
    · rename_i provider hprovider
      cases hx
      by_cases hv : v.integrity = .verified
      · exact .inr hv
      refine .inl ⟨_, hn _ (by rw [JobTarget.baseline, hu]; rfl), rfl, fun _ => rfl, hprovider,
        rfl, ?_⟩
      rw [requireLinkedUploadDigest] at hdigest
      split at hdigest
      · rename_i snap hsnap
        split_ifs at hdigest
        exact .inr ⟨snap, hsnap, Except.ok.inj hdigest⟩
      · rw [if_neg hv] at hdigest
        split at hdigest
        · rename_i captured _ hcaptured
          exact .inl (hcaptured.trans (congrArg some (Except.ok.inj hdigest)))
        · cases ‹none = some _›
        · cases hdigest

lemma goes_verifyLinked {x : JobTarget} (hq : Quieter [] h)
    (hn : ∀ b, x.baseline = some b → .quiet (.named (some b)) ∈ h) :
    Goes job (fun _ => Ended job) (verifyLinked names vaults job client totalBytes x) h := by
  refine goes_pass .refl fun _ h₁ hq₁ => ?_
  refine Meets.bind (Q := fun r h' => linkedTarget x = .ok r ∧ h' = h₁) ?_ fun r _ hr => ?_
  · cases linkedTarget x with
    | error e => exact meets_raise trivial
    | ok r => exact meets_ret ⟨rfl, rfl⟩
  obtain ⟨v, t⟩ := r
  obtain ⟨hx, rfl⟩ := hr
  have hnamed := linkedTarget_spec hx fun b hb => hq₁.grows.subset (hn b hb)
  refine (goes_versionHead (agreeing_of_quieter (hq.trans hq₁))).bind fun head h₃ hh₃ => ?_
  obtain ⟨hw, es, rfl, -⟩ := hh₃
  split_ifs with hv
  · exact goes_evaluateHead hw fun _ h₄ ha₄ _ =>
      goes_completeVerifiedUpload ha₄ unmarked fun _ _ hd => by cases hd
  · exact goes_verifyVersion hw ((hnamed.resolve_right hv).grows (prefix_append _ es)) unmarked
      fun _ _ hd => by cases hd

/-- The Local Copy as it was hashed for a snapshot. -/
lemma hashed_local (hs : HashedAt snap.plaintextSha256 st h) (hh : h <+: h') :
    ∀ d' st', some (snap.plaintextSha256, st) = some (d', st') →
      HashedAt d' st' h' := by
  intro d' st' heq
  cases heq
  exact hs.grows hh

lemma goes_reuseVerified {v : ArchiveVersion} (hq : Quieter [] h)
    (hs : HashedAt snap.plaintextSha256 st h) :
    Goes job (fun _ => Ended job)
      (reuseVerified names vaults job client totalBytes snap st v) h := by
  refine goes_pass .refl fun _ h₁ hq₁ => goes_pass hq₁ fun target h₂ hq₂ => ?_
  split
  · exact meets_raise trivial
  · dsimp only
    split
    · exact goes_completeVerifiedUpload (agreeing_of_quieter (hq.trans hq₂)) unmarked
        (hashed_local hs hq₂.grows)
    · refine goes_require.bind fun _ h₃ hh₃ => goes_require.bind fun _ h₄ hh₄ => ?_
      obtain ⟨-, rfl⟩ := hh₃
      obtain ⟨-, rfl⟩ := hh₄
      refine (goes_versionHead (agreeing_of_quieter (hq.trans hq₂))).bind fun head h₅ hh₅ => ?_
      obtain ⟨hw, es, rfl, -⟩ := hh₅
      refine goes_evaluateHead hw fun _ h₆ ha₆ hq₆ => ?_
      exact goes_completeVerifiedUpload ha₆ unmarked
        (hashed_local hs (hq₂.grows.trans ((prefix_append h₄ _).trans hq₆.grows)))

lemma goes_reuseUnverified {v : ArchiveVersion} {snapshot : Option UploadSnapshot}
    {requested : Option VerificationMode} (hq : Quieter [] h)
    (hs : HashedAt snap.plaintextSha256 st h)
    (hn : .quiet (.named (some (v.baseline snapshot (some snap.plaintextSha256)))) ∈ h) :
    Goes job (fun _ => Ended job)
      (reuseUnverified names vaults job client totalBytes snap st v snapshot requested) h := by
  rw [reuseUnverified]
  split
  · exact meets_raise trivial
  · rename_i provider hprovider
    refine goes_pass .refl fun _ h₁ hq₁ => ?_
    refine (goes_versionHead (agreeing_of_quieter (hq.trans hq₁))).bind fun head h₂ hh₂ => ?_
    obtain ⟨hw, es, rfl, -⟩ := hh₂
    have hgrows := hq₁.grows.trans (prefix_append h₁ es)
    refine goes_verifyVersion hw ?_ unmarked (hashed_local hs hgrows)
    exact ⟨_, hgrows.subset hn, rfl, fun _ => rfl, hprovider, rfl, .inl rfl⟩

/-- An intent that is frozen has the snapshot of the attempt. -/
lemma seen_freezeSend :
    Seen (fun i _ => i.snapshot = snap) (freezeSend names job client snap mode) [] := by
  refine seen_after fun _ _ => seen_after fun _ _ => seen_after fun _ _ => ?_
  refine seen_after fun _ _ => seen_after fun _ _ => seen_after fun i _ => ?_
  refine seen_require.bind fun _ _ hi => seen_after fun _ _ => ?_
  exact meets_pure hi.1.1

lemma seen_sendFile {i : UploadIntent} :
    Seen (fun r reads => .sent r ∈ reads) (sendFile names job i) [] := by
  refine Meets.bind (Q := fun r reads => ∀ a, r = .ok a → .sent a ∈ reads)
    (meets_act fun w => ⟨trivial, meets_ret fun a ha => by simp [ha]⟩) fun r h₁ hr => ?_
  cases r with
  | ok response =>
      refine (meets_unchecked _ _).grows.bind fun _ h₂ hh₂ => meets_pure ?_
      exact hh₂.1.subset (hr _ rfl)
  | error failure =>
      dsimp only
      split <;> first
        | exact seen_after fun _ _ => meets_raise trivial
        | exact meets_raise trivial

/-- A version that is published is named. -/
lemma seen_publishExactReceipt {i : UploadIntent} {r : UploadResponse} :
    Seen (fun p reads => .named (some ⟨p.1, i.target.key, some p.2, some i.snapshot,
      some i.snapshot.plaintextSha256⟩) ∈ reads) (publishExactReceipt names job i r) [] := by
  refine seen_after fun _ _ => ?_
  cases r.versionId with
  | none => exact meets_raise trivial
  | some v =>
      refine seen_after fun _ _ => ?_
      refine Meets.bind (Q := fun row reads => .named (some ⟨row, i.target.key, some v,
        some i.snapshot, some i.snapshot.plaintextSha256⟩) ∈ reads)
        (meets_commit (fun w row w' hok => ⟨trivial, ?_⟩) fun _ _ _ => ⟨trivial, trivial⟩)
        fun row _ hrow => meets_pure hrow
      simp [hok, Except.map]

lemma goes_uploadFresh (hq : Quieter [] h) (hs : HashedAt snap.plaintextSha256 st h) :
    Goes job (fun _ => Ended job)
      (uploadFresh names vaults job client totalBytes snap st mode) h := by
  refine goes_see seen_freezeSend fun i es₁ hi => ?_
  refine goes_see seen_sendFile fun r es₂ hsent => ?_
  refine goes_see seen_publishExactReceipt fun p es₃ hnamed => ?_
  refine goes_see seen_evaluateProviderProof fun proven es₄ hproof => ?_
  have hq₀ : Quieter h
      (h ++ es₁.map .quiet ++ es₂.map .quiet ++ es₃.map .quiet ++ es₄.map .quiet) :=
    ⟨es₁ ++ es₂ ++ es₃ ++ es₄, by simp⟩
  refine (goes_versionHead (agreeing_of_quieter (hq.trans hq₀))).bind fun head h₅ hh₅ => ?_
  obtain ⟨hw, es, rfl, -⟩ := hh₅
  refine goes_verifyVersion hw ?_ (fun hproven => ⟨r, snap, ?_, rfl, hproven ▸ hproof⟩)
    (hashed_local hs (hq₀.grows.trans (prefix_append _ es)))
  · have hmem := mem_append_right (h ++ es₁.map .quiet ++ es₂.map .quiet)
      (mem_map_of_mem (f := VerifyEvent.quiet) hnamed)
    exact ⟨_, mem_append_left es (mem_append_left _ hmem), rfl,
      fun hne => absurd rfl hne, rfl, congrArg some hi, .inr ⟨snap, rfl, rfl⟩⟩
  · simp [hsent]

/-- A version that can be reused is named. -/
lemma seen_prepareDigest :
    Seen (fun reusable reads => ∀ v snapshot requested, reusable = some (v, snapshot, requested) →
      .named (some (v.baseline snapshot (some snap.plaintextSha256))) ∈ reads)
      (prepareDigest names job client snap) [] := by
  refine meets_commit (fun w x w' hok => ⟨trivial, fun v snapshot requested hx => ?_⟩)
    fun _ _ _ => ⟨trivial, trivial⟩
  subst hx
  dsimp only
  rw [hok]
  exact mem_append_right _ (mem_singleton_self _)

/-- Only an automatic Job has to wait. -/
lemma seen_automaticUploadReady :
    Seen (fun ready _ => ready = false → job.row.origin = .automatic) (automaticUploadReady job)
      [] := by
  rw [automaticUploadReady]
  split_ifs with horigin
  · exact (meets_unchecked _ _).mono (fun _ _ _ _ => horigin) fun _ _ hR => hR
  · exact meets_pure fun hfalse => absurd hfalse (by simp)

lemma goes_uploadUnlinked {x : Option JobTarget} (hq : Quieter [] h) :
    Goes job (fun _ => Ended job)
      (uploadUnlinked names vaults job client totalBytes x mode) h := by
  refine goes_pass hq fun _ h₁ hq₁ => ?_
  refine goes_see seen_prepareUploadSnapshot fun r es hs => ?_
  obtain ⟨snap, st⟩ := r
  refine goes_require.bind fun _ h₃ hh₃ => ?_
  obtain ⟨-, rfl⟩ := hh₃
  refine goes_pass .refl fun _ h₄ hq₄ => goes_see seen_automaticUploadReady fun ready es₅ hr => ?_
  cases ready with
  | false => exact goes_check (.inr (hr rfl))
  | true =>
      refine goes_pass (hq₄.trans (.add h₄ es₅)) fun _ h₆ hq₆ => ?_
      refine goes_see seen_prepareDigest fun reusable es₇ hn => ?_
      have hq₇ := hq₆.trans (.add h₆ es₇)
      have hs₇ : HashedAt snap.plaintextSha256 st (h₆ ++ es₇.map .quiet) :=
        .grows ⟨es, hs, suffix_append h₁ _ |>.isInfix⟩ hq₇.grows
      have hclean := hq₁.trans ((Quieter.add h₁ es).trans hq₇)
      rcases reusable with - | ⟨v, snapshot, requested⟩
      · exact goes_uploadFresh hclean hs₇
      · dsimp only
        split_ifs
        · exact goes_reuseVerified hclean hs₇
        · exact goes_reuseUnverified hclean hs₇
            (mem_append_right _ (mem_map_of_mem (hn _ _ _ rfl)))

/-- The parts of an attempt together. -/
lemma goes_processUpload :
    Goes job (fun _ => Ended job) (processUpload names vaults job client totalBytes) [] := by
  refine goes_pass .refl fun _ h₁ hq₁ => goes_see seen_automaticUploadReady fun ready es₂ hr => ?_
  cases ready with
  | false => exact goes_check (.inr (hr rfl))
  | true =>
      refine goes_pass (hq₁.trans (.add h₁ es₂)) fun _ h₃ hq₃ => goes_pass hq₃ fun _ h₄ hq₄ => ?_
      refine goes_pass hq₄ fun r h₅ hq₅ => goes_see seen_readJobTarget fun x es hn => ?_
      have hclean := hq₅.trans (.add h₅ es)
      obtain ⟨intent, only⟩ := r
      dsimp only
      split
      · rename_i y hy
        obtain ⟨z, rfl, hz⟩ := Option.bind_eq_some_iff.mp hy
        obtain ⟨-, -, rfl⟩ := Option.map_eq_some_iff.mp hz
        exact goes_verifyLinked hclean fun b hb =>
          mem_append_right _ (mem_map_of_mem (hn b hb))
      · refine goes_require.bind fun _ h₇ hh₇ => goes_require.bind fun _ h₈ hh₈ => ?_
        refine goes_require.bind fun _ h₉ hh₉ => goes_uploadUnlinked ?_
        rwa [hh₉.2, hh₈.2, hh₇.2]

section Runs

variable {χ : Type} (env : χ → VerifyWorld → VerifyWorld) (w : VerifyWorld) (xs : List χ)

lemma substantiated_of_steps {s : Step VerifyWorld VerifyEvent} {before after : List _}
    {c : Completion} (hs : (processUpload names vaults job client totalBytes).steps env w xs =
      before ++ s :: after) (he : s.event = .persisted t c) :
    Substantiated job t c (before.map Step.event) s.before s.after := by
  have hstep := goes_processUpload.steps env w hs
  rwa [nil_append, he] at hstep

/-- **A version is marked verified on the evidence of the attempt**, whatever the catalog, the
provider and the disk do between its actions; and no HEAD of the version said otherwise. -/
theorem marked_on_evidence (names : KeyNames) (vaults : VaultTable) (job : WorkerJob)
    (client : ProviderClient) (totalBytes : Option ℕ) :
    History.Always (fun before s => ∀ t c, s.event = .persisted t c →
      Agreeing t (before.map Step.event) ∧ c.version = t.versionId ∧
        c.uploadDigest = t.uploadDigest ∧
        (c.markVerified = true → Proven t (before.map Step.event)))
      ((processUpload names vaults job client totalBytes).steps env w xs) := by
  intro before s after hs t c he
  have hc := substantiated_of_steps env w xs hs he
  exact ⟨hc.agreeing, hc.version, hc.digest, hc.proven⟩

/-- **The Local Copy is matched to what was hashed**: the match rests on a digest read between two
equal stats that the path still showed, and the row is written only where it is the one that was
read before that. -/
theorem matched_to_hashed_copy (names : KeyNames) (vaults : VaultTable) (job : WorkerJob)
    (client : ProviderClient) (totalBytes : Option ℕ) :
    History.Always (fun before s => ∀ t c, s.event = .persisted t c →
      (c.stat.isSome = true → c.matchesSnapshot = true → Matched t c (before.map Step.event)) ∧
      (copyGeneration s.after.db job.row.vaultFileId ≠
          copyGeneration s.before.db job.row.vaultFileId →
        copyGeneration s.before.db job.row.vaultFileId = c.before ∧ c.stat.isSome = true))
      ((processUpload names vaults job client totalBytes).steps env w xs) := by
  intro before s after hs t c he
  have hc := substantiated_of_steps env w xs hs he
  exact ⟨hc.matched, hc.copy.resolve_left⟩

/-- **An attempt that returns has completed a verification**, but for a Job that waits for stable
content. -/
theorem completed_of_returned (names : KeyNames) (vaults : VaultTable) (job : WorkerJob)
    (client : ProviderClient) (totalBytes : Option ℕ) (horigin : job.row.origin ≠ .automatic)
    (hend : ((processUpload names vaults job client totalBytes).play env w xs).ending =
      .returned ()) :
    ∃ t c, .persisted t c ∈
      ((processUpload names vaults job client totalBytes).play env w xs).events :=
  ((goes_processUpload w).play (fun _ _ => trivial) xs).1 () hend |>.resolve_right horigin

end Runs

/-- The path `a` is uploaded and read back, while nothing else changes. -/
def sentOnce : VerifyWorld where
  db := goneLocally
  requested := fun _ => none
  now := 6
  checkpoint := .ok ()
  automaticReady := true
  protectionPaused := false
  view := ⟨true, fun _ => [.ok ⟨some false, [], [], none, none⟩],
    fun _ v _ => .ok ⟨⟨some v, none, none, none, some 1, none⟩, false, none⟩, fun _ => [], true⟩
  sent := .ok ⟨some 12, none, none, none, none, none⟩
  body := fun _ v => .ok ⟨some v, 9, 1⟩
  isFile := true
  path := some ⟨⟨3, 1, 2, 2⟩, true⟩
  descriptor := some ⟨⟨3, 1, 2, 2⟩, true⟩
  reading := ⟨9, "FULL_OBJECT", "c", 8, ["c"]⟩

theorem completed_of_returned_sentOnce :
    ∃ t c, .persisted t c ∈ ((processUpload soleName (fun _ => none) claimedUpload ⟨"s3", false⟩
      none).play (fun _ w => w) sentOnce (List.replicate 42 ())).events :=
  completed_of_returned _ _ _ _ _ _ _ _ (by decide) rfl

end Frostvault
