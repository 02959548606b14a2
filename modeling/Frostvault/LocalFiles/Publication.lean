import Frostvault.LocalFiles.Recovery
import Frostvault.Observation.BatchRefinement
import Frostvault.Observation.Holds

/-!
A recovery overwrites nothing, and reports what it recovered.

* `recordedAs_recordRecovered`: what a publication records;
* `recordedAs_adopted`: what a restart records;
-/

namespace Frostvault

open Effects Directory

variable {cat cat' : Catalog} {v : VaultId} {path : Path}

/-! ### What is recorded -/

/-- The Local Copy a path has. -/
def copyAt (cat : Catalog) (v : VaultId) (path : Path) : Option LocalCopy :=
  (cat.fileAt? v path).bind VaultFile.localCopy

/-- The Local Copy at the path is present and matched to the version. -/
def RecordedAs (cat : Catalog) (v : VaultId) (path : Path) (id : RowId) : Prop :=
  ∃ lc, copyAt cat v path = some lc ∧ lc.presence = .present ∧ lc.matchedArchiveVersionId = some id

/-- The row at the path says that content is there, held back for another version that is
verified and available and has the same digest. -/
def HeldForTwin (cat : Catalog) (v : VaultId) (path : Path) (target : RecoverTarget) : Prop :=
  ∃ lc, copyAt cat v path = some lc ∧ lc.presence = .present ∧
    ∃ id, lc.cloudOnlyVersionId = some id ∧ id ≠ target.versionId ∧
      ∃ u, cat.version? id = some u ∧ u.integrity = .verified ∧ u.availability = .available ∧
        some target.sha256 = u.plaintextSha256

lemma fileAt?_mapLocalCopies (cat : Catalog) (c : VaultFile → Option LocalCopy) {f : VaultFile}
    (h : cat.fileAt? v path = some f) :
    (cat.mapLocalCopies c).fileAt? v path = some (f.withCopy (c f)) := by
  obtain ⟨hf, hv, hp⟩ := Catalog.mem_of_fileAt? h
  exact Catalog.fileAt?_eq_some_iff.mpr ⟨List.mem_map_of_mem hf, hv, hp⟩

section

variable (h : cat'.files = cat.files)

include h

lemma fileAt?_of_files : cat'.fileAt? v path = cat.fileAt? v path := by
  rw [Catalog.fileAt?, Catalog.fileAt?, h]

lemma version?_of_files (id : RowId) :
    cat'.version? id = cat.version? id := by
  rw [Catalog.version?, Catalog.version?, h]

lemma copyAt_of_files : copyAt cat' v path = copyAt cat v path := by
  rw [copyAt, copyAt, fileAt?_of_files h]

lemma recordedAs_of_files {id : RowId} :
    RecordedAs cat' v path id ↔ RecordedAs cat v path id := by
  rw [RecordedAs, RecordedAs, copyAt_of_files h]

end

variable {seenAt : Option Stamp} {st : FileStat} {target : RecoverTarget} {vaults : VaultTable}

lemma heldForTwin_of_files (h : cat'.files = cat.files) :
    HeldForTwin cat' v path target ↔ HeldForTwin cat v path target := by
  simp only [HeldForTwin, copyAt_of_files h, version?_of_files h]

/-- The file of a path, found or minted: it has the Local Copy the path had. -/
lemma getOrCreateFile_fileAt (cat : Catalog) (v : VaultId) (p : Path) (at_ : Stamp) :
    (∃ f, (getOrCreateFile cat v p at_).1.fileAt? v p = some f ∧
      f.id = (getOrCreateFile cat v p at_).2 ∧ f.localCopy = copyAt cat v p) ∧
    ∀ id, (getOrCreateFile cat v p at_).1.version? id = cat.version? id := by
  unfold getOrCreateFile
  split
  · rename_i f hf
    refine ⟨⟨f, hf, rfl, ?_⟩, fun _ => rfl⟩
    rw [copyAt, hf, Option.bind_some]
  · rename_i hnone
    refine ⟨⟨_, Catalog.fileAt?_eq_some_iff.mpr
      ⟨List.mem_append_right _ List.mem_cons_self, rfl, rfl⟩, rfl, ?_⟩, fun id => ?_⟩
    · rw [copyAt, hnone, Option.bind_none]
    · simp [Catalog.version?, Catalog.insertFile]

/-- **The upsert of a recovery**, at its path. -/
lemma observedCatalog_spec (cat : Catalog) (v : VaultId) (e : LocalEntry)
    (seenAt : Option Stamp) (at_ : Stamp) :
    (∃ f, (observedCatalog cat v e seenAt (some at_)).1.fileAt? v e.path = some f ∧
      f.localCopy = some { observedCopy (copyAt cat v e.path) none e seenAt with
        recoveredAt := some at_ }) ∧
    ∀ id, (observedCatalog cat v e seenAt (some at_)).1.version? id = cat.version? id := by
  obtain ⟨⟨f, hf, hid, hcopy⟩, hversion⟩ := getOrCreateFile_fileAt cat v e.path e.observedAt
  unfold observedCatalog
  generalize getOrCreateFile cat v e.path e.observedAt = res at hf hid hversion
  obtain ⟨cat1, id⟩ := res
  refine ⟨⟨_, fileAt?_mapLocalCopies cat1 _ hf, ?_⟩, fun id => ?_⟩
  · have hid' : f.id = id := hid
    simp [VaultFile.withCopy, hid', hcopy]
  · exact (cat1.version?_mapLocalCopies _ id).trans (hversion id)

lemma observeLocalCopy_eq_upsert (vaults : VaultTable) (cat : Catalog) (v : VaultId)
    (e : LocalEntry) (seenAt recoveredAt : Option Stamp) :
    observeLocalCopy vaults cat v e seenAt recoveredAt =
      cancelReappearedDeletions vaults (observedCatalog cat v e seenAt recoveredAt).1 v
        [(observedCatalog cat v e seenAt recoveredAt).2] := rfl

/-- **What a fingerprint matches**: the version it names, unless the content is recognised as
the version it was held back for. -/
lemma settleCloudOnly_matched (cat : Catalog) (lc : LocalCopy) {id : RowId}
    (hmatched : lc.matchedArchiveVersionId = some id) :
    (settleCloudOnly cat lc).matchedArchiveVersionId = some id ↔
      ¬ ∃ h, lc.cloudOnlyVersionId = some h ∧ h ≠ id ∧ ∃ u, cat.version? h = some u ∧
        u.integrity = .verified ∧ u.availability = .available ∧ lc.presence = .present ∧
        lc.fileType = .regular ∧ lc.plaintextSha256.isSome ∧
        lc.plaintextSha256 = u.plaintextSha256 := by
  unfold settleCloudOnly
  cases hhold : lc.cloudOnlyVersionId with
  | none => simp [hmatched]
  | some h =>
      dsimp only
      cases hv : cat.version? h with
      | none => simp [hmatched, hv]
      | some u =>
          dsimp only
          split
          · rename_i hq
            simp only [hmatched, true_iff]
            rintro ⟨h', hh', -, u', hu', hi, ha, -⟩
            cases hh'
            cases hv.symm.trans hu'
            exact hq.elim (fun h => h hi) fun h => h ha
          · rename_i hq
            push Not at hq
            split
            · rename_i hsame
              simp only [Option.some.injEq]
              constructor
              · rintro rfl ⟨h', hh', hne, -⟩
                exact hne hh'.symm
              · intro hno
                by_contra hne
                exact hno ⟨h, rfl, hne, u, hv, hq.1, hq.2, hsame⟩
            · rename_i hdiff
              simp only [hmatched, true_iff]
              rintro ⟨h', hh', -, u', hu', -, -, hrest⟩
              cases hh'
              cases hv.symm.trans hu'
              exact hdiff hrest

/-- The row of a publication before it is settled. -/
def fingerprinted (cat : Catalog) (v : VaultId) (path : Path) (st : FileStat)
    (target : RecoverTarget) (at_ : Stamp) (seenAt : Option Stamp) : LocalCopy :=
  { observedCopy (copyAt cat v path) none (publishedEntry path st at_) seenAt with
    recoveredAt := some at_
    plaintextSha256 := some target.sha256
    matchedArchiveVersionId := some target.versionId }

/-- A recovery keeps a hold of content the row says is there, and no other. -/
lemma hold_fingerprinted {at_ : Stamp} {id : RowId} :
    (fingerprinted cat v path st target at_ seenAt).cloudOnlyVersionId = some id ↔
      ∃ lc, copyAt cat v path = some lc ∧ lc.presence = .present ∧
        lc.cloudOnlyVersionId = some id := by
  cases h : copyAt cat v path with
  | none => simp [fingerprinted, observedCopy, publishedEntry, h, presenceOf]
  | some lc =>
      by_cases hp : lc.presence = .present <;>
        simp [fingerprinted, observedCopy, publishedEntry, h, presenceOf, hp]

/-- **A publication records the copy matched to its version** exactly when no twin holds it
back. -/
theorem recordedAs_recordRecovered {at_ : Stamp}
    (h : recordRecovered vaults cat v path st target at_ seenAt = some cat') :
    RecordedAs cat' v path target.versionId ↔ ¬HeldForTwin cat v path target := by
  obtain ⟨mid, hmid, rfl⟩ := Option.map_eq_some_iff.mp h
  rw [observeLocalCopy_eq_upsert] at hmid
  have hfiles := (cancelReappearedDeletions_spec hmid).1
  obtain ⟨⟨f, hf, hcopy⟩, hversions⟩ :=
    observedCatalog_spec cat v (publishedEntry path st at_) seenAt at_
  have hfmid : mid.fileAt? v path = some f := (fileAt?_of_files hfiles).trans hf
  obtain ⟨-, hfv, hfp⟩ := Catalog.mem_of_fileAt? hfmid
  have hversion : ∀ id, mid.version? id = cat.version? id := fun id =>
    (version?_of_files hfiles id).trans (hversions id)
  -- the row at the path after the fingerprint
  have hrow : (setLocalFingerprint mid v path target.sha256 (some target.versionId)).fileAt? v path
      = some (f.withCopy (f.localCopy.map fun lc => settleCloudOnly mid
        { lc with
          plaintextSha256 := some target.sha256
          matchedArchiveVersionId := some target.versionId })) := by
    have := fileAt?_mapLocalCopies mid (fun f => if f.vaultId = v ∧ f.currentPath = some path then
      f.localCopy.map fun lc => settleCloudOnly mid
        { lc with
          plaintextSha256 := some target.sha256
          matchedArchiveVersionId := some target.versionId }
      else f.localCopy) hfmid
    rwa [if_pos ⟨hfv, hfp⟩] at this
  have hcopyAt : copyAt (setLocalFingerprint mid v path target.sha256 (some target.versionId)) v
      path = some (settleCloudOnly mid (fingerprinted cat v path st target at_ seenAt)) := by
    rw [copyAt, hrow]
    simp only [Option.bind_some, VaultFile.withCopy, hcopy, Option.map_some]
    rfl
  have hpresent : (fingerprinted cat v path st target at_ seenAt).presence = .present := by
    cases h : copyAt cat v path <;> simp [fingerprinted, observedCopy, publishedEntry, h, presenceOf]
  have htype : (fingerprinted cat v path st target at_ seenAt).fileType = .regular := by
    cases h : copyAt cat v path <;> simp [fingerprinted, observedCopy, publishedEntry, h]
  have hrecorded : RecordedAs (setLocalFingerprint mid v path target.sha256
      (some target.versionId)) v path target.versionId ↔
      (settleCloudOnly mid (fingerprinted cat v path st target at_ seenAt)).matchedArchiveVersionId
        = some target.versionId := by
    simp only [RecordedAs, hcopyAt, Option.some.injEq, exists_eq_left', settleCloudOnly_presence,
      hpresent, true_and]
  rw [hrecorded, settleCloudOnly_matched mid _ rfl, not_iff_not]
  simp only [hversion, hpresent, htype, true_and, HeldForTwin, hold_fingerprinted]
  constructor
  · rintro ⟨id, ⟨lc, hlc, hp, hid⟩, hne, u, hu, hi, ha, -, heq⟩
    exact ⟨lc, hlc, hp, id, hid, hne, u, hu, hi, ha, heq⟩
  · rintro ⟨lc, hlc, hp, id, hid, hne, u, hu, hi, ha, heq⟩
    exact ⟨id, ⟨lc, hlc, hp, hid⟩, hne, u, hu, hi, ha, rfl, heq⟩

/-! ### What a restart records -/

/-- The deletions that wait for the file at the path can be cancelled: none has started. -/
def Revocable (vaults : VaultTable) (cat : Catalog) (v : VaultId) (path : Path) : Prop :=
  ∀ g ∈ openGroups cat.jobs v (heldIds cat v [path]), Cancellable vaults cat.jobs v g

/-- The row at the path describes what was found already, matched to the version. -/
def AlreadyMatched (cat : Catalog) (v : VaultId) (path : Path) (st : FileStat) (id : RowId) :
    Prop :=
  ∃ lc, copyAt cat v path = some lc ∧ lc.fileType = .regular ∧ lc.size = some st.size ∧
    lc.mtimeNs = some st.mtimeNs ∧ lc.matchedArchiveVersionId = some id

/-- The upsert writes no Job and no item, and finds the deletions of the path. -/
lemma observedCatalog_jobs (cat : Catalog) (v : VaultId) (e : LocalEntry)
    (seenAt recoveredAt : Option Stamp) :
    (observedCatalog cat v e seenAt recoveredAt).1.jobs = cat.jobs ∧
      openGroups cat.jobs v [(observedCatalog cat v e seenAt recoveredAt).2] =
        openGroups cat.jobs v (heldIds cat v [e.path]) := by
  have hrows := (getOrCreateFile_rows cat v e.path e.observedAt).1
  have hgroups := openGroups_getOrCreateFile cat v e.path e.observedAt
  unfold observedCatalog
  generalize getOrCreateFile cat v e.path e.observedAt = res at hrows hgroups
  exact ⟨hrows, hgroups⟩

/-- **An observation raises** when a deletion of its file has started. -/
lemma isSome_observeLocalCopy {e : LocalEntry} {recoveredAt : Option Stamp} :
    (observeLocalCopy vaults cat v e seenAt recoveredAt).isSome ↔
      Revocable vaults cat v e.path := by
  obtain ⟨hjobs, hgroups⟩ := observedCatalog_jobs cat v e seenAt recoveredAt
  rw [observeLocalCopy_eq_upsert, Option.isSome_iff_exists, Revocable, ← hgroups, ← hjobs]
  constructor
  · rintro ⟨cat', h⟩
    exact (cancelReappearedDeletions_iff.mp h).1
  · intro h
    obtain ⟨cat', hfiles, hrev⟩ := exists_revoked rfl rfl v (openGroups
      (observedCatalog cat v e seenAt recoveredAt).1.jobs v
      [(observedCatalog cat v e seenAt recoveredAt).2])
    exact ⟨cat', cancelReappearedDeletions_iff.mpr ⟨h, hfiles, hrev⟩⟩

/-- The cancellations that were made write no file. -/
lemma cancelUntilRefused_files (vaults : VaultTable) (v : VaultId) (gs : List (Option GroupId)) :
    (cancelUntilRefused vaults v cat gs).files = cat.files := by
  induction gs generalizing cat with
  | nil => rfl
  | cons g gs ih =>
      rw [cancelUntilRefused]
      split
      · rename_i cat' hcancel
        obtain ⟨n, -, hn⟩ := Option.bind_eq_some_iff.mp hcancel
        rw [ih, cancelCloudDeletion_eq hn, cancelRows_files]
      · rfl

/-- **An observation that raised** leaves the version matched only if the row had it. -/
lemma recordedAs_refusedObservation {at_ : Stamp} {id : RowId} :
    RecordedAs (refusedObservation vaults cat v (publishedEntry path st at_) seenAt (some at_)) v
      path id ↔ AlreadyMatched cat v path st id := by
  obtain ⟨⟨f, hf, hcopy⟩, -⟩ := observedCatalog_spec cat v (publishedEntry path st at_) seenAt at_
  have hfiles : (refusedObservation vaults cat v (publishedEntry path st at_) seenAt
      (some at_)).files =
        (observedCatalog cat v (publishedEntry path st at_) seenAt (some at_)).1.files :=
    cancelUntilRefused_files vaults v _
  rw [recordedAs_of_files hfiles, RecordedAs, copyAt]
  have hpath : (publishedEntry path st at_).path = path := rfl
  rw [hpath] at hf
  rw [hf, Option.bind_some, hcopy]
  cases h : copyAt cat v path with
  | none => simp [AlreadyMatched, observedCopy, publishedEntry, h]
  | some lc =>
      have hunchanged : lc.unchangedBy (publishedEntry path st at_) ↔
          lc.fileType = .regular ∧ lc.size = some st.size ∧ lc.mtimeNs = some st.mtimeNs := by
        simp only [LocalCopy.unchangedBy, Bool.and_eq_true, decide_eq_true_eq, and_assoc]
        exact Iff.rfl
      by_cases hsame : lc.unchangedBy (publishedEntry path st at_)
      · obtain ⟨htype, hsize, hmtime⟩ := hunchanged.mp hsame
        have hpresent : presenceOf (publishedEntry path st at_).fileType = .present := rfl
        simp [AlreadyMatched, observedCopy, hpath, h, hsame, htype, hsize, hmtime, hpresent]
      · have hno := hunchanged.not.mp hsame
        simp only [AlreadyMatched, observedCopy, hpath, h, hsame, Option.some.injEq,
          exists_eq_left', Bool.false_eq_true, if_false, reduceCtorEq, and_false, false_iff]
        rintro ⟨htype, hsize, hmtime, -⟩
        exact hno ⟨htype, hsize, hmtime⟩

/-- The condition under which a restart records the copy it adopts. -/
def Adoptable (vaults : VaultTable) (cat : Catalog) (v : VaultId) (path : Path) (st : FileStat)
    (target : RecoverTarget) : Prop :=
  (Revocable vaults cat v path → ¬HeldForTwin cat v path target) ∧
    (¬Revocable vaults cat v path → AlreadyMatched cat v path st target.versionId)

/-- **A restart that completes a Job records the copy matched to its version** exactly when no
twin holds it back and no deletion has started, or the row had the version already. -/
theorem recordedAs_adopted {job : LocalJob}
    {at_ : Stamp} {w : LocalWorld} (hstale : w.stale job.id at_) :
    RecordedAs (adopt.adopted vaults job st target at_ w).2.cat job.vaultId job.path
        target.versionId ↔
      Adoptable vaults (reconcileJobTransition w.cat job.id .completed at_) job.vaultId job.path st
        target := by
  rw [adopt.adopted, if_pos hstale]
  dsimp only
  have hsome : (recordRecovered vaults (reconcileJobTransition w.cat job.id .completed at_)
      job.vaultId job.path st target at_ (some at_)).isSome ↔
      Revocable vaults (reconcileJobTransition w.cat job.id .completed at_) job.vaultId job.path := by
    rw [recordRecovered, Option.isSome_map, isSome_observeLocalCopy]
    rfl
  split
  · rename_i cat' hrecord
    have hrev := hsome.mp (Option.isSome_of_eq_some hrecord)
    rw [recordedAs_recordRecovered hrecord]
    exact ⟨fun h => ⟨fun _ => h, fun hno => (hno hrev).elim⟩, fun h => h.1 hrev⟩
  · rename_i hrecord
    have hrev := hsome.not.mp (by rw [hrecord]; decide)
    rw [recordedAs_refusedObservation]
    exact ⟨fun h => ⟨fun hyes => (hrev hyes).elim, fun _ => h⟩, fun h => h.2 hrev⟩

end Frostvault
