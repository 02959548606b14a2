import Frostvault.CloudScan.Versions
import Frostvault.Observation.Admission

/-!
Content that reappears at a cloud-only path is held back.

The hold is a column of the Local Copy, written by the observations, by settling and by the
Owner's confirmation, and read by the two admissions.  What each operation does is said once,
file by file (`CopiesBy`, `KeepsHold`) and Job by Job (`Admits`); the law of a step and of a run
follows.

* `keepsHold_observedCopy`, `keepsHold_settleCloudOnly`, ..: one lemma for each expression;
* `admits_queueJobs`, `admits_queueAutoUploads`: Jobs are inserted for content not held back;
* `hold_law`: the law, over every run;
* `replaced_by_symlink_releases_hold`: an entry that is no regular file ends a hold too.
-/

namespace Frostvault

open List

/-! ### The operations -/

/-- The operations that write holds or read them, and what the cloud scan and the verification
do to version rows in between. -/
inductive HoldOp
  | observe (v : VaultId) (e : LocalEntry) (seenAt recoveredAt : Option Stamp)
  | observeBatch (v : VaultId) (entries : List LocalEntry) (seenAt : Option Stamp)
  | copyReplaced (id : FileId) (t : FileType) (size : Option ℕ) (mtimeNs : Option ℤ)
      (observedAt : Stamp)
  | fingerprint (v : VaultId) (p : Path) (digest : Digest) (matched : Option RowId)
      (stamp : Stamp)
  | settle (v : VaultId) (path : Option Path) (stamp : Stamp)
  | confirm (v : VaultId) (p : Path) (stamp : Stamp)
  | queue (intercept : FileId → Interception) (mode : Option VerificationMode)
      (q : QueueRequest)
  | queueAuto (intercept : FileId → Interception) (mode : Option VerificationMode)
      (a : AutoUpload)
  | revise (g : VaultFile → ArchiveVersion → ArchiveVersion) (hg : Catalog.KeepsKeys g)

/-- The operation is a recovery. -/
def HoldOp.recovers : HoldOp → Bool
  | .observe _ _ _ recoveredAt => recoveredAt.isSome
  | _ => false

/-- The operation is the Owner's confirmation. -/
def HoldOp.confirms : HoldOp → Bool
  | .confirm _ _ _ => true
  | _ => false

/-- An operation in its transaction; `none` when it raises. -/
def holdStep (vaults : VaultTable) (w : HoldWorld) : HoldOp → Option HoldWorld
  | .observe v e seenAt recoveredAt =>
      (observeLocalCopy vaults w.cat v e seenAt recoveredAt).map fun cat => { w with cat := cat }
  | .observeBatch v entries seenAt =>
      (observeLocalCopiesBatch vaults w.cat v entries seenAt).map fun cat => { w with cat := cat }
  | .copyReplaced id t size mtimeNs observedAt =>
      some { w with cat := observeReplacedLocalCopy w.cat id t size mtimeNs observedAt }
  | .fingerprint v p digest matched stamp => some (fingerprintCopies w v p digest matched stamp)
  | .settle v path stamp => some (settleCloudOnlyCopies w v path stamp)
  | .confirm v p stamp => confirmCloudOnlyReplacement w v p stamp
  | .queue intercept mode q =>
      (queueJobs intercept mode w.cat q).map fun r => { w with cat := r.1 }
  | .queueAuto intercept mode a =>
      (queueAutoUploads intercept mode w.cat a).map fun r => { w with cat := r.1 }
  | .revise g hg => some { w with cat := w.cat.mapVersions g hg }

/-! ### The law -/

/-- The version is verified and available. -/
def Catalog.Recoverable (cat : Catalog) (id : RowId) : Prop :=
  ∃ u, cat.version? id = some u ∧ u.integrity = .verified ∧ u.availability = .available

/-- The Local Copy has the bytes of the version and is matched to it. -/
def Catalog.Recognised (cat : Catalog) (lc : LocalCopy) (id : RowId) : Prop :=
  lc.presence = .present ∧ lc.matchedArchiveVersionId = some id ∧
    ∃ u, cat.version? id = some u ∧ u.plaintextSha256.isSome ∧
      lc.plaintextSha256 = u.plaintextSha256

/-- Why a hold may end: the version is gone or not verified any more, the content is
recognised, the Owner confirmed, a recovery wrote the path, or the entry that replaced the
content is no regular file. -/
inductive HoldEnds (cat' : Catalog) (op : HoldOp) (lc' : LocalCopy) (id : RowId) : Prop
  | unrecoverable (h : ¬ cat'.Recoverable id)
  | recognised (h : cat'.Recognised lc' id)
  | confirmed (h : op.confirms)
  | recovered (h : op.recovers)
  | replaced (fileId : FileId) (t : FileType) (size : Option ℕ) (mtimeNs : Option ℤ)
      (observedAt : Stamp) (h : op = .copyReplaced fileId t size mtimeNs observedAt)
      (hpresence : lc'.presence ≠ .present)

/-- What an operation does to held content. -/
structure HoldLaw (w : HoldWorld) (op : HoldOp) (w' : HoldWorld) : Prop where
  /-- A Local Copy that appears without a recovery is held by the newest version that is
  verified and available. -/
  held : ∀ f' ∈ w'.cat.files, f'.present →
    (∀ f ∈ w.cat.files, f.id = f'.id → f.present = false) → op.recovers = false →
      ∀ id, f'.onlyCloudCopy = some id → f'.hold = some id
  /-- No upload Job is inserted for a file that is held. -/
  not_admitted : ∀ j ∈ w'.cat.jobs, j.action = .upload → j.id ∉ w.cat.jobs.map Job.id →
    ∀ f ∈ w.cat.files, f.id = j.vaultFileId → f.hold = none
  /-- A hold ends with cause only. -/
  released : ∀ f ∈ w.cat.files, ∀ f' ∈ w'.cat.files, f'.id = f.id → ∀ id, f.hold = some id →
    f'.hold = none → ∃ lc', f'.localCopy = some lc' ∧ HoldEnds w'.cat op lc' id

/-- A hold is for a version of the file. -/
def Catalog.HoldsOwn (cat : Catalog) : Prop :=
  ∀ f ∈ cat.files, ∀ id, f.hold = some id → ∀ u, cat.version? id = some u → u ∈ f.versions

/-! ### File by file -/

variable {cat cat' : Catalog} {f f' : VaultFile} {id : RowId}

/-- Version ids are unique, so a version of a file is what its id finds. -/
lemma Catalog.version?_eq_some_iff {u : ArchiveVersion} :
    cat.version? id = some u ↔ u.id = id ∧ ∃ f ∈ cat.files, u ∈ f.versions := by
  constructor
  · intro h
    refine ⟨by simpa using find?_some h, ?_⟩
    exact mem_flatMap.mp (mem_of_find?_eq_some h)
  · rintro ⟨rfl, f, hf, hu⟩
    have hmem : u ∈ cat.files.flatMap VaultFile.versions := mem_flatMap.mpr ⟨f, hf, hu⟩
    cases h : cat.version? u.id with
    | none => simpa using find?_eq_none.mp h u hmem
    | some w =>
        have hid : w.id = u.id := by simpa using find?_some h
        obtain ⟨g, hg, hw⟩ := mem_flatMap.mp (mem_of_find?_eq_some h)
        rw [(cat.version_eq_of_id_eq hg hf hw hu hid).2]

lemma mem_of_onlyCloudCopy (h : f.onlyCloudCopy = some id) : ∃ u ∈ f.versions, u.id = id ∧
    u.integrity = .verified ∧ u.availability = .available := by
  obtain ⟨u, hu, rfl⟩ := Option.map_eq_some_iff.mp h
  obtain ⟨hmem, hq⟩ := mem_filter.mp (newest_mem hu)
  simp only [Bool.and_eq_true, decide_eq_true_eq] at hq
  exact ⟨u, hmem, rfl, hq⟩

lemma not_recoverable_of_onlyCloudCopy (hown : ∀ u, cat.version? id = some u → u ∈ f.versions)
    (h : f.onlyCloudCopy = none) : ¬ cat.Recoverable id := by
  rintro ⟨u, hu, hi, ha⟩
  have hmem : u ∈ f.versions.filter fun v =>
      v.integrity = .verified && v.availability = .available :=
    mem_filter.mpr ⟨hown u hu, by simp [hi, ha]⟩
  rw [newest_eq_none.mp (Option.map_eq_none_iff.mp h)] at hmem
  cases hmem

/-- What an operation does to the Local Copy of a file, as far as its hold goes. -/
structure KeepsHold (cat : Catalog) (op : HoldOp) (f : VaultFile) (lc' : LocalCopy) : Prop where
  held : lc'.presence = .present → f.present = false → op.recovers = false →
    ∀ id, f.onlyCloudCopy = some id → lc'.cloudOnlyVersionId = some id
  own : ∀ id, lc'.cloudOnlyVersionId = some id → f.hold = some id ∨ f.onlyCloudCopy = some id
  released : ∀ id, f.hold = some id → (∀ u, cat.version? id = some u → u ∈ f.versions) →
    lc'.cloudOnlyVersionId = none → HoldEnds cat op lc' id

/-- The files of a catalog after their Local Copies were rewritten by `c`; the new ones are
blank. -/
structure CopiesBy (cat cat' : Catalog) (c : VaultFile → Option LocalCopy) : Prop where
  files : ∃ created : List VaultFile,
    (∀ g ∈ created, g.localCopy = none ∧ g.versions = [] ∧ g.id ∉ cat.files.map VaultFile.id) ∧
    cat'.files = (cat.files ++ created).map fun f => f.withCopy (c f)

lemma copiesBy_mapLocalCopies (cat : Catalog) (c : VaultFile → Option LocalCopy) :
    CopiesBy cat (cat.mapLocalCopies c) c :=
  ⟨[], by simp, by rw [append_nil]; rfl⟩

lemma CopiesBy.version? {c : VaultFile → Option LocalCopy} (h : CopiesBy cat cat' c)
    (id : RowId) : cat'.version? id = cat.version? id := by
  obtain ⟨created, hblank, hfiles⟩ := h.files
  have hnew : (created.flatMap VaultFile.versions) = [] := by
    rw [flatMap_eq_nil_iff]
    exact fun g hg => (hblank g hg).2.1
  unfold Catalog.version?
  rw [hfiles, flatMap_map, flatMap_append]
  change ((cat.files.flatMap VaultFile.versions) ++ created.flatMap VaultFile.versions).find? _ = _
  rw [hnew, append_nil]

lemma CopiesBy.eq_withCopy {c : VaultFile → Option LocalCopy} (h : CopiesBy cat cat' c)
    (hf : f ∈ cat.files) (hf' : f' ∈ cat'.files) (hid : f'.id = f.id) : f' = f.withCopy (c f) := by
  obtain ⟨created, -, hfiles⟩ := h.files
  refine cat'.eq_of_id_eq hf' ?_ hid
  rw [hfiles]
  exact mem_map_of_mem (mem_append_left _ hf)

/-- The Jobs of a catalog: those there were, and uploads of files that are not held. -/
def Admits (cat cat' : Catalog) : Prop :=
  ∀ j ∈ cat'.jobs, j.id ∈ cat.jobs.map Job.id ∨
    (j.action = .upload → ∀ f ∈ cat.files, f.id = j.vaultFileId → f.hold = none)

lemma admits_of_ids (h : cat'.jobs.map Job.id = cat.jobs.map Job.id) : Admits cat cat' :=
  fun _ hj => .inl (h ▸ mem_map_of_mem hj)

/-! ### The expressions -/

variable {op : HoldOp} {lc lc' : LocalCopy} {c : VaultFile → Option LocalCopy}

/-- A Local Copy that is left alone, as far as its presence and its hold go. -/
lemma keepsHold_of_same (h : f.localCopy = some lc) (hpres : lc'.presence = lc.presence)
    (hhold : lc'.cloudOnlyVersionId = lc.cloudOnlyVersionId) : KeepsHold cat op f lc' where
  held hp hf _ _ _ := by
    rw [hpres] at hp
    simp [VaultFile.present, h, hp] at hf
  own id hid := by
    refine .inl ?_
    rw [VaultFile.hold, h, Option.bind_some, ← hhold, hid]
  released id hid _ hnone := by
    rw [VaultFile.hold, h, Option.bind_some, ← hhold, hnone] at hid
    cases hid

variable {entries : List LocalEntry} {intercept : FileId → Interception}
  {mode : Option VerificationMode} {q : QueueRequest} {r : QueueRow} {seenAt : Option Stamp}
  {v : VaultId} {vaults : VaultTable}

/-- **The upsert of an observation.**  Content that appears is held by the version the file
has, unless it is a recovery; content that was there stays as it is held. -/
lemma keepsHold_observedCopy {only : Option RowId} {e : LocalEntry}
    (honly : only = f.onlyCloudCopy ∨ only = none ∧ op.recovers)
    (hpres : lc'.presence = (observedCopy f.localCopy only e seenAt).presence)
    (hhold : lc'.cloudOnlyVersionId =
      (observedCopy f.localCopy only e seenAt).cloudOnlyVersionId) : KeepsHold cat op f lc' := by
  have hown : ∀ id, only = some id → f.onlyCloudCopy = some id := by
    rintro id rfl
    rcases honly with h | ⟨h, -⟩
    · exact h.symm
    · cases h
  have hsome : ∀ id, op.recovers = false → f.onlyCloudCopy = some id → only = some id := by
    intro id hrec hid
    rcases honly with rfl | ⟨-, h⟩
    · exact hid
    · rw [hrec] at h
      cases h
  cases hlc : f.localCopy with
  | none =>
      rw [hlc] at hpres hhold
      have hempty : f.hold = none := by rw [VaultFile.hold, hlc, Option.bind_none]
      refine ⟨fun hp _ hrec id hid => ?_, fun id hid => .inr ?_, fun id hid => ?_⟩
      · have he : presenceOf e.fileType = .present := hpres.symm.trans hp
        rw [hhold, observedCopy]
        simp only [he, if_true]
        exact hsome id hrec hid
      · rw [hhold, observedCopy] at hid
        dsimp only at hid
        split at hid
        · exact hown id hid
        · cases hid
      · rw [hempty] at hid
        cases hid
  | some lc =>
      rw [hlc] at hpres hhold
      have hlcHold : f.hold = lc.cloudOnlyVersionId := by
        rw [VaultFile.hold, hlc, Option.bind_some]
      refine ⟨fun hp hf hrec id hid => ?_, fun id hid => ?_, fun id hid howns hnone => ?_⟩
      · have he : presenceOf e.fileType = .present := hpres.symm.trans hp
        have hne : lc.presence ≠ .present := by simpa [VaultFile.present, hlc] using hf
        rw [hhold, observedCopy]
        simp only [he, hne, if_true, ne_eq, not_false_eq_true, and_self]
        exact hsome id hrec hid
      · rw [hhold, observedCopy] at hid
        dsimp only at hid
        split at hid
        · rename_i h
          rw [if_pos h.1] at hid
          exact .inr (hown id hid)
        · exact .inl (hlcHold.trans hid)
      · rw [hhold, observedCopy] at hnone
        dsimp only at hnone
        split at hnone
        · rename_i h
          rw [if_pos h.1] at hnone
          rcases honly with rfl | ⟨-, hrec⟩
          · exact .unrecoverable (not_recoverable_of_onlyCloudCopy howns hnone)
          · exact .recovered hrec
        · rw [hlcHold, hnone] at hid
          cases hid

/-- A hold that is lifted, with cause, from content that stays. -/
lemma keepsHold_of_lifted (h : f.localCopy = some lc) (hpres : lc'.presence = lc.presence)
    (hnone : lc'.cloudOnlyVersionId = none)
    (hends : ∀ id, lc.cloudOnlyVersionId = some id → HoldEnds cat op lc' id) :
    KeepsHold cat op f lc' where
  held hp hf _ _ _ := by
    rw [hpres] at hp
    simp [VaultFile.present, h, hp] at hf
  own id hid := by
    rw [hnone] at hid
    cases hid
  released id hid _ _ := hends id (by rwa [VaultFile.hold, h, Option.bind_some] at hid)

/-- Settling lifts a hold for a version that is gone, or recognises the content. -/
lemma keepsHold_settleCloudOnly (h : f.localCopy = some lc)
    (hpres : lc'.presence = lc.presence)
    (hhold : lc'.cloudOnlyVersionId = lc.cloudOnlyVersionId) :
    KeepsHold cat op f (settleCloudOnly cat lc') := by
  cases hid : lc'.cloudOnlyVersionId with
  | none =>
      rw [settleCloudOnly, hid]
      exact keepsHold_of_same h hpres hhold
  | some id =>
      have heq : ∀ id', lc.cloudOnlyVersionId = some id' → id' = id := by
        intro id' hid'
        exact Option.some.inj (hid'.symm.trans (hhold.symm.trans hid))
      rw [settleCloudOnly, hid]
      dsimp only
      split
      · rename_i hv
        refine keepsHold_of_lifted h hpres rfl fun id' hid' => .unrecoverable ?_
        rintro ⟨u, hu, -⟩
        rw [heq id' hid', hv] at hu
        cases hu
      · rename_i u hv
        split
        · rename_i hq
          refine keepsHold_of_lifted h hpres rfl fun id' hid' => .unrecoverable ?_
          rintro ⟨u', hu', hi, ha⟩
          rw [heq id' hid', hv] at hu'
          cases hu'
          rcases hq with hq | hq
          · exact hq hi
          · exact hq ha
        · split
          · rename_i hq
            refine keepsHold_of_lifted h hpres rfl fun id' hid' => ?_
            obtain ⟨hpresent, -, hsha, hdigest⟩ := hq
            rw [heq id' hid']
            exact .recognised ⟨hpresent, rfl, u, hv, hdigest ▸ hsha, hdigest⟩
          · exact keepsHold_of_same h hpres hhold

/-- **The entry that replaced the content**: held like an observation when it is a regular
file, and nothing is held otherwise. -/
lemma keepsHold_observeReplaced {fileId : FileId} {t : FileType} {size : Option ℕ}
    {mtimeNs : Option ℤ} {observedAt : Stamp} (hpres : lc'.presence = presenceOf t)
    (hhold : lc'.cloudOnlyVersionId = if presenceOf t = .present then f.onlyCloudCopy else none) :
    KeepsHold cat (.copyReplaced fileId t size mtimeNs observedAt) f lc' where
  held hp _ _ id hid := by
    rw [hhold, if_pos (hpres.symm.trans hp), hid]
  own id hid := by
    rw [hhold] at hid
    split at hid
    · exact .inr hid
    · cases hid
  released id _ hown hnone := by
    rw [hhold] at hnone
    split at hnone
    · exact .unrecoverable (not_recoverable_of_onlyCloudCopy hown hnone)
    · rename_i hne
      exact .replaced fileId t size mtimeNs observedAt rfl (hpres ▸ hne)

/-! ### The operations, file by file -/

/-- The new files of an observation are blank, and their ids are new. -/
lemma copiesBy_of_created {created : List VaultFile}
    (hblank : ∀ g ∈ created, g.localCopy = none ∧ g.versions = [])
    (hfiles : cat'.files = (cat.files ++ created).map fun f => f.withCopy (c f)) :
    CopiesBy cat cat' c := by
  refine ⟨created, fun g hg => ⟨(hblank g hg).1, (hblank g hg).2, ?_⟩, hfiles⟩
  have hids : ((cat.files ++ created).map VaultFile.id).Nodup := by
    have h := cat'.ids_nodup
    rw [hfiles, map_map] at h
    exact h
  rw [map_append] at hids
  exact fun hmem => (nodup_append.mp hids).2.2 _ hmem _ (mem_map_of_mem hg) rfl

lemma cancelReappearedDeletions_jobIds {ids : List FileId}
    (h : cancelReappearedDeletions vaults cat v ids = some cat') :
    cat'.jobs.map Job.id = cat.jobs.map Job.id := by
  refine cancelReappearedDeletions_induction
    (P := fun d => d.jobs.map Job.id = cat.jobs.map Job.id) rfl ?_ h
  intro d gid d' hd hcancel
  obtain rfl := cancelCloudDeletion_eq hcancel
  rw [(rewrites_cancelRows d _).jobs, map_map, ← hd]
  exact map_congr_left fun j _ => (rewrites_cancelRows d (purgeGroup d v gid)).job_id j

/-- **One observation** writes the upsert to the file of the path. -/
lemma copiesBy_observeLocalCopy {e : LocalEntry} {recoveredAt : Option Stamp}
    (h : observeLocalCopy vaults cat v e seenAt recoveredAt = some cat') :
    ∃ id, CopiesBy cat cat' (fun f =>
        if f.id = id then
          let lc := observedCopy f.localCopy
            (if recoveredAt.isNone then f.onlyCloudCopy else none) e seenAt
          some { lc with recoveredAt := recoveredAt.orElse fun _ => lc.recoveredAt }
        else f.localCopy) ∧ cat'.jobs.map Job.id = cat.jobs.map Job.id := by
  obtain ⟨created, hext, -⟩ := getOrCreateFile_spec cat v e.path e.observedAt
  unfold observeLocalCopy at h
  dsimp only at h
  generalize getOrCreateFile cat v e.path e.observedAt = res at h hext
  obtain ⟨cat1, id⟩ := res
  dsimp only at h hext
  have hblank : ∀ g ∈ created, g.localCopy = none ∧ g.versions = [] := by
    intro g hg
    obtain ⟨_, _, _, hb⟩ := hext.blank g hg
    exact ⟨hb.localCopy, hb.versions⟩
  refine ⟨id, copiesBy_of_created hblank ?_, ?_⟩
  · rw [(cancelReappearedDeletions_spec h).1, ← hext.files]
    rfl
  · rw [cancelReappearedDeletions_jobIds h, ← hext.jobs]
    rfl

section

variable (h : observeLocalCopiesBatch vaults cat v entries seenAt = some cat')

include h

/-- **A batch of observations** writes the upsert of each entry to the file of its path. -/
lemma copiesBy_observeLocalCopiesBatch :
    CopiesBy cat cat' (batchCopy v entries seenAt) := by
  obtain ⟨created, hblank, -, hfiles, -⟩ := observeLocalCopiesBatch_spec h
  refine copiesBy_of_created (fun g hg => ?_) hfiles
  obtain ⟨_, _, _, hb⟩ := hblank g hg
  exact ⟨hb.localCopy, hb.versions⟩

lemma observeLocalCopiesBatch_jobIds :
    cat'.jobs.map Job.id = cat.jobs.map Job.id := by
  unfold observeLocalCopiesBatch at h
  split at h
  · cases h
    rfl
  · rename_i e es _
    obtain ⟨created, hext, -⟩ :=
      resolveOrCreateFiles_spec cat v ((e :: es).map LocalEntry.path) e.observedAt
    dsimp only at h
    rw [cancelReappearedDeletions_jobIds h, ← hext.jobs]
    rfl

end

/-! ### Admissions -/

/-- The catalog after admissions: the files are the same, and the new Jobs upload no file that
is held. -/
structure Admitted (cat cat' : Catalog) : Prop where
  files : cat'.files = cat.files
  jobs : ∃ new, cat'.jobs = cat.jobs ++ new ∧ ∀ j ∈ new, j.action = .upload →
    ∀ f ∈ cat.files, f.id = j.vaultFileId → f.hold = none

lemma Admitted.refl (cat : Catalog) : Admitted cat cat := ⟨rfl, [], by simp, by simp⟩

lemma Admitted.trans {mid : Catalog} (h : Admitted cat mid) (h' : Admitted mid cat') :
    Admitted cat cat' := by
  obtain ⟨new, hjobs, hnew⟩ := h.jobs
  obtain ⟨new', hjobs', hnew'⟩ := h'.jobs
  refine ⟨h'.files.trans h.files, new ++ new', ?_, fun j hj => ?_⟩
  · rw [hjobs', hjobs, append_assoc]
  · rcases mem_append.mp hj with hj | hj
    · exact hnew j hj
    · rw [← h.files]
      exact hnew' j hj

lemma Admitted.admits (h : Admitted cat cat') : Admits cat cat' := by
  obtain ⟨new, hjobs, hnew⟩ := h.jobs
  intro j hj
  rw [hjobs] at hj
  rcases mem_append.mp hj with hj | hj
  · exact .inl (mem_map_of_mem hj)
  · exact .inr (hnew j hj)

/-- A Job is inserted for a file without open Job, or none is. -/
lemma admitted_insertOpenJob {file : FileId} {job : JobId → Job} {hid : ∀ n, (job n).id = n}
    (hfile : ∀ n, (job n).vaultFileId = file)
    (hheld : ∀ n, (job n).action = .upload → ∀ f ∈ cat.files, f.id = file → f.hold = none) :
    Admitted cat (insertOpenJob cat file job hid).1 := by
  unfold insertOpenJob
  split
  · exact Admitted.refl cat
  · refine ⟨rfl, [job cat.freshJobId], rfl, fun j hj hup f hf hfid => ?_⟩
    obtain rfl := mem_singleton.mp hj
    exact hheld _ hup f hf (hfid.trans (hfile _))

lemma hold_none_of_allowed {jobs : List Job}
    (hup : q.action = .upload) (h : q.allowed (r.visible jobs) = some true) :
    r.file.hold = none := by
  simp only [QueueRequest.allowed, hup, Option.some.injEq, localCopyIsUploadEligible,
    Bool.and_eq_true] at h
  simpa [QueueRow.visible, rowAt, VaultFile.hold] using h.1.2

/-- The candidates are rows of files of the catalog. -/
lemma QueueRequest.row_file (h : q.row cat f = some r) :
    r.file = f := by
  simp only [QueueRequest.row, Option.bind_eq_bind] at h
  obtain ⟨p, -, h⟩ := Option.bind_eq_some_iff.mp h
  obtain ⟨-, -, h⟩ := Option.bind_eq_some_iff.mp h
  split at h
  all_goals
    obtain ⟨version, -, h⟩ := Option.bind_eq_some_iff.mp h
    obtain ⟨-, -, h⟩ := Option.bind_eq_some_iff.mp h
    cases h
    rfl

/-- What the loop over the candidates knows of the rows it keeps. -/
def QueueRequest.Clear (q : QueueRequest) (cat : Catalog) (r : QueueRow) : Prop :=
  q.action = .upload → ∀ f ∈ cat.files, f.id = r.file.id → f.hold = none

lemma clear_of_allowed {jobs : List Job}
    (hr : r.file ∈ cat.files) (h : q.allowed (r.visible jobs) = some true) : q.Clear cat r := by
  intro hup f hf hid
  rw [cat.eq_of_id_eq hf hr hid]
  exact hold_none_of_allowed hup h

/-- **One candidate**: the Job of an interception is for a file that is not held, and so is
every row that is kept. -/
lemma consider_spec {acc acc' : Eligible} (hr : r.file ∈ cat.files) (hacc : Admitted cat acc.cat)
    (hrows : ∀ r ∈ acc.rows, q.Clear cat r) (h : q.consider intercept acc r = some acc') :
    Admitted cat acc'.cat ∧ ∀ r ∈ acc'.rows, q.Clear cat r := by
  simp only [QueueRequest.consider, Option.bind_eq_bind, Option.bind_eq_some_iff] at h
  obtain ⟨allowed, hallowed, h⟩ := h
  cases allowed with
  | false =>
      obtain rfl : acc = acc' := by simpa using h
      exact ⟨hacc, hrows⟩
  | true =>
      have hclear := clear_of_allowed hr hallowed
      have hkeep : ∀ r' ∈ acc.rows ++ [r], q.Clear cat r' := by
        intro r' hr'
        rcases mem_append.mp hr' with hr' | hr'
        · exact hrows r' hr'
        · rw [mem_singleton.mp hr']
          exact hclear
      simp only [if_true] at h
      split at h
      · rename_i hup
        split at h
        · cases h
          exact ⟨hacc, hkeep⟩
        · cases h
          exact ⟨hacc, hrows⟩
        · cases h
          refine ⟨hacc.trans (admitted_insertOpenJob (fun _ => rfl) fun _ _ f hf hid => ?_), hrows⟩
          exact hclear hup f (hacc.files ▸ hf) hid
      · cases h
        exact ⟨hacc, hkeep⟩

lemma foldlM_consider_spec
    {rs : List QueueRow} {acc acc' : Eligible} (hrs : ∀ r ∈ rs, r.file ∈ cat.files)
    (hacc : Admitted cat acc.cat) (hrows : ∀ r ∈ acc.rows, q.Clear cat r)
    (h : rs.foldlM (q.consider intercept) acc = some acc') :
    Admitted cat acc'.cat ∧ ∀ r ∈ acc'.rows, q.Clear cat r := by
  induction rs generalizing acc with
  | nil =>
      obtain rfl : acc = acc' := by simpa using h
      exact ⟨hacc, hrows⟩
  | cons r rs ih =>
      rw [foldlM_cons, Option.bind_eq_bind, Option.bind_eq_some_iff] at h
      obtain ⟨mid, hmid, hrest⟩ := h
      obtain ⟨hmidCat, hmidRows⟩ :=
        consider_spec (hrs r mem_cons_self) hacc hrows hmid
      exact ih (fun r' hr' => hrs r' (mem_cons_of_mem r hr')) hmidCat hmidRows hrest

lemma foldl_insertRow_spec
    {rs : List QueueRow} {acc : Catalog × List JobId} (hacc : Admitted cat acc.1)
    (hrows : ∀ r ∈ rs, q.Clear cat r) : Admitted cat (rs.foldl (q.insertRow mode) acc).1 := by
  induction rs generalizing acc with
  | nil => exact hacc
  | cons r rs ih =>
      refine ih ?_ fun r' hr' => hrows r' (mem_cons_of_mem r hr')
      refine hacc.trans (admitted_insertOpenJob (fun _ => rfl) fun _ hup f hf hid => ?_)
      exact hrows r mem_cons_self hup f (hacc.files ▸ hf) hid

/-- **`queue_jobs` admits no upload of a file that is held.** -/
theorem admitted_queueJobs {r : Catalog × List JobId}
    (h : queueJobs intercept mode cat q = some r) : Admitted cat r.1 := by
  simp only [queueJobs, Option.bind_eq_bind, Option.bind_eq_some_iff, Option.some.injEq] at h
  obtain ⟨-, -, found, hfound, rfl⟩ := h
  have hfiles : ∀ r ∈ cat.files.filterMap (q.row cat), r.file ∈ cat.files := by
    intro r hr
    obtain ⟨f, hf, hrow⟩ := mem_filterMap.mp hr
    rw [QueueRequest.row_file hrow]
    exact hf
  obtain ⟨hcat, hrows⟩ := foldlM_consider_spec hfiles (Admitted.refl cat) (by simp) hfound
  exact foldl_insertRow_spec hcat hrows

/-- **Nor does `queue_auto_uploads`.** -/
theorem admitted_queueAutoUploads {a : AutoUpload} {r : Catalog × List JobId}
    (h : queueAutoUploads intercept mode cat a = some r) : Admitted cat r.1 := by
  unfold queueAutoUploads at h
  split at h
  · revert h
    generalize cat.files.filterMap (a.row cat) = ps
    suffices hloop : ∀ (ps : List Path) (acc : Catalog × List JobId), Admitted cat acc.1 →
        (ps.foldlM (fun acc p => do
          let res ← queueJobs intercept mode acc.1 (a.request p)
          some (res.1, acc.2 ++ res.2)) acc) = some r → Admitted cat r.1 from
      hloop ps (cat, []) (Admitted.refl cat)
    intro ps
    induction ps with
    | nil =>
        intro acc hacc h
        obtain rfl : acc = r := by simpa using h
        exact hacc
    | cons p ps ih =>
        intro acc hacc h
        rw [foldlM_cons, Option.bind_eq_bind, Option.bind_eq_some_iff] at h
        obtain ⟨mid, hmid, hrest⟩ := h
        obtain ⟨res, hres, hmid⟩ := Option.bind_eq_some_iff.mp hmid
        cases hmid
        have hadm : Admitted acc.1 res.1 := admitted_queueJobs hres
        exact ih (res.1, acc.2 ++ res.2) (hacc.trans hadm) hrest
  · cases h
    exact Admitted.refl cat

/-! ### The law of a step -/

variable {w w' : HoldWorld}

/-- The versions do not change when Local Copies do, and what ends a hold looks at them. -/
lemma HoldEnds.congr (hv : ∀ id, cat'.version? id = cat.version? id)
    (h : HoldEnds cat op lc' id) : HoldEnds cat' op lc' id := by
  cases h with
  | unrecoverable h =>
      refine .unrecoverable ?_
      rwa [Catalog.Recoverable, hv]
  | recognised h =>
      refine .recognised ?_
      rwa [Catalog.Recognised, hv]
  | confirmed h => exact .confirmed h
  | recovered h => exact .recovered h
  | replaced fileId t size mtimeNs observedAt h hp =>
      exact .replaced fileId t size mtimeNs observedAt h hp

/-- **Rewriting Local Copies within the law**: what each file's expression keeps, the catalog
keeps. -/
lemma holdLaw_of_copies (hown : w.cat.HoldsOwn) (hcopies : CopiesBy w.cat w'.cat c)
    (hkeeps : ∀ f ∈ w.cat.files, ∀ lc', c f = some lc' → KeepsHold w.cat op f lc')
    (hnew : ∀ f, f.localCopy = none → ∀ lc', c f = some lc' → KeepsHold w.cat op f lc')
    (hgone : ∀ f, c f = none → f.localCopy = none) (hadm : Admits w.cat w'.cat) :
    HoldLaw w op w' ∧ w'.cat.HoldsOwn := by
  obtain ⟨created, hblank, hfiles⟩ := hcopies.files
  -- the row a file comes from, with what its expression keeps
  have hrow : ∀ f' ∈ w'.cat.files, ∃ f ∈ w.cat.files ++ created, f' = f.withCopy (c f) ∧
      ∀ lc', c f = some lc' → KeepsHold w.cat op f lc' := by
    intro f' hf'
    rw [hfiles] at hf'
    obtain ⟨f, hf, rfl⟩ := mem_map.mp hf'
    refine ⟨f, hf, rfl, fun lc' hlc' => ?_⟩
    rcases mem_append.mp hf with hold | hnewFile
    · exact hkeeps f hold lc' hlc'
    · exact hnew f (hblank f hnewFile).1 lc' hlc'
  refine ⟨⟨?_, ?_, ?_⟩, ?_⟩
  · intro f' hf' hpresent hbefore hrec id hid
    obtain ⟨f, hf, rfl, hk⟩ := hrow f' hf'
    obtain ⟨lc', hlc', hpres⟩ := Option.any_eq_true _ _ |>.mp hpresent
    have hfp : f.present = false := by
      rcases mem_append.mp hf with hold | hnewFile
      · exact hbefore f hold rfl
      · simp [VaultFile.present, (hblank f hnewFile).1]
    have hlc : c f = some lc' := hlc'
    show (c f).bind LocalCopy.cloudOnlyVersionId = some id
    rw [hlc, Option.bind_some]
    exact (hk lc' hlc).held (of_decide_eq_true hpres) hfp hrec id hid
  · intro j hj hup hid f hf hfid
    rcases hadm j hj with h | h
    · exact (hid h).elim
    · exact h hup f hf hfid
  · intro f hf f' hf' hid id hhold hnone
    obtain rfl := hcopies.eq_withCopy hf hf' hid
    obtain ⟨lc, hlc, -⟩ := Option.bind_eq_some_iff.mp hhold
    cases hc : c f with
    | none =>
        rw [hgone f hc] at hlc
        cases hlc
    | some lc' =>
        have hnone' : lc'.cloudOnlyVersionId = none := by
          have : (c f).bind LocalCopy.cloudOnlyVersionId = none := hnone
          rwa [hc] at this
        refine ⟨lc', rfl, HoldEnds.congr hcopies.version? ?_⟩
        exact (hkeeps f hf lc' hc).released id hhold (hown f hf id hhold) hnone'
  · intro f' hf' id hhold u hu
    rw [hcopies.version?] at hu
    obtain ⟨f, hf, rfl, hk⟩ := hrow f' hf'
    obtain ⟨lc', hlc', hid⟩ := Option.bind_eq_some_iff.mp hhold
    show u ∈ f.versions
    rcases (hk lc' hlc').own id hid with h | h
    · rcases mem_append.mp hf with hold | hnewFile
      · exact hown f hold id h u hu
      · rw [VaultFile.hold, (hblank f hnewFile).1] at h
        cases h
    · obtain ⟨x, hx, hxid, -, -⟩ := mem_of_onlyCloudCopy h
      rcases mem_append.mp hf with hold | hnewFile
      · have hx' := Catalog.version?_eq_some_iff.mpr ⟨hxid, f, hold, hx⟩
        cases hx'.symm.trans hu
        exact hx
      · rw [(hblank f hnewFile).2.1] at hx
        cases hx

lemma copiesBy_of_files (h : cat'.files = cat.files) : CopiesBy cat cat' VaultFile.localCopy := by
  refine ⟨[], by simp, ?_⟩
  rw [append_nil, h]
  exact (map_id _).symm

section

variable (hown : w.cat.HoldsOwn)

include hown

/-- A rewriting of the Local Copies that are there. -/
lemma holdLaw_mapLocalCopies {g : VaultFile → LocalCopy → LocalCopy}
    (hcat : w'.cat = w.cat.mapLocalCopies fun f => f.localCopy.map (g f))
    (hkeeps : ∀ f ∈ w.cat.files, ∀ lc, f.localCopy = some lc → KeepsHold w.cat op f (g f lc)) :
    HoldLaw w op w' ∧ w'.cat.HoldsOwn := by
  refine holdLaw_of_copies hown (hcat ▸ copiesBy_mapLocalCopies w.cat _) ?_ ?_ ?_ ?_
  · intro f hf lc' hlc'
    obtain ⟨lc, hlc, rfl⟩ := Option.map_eq_some_iff.mp hlc'
    exact hkeeps f hf lc hlc
  · intro f hnone lc' hlc'
    rw [hnone] at hlc'
    cases hlc'
  · exact fun f hc => Option.map_eq_none_iff.mp hc
  · rw [hcat]
    exact admits_of_ids rfl

/-- `observe_local_copy` keeps the law. -/
lemma holdLaw_observe {e : LocalEntry} {recoveredAt : Option Stamp}
    (h : observeLocalCopy vaults w.cat v e seenAt recoveredAt = some cat') :
    HoldLaw w (.observe v e seenAt recoveredAt) { w with cat := cat' } ∧ cat'.HoldsOwn := by
  obtain ⟨id, hcopies, hjobs⟩ := copiesBy_observeLocalCopy h
  have honly (f : VaultFile) : (if recoveredAt.isNone then f.onlyCloudCopy else none) =
        f.onlyCloudCopy ∨ (if recoveredAt.isNone then f.onlyCloudCopy else none) = none ∧
          (HoldOp.observe v e seenAt recoveredAt).recovers := by
    cases recoveredAt with
    | none => exact .inl rfl
    | some at_ => exact .inr ⟨rfl, rfl⟩
  have hupsert : ∀ f : VaultFile, ∀ lc', (if f.id = id then
        let lc := observedCopy f.localCopy
          (if recoveredAt.isNone then f.onlyCloudCopy else none) e seenAt
        some { lc with recoveredAt := recoveredAt.orElse fun _ => lc.recoveredAt }
      else f.localCopy) = some lc' → KeepsHold w.cat (.observe v e seenAt recoveredAt) f lc' := by
    intro f lc' hlc'
    split at hlc'
    · cases hlc'
      exact keepsHold_observedCopy (honly f) rfl rfl
    · exact keepsHold_of_same hlc' rfl rfl
  refine holdLaw_of_copies hown hcopies (fun f _ => hupsert f) (fun f _ => hupsert f) ?_
    (admits_of_ids hjobs)
  intro f hf
  dsimp only at hf
  split at hf
  · cases hf
  · exact hf

/-- `observe_local_copies_batch` keeps the law. -/
lemma holdLaw_observeBatch (h : observeLocalCopiesBatch vaults w.cat v entries seenAt = some cat') :
    HoldLaw w (.observeBatch v entries seenAt) { w with cat := cat' } ∧ cat'.HoldsOwn := by
  have hupsert : ∀ f : VaultFile, ∀ lc', batchCopy v entries seenAt f = some lc' →
      KeepsHold w.cat (.observeBatch v entries seenAt) f lc' := by
    intro f lc' hlc'
    unfold batchCopy at hlc'
    split at hlc'
    · cases hlc'
      exact keepsHold_observedCopy (.inl rfl) rfl rfl
    · exact keepsHold_of_same hlc' rfl rfl
  refine holdLaw_of_copies hown (copiesBy_observeLocalCopiesBatch h) (fun f _ => hupsert f)
    (fun f _ => hupsert f) ?_ (admits_of_ids (observeLocalCopiesBatch_jobIds h))
  intro f hf
  unfold batchCopy at hf
  split at hf
  · cases hf
  · exact hf

/-- `observe_replaced_local_copy` keeps the law. -/
lemma holdLaw_copyReplaced (id : FileId) (t : FileType) (size : Option ℕ) (mtimeNs : Option ℤ)
    (observedAt : Stamp) :
    HoldLaw w (.copyReplaced id t size mtimeNs observedAt)
        { w with cat := observeReplacedLocalCopy w.cat id t size mtimeNs observedAt } ∧
      (observeReplacedLocalCopy w.cat id t size mtimeNs observedAt).HoldsOwn := by
  refine holdLaw_of_copies hown (copiesBy_mapLocalCopies w.cat _) ?_ ?_ ?_ (admits_of_ids rfl)
  · intro f _ lc' hlc'
    split at hlc'
    · obtain ⟨lc, -, rfl⟩ := Option.map_eq_some_iff.mp hlc'
      exact keepsHold_observeReplaced rfl rfl
    · exact keepsHold_of_same hlc' rfl rfl
  · intro f hnone lc' hlc'
    simp [hnone] at hlc'
  · intro f hf
    split at hf
    · exact Option.map_eq_none_iff.mp hf
    · exact hf

end

lemma ite_map (b : Prop) [Decidable b] (o : Option LocalCopy) (g : LocalCopy → LocalCopy) :
    (if b then o.map g else o) = o.map fun lc => if b then g lc else lc := by
  split
  · rfl
  · exact Option.map_id'.symm

lemma holdLaw_settle (hown : w.cat.HoldsOwn) (v : VaultId) (path : Option Path) (stamp : Stamp) :
    HoldLaw w (.settle v path stamp) (settleCloudOnlyCopies w v path stamp) ∧
      (settleCloudOnlyCopies w v path stamp).cat.HoldsOwn := by
  refine holdLaw_mapLocalCopies (g := fun f lc =>
    if settles v path f then settleCloudOnly w.cat lc else lc) hown ?_ ?_
  · simp only [settleCloudOnlyCopies, settleCopies, ite_map]
  · intro f _ lc hlc
    split
    · exact keepsHold_settleCloudOnly hlc rfl rfl
    · exact keepsHold_of_same hlc rfl rfl

/-- `set_local_fingerprint` keeps the law. -/
lemma holdLaw_fingerprint (hown : w.cat.HoldsOwn) (v : VaultId) (p : Path) (digest : Digest)
    (matched : Option RowId) (stamp : Stamp) :
    HoldLaw w (.fingerprint v p digest matched stamp)
        (fingerprintCopies w v p digest matched stamp) ∧
      (fingerprintCopies w v p digest matched stamp).cat.HoldsOwn := by
  refine holdLaw_mapLocalCopies (g := fun f lc =>
    if f.vaultId = v ∧ f.currentPath = some p then
      settleCloudOnly w.cat
        { lc with plaintextSha256 := some digest, matchedArchiveVersionId := matched }
    else lc) hown ?_ ?_
  · show settleCopies (writeFingerprint w.cat v p digest matched) v (some p) = _
    rw [← setLocalFingerprint_eq]
    simp only [setLocalFingerprint, ite_map]
  · intro f _ lc hlc
    split
    · exact keepsHold_settleCloudOnly hlc rfl rfl
    · exact keepsHold_of_same hlc rfl rfl

lemma settleCloudOnly_presence (cat : Catalog) (lc : LocalCopy) :
    (settleCloudOnly cat lc).presence = lc.presence := by
  unfold settleCloudOnly
  split
  · rfl
  · split
    · rfl
    · split_ifs <;> rfl

/-- What a confirmed conflict does to a copy. -/
def CloudOnlyConflict.lift (conflict : CloudOnlyConflict) (f : VaultFile) (lc : LocalCopy) :
    LocalCopy :=
  if f.id = conflict.vaultFileId && lc.cloudOnlyVersionId = some conflict.archiveVersionId &&
      lc.presence = .present then
    { lc with cloudOnlyVersionId := none }
  else lc

lemma KeepsHold.lift (h : KeepsHold cat op f lc') (hlc : f.localCopy = some lc)
    (hpres : lc'.presence = lc.presence) (hop : op.confirms) (conflict : CloudOnlyConflict) :
    KeepsHold cat op f (conflict.lift f lc') := by
  unfold CloudOnlyConflict.lift
  split
  · exact keepsHold_of_lifted hlc hpres rfl fun _ _ => .confirmed hop
  · exact h

/-- `confirm_cloud_only_replacement` keeps the law: the Owner's choice is a cause. -/
lemma holdLaw_confirm {p : Path} {stamp : Stamp} (hown : w.cat.HoldsOwn)
    (h : confirmCloudOnlyReplacement w v p stamp = some w') :
    HoldLaw w (.confirm v p stamp) w' ∧ w'.cat.HoldsOwn := by
  simp only [confirmCloudOnlyReplacement, Option.bind_eq_bind, Option.bind_eq_some_iff,
    Option.some.injEq] at h
  obtain ⟨conflict, -, -, -, rfl⟩ := h
  refine holdLaw_mapLocalCopies (g := fun f lc =>
    conflict.lift f (if settles v (some p) f then settleCloudOnly w.cat lc else lc)) hown ?_ ?_
  · simp only [settleCloudOnlyCopies, settleCopies, ite_map, mapLocalCopies_mapLocalCopies]
    refine congrArg w.cat.mapLocalCopies (funext fun f => ?_)
    cases f.localCopy with
    | none => rfl
    | some lc => rfl
  · intro f _ lc hlc
    split
    · exact (keepsHold_settleCloudOnly hlc rfl rfl).lift hlc
        (settleCloudOnly_presence w.cat lc) rfl conflict
    · exact (keepsHold_of_same hlc rfl rfl).lift hlc rfl rfl conflict

/-- A cloud scan or a verification keeps the law: it leaves the copies alone. -/
lemma holdLaw_revise (hown : w.cat.HoldsOwn)
    (g : VaultFile → ArchiveVersion → ArchiveVersion) (hg : Catalog.KeepsKeys g) :
    HoldLaw w (.revise g hg) { w with cat := w.cat.mapVersions g hg } ∧
      (w.cat.mapVersions g hg).HoldsOwn := by
  have hrow : ∀ f' ∈ (w.cat.mapVersions g hg).files, ∃ f ∈ w.cat.files,
      { f with versions := f.versions.map (g f) } = f' :=
    fun f' hf' => mem_map.mp hf'
  refine ⟨⟨?_, ?_, ?_⟩, ?_⟩
  · intro f' hf' hpresent hbefore
    obtain ⟨f, hf, rfl⟩ := hrow f' hf'
    have hnot : f.present := hpresent
    rw [hbefore f hf rfl] at hnot
    cases hnot
  · exact fun j hj _ hid => (hid (mem_map_of_mem hj)).elim
  · intro f hf f' hf' hid id hhold hnone
    obtain ⟨f0, hf0, rfl⟩ := hrow f' hf'
    obtain rfl := w.cat.eq_of_id_eq hf0 hf hid
    have hnone' : f0.hold = none := hnone
    rw [hhold] at hnone'
    cases hnone'
  · intro f' hf' id hhold u' hu'
    obtain ⟨f, hf, rfl⟩ := hrow f' hf'
    obtain ⟨hid, fu', hfu', hmem⟩ := Catalog.version?_eq_some_iff.mp hu'
    obtain ⟨fu, hfu, rfl⟩ := hrow fu' hfu'
    obtain ⟨u, hu, rfl⟩ := mem_map.mp hmem
    rw [hg.id] at hid
    have hmine := hown f hf id hhold u (Catalog.version?_eq_some_iff.mpr ⟨hid, fu, hfu, hu⟩)
    obtain ⟨rfl, -⟩ := w.cat.version_eq_of_id_eq hf hfu hmine hu rfl
    exact hmem

lemma holdLaw_admitted (hown : w.cat.HoldsOwn) (h : Admitted w.cat cat') :
    HoldLaw w op { w with cat := cat' } ∧ cat'.HoldsOwn :=
  holdLaw_of_copies hown (copiesBy_of_files h.files)
    (fun _ _ _ hlc => keepsHold_of_same hlc rfl rfl)
    (fun _ hnone lc' hlc => by rw [hnone] at hlc; cases hlc) (fun _ hc => hc) h.admits

/-- **One step**: the law holds, and holds stay with the files of their versions. -/
theorem holdLaw_step (hown : w.cat.HoldsOwn)
    (h : holdStep vaults w op = some w') : HoldLaw w op w' ∧ w'.cat.HoldsOwn := by
  cases op with
  | observe v e seenAt recoveredAt =>
      obtain ⟨cat', hcat, rfl⟩ := Option.map_eq_some_iff.mp h
      exact holdLaw_observe hown hcat
  | observeBatch v entries seenAt =>
      obtain ⟨cat', hcat, rfl⟩ := Option.map_eq_some_iff.mp h
      exact holdLaw_observeBatch hown hcat
  | copyReplaced id t size mtimeNs observedAt =>
      cases h
      exact holdLaw_copyReplaced hown id t size mtimeNs observedAt
  | fingerprint v p digest matched stamp =>
      cases h
      exact holdLaw_fingerprint hown v p digest matched stamp
  | settle v path stamp =>
      cases h
      exact holdLaw_settle hown v path stamp
  | confirm v p stamp => exact holdLaw_confirm hown h
  | queue intercept mode q =>
      obtain ⟨r, hr, rfl⟩ := Option.map_eq_some_iff.mp h
      exact holdLaw_admitted hown (admitted_queueJobs hr)
  | queueAuto intercept mode a =>
      obtain ⟨r, hr, rfl⟩ := Option.map_eq_some_iff.mp h
      exact holdLaw_admitted hown (admitted_queueAutoUploads hr)
  | revise g hg =>
      cases h
      exact holdLaw_revise hown g hg

/-! ### The law of a run -/

/-- **Held content is never admitted, and a hold is dropped only with cause**: the law holds at
every step of a run, from every catalog whose holds are for versions of their own files. -/
theorem hold_law {vaults : VaultTable} {ops : List HoldOp} (hown : w.cat.HoldsOwn)
    (hrun : Runs.run (holdStep vaults) w ops = some w') :
    Runs.Along (holdStep vaults) (fun u op => ∀ u', holdStep vaults u op = some u' →
      HoldLaw u op u') w ops := by
  refine (Runs.along_iff_forall_step hrun).mpr ?_
  intro before op after u _ hu u' hstep
  have huOwn : u.cat.HoldsOwn :=
    Runs.run_induction (I := fun s : HoldWorld => s.cat.HoldsOwn)
      (fun s _ s' hs h => (holdLaw_step hs h).2) hown hu
  exact (holdLaw_step huOwn hstep).1

/-- A file that left the disk; its content is version 7. -/
def onlyInCloud : Catalog where
  files := [⟨1, 0, .active, some ['a'], 0, [],
    some ⟨.missing, .regular, some 3, some 3, none, none, none, some 1, 1, some 1, none⟩,
    [⟨7, 1, 0, some 0, some 3, none, some 5, .verified, .available, some 1, none, 1, none,
      none, .upload, .upload⟩], []⟩]
  jobs := []
  items := []
  ids_nodup := by simp
  paths_unique := by simp
  versions_unique := by simp [VaultFile.versionKeys]
  jobIds_nodup := nodup_nil

/-- Other content appears at the path. -/
def contentReappears : HoldOp := .observe 0 ⟨['a'], .regular, some 4, some 4, 5⟩ (some 5) none

/-- A symbolic link takes its place. -/
def replacedBySymlink : HoldOp := .copyReplaced 1 .symlink none none 6

/-- Nothing is held before the file reappears, then the law holds of its content being
recognised. -/
theorem hold_law_recognised :
    Runs.Along (holdStep fun _ => none) (fun u op => ∀ u', holdStep (fun _ => none) u op = some u' →
      HoldLaw u op u') ⟨onlyInCloud, []⟩ [contentReappears, .fingerprint 0 ['a'] 5 none 6] := by
  have hown : onlyInCloud.HoldsOwn := by
    intro f hf id hid
    rw [mem_singleton.mp hf] at hid
    cases hid
  exact hold_law hown rfl

/-- **A hold that ends without any of the four causes**: an entry that is no regular file
replaced the content. -/
theorem replaced_by_symlink_releases_hold :
    ¬ ∀ (vaults : VaultTable) (w u u' : HoldWorld) (ops : List HoldOp) (op : HoldOp),
      w.cat.HoldsOwn → Runs.run (holdStep vaults) w ops = some u → holdStep vaults u op = some u' →
      ∀ f ∈ u.cat.files, ∀ f' ∈ u'.cat.files, f'.id = f.id → ∀ id, f.hold = some id →
        f'.hold = none → ¬ u'.cat.Recoverable id ∨
          (∃ lc', f'.localCopy = some lc' ∧ u'.cat.Recognised lc' id) ∨ op.confirms ∨
            op.recovers := by
  intro hall
  have hown : onlyInCloud.HoldsOwn := by
    intro f hf id hid
    rw [mem_singleton.mp hf] at hid
    cases hid
  have h := hall (fun _ => none) ⟨onlyInCloud, []⟩ _ _ [contentReappears] replacedBySymlink hown
    rfl rfl _ mem_cons_self _ mem_cons_self rfl 7 rfl rfl
  rcases h with h | ⟨lc', hlc, hpresent, -⟩ | h | h
  · exact h ⟨_, rfl, rfl, rfl⟩
  · cases hlc
    cases hpresent
  · cases h
  · cases h

end Frostvault
