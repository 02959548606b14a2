import Frostvault.Deletion.Consent
import Frostvault.Observation.LocalCopies
import Mathlib.Data.List.Find

/-!
Resolving paths to Vault Files.

Observation looks every path up and mints an identity for the ones nobody holds.  A minted
file is blank: it has its path and nothing else, and no Job refers to it.

* `Resolved`: a file of the Vault holds the path and has the id;
* `Extended`: the catalog with blank files added for new paths;
* `resolveOrCreateFiles_spec`: what a batch lookup returns;
* `observeLocalCopiesBatch_spec`: the batch upsert, read path by path.
-/

namespace Frostvault

open List

variable {cat cat' cat'' : Catalog} {v : VaultId}

/-! ### Resolved paths -/

/-- A resolved path: a file of the Vault holds it and has the id. -/
def Resolved (cat : Catalog) (v : VaultId) (p : Path) (id : FileId) : Prop :=
  ∃ f ∈ cat.files, f.id = id ∧ f.vaultId = v ∧ f.currentPath = some p

lemma Resolved.currentPath {p : Path} {id : FileId} (h : Resolved cat v p id)
    {f : VaultFile} (hf : f ∈ cat.files) (hid : f.id = id) :
    f.vaultId = v ∧ f.currentPath = some p := by
  obtain ⟨g, hg, hgid, hv, hp⟩ := h
  rw [cat.eq_of_id_eq hf hg (hid.trans hgid.symm)]
  exact ⟨hv, hp⟩

lemma Resolved.id_eq {p : Path} {id : FileId} (h : Resolved cat v p id)
    {f : VaultFile} (hf : f ∈ cat.files) (hv : f.vaultId = v) (hp : f.currentPath = some p) :
    f.id = id := by
  obtain ⟨g, hg, hgid, hgv, hgp⟩ := h
  rw [cat.eq_of_path_eq hf hg (hv.trans hgv.symm) hp hgp]
  exact hgid

/-- A new file at a path: nothing but its identity. -/
structure Blank (v : VaultId) (p : Path) (f : VaultFile) : Prop where
  vaultId : f.vaultId = v
  currentPath : f.currentPath = some p
  pathHistory : f.pathHistory = []
  localCopy : f.localCopy = none
  versions : f.versions = []
  deleteMarkers : f.deleteMarkers = []

/-- The catalog with blank files added for paths nobody held. -/
structure Extended (v : VaultId) (paths : List Path) (cat cat' : Catalog)
    (created : List VaultFile) : Prop where
  files : cat'.files = cat.files ++ created
  jobs : cat'.jobs = cat.jobs
  blank : ∀ g ∈ created, ∃ p ∈ paths, cat.fileAt? v p = none ∧ Blank v p g
  unused : ∀ g ∈ created, ∀ j ∈ cat.jobs, j.vaultFileId ≠ g.id

lemma Extended.refl (v : VaultId) (paths : List Path) (cat : Catalog) :
    Extended v paths cat cat [] :=
  ⟨by simp, rfl, by simp, by simp⟩

lemma fileAt?_none_of_subset {p : Path} (hsub : ∀ f ∈ cat.files, f ∈ cat'.files)
    (h : cat'.fileAt? v p = none) : cat.fileAt? v p = none := by
  rw [Catalog.fileAt?, find?_eq_none] at h ⊢
  exact fun f hf => h f (hsub f hf)

lemma Extended.trans {ps qs : List Path} {new new' : List VaultFile}
    (h : Extended v ps cat cat' new) (h' : Extended v qs cat' cat'' new') :
    Extended v (ps ++ qs) cat cat'' (new ++ new') where
  files := by rw [h'.files, h.files, append_assoc]
  jobs := h'.jobs.trans h.jobs
  blank g hg := by
    rcases mem_append.mp hg with hg | hg
    · obtain ⟨p, hp, hrest⟩ := h.blank g hg
      exact ⟨p, mem_append_left _ hp, hrest⟩
    · obtain ⟨p, hp, hnone, hblank⟩ := h'.blank g hg
      refine ⟨p, mem_append_right _ hp, ?_, hblank⟩
      refine fileAt?_none_of_subset (fun f hf => ?_) hnone
      rw [h.files]
      exact mem_append_left _ hf
  unused g hg := by
    rcases mem_append.mp hg with hg | hg
    · exact h.unused g hg
    · have := h'.unused g hg
      rwa [h.jobs] at this

/-- Looking one path up, or minting its file. -/
lemma getOrCreateFile_spec (cat : Catalog) (v : VaultId) (p : Path) (at_ : Stamp) :
    ∃ created, Extended v [p] cat (getOrCreateFile cat v p at_).1 created ∧
      Resolved (getOrCreateFile cat v p at_).1 v p (getOrCreateFile cat v p at_).2 := by
  unfold getOrCreateFile
  split
  · rename_i f hf
    obtain ⟨hmem, hv, hp⟩ := Catalog.mem_of_fileAt? hf
    exact ⟨[], Extended.refl v [p] cat, f, hmem, rfl, hv, hp⟩
  · rename_i hnone
    refine ⟨[_], ⟨rfl, rfl, ?_, ?_⟩, ?_⟩
    · intro g hg
      rw [mem_singleton.mp hg]
      exact ⟨p, mem_singleton_self p, hnone, rfl, rfl, rfl, rfl, rfl, rfl⟩
    · intro g hg j hj
      rw [mem_singleton.mp hg]
      exact cat.vaultFileId_ne_freshId hj
    · exact ⟨_, mem_append_right _ mem_cons_self, rfl, rfl, rfl⟩

/-- The loop over the paths of a batch. -/
lemma foldl_resolvePath_spec (v : VaultId) (at_ : Stamp) (ps : List Path)
    (acc : Catalog × List (Path × FileId)) (hacc : ∀ pid ∈ acc.2, Resolved acc.1 v pid.1 pid.2) :
    ∃ created, Extended v ps acc.1 (ps.foldl (resolvePath v at_) acc).1 created ∧
      (∀ pid ∈ (ps.foldl (resolvePath v at_) acc).2,
        Resolved (ps.foldl (resolvePath v at_) acc).1 v pid.1 pid.2) ∧
      (ps.foldl (resolvePath v at_) acc).2.map Prod.fst = acc.2.map Prod.fst ++ ps := by
  induction ps generalizing acc with
  | nil => exact ⟨[], Extended.refl v [] acc.1, hacc, by simp⟩
  | cons p ps ih =>
      obtain ⟨new, hext, hres⟩ := getOrCreateFile_spec acc.1 v p at_
      have hnext : ∀ pid ∈ (resolvePath v at_ acc p).2,
          Resolved (resolvePath v at_ acc p).1 v pid.1 pid.2 := by
        intro pid hpid
        rcases mem_append.mp hpid with hpid | hpid
        · obtain ⟨f, hf, hrest⟩ := hacc pid hpid
          refine ⟨f, ?_, hrest⟩
          rw [resolvePath, hext.files]
          exact mem_append_left _ hf
        · rw [mem_singleton.mp hpid]
          exact hres
      obtain ⟨new', hext', hres', hids⟩ := ih (resolvePath v at_ acc p) hnext
      refine ⟨new ++ new', hext.trans hext', hres', ?_⟩
      rw [foldl_cons, hids, resolvePath]
      simp

/-- **Resolving a batch** adds blank files, and every path gets the id of its file. -/
lemma resolveOrCreateFiles_spec (cat : Catalog) (v : VaultId) (paths : List Path) (at_ : Stamp) :
    ∃ created, Extended v paths.dedup cat (resolveOrCreateFiles cat v paths at_).1 created ∧
      (∀ pid ∈ (resolveOrCreateFiles cat v paths at_).2,
        Resolved (resolveOrCreateFiles cat v paths at_).1 v pid.1 pid.2) ∧
      (resolveOrCreateFiles cat v paths at_).2.map Prod.fst = paths.dedup := by
  obtain ⟨created, h1, h2, h3⟩ := foldl_resolvePath_spec v at_ paths.dedup (cat, []) (by simp)
  refine ⟨created, h1, h2, ?_⟩
  rw [resolveOrCreateFiles]
  simpa using h3

/-! ### One entry for each path -/

lemma lastByPath_concat (entries : List LocalEntry) (e : LocalEntry) :
    lastByPath (entries ++ [e]) =
      if (lastByPath entries).any fun o => o.path = e.path then
        (lastByPath entries).map fun o => if o.path = e.path then e else o
      else lastByPath entries ++ [e] := by
  rw [lastByPath, foldl_append, foldl_cons, foldl_nil, ← lastByPath]

lemma lastByPath_nodup (entries : List LocalEntry) :
    ((lastByPath entries).map LocalEntry.path).Nodup := by
  induction entries using List.reverseRecOn with
  | nil => simp [lastByPath]
  | append_singleton es e ih =>
      rw [lastByPath_concat]
      split
      · have hsame : (fun o : LocalEntry => (if o.path = e.path then e else o).path) =
            LocalEntry.path := by
          funext o
          split
          · rename_i h
            exact h.symm
          · rfl
        rw [map_map]
        show ((lastByPath es).map fun o => (if o.path = e.path then e else o).path).Nodup
        rw [hsame]
        exact ih
      · rename_i h
        rw [map_append, nodup_append]
        refine ⟨ih, by simp, ?_⟩
        intro p hp q hq hpq
        obtain ⟨o, ho, rfl⟩ := mem_map.mp hp
        simp only [map_cons, map_nil, mem_singleton] at hq
        exact h (any_eq_true.mpr ⟨o, ho, by simp [hpq, hq]⟩)

/-- The entry of a batch for the current path of a file. -/
def entryFor (v : VaultId) (entries : List LocalEntry) (f : VaultFile) : Option LocalEntry :=
  if f.vaultId = v then
    (lastByPath entries).find? fun o => f.currentPath = some o.path
  else none

/-- The Local Copy of a file after a batch. -/
def batchCopy (v : VaultId) (entries : List LocalEntry) (seenAt : Option Stamp) (f : VaultFile) :
    Option LocalCopy :=
  match entryFor v entries f with
  | some o => some (observedCopy f.localCopy f.onlyCloudCopy o seenAt)
  | none => f.localCopy

/-! ### Revoked deletions -/

variable {vaults : VaultTable}

lemma cancelCloudDeletion_eq {gid : GroupId}
    (h : cancelCloudDeletion vaults cat v gid = some cat') :
    cat' = cancelRows cat (purgeGroup cat v gid) := by
  simp only [cancelCloudDeletion, Option.bind_eq_bind, Option.bind_eq_some_iff,
    Option.some.injEq] at h
  obtain ⟨-, -, -, -, rfl⟩ := h
  rfl

/-- What every cancellation keeps, a reappearance keeps. -/
lemma cancelReappearedDeletions_induction {ids : List FileId} {P : Catalog → Prop} (h0 : P cat)
    (hstep : ∀ c gid c', P c → cancelCloudDeletion vaults c v gid = some c' → P c')
    (h : cancelReappearedDeletions vaults cat v ids = some cat') : P cat' := by
  unfold cancelReappearedDeletions at h
  revert h
  generalize ((cat.jobs.filter _).map Job.groupId).dedup = groups
  intro h
  induction groups generalizing cat with
  | nil =>
      obtain rfl : cat = cat' := by simpa using h
      exact h0
  | cons g groups ih =>
      rw [foldlM_cons, Option.bind_eq_bind, Option.bind_eq_some_iff] at h
      obtain ⟨mid, hmid, hrest⟩ := h
      obtain ⟨gid, -, hc⟩ := Option.bind_eq_some_iff.mp hmid
      exact ih (hstep cat gid mid h0 hc) hrest

/-- A reappearance rewrites Jobs only, and leaves them with their files. -/
lemma cancelReappearedDeletions_spec {ids : List FileId}
    (h : cancelReappearedDeletions vaults cat v ids = some cat') :
    cat'.files = cat.files ∧ cat'.jobs.map Job.vaultFileId = cat.jobs.map Job.vaultFileId := by
  refine cancelReappearedDeletions_induction
    (P := fun c => c.files = cat.files ∧ c.jobs.map Job.vaultFileId =
      cat.jobs.map Job.vaultFileId) ⟨rfl, rfl⟩ ?_ h
  rintro c gid c' ⟨hfiles, hjobs⟩ hcancel
  obtain rfl := cancelCloudDeletion_eq hcancel
  refine ⟨(cancelRows_files _ _).trans hfiles, ?_⟩
  rw [(rewrites_cancelRows c _).jobs, map_map, ← hjobs]
  exact map_congr_left fun j _ => (rewrites_cancelRows c (purgeGroup c v gid)).job_file j

/-! ### A batch, path by path -/

/-- The id a batch resolved for the current path of a file finds the entry of that path. -/
lemma find?_fileIds {entries : List LocalEntry} {fileIds : List (Path × FileId)} {f : VaultFile}
    (hf : f ∈ cat.files) (hres : ∀ pid ∈ fileIds, Resolved cat v pid.1 pid.2)
    (hall : ∀ o ∈ lastByPath entries, o.path ∈ fileIds.map Prod.fst) :
    ((lastByPath entries).find? fun o =>
        fileIds.any fun pid => decide (pid.1 = o.path) && decide (pid.2 = f.id)) =
      entryFor v entries f := by
  have hiff : ∀ o ∈ lastByPath entries,
      (fileIds.any fun pid => decide (pid.1 = o.path) && decide (pid.2 = f.id)) =
        (decide (f.vaultId = v) && decide (f.currentPath = some o.path)) := by
    intro o ho
    rw [Bool.eq_iff_iff, any_eq_true]
    simp only [Bool.and_eq_true, decide_eq_true_eq]
    constructor
    · rintro ⟨pid, hpid, hp, hid⟩
      obtain ⟨hv, hpath⟩ := (hres pid hpid).currentPath hf hid.symm
      exact ⟨hv, hp ▸ hpath⟩
    · rintro ⟨hv, hpath⟩
      obtain ⟨pid, hpid, hfst⟩ := mem_map.mp (hall o ho)
      refine ⟨pid, hpid, hfst, ?_⟩
      exact ((hres pid hpid).id_eq hf hv (hfst ▸ hpath)).symm
  rw [entryFor, find?_congr hiff]
  split
  · rename_i hv
    simp [hv]
  · rename_i hv
    simp [hv]

/-- **A batch of observations**: blank files are minted for the new paths, and every file whose
current path was observed gets the upsert of its entry. -/
lemma observeLocalCopiesBatch_spec {entries : List LocalEntry}
    {seenAt : Option Stamp} (h : observeLocalCopiesBatch vaults cat v entries seenAt = some cat') :
    ∃ created,
      (∀ g ∈ created, ∃ o ∈ lastByPath entries, cat.fileAt? v o.path = none ∧ Blank v o.path g) ∧
      (∀ g ∈ created, ∀ j ∈ cat.jobs, j.vaultFileId ≠ g.id) ∧
      cat'.files = (cat.files ++ created).map
        (fun f => f.withCopy (batchCopy v entries seenAt f)) ∧
      cat'.jobs.map Job.vaultFileId = cat.jobs.map Job.vaultFileId := by
  unfold observeLocalCopiesBatch at h
  split at h
  · rename_i hes
    cases h
    refine ⟨[], by simp, by simp, ?_, rfl⟩
    have hid : (fun f : VaultFile => f.withCopy (batchCopy v entries seenAt f)) = id := by
      funext f
      simp only [batchCopy, entryFor, hes, find?_nil, ite_self]
      rfl
    rw [hid, append_nil, map_id]
  · rename_i e es hes
    obtain ⟨created, hext, hres, hids⟩ :=
      resolveOrCreateFiles_spec cat v ((e :: es).map LocalEntry.path) e.observedAt
    dsimp only at h
    generalize resolveOrCreateFiles cat v ((e :: es).map LocalEntry.path) e.observedAt = res
      at h hext hres hids
    obtain ⟨cat1, fileIds⟩ := res
    dsimp only at h hext hres hids
    obtain ⟨hfiles, hjobs⟩ := cancelReappearedDeletions_spec h
    refine ⟨created, ?_, hext.unused, ?_, ?_⟩
    · intro g hg
      obtain ⟨p, hp, hnone, hblank⟩ := hext.blank g hg
      obtain ⟨o, ho, rfl⟩ := mem_map.mp (mem_dedup.mp hp)
      exact ⟨o, hes ▸ ho, hnone, hblank⟩
    · rw [hfiles, ← hext.files]
      refine map_congr_left fun f hf => ?_
      have hentry : (e :: es).find? (fun o => fileIds.any fun pid =>
          decide (pid.1 = o.path) && decide (pid.2 = f.id)) = entryFor v entries f := by
        rw [← hes] at hids ⊢
        refine find?_fileIds hf hres fun o ho => ?_
        rw [hids, mem_dedup]
        exact mem_map_of_mem ho
      dsimp only
      rw [hentry, batchCopy]
      rfl
    · rw [hjobs]
      exact congrArg _ hext.jobs

end Frostvault
