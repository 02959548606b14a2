import Frostvault.Observation.Revocation
import Frostvault.Observation.Statements

/-!
A batch of observations refines one observation at a time (`observe_local_copies_batch` and
`observe_local_copy` of `app/catalog.py`).

Either way the paths nobody holds get blank files, every file whose path was observed gets the
upsert of its entry, and the pending deletions of the files that were there are revoked.

* `writeOne`: one observation without its revocations;
* `foldl_writeOne_files`, `mintFiles_files`: the files after a list of observations, and after
  the identities of a batch;
* `observeEach_iff`, `observeBatch_iff`: when each of the two succeeds, and what it leaves;
* `SameUpToIds`: two catalogs that differ in the choice of fresh ids;
* `batch_refines_single`: **a batch is one observation at a time, in any order**.
-/

namespace Frostvault

open List

variable {vaults : VaultTable} {cat cat' : Catalog} {v : VaultId}

/-! ### Fresh files -/

/-- A blank file for each path, under the id chosen for it. -/
def blankFile (v : VaultId) (createdAt : Stamp) (idOf : Path → FileId) (p : Path) : VaultFile :=
  ⟨idOf p, v, .active, some p, createdAt, [], none, [], []⟩

/-- Different ids for some paths, which nothing in the catalog refers to. -/
structure FreshIds (cat : Catalog) (ps : List Path) (idOf : Path → FileId) : Prop where
  file_ne : ∀ p ∈ ps, idOf p ∉ cat.files.map VaultFile.id
  job_ne : ∀ p ∈ ps, ∀ j ∈ cat.jobs, j.vaultFileId ≠ idOf p
  inj : ∀ p ∈ ps, ∀ q ∈ ps, idOf p = idOf q → p = q

/-- The paths of a list nobody holds. -/
def newPathsOf (cat : Catalog) (v : VaultId) (ps : List Path) : List Path :=
  ps.filter fun p => cat.fileAt? v p = none

/-- The ids of the files that hold one of the paths. -/
def heldIds (cat : Catalog) (v : VaultId) (ps : List Path) : List FileId :=
  ps.filterMap fun p => (cat.fileAt? v p).map VaultFile.id

lemma getOrCreateFile_files (cat : Catalog) (v : VaultId) (p : Path) (at_ : Stamp)
    (idOf : Path → FileId) (hid : idOf p = cat.freshId) :
    (getOrCreateFile cat v p at_).1.files =
      cat.files ++ (newPathsOf cat v [p]).map (blankFile v at_ idOf) := by
  cases h : cat.fileAt? v p with
  | some f =>
      rw [getOrCreateFile_of_held h, newPathsOf, filter_cons_of_neg (by simp [h])]
      simp
  | none =>
      rw [newPathsOf, filter_cons_of_pos (by simp [h])]
      unfold getOrCreateFile
      split
      · rename_i f hf
        cases h.symm.trans hf
      · simp [Catalog.insertFile, blankFile, hid]

lemma getOrCreateFile_snd (cat : Catalog) (v : VaultId) (p : Path) (at_ : Stamp) :
    (getOrCreateFile cat v p at_).2 = ((cat.fileAt? v p).map VaultFile.id).getD cat.freshId := by
  cases h : cat.fileAt? v p with
  | some f =>
      rw [getOrCreateFile_of_held h]
      rfl
  | none =>
      unfold getOrCreateFile
      split
      · rename_i f hf
        cases h.symm.trans hf
      · rfl

/-! ### One observation without its revocations -/

/-- The identity and the upsert of `observe_local_copy`. -/
def writeOne (v : VaultId) (seenAt : Option Stamp) (cat : Catalog) (e : LocalEntry) : Catalog :=
  let r := getOrCreateFile cat v e.path e.observedAt
  r.1.mapLocalCopies fun f =>
    if f.id = r.2 then some (observedCopy f.localCopy f.onlyCloudCopy e seenAt) else f.localCopy

/-- The Local Copy of a file after some observations of different paths. -/
def copyAfter (v : VaultId) (es : List LocalEntry) (seenAt : Option Stamp) (f : VaultFile) :
    Option LocalCopy :=
  if f.vaultId = v then
    match es.find? fun o => f.currentPath = some o.path with
    | some o => some (observedCopy f.localCopy f.onlyCloudCopy o seenAt)
    | none => f.localCopy
  else f.localCopy

lemma observeLocalCopy_eq (vaults : VaultTable) (cat : Catalog) (v : VaultId) (e : LocalEntry)
    (seenAt : Option Stamp) :
    observeLocalCopy vaults cat v e seenAt none =
      cancelReappearedDeletions vaults (writeOne v seenAt cat e) v
        [(getOrCreateFile cat v e.path e.observedAt).2] :=
  rfl

/-- The upsert finds its file by its path. -/
lemma writeOne_files (cat : Catalog) (v : VaultId) (seenAt : Option Stamp) (e : LocalEntry)
    (idOf : Path → FileId) (hid : idOf e.path = cat.freshId) :
    (writeOne v seenAt cat e).files =
      (cat.files ++ (newPathsOf cat v [e.path]).map (blankFile v e.observedAt idOf)).map
        fun f => f.withCopy (copyAfter v [e] seenAt f) := by
  obtain ⟨created, -, hres⟩ := getOrCreateFile_spec cat v e.path e.observedAt
  have hfiles := getOrCreateFile_files cat v e.path e.observedAt idOf hid
  rw [← hfiles]
  refine map_congr_left fun f hf => ?_
  have hiff : f.id = (getOrCreateFile cat v e.path e.observedAt).2 ↔
      f.vaultId = v ∧ f.currentPath = some e.path :=
    ⟨fun h => hres.currentPath hf h, fun h => hres.id_eq hf h.1 h.2⟩
  rw [VaultFile.withCopy, copyAfter]
  by_cases hv : f.vaultId = v
  · by_cases hp : f.currentPath = some e.path
    · simp [hiff, hv, hp]
    · simp [hiff, hv, hp]
  · simp [hiff, hv]

lemma newPathsOf_congr (hfiles : cat.files = cat'.files) (ps : List Path) :
    newPathsOf cat v ps = newPathsOf cat' v ps :=
  filter_congr fun p _ => decide_eq_decide.mpr <| by
    rw [Catalog.fileAt?, Catalog.fileAt?, hfiles]

variable {seenAt : Option Stamp}

/-- What one observation writes depends on the files and on the ids that are taken. -/
lemma writeOne_congr (hfiles : cat.files = cat'.files)
    (hjobs : cat.jobs.map Job.vaultFileId = cat'.jobs.map Job.vaultFileId) (e : LocalEntry) :
    (writeOne v seenAt cat e).files = (writeOne v seenAt cat' e).files := by
  have hfresh : cat.freshId = cat'.freshId := by
    rw [Catalog.freshId, Catalog.freshId, hfiles, hjobs]
  rw [writeOne_files cat v seenAt e (fun _ => cat.freshId) rfl,
    writeOne_files cat' v seenAt e (fun _ => cat.freshId) hfresh, newPathsOf_congr hfiles, hfiles]

lemma writeOne_rows (cat : Catalog) (v : VaultId) (seenAt : Option Stamp) (e : LocalEntry) :
    (writeOne v seenAt cat e).jobs = cat.jobs ∧ (writeOne v seenAt cat e).items = cat.items :=
  getOrCreateFile_rows cat v e.path e.observedAt

/-- All observations of a list: Jobs and items. -/
lemma foldl_writeOne_rows (v : VaultId) (seenAt : Option Stamp) (es : List LocalEntry)
    (cat : Catalog) :
    (es.foldl (writeOne v seenAt) cat).jobs = cat.jobs ∧
      (es.foldl (writeOne v seenAt) cat).items = cat.items := by
  induction es generalizing cat with
  | nil => exact ⟨rfl, rfl⟩
  | cons e es ih =>
      obtain ⟨hjobs, hitems⟩ := ih (writeOne v seenAt cat e)
      obtain ⟨hjobs', hitems'⟩ := writeOne_rows cat v seenAt e
      exact ⟨hjobs.trans hjobs', hitems.trans hitems'⟩

/-- All observations of a list, from the files. -/
lemma foldl_writeOne_congr (es : List LocalEntry) (hfiles : cat.files = cat'.files)
    (hjobs : cat.jobs.map Job.vaultFileId = cat'.jobs.map Job.vaultFileId) :
    (es.foldl (writeOne v seenAt) cat).files = (es.foldl (writeOne v seenAt) cat').files := by
  induction es generalizing cat cat' with
  | nil => exact hfiles
  | cons e es ih =>
      refine ih (writeOne_congr hfiles hjobs e) ?_
      rw [(writeOne_rows cat v seenAt e).1, (writeOne_rows cat' v seenAt e).1, hjobs]

/-! ### The files after all observations -/

variable {at_ : Stamp} {e : LocalEntry} {entries es : List LocalEntry} {idOf idOf' : Path → FileId}
  {p : Path} {ps : List Path}

/-- A new file at one path holds no other path. -/
lemma fileAt?_getOrCreateFile (cat : Catalog) (v : VaultId) (at_ : Stamp) {q : Path}
    (hq : q ≠ p) : (getOrCreateFile cat v p at_).1.fileAt? v q = cat.fileAt? v q := by
  have hnone : ((newPathsOf cat v [p]).map (blankFile v at_ fun _ => cat.freshId)).find?
      (fun f => decide (f.vaultId = v ∧ f.currentPath = some q)) = none := by
    refine find?_eq_none.mpr fun f hf => ?_
    obtain ⟨r, hr, rfl⟩ := mem_map.mp hf
    rw [mem_singleton.mp (mem_of_mem_filter hr)]
    simp [blankFile, hq.symm]
  rw [Catalog.fileAt?, Catalog.fileAt?,
    getOrCreateFile_files cat v p at_ (fun _ => cat.freshId) rfl, find?_append, hnone,
    Option.or_none]

/-- A rewriting of Local Copies leaves the paths with their files. -/
lemma fileAt?_mapLocalCopies_map_id (cat : Catalog) (g : VaultFile → Option LocalCopy)
    (v : VaultId) (q : Path) :
    ((cat.mapLocalCopies g).fileAt? v q).map VaultFile.id =
      (cat.fileAt? v q).map VaultFile.id := by
  have hfiles : (cat.mapLocalCopies g).files = cat.files.map fun f => f.withCopy (g f) := rfl
  rw [Catalog.fileAt?, hfiles, find?_map, Option.map_map]
  rfl

lemma fileAt?_writeOne_map_id (cat : Catalog) (v : VaultId) (seenAt : Option Stamp)
    {q : Path} (hq : q ≠ e.path) :
    ((writeOne v seenAt cat e).fileAt? v q).map VaultFile.id =
      (cat.fileAt? v q).map VaultFile.id := by
  rw [writeOne, fileAt?_mapLocalCopies_map_id, fileAt?_getOrCreateFile cat v e.observedAt hq]

lemma newPathsOf_getOrCreateFile (at_ : Stamp) (hp : p ∉ ps) :
    newPathsOf (getOrCreateFile cat v p at_).1 v ps = newPathsOf cat v ps := by
  refine filter_congr fun q hq => decide_eq_decide.mpr ?_
  rw [fileAt?_getOrCreateFile cat v at_ fun heq : q = p => hp (heq ▸ hq)]

/-- A file none of the entries is about. -/
lemma copyAfter_of_unobserved {f : VaultFile}
    (h : ∀ o ∈ es, f.vaultId = v → f.currentPath ≠ some o.path) :
    copyAfter v es seenAt f = f.localCopy := by
  unfold copyAfter
  split
  · rename_i hv
    rw [find?_eq_none.mpr fun o ho => by simpa using h o ho hv]
  · rfl

lemma withCopy_copyAfter_nil (v : VaultId) (seenAt : Option Stamp) :
    (fun f : VaultFile => f.withCopy (copyAfter v [] seenAt f)) = id := by
  funext f
  rw [copyAfter_of_unobserved (by simp)]
  rfl

lemma copyAfter_head {f : VaultFile} (hv : f.vaultId = v) (hp : f.currentPath = some e.path) :
    copyAfter v (e :: es) seenAt f = some (observedCopy f.localCopy f.onlyCloudCopy e seenAt) := by
  rw [copyAfter, if_pos hv, find?_cons_of_pos (by simp [hp])]

lemma copyAfter_tail {f : VaultFile} (hp : f.currentPath ≠ some e.path) :
    copyAfter v (e :: es) seenAt f = copyAfter v es seenAt f := by
  rw [copyAfter, copyAfter, find?_cons_of_neg (by simpa using hp)]

/-- The copies of a list, entry by entry. -/
lemma copyAfter_cons (he : e.path ∉ es.map LocalEntry.path) (f : VaultFile) :
    copyAfter v es seenAt (f.withCopy (copyAfter v [e] seenAt f)) =
      copyAfter v (e :: es) seenAt f := by
  by_cases hp : f.vaultId = v ∧ f.currentPath = some e.path
  · rw [copyAfter_head hp.1 hp.2, copyAfter_head hp.1 hp.2]
    refine copyAfter_of_unobserved fun o ho _ hpo => he ?_
    have hpath : some e.path = some o.path := hp.2.symm.trans hpo
    rw [Option.some.inj hpath]
    exact mem_map_of_mem ho
  · have hone : copyAfter v [e] seenAt f = f.localCopy := by
      refine copyAfter_of_unobserved fun o ho hv hpo => hp ⟨hv, ?_⟩
      rwa [← mem_singleton.mp ho]
    rw [hone, show f.withCopy f.localCopy = f from rfl]
    by_cases hv : f.vaultId = v
    · exact (copyAfter_tail fun hpath => hp ⟨hv, hpath⟩).symm
    · rw [copyAfter_of_unobserved fun o _ h => absurd h hv,
        copyAfter_of_unobserved fun o _ h => absurd h hv]

lemma newPathsOf_writeOne
    (he : e.path ∉ ps) : newPathsOf (writeOne v seenAt cat e) v ps = newPathsOf cat v ps := by
  refine filter_congr fun q hq => decide_eq_decide.mpr ?_
  rw [← Option.map_eq_none_iff (f := VaultFile.id), ← Option.map_eq_none_iff (f := VaultFile.id),
    fileAt?_writeOne_map_id cat v seenAt fun heq : q = e.path => he (heq ▸ hq)]

/-- The id chosen for the first path of a list, before those of the others. -/
def idOfCons (cat : Catalog) (p : Path) (idOf : Path → FileId) : Path → FileId :=
  fun q => if q = p then cat.freshId else idOf q

lemma idOfCons_of_ne {q : Path} (idOf : Path → FileId) (h : q ≠ p) :
    idOfCons cat p idOf q = idOf q :=
  if_neg h

lemma newPathsOf_cons (cat : Catalog) (v : VaultId) (p : Path) (ps : List Path) :
    newPathsOf cat v (p :: ps) = newPathsOf cat v [p] ++ newPathsOf cat v ps := by
  rw [newPathsOf, newPathsOf, newPathsOf, ← filter_append]
  rfl

/-- The ids of the first path and, once its file is there, of the others. -/
lemma freshIds_cons {mid : Catalog} (hp : p ∉ ps) (hjobs : mid.jobs = cat.jobs)
    (hids : mid.files.map VaultFile.id =
      cat.files.map VaultFile.id ++ (newPathsOf cat v [p]).map fun _ => cat.freshId)
    (h : FreshIds mid (newPathsOf cat v ps) idOf) :
    FreshIds cat (newPathsOf cat v (p :: ps)) (idOfCons cat p idOf) := by
  have hhead : ∀ q ∈ newPathsOf cat v [p], q = p ∧ idOfCons cat p idOf q = cat.freshId := by
    intro q hq
    obtain rfl := mem_singleton.mp (mem_of_mem_filter hq)
    exact ⟨rfl, if_pos rfl⟩
  have htail : ∀ q ∈ newPathsOf cat v ps, idOfCons cat p idOf q = idOf q := by
    intro q hq
    exact idOfCons_of_ne idOf fun heq : q = p => hp (heq ▸ mem_of_mem_filter hq)
  have hnot : ∀ q ∈ newPathsOf cat v ps, idOf q ∉ cat.files.map VaultFile.id ∧
      ∀ r ∈ newPathsOf cat v [p], idOf q ≠ cat.freshId := by
    intro q hq
    have hne := h.file_ne q hq
    rw [hids, mem_append, not_or] at hne
    exact ⟨hne.1, fun r hr heq => hne.2 (mem_map.mpr ⟨r, hr, heq.symm⟩)⟩
  rw [newPathsOf_cons]
  refine ⟨?_, ?_, ?_⟩
  · intro q hq
    rcases mem_append.mp hq with hq | hq
    · rw [(hhead q hq).2]
      intro hmem
      obtain ⟨f, hf, hid⟩ := mem_map.mp hmem
      exact cat.id_ne_freshId hf hid
    · rw [htail q hq]
      exact (hnot q hq).1
  · intro q hq j hj
    rcases mem_append.mp hq with hq | hq
    · rw [(hhead q hq).2]
      exact cat.vaultFileId_ne_freshId hj
    · rw [htail q hq]
      exact h.job_ne q hq j (hjobs ▸ hj)
  · intro q hq r hr heq
    rcases mem_append.mp hq with hq | hq <;> rcases mem_append.mp hr with hr | hr
    · rw [(hhead q hq).1, (hhead r hr).1]
    · rw [(hhead q hq).2, htail r hr] at heq
      exact absurd heq.symm ((hnot r hr).2 q hq)
    · rw [(hhead r hr).2, htail q hq] at heq
      exact absurd heq ((hnot q hq).2 r hr)
    · rw [htail q hq, htail r hr] at heq
      exact h.inj q hq r hr heq

/-- **The files after observations of different paths**, one at a time. -/
lemma foldl_writeOne_files (v : VaultId) (seenAt : Option Stamp)
    (es : List LocalEntry) (cat : Catalog) (hnd : (es.map LocalEntry.path).Nodup)
    (hat : ∀ e ∈ es, e.observedAt = at_) :
    ∃ idOf, FreshIds cat (newPathsOf cat v (es.map LocalEntry.path)) idOf ∧
      (es.foldl (writeOne v seenAt) cat).files =
        (cat.files ++ (newPathsOf cat v (es.map LocalEntry.path)).map (blankFile v at_ idOf)).map
          fun f => f.withCopy (copyAfter v es seenAt f) := by
  induction es generalizing cat with
  | nil =>
      refine ⟨fun _ => 0, ⟨by simp [newPathsOf], by simp [newPathsOf],
        by simp [newPathsOf]⟩, ?_⟩
      rw [withCopy_copyAfter_nil, map_id]
      simp [newPathsOf]
  | cons e es ih =>
      rw [map_cons, nodup_cons] at hnd
      rw [forall_mem_cons] at hat
      obtain ⟨idOf, hfresh, hfiles⟩ := ih (writeOne v seenAt cat e) hnd.2 hat.2
      rw [newPathsOf_writeOne hnd.1] at hfresh hfiles
      have hone := writeOne_files cat v seenAt e (idOfCons cat e.path idOf) (if_pos rfl)
      rw [hat.1] at hone
      have hold : ∀ fs : List VaultFile,
          (fs.map fun f => f.withCopy (copyAfter v [e] seenAt f)).map
              (fun f => f.withCopy (copyAfter v es seenAt f)) =
            fs.map fun f => f.withCopy (copyAfter v (e :: es) seenAt f) := by
        intro fs
        rw [map_map]
        refine map_congr_left fun f _ => ?_
        show (f.withCopy _).withCopy _ = f.withCopy _
        rw [copyAfter_cons hnd.1]
        rfl
      have hnew : ((newPathsOf cat v (es.map LocalEntry.path)).map (blankFile v at_ idOf)).map
            (fun f => f.withCopy (copyAfter v es seenAt f)) =
          ((newPathsOf cat v (es.map LocalEntry.path)).map
              (blankFile v at_ (idOfCons cat e.path idOf))).map
            fun f => f.withCopy (copyAfter v (e :: es) seenAt f) := by
        rw [map_map, map_map]
        refine map_congr_left fun p hp => ?_
        have hpath : p ≠ e.path := fun heq => hnd.1 (heq ▸ mem_of_mem_filter hp)
        have hne : (blankFile v at_ idOf p).currentPath ≠ some e.path := fun heq =>
          hpath (Option.some.inj heq)
        have hblank : blankFile v at_ (idOfCons cat e.path idOf) p = blankFile v at_ idOf p := by
          rw [blankFile, blankFile, idOfCons_of_ne idOf hpath]
        rw [Function.comp_apply, Function.comp_apply, hblank, copyAfter_tail hne]
      have hids : (writeOne v seenAt cat e).files.map VaultFile.id =
          cat.files.map VaultFile.id ++ (newPathsOf cat v [e.path]).map fun _ => cat.freshId := by
        rw [writeOne_files cat v seenAt e (fun _ => cat.freshId) rfl, map_map,
          map_append, map_map]
        rfl
      refine ⟨idOfCons cat e.path idOf,
        freshIds_cons hnd.1 (writeOne_rows cat v seenAt e).1 hids hfresh, ?_⟩
      rw [map_cons, newPathsOf_cons]
      calc ((e :: es).foldl (writeOne v seenAt) cat).files
          = _ := hfiles
        _ = _ := by rw [hone, map_append, hold, hnew, ← map_append]
        _ = _ := by rw [append_assoc, ← map_append]

/-- **The files after the identities of a batch.** -/
lemma mintFiles_files (v : VaultId) (at_ : Stamp) (ps : List Path) (cat : Catalog)
    (hnd : ps.Nodup) :
    ∃ idOf, FreshIds cat (newPathsOf cat v ps) idOf ∧
      (mintFiles v at_ cat ps).files =
        cat.files ++ (newPathsOf cat v ps).map (blankFile v at_ idOf) ∧
      (mintFiles v at_ cat ps).jobs = cat.jobs ∧ (mintFiles v at_ cat ps).items = cat.items := by
  induction ps generalizing cat with
  | nil =>
      refine ⟨fun _ => 0, ⟨by simp [newPathsOf], by simp [newPathsOf], by simp [newPathsOf]⟩,
        ?_, rfl, rfl⟩
      simp [newPathsOf, mintFiles]
  | cons p ps ih =>
      rw [nodup_cons] at hnd
      obtain ⟨hjobs, hitems⟩ := getOrCreateFile_rows cat v p at_
      obtain ⟨idOf, hfresh, hfiles, hjobs', hitems'⟩ := ih (getOrCreateFile cat v p at_).1 hnd.2
      rw [newPathsOf_getOrCreateFile at_ hnd.1] at hfresh hfiles
      have hids : (getOrCreateFile cat v p at_).1.files.map VaultFile.id =
          cat.files.map VaultFile.id ++ (newPathsOf cat v [p]).map fun _ => cat.freshId := by
        rw [getOrCreateFile_files cat v p at_ (fun _ => cat.freshId) rfl, map_append,
          map_map]
        rfl
      refine ⟨idOfCons cat p idOf, freshIds_cons hnd.1 hjobs hids hfresh, ?_,
        hjobs'.trans hjobs, hitems'.trans hitems⟩
      have hnew : (newPathsOf cat v ps).map (blankFile v at_ (idOfCons cat p idOf)) =
          (newPathsOf cat v ps).map (blankFile v at_ idOf) := by
        refine map_congr_left fun q hq => ?_
        have hpath : q ≠ p := fun heq => hnd.1 (heq ▸ mem_of_mem_filter hq)
        rw [blankFile, blankFile, idOfCons_of_ne idOf hpath]
      rw [newPathsOf_cons, map_append, ← append_assoc, hnew]
      refine hfiles.trans ?_
      rw [getOrCreateFile_files cat v p at_ (idOfCons cat p idOf) (if_pos rfl)]

/-! ### Revocations -/

lemma openGroups_congr {jobs : List Job} {ids ids' : List FileId}
    (h : ∀ j ∈ jobs, j.vaultFileId ∈ ids ↔ j.vaultFileId ∈ ids') :
    openGroups jobs v ids = openGroups jobs v ids' := by
  refine congrArg (fun js : List Job => (js.map Job.groupId).dedup) ?_
  refine filter_congr fun j hj => ?_
  rw [decide_eq_decide.mpr (h j hj)]

lemma openGroups_getOrCreateFile (cat : Catalog) (v : VaultId) (p : Path) (at_ : Stamp) :
    openGroups cat.jobs v [(getOrCreateFile cat v p at_).2] =
      openGroups cat.jobs v (heldIds cat v [p]) := by
  refine openGroups_congr fun j hj => ?_
  rw [getOrCreateFile_snd, heldIds]
  cases h : cat.fileAt? v p with
  | some f => simp [h]
  | none => simpa [h] using cat.vaultFileId_ne_freshId hj

lemma heldIds_writeOne {mid : Catalog}
    (hfiles : mid.files = (writeOne v seenAt cat e).files) (he : e.path ∉ ps) :
    heldIds mid v ps = heldIds cat v ps := by
  refine filterMap_congr fun q hq => ?_
  rw [← fileAt?_writeOne_map_id cat v seenAt fun heq : q = e.path => he (heq ▸ hq),
    Catalog.fileAt?, Catalog.fileAt?, hfiles]

lemma heldIds_cons (cat : Catalog) (v : VaultId) (p : Path) (ps : List Path) :
    heldIds cat v (p :: ps) = heldIds cat v [p] ++ heldIds cat v ps := by
  rw [heldIds, heldIds, heldIds, ← filterMap_append]
  rfl

/-- One observation at a time. -/
def observeEach (vaults : VaultTable) (v : VaultId) (seenAt : Option Stamp) (cat : Catalog)
    (es : List LocalEntry) : Option Catalog :=
  es.foldlM (fun cat e => observeLocalCopy vaults cat v e seenAt none) cat

/-- **One observation at a time** succeeds exactly if every pending deletion of the files that
are there may be cancelled; it writes the upserts and revokes those deletions. -/
lemma observeEach_iff (hnd : (es.map LocalEntry.path).Nodup) :
    observeEach vaults v seenAt cat es = some cat' ↔
      (∀ g ∈ openGroups cat.jobs v (heldIds cat v (es.map LocalEntry.path)),
        Cancellable vaults cat.jobs v g) ∧
      cat'.files = (es.foldl (writeOne v seenAt) cat).files ∧
      Revoked (memberIds cat.jobs v
        (openGroups cat.jobs v (heldIds cat v (es.map LocalEntry.path)))) cat cat' := by
  induction es generalizing cat with
  | nil =>
      rw [observeEach, foldlM_nil, foldl_nil]
      have hnone : openGroups cat.jobs v (heldIds cat v []) = [] := by simp [openGroups, heldIds]
      simp only [map_nil, hnone]
      have hrefl : Revoked (memberIds cat.jobs v []) cat cat :=
        (Revoked.refl cat).congr (by simp [memberIds, inGroups])
      constructor
      · intro h
        cases h
        exact ⟨by simp, rfl, hrefl⟩
      · rintro ⟨-, hfiles, hrev⟩
        exact congrArg some (Catalog.eq_of_rows hfiles.symm (hrefl.jobs.trans hrev.jobs.symm)
          (hrefl.items.trans hrev.items.symm))
  | cons e es ih =>
      rw [map_cons, nodup_cons] at hnd
      obtain ⟨hjobs, hitems⟩ := writeOne_rows cat v seenAt e
      -- the observations after the first one
      have hrest : ∀ c : Catalog, c.files = (writeOne v seenAt cat e).files →
          (∀ g ∈ openGroups cat.jobs v (heldIds cat v [e.path]),
            Cancellable vaults cat.jobs v g) →
          Revoked (memberIds cat.jobs v (openGroups cat.jobs v (heldIds cat v [e.path]))) cat c →
          (observeEach vaults v seenAt c es = some cat' ↔
            (∀ g ∈ openGroups cat.jobs v (heldIds cat v (e.path :: es.map LocalEntry.path)),
              Cancellable vaults cat.jobs v g) ∧
            cat'.files = ((e :: es).foldl (writeOne v seenAt) cat).files ∧
            Revoked (memberIds cat.jobs v
              (openGroups cat.jobs v (heldIds cat v (e.path :: es.map LocalEntry.path))))
              cat cat') := by
        intro c hfiles hcan hrev
        have hfile : c.jobs.map Job.vaultFileId =
            (writeOne v seenAt cat e).jobs.map Job.vaultFileId := by
          rw [hrev.jobs, hjobs, map_map]
          refine map_congr_left fun j _ => ?_
          rw [Function.comp_apply, cancelJob]
          split <;> rfl
        have happend := revoke_append_iff vaults cat'
          (heldIds cat v (es.map LocalEntry.path)) rfl rfl hcan hrev
        rw [ih hnd.2, heldIds_writeOne hfiles hnd.1, foldl_writeOne_congr es hfiles hfile,
          heldIds_cons, foldl_cons, and_left_comm, happend, and_left_comm]
      rw [map_cons, observeEach, foldlM_cons, Option.bind_eq_bind,
        Option.bind_eq_some_iff]
      simp only [observeLocalCopy_eq, cancelReappearedDeletions_iff, hjobs,
        openGroups_getOrCreateFile]
      constructor
      · rintro ⟨c, ⟨hcan, hfiles, hrev⟩, hcs⟩
        exact (hrest c hfiles hcan ((revoked_iff_of_rows hjobs hitems).mp hrev)).mp hcs
      · rintro ⟨hcan, hfiles, hrev⟩
        obtain ⟨c, hcfiles, hc⟩ := exists_revoked hjobs hitems v
          (openGroups cat.jobs v (heldIds cat v [e.path]))
        have hcan' : ∀ g ∈ openGroups cat.jobs v (heldIds cat v [e.path]),
            Cancellable vaults cat.jobs v g := by
          intro g hg
          refine hcan g ?_
          obtain ⟨j, hj, hv, hfile, hopen⟩ := mem_openGroups.mp hg
          rw [heldIds_cons]
          exact mem_openGroups.mpr ⟨j, hj, hv, mem_append_left _ hfile, hopen⟩
        exact ⟨c, ⟨hcan', hcfiles, (revoked_iff_of_rows hjobs hitems).mpr hc⟩,
          (hrest c hcfiles hcan' hc).mpr ⟨hcan, hfiles, hrev⟩⟩

/-- Entries with different paths are kept as they are. -/
lemma lastByPath_of_nodup
    (hnd : (entries.map LocalEntry.path).Nodup) : lastByPath entries = entries := by
  induction entries using List.reverseRecOn with
  | nil => rfl
  | append_singleton es e ih =>
      rw [map_append, nodup_append] at hnd
      rw [lastByPath_concat, ih hnd.1, if_neg]
      intro hany
      obtain ⟨o, ho, hpath⟩ := any_eq_true.mp hany
      exact hnd.2.2 o.path (mem_map_of_mem ho) e.path (by simp) (of_decide_eq_true hpath)

lemma openGroups_fileIds {mid : Catalog}
    {fileIds : List (Path × FileId)} (hfresh : FreshIds cat (newPathsOf cat v ps) idOf)
    (hfiles : mid.files = cat.files ++ (newPathsOf cat v ps).map (blankFile v at_ idOf))
    (hres : ∀ pid ∈ fileIds, Resolved mid v pid.1 pid.2) (hfst : fileIds.map Prod.fst = ps) :
    openGroups cat.jobs v (fileIds.map Prod.snd) = openGroups cat.jobs v (heldIds cat v ps) := by
  refine openGroups_congr fun j hj => ?_
  rw [heldIds, mem_filterMap, mem_map]
  constructor
  · rintro ⟨pid, hpid, hid⟩
    obtain ⟨f, hf, hfid, hv, hp⟩ := hres pid hpid
    rw [hfiles, mem_append] at hf
    rcases hf with hf | hf
    · refine ⟨pid.1, hfst ▸ mem_map_of_mem hpid, ?_⟩
      rw [Catalog.fileAt?_eq_some_iff.mpr ⟨hf, hv, hp⟩, Option.map_some, hfid, hid]
    · obtain ⟨p, hp', rfl⟩ := mem_map.mp hf
      exact absurd (hid.symm.trans hfid.symm) (hfresh.job_ne p hp' j hj)
  · rintro ⟨p, hp, hheld⟩
    obtain ⟨f, hf, hid⟩ := Option.map_eq_some_iff.mp hheld
    obtain ⟨hmem, hv, hpath⟩ := Catalog.mem_of_fileAt? hf
    obtain ⟨pid, hpid, rfl⟩ := mem_map.mp (hfst ▸ hp)
    refine ⟨pid, hpid, ?_⟩
    rw [← hid]
    refine ((hres pid hpid).id_eq ?_ hv hpath).symm
    rw [hfiles]
    exact mem_append_left _ hmem

/-- **A batch** succeeds in the same cases, and revokes the same deletions. -/
lemma observeBatch_iff
    (hnd : (entries.map LocalEntry.path).Nodup) (hat : ∀ e ∈ entries, e.observedAt = at_) :
    observeLocalCopiesBatch vaults cat v entries seenAt = some cat' ↔
      (∀ g ∈ openGroups cat.jobs v (heldIds cat v (entries.map LocalEntry.path)),
        Cancellable vaults cat.jobs v g) ∧
      cat'.files = (mintFiles v at_ cat (entries.map LocalEntry.path)).files.map
        (fun f => f.withCopy (copyAfter v entries seenAt f)) ∧
      Revoked (memberIds cat.jobs v
        (openGroups cat.jobs v (heldIds cat v (entries.map LocalEntry.path)))) cat cat' := by
  have hlast := lastByPath_of_nodup hnd
  cases entries with
  | nil =>
      rw [withCopy_copyAfter_nil, map_id]
      exact @observeEach_iff vaults cat cat' v seenAt [] hnd
  | cons e es =>
      obtain ⟨-, -, hres, hfst⟩ :=
        resolveOrCreateFiles_spec cat v ((e :: es).map LocalEntry.path) at_
      obtain ⟨idOf, hfresh, hfiles, hjobs, hitems⟩ :=
        mintFiles_files v at_ ((e :: es).map LocalEntry.path) cat hnd
      have hmint : (resolveOrCreateFiles cat v ((e :: es).map LocalEntry.path) at_).1 =
          mintFiles v at_ cat ((e :: es).map LocalEntry.path) := by
        rw [resolveOrCreateFiles, dedup_eq_self.mpr hnd, foldl_resolvePath_fst]
      rw [dedup_eq_self.mpr hnd] at hfst
      rw [hmint] at hres
      rw [observeLocalCopiesBatch, hlast]
      dsimp only
      rw [hat e mem_cons_self]
      generalize resolveOrCreateFiles cat v ((e :: es).map LocalEntry.path) at_ = r
        at hmint hres hfst
      obtain ⟨mid, fileIds⟩ := r
      dsimp only at hmint hres hfst
      subst hmint
      have hwritten : ∀ f ∈ (mintFiles v at_ cat ((e :: es).map LocalEntry.path)).files,
          (match (e :: es).find? fun o => fileIds.any fun pid =>
              decide (pid.1 = o.path) && decide (pid.2 = f.id) with
            | some o => some (observedCopy f.localCopy f.onlyCloudCopy o seenAt)
            | none => f.localCopy) = copyAfter v (e :: es) seenAt f := by
        intro f hf
        have hentry := find?_fileIds hf hres fun o (ho : o ∈ lastByPath (e :: es)) => by
          rw [hlast] at ho
          exact hfst ▸ mem_map_of_mem ho
        rw [hlast] at hentry
        rw [hentry, entryFor, hlast, copyAfter]
        by_cases hv : f.vaultId = v <;> simp [hv]
      dsimp only
      refine (iff_of_eq (congrArg (fun c =>
        cancelReappearedDeletions vaults c v (fileIds.map Prod.snd) = some cat')
        (mapLocalCopies_congr hwritten))).trans ?_
      rw [cancelReappearedDeletions_iff]
      simp only [show ((mintFiles v at_ cat ((e :: es).map LocalEntry.path)).mapLocalCopies
        fun f => copyAfter v (e :: es) seenAt f).jobs = cat.jobs from hjobs,
        openGroups_fileIds hfresh hfiles hres hfst]
      exact and_congr_right fun _ => and_congr_right fun _ => revoked_iff_of_rows hjobs hitems

/-! ### Up to fresh ids -/

/-- A file under another id. -/
def VaultFile.relabel (σ : FileId → FileId) (f : VaultFile) : VaultFile := { f with id := σ f.id }

/-- Two catalogs that differ in the ids of files the catalog `old` did not have, and in the order
of their rows. -/
structure SameUpToIds (old cat cat' : Catalog) : Prop where
  files : ∃ σ : FileId → FileId,
    (∀ f ∈ old.files, σ f.id = f.id) ∧ (∀ j ∈ old.jobs, σ j.vaultFileId = j.vaultFileId) ∧
      cat'.files.Perm (cat.files.map (VaultFile.relabel σ))
  jobs : cat'.jobs = cat.jobs
  items : cat'.items = cat.items

/-- The ids that were chosen for some paths, renamed. -/
def renameIds (ps : List Path) (idOf idOf' : Path → FileId) (n : FileId) : FileId :=
  match ps.find? fun p => idOf p = n with
  | some p => idOf' p
  | none => n

lemma renameIds_of_mem (h : FreshIds cat ps idOf) (hp : p ∈ ps) :
    renameIds ps idOf idOf' (idOf p) = idOf' p := by
  unfold renameIds
  split
  · rename_i q hq
    have hid := find?_some hq
    rw [h.inj q (mem_of_find?_eq_some hq) p hp (of_decide_eq_true hid)]
  · rename_i hnone
    have := find?_eq_none.mp hnone p hp
    simp at this

lemma renameIds_of_ne {n : FileId} (h : ∀ p ∈ ps, n ≠ idOf p) : renameIds ps idOf idOf' n = n := by
  unfold renameIds
  rw [find?_eq_none.mpr fun p hp => by simpa using (h p hp).symm]

/-- The files of two lists of observations of the same paths. -/
lemma perm_relabel {ps' : List Path} (hperm : ps'.Perm ps) (h : FreshIds cat ps idOf) :
    (cat.files ++ ps'.map (blankFile v at_ idOf')).Perm
      ((cat.files ++ ps.map (blankFile v at_ idOf)).map
        (VaultFile.relabel (renameIds ps idOf idOf'))) := by
  rw [map_append, map_map]
  refine List.Perm.append (List.Perm.of_eq ?_) ((hperm.map _).trans (List.Perm.of_eq ?_))
  · refine (map_congr_left fun f hf => ?_).trans (map_id _) |>.symm
    have hne : ∀ p ∈ ps, f.id ≠ idOf p := fun p hp heq =>
      h.file_ne p hp (mem_map.mpr ⟨f, hf, heq⟩)
    rw [VaultFile.relabel, renameIds_of_ne hne]
    rfl
  · refine map_congr_left fun p hp => ?_
    rw [Function.comp_apply, VaultFile.relabel]
    simp only [blankFile, renameIds_of_mem h hp]

/-- Entries with different paths are found in any order. -/
lemma copyAfter_perm {es' : List LocalEntry} (hperm : es'.Perm es)
    (hnd : (es.map LocalEntry.path).Nodup) (f : VaultFile) :
    copyAfter v es' seenAt f = copyAfter v es seenAt f := by
  have hfind : (es'.find? fun o => decide (f.currentPath = some o.path)) =
      es.find? fun o => decide (f.currentPath = some o.path) := by
    refine find?_eq_find?_of_perm hperm ?_
    rintro o ⟨ho, hpo⟩ o' ⟨ho', hpo'⟩
    have hpath : some o.path = some o'.path :=
      (of_decide_eq_true hpo).symm.trans (of_decide_eq_true hpo')
    exact inj_on_of_nodup_map hnd (hperm.mem_iff.mp ho) (hperm.mem_iff.mp ho')
      (Option.some.inj hpath)
  rw [copyAfter, copyAfter, hfind]

lemma openGroups_perm (cat : Catalog) (v : VaultId) {ps' : List Path} (hperm : ps'.Perm ps) :
    openGroups cat.jobs v (heldIds cat v ps') = openGroups cat.jobs v (heldIds cat v ps) :=
  openGroups_congr fun _ _ => (hperm.filterMap _).mem_iff

/-- **A batch and one observation at a time** leave the same catalog, or both raise. -/
theorem observeBatch_observeEach (vaults : VaultTable) (cat : Catalog) (v : VaultId)
    (seenAt : Option Stamp) (hnd : (entries.map LocalEntry.path).Nodup)
    (hat : ∀ e ∈ entries, e.observedAt = at_) (hperm : es.Perm entries) :
    Option.Rel (SameUpToIds cat) (observeLocalCopiesBatch vaults cat v entries seenAt)
      (observeEach vaults v seenAt cat es) := by
  have hpaths := hperm.map LocalEntry.path
  have hnd' : (es.map LocalEntry.path).Nodup := hpaths.nodup_iff.mpr hnd
  have hat' : ∀ e ∈ es, e.observedAt = at_ := fun e he => hat e (hperm.mem_iff.mp he)
  have hgroups := openGroups_perm cat v hpaths
  obtain ⟨hjobs, hitems⟩ := foldl_writeOne_rows v seenAt es cat
  obtain ⟨idOf, hfresh, hfiles, hjobs', hitems'⟩ :=
    mintFiles_files v at_ (entries.map LocalEntry.path) cat hnd
  cases hbatch : observeLocalCopiesBatch vaults cat v entries seenAt with
  | none =>
      cases heach : observeEach vaults v seenAt cat es with
      | none => exact .none
      | some b =>
          obtain ⟨hcan, -, -⟩ := (observeEach_iff hnd').mp heach
          rw [hgroups] at hcan
          have hmid : ((mintFiles v at_ cat (entries.map LocalEntry.path)).mapLocalCopies
            (copyAfter v entries seenAt)).jobs = cat.jobs := hjobs'
          obtain ⟨c, hcfiles, hc⟩ := exists_revoked hmid hitems' v
            (openGroups cat.jobs v (heldIds cat v (entries.map LocalEntry.path)))
          cases hbatch.symm.trans ((observeBatch_iff hnd hat).mpr ⟨hcan, hcfiles, hc⟩)
  | some a =>
      obtain ⟨hcan, hafiles, ha⟩ := (observeBatch_iff hnd hat).mp hbatch
      cases heach : observeEach vaults v seenAt cat es with
      | none =>
          obtain ⟨c, hcfiles, hc⟩ := exists_revoked hjobs hitems v
            (openGroups cat.jobs v (heldIds cat v (entries.map LocalEntry.path)))
          rw [← hgroups] at hcan hc
          cases heach.symm.trans ((observeEach_iff hnd').mpr ⟨hcan, hcfiles, hc⟩)
      | some b =>
          obtain ⟨-, hbfiles, hb⟩ := (observeEach_iff hnd').mp heach
          rw [hgroups] at hb
          refine .some ⟨?_, hb.jobs.trans ha.jobs.symm, hb.items.trans ha.items.symm⟩
          obtain ⟨idOf', -, heachfiles⟩ := foldl_writeOne_files v seenAt es cat hnd' hat'
          have hnew : (newPathsOf cat v (es.map LocalEntry.path)).Perm
              (newPathsOf cat v (entries.map LocalEntry.path)) := hpaths.filter _
          refine ⟨renameIds (newPathsOf cat v (entries.map LocalEntry.path)) idOf idOf',
            fun f hf => renameIds_of_ne fun p hp heq =>
              hfresh.file_ne p hp (mem_map.mpr ⟨f, hf, heq⟩),
            fun j hj => renameIds_of_ne fun p hp => hfresh.job_ne p hp j hj, ?_⟩
          rw [hbfiles, heachfiles, hafiles, hfiles]
          have hcopy : (fun f : VaultFile => f.withCopy (copyAfter v es seenAt f)) =
              fun f => f.withCopy (copyAfter v entries seenAt f) :=
            funext fun f => congrArg f.withCopy (copyAfter_perm hperm hnd f)
          rw [hcopy]
          refine ((perm_relabel hnew hfresh).map _).trans (List.Perm.of_eq ?_)
          rw [map_map, map_map]
          rfl

/-! ### Dirty directories -/

/-- A directory has a mark, of whatever transaction. -/
def Db.DirtyAt (db : Db) (v : VaultId) (d : Path) : Prop :=
  ∃ m ∈ db.dirty, m.vaultId = v ∧ m.path = d

/-- Two databases that differ in fresh ids and in the transactions of their marks. -/
structure SameObservation (old db db' : Db) : Prop where
  catalog : SameUpToIds old.catalog db.catalog db'.catalog
  dirty : ∀ v d, db.DirtyAt v d ↔ db'.DirtyAt v d
  vaults : db.vaults = db'.vaults
  status : db.status = db'.status
  aggregates : db.aggregates = db'.aggregates

/-- `db'` is `db` with marks of the directories `ds` of the Vault. -/
structure MarksAdded (v : VaultId) (ds : Set Path) (db db' : Db) : Prop where
  dirty : ∀ v' d, db'.DirtyAt v' d ↔ db.DirtyAt v' d ∨ v' = v ∧ d ∈ ds
  vaults : db'.vaults = db.vaults
  status : db'.status = db.status
  aggregates : db'.aggregates = db.aggregates

lemma MarksAdded.trans {ds ds' : Set Path} {db mid db' : Db} (h : MarksAdded v ds db mid)
    (h' : MarksAdded v ds' mid db') : MarksAdded v (ds ∪ ds') db db' where
  dirty w d := by
    rw [h'.dirty, h.dirty, or_assoc, ← and_or_left, Set.mem_union]
  vaults := h'.vaults.trans h.vaults
  status := h'.status.trans h.status
  aggregates := h'.aggregates.trans h.aggregates

lemma MarksAdded.congr {ds ds' : Set Path} {db db' : Db} (h : MarksAdded v ds db db') (hds : ds = ds') :
    MarksAdded v ds' db db' :=
  hds ▸ h

lemma marksAdded_persistDirtyDirectory (ses : Session) (v : VaultId) (db : Db) (d : Path) :
    MarksAdded v {d} db (persistDirtyDirectory ses v db d) where
  dirty w d' := by
    simp only [persistDirtyDirectory, Write.apply, Db.DirtyAt, Set.mem_singleton_iff]
    split
    · rename_i hkey
      obtain ⟨m, hm, hkeys⟩ := mem_map.mp hkey
      rw [DirtyMark.key, DirtyMark.key, Prod.mk.injEq, Prod.mk.injEq] at hkeys
      refine (or_iff_left_of_imp ?_).symm
      rintro ⟨rfl, rfl⟩
      exact ⟨m, hm, hkeys.1, hkeys.2.1⟩
    · simp only [mem_append, mem_singleton, or_and_right, exists_or, exists_eq_left]
      refine or_congr_right ?_
      constructor
      · rintro ⟨rfl, rfl⟩
        exact ⟨rfl, rfl⟩
      · rintro ⟨rfl, rfl⟩
        exact ⟨rfl, rfl⟩
  vaults := rfl
  status := rfl
  aggregates := rfl

/-- A list of marks; the catalog is left alone. -/
lemma marksAdded_persistDirtyDirectories (ses : Session) (v : VaultId) (db : Db) (ds : List Path) :
    MarksAdded v {d | d ∈ ds} db (persistDirtyDirectories ses v db ds) ∧
      (persistDirtyDirectories ses v db ds).catalog = db.catalog := by
  induction ds generalizing db with
  | nil => exact ⟨⟨by simp [persistDirtyDirectories], rfl, rfl, rfl⟩, rfl⟩
  | cons d ds ih =>
      obtain ⟨hmarked, hcat⟩ := ih (persistDirtyDirectory ses v db d)
      refine ⟨((marksAdded_persistDirtyDirectory ses v db d).trans hmarked).congr ?_, hcat⟩
      ext d'
      simp

/-! ### The operations -/

/-- `observe_local_copy` with its marks. -/
def observeRows (vaults : VaultTable) (v : VaultId) (seenAt : Option Stamp) (db : Db)
    (c : Session × LocalEntry) : Option Db :=
  (observeLocalCopyRows vaults db.catalog v c.2 seenAt none).map fun cat =>
    markPathDirty c.1 v { db with catalog := cat } c.2.path

/-- `observe_local_copies_batch` with its marks. -/
def observeBatchRows (vaults : VaultTable) (ses : Session) (v : VaultId) (seenAt : Option Stamp)
    (db : Db) (entries : List LocalEntry) : Option Db :=
  (observeLocalCopiesBatchRows vaults db.catalog v entries seenAt).map fun cat =>
    markPathsDirty ses v { db with catalog := cat } ((lastByPath entries).map LocalEntry.path)

/-- One observation at a time, with the marks of each. -/
lemma foldlM_observeRows (vaults : VaultTable) (v : VaultId) (seenAt : Option Stamp)
    (calls : List (Session × LocalEntry)) (db : Db) :
    Option.Rel (fun cat db' => db'.catalog = cat ∧
        MarksAdded v {d | ∃ c ∈ calls, d ∈ ancestorDirectories c.2.path} db db')
      (observeEach vaults v seenAt db.catalog (calls.map Prod.snd))
      (calls.foldlM (observeRows vaults v seenAt) db) := by
  induction calls generalizing db with
  | nil => exact .some ⟨rfl, by simp, rfl, rfl, rfl⟩
  | cons c calls ih =>
      rw [foldlM_cons, map_cons, observeEach, foldlM_cons, observeRows,
        observeLocalCopyRows_eq]
      cases hone : observeLocalCopy vaults db.catalog v c.2 seenAt none with
      | none => exact .none
      | some cat =>
          obtain ⟨hmarked, hcat⟩ := marksAdded_persistDirtyDirectories c.1 v { db with catalog := cat }
            (ancestorDirectories c.2.path)
          have hrest := ih (markPathDirty c.1 v { db with catalog := cat } c.2.path)
          rw [markPathDirty, hcat] at hrest
          rw [Option.map_some, Option.bind_eq_bind, Option.bind_eq_bind, Option.bind_some,
            Option.bind_some]
          change Option.Rel _ (observeEach vaults v seenAt cat (calls.map Prod.snd)) _
          revert hrest
          rw [markPathDirty]
          cases observeEach vaults v seenAt cat (calls.map Prod.snd) with
          | none =>
              cases calls.foldlM (observeRows vaults v seenAt) _ with
              | none => exact fun _ => .none
              | some db' => nofun
          | some cat' =>
              cases calls.foldlM (observeRows vaults v seenAt) _ with
              | none => nofun
              | some db' =>
                  rintro ⟨hcat', hmarked'⟩
                  have hboth := hmarked.trans hmarked'
                  refine .some ⟨hcat', MarksAdded.congr ⟨hboth.dirty, hboth.vaults, hboth.status,
                    hboth.aggregates⟩ ?_⟩
                  ext d
                  simp

/-- **A batch refines one observation at a time.**  On entries with different paths and a common
stamp, `observe_local_copies_batch` leaves what `observe_local_copy` leaves when it is called once
for each entry, in any order and in whatever transactions: the same Vault Files up to fresh ids,
Local Copies, Jobs and deletion items, and the same dirty directories; or both raise. -/
theorem batch_refines_single (vaults : VaultTable) (ses : Session) (v : VaultId)
    (seenAt : Option Stamp) (db : Db) (entries : List LocalEntry) (at_ : Stamp)
    (hnd : (entries.map LocalEntry.path).Nodup) (hat : ∀ e ∈ entries, e.observedAt = at_)
    (calls : List (Session × LocalEntry)) (hperm : (calls.map Prod.snd).Perm entries) :
    Option.Rel (SameObservation db) (observeBatchRows vaults ses v seenAt db entries)
      (calls.foldlM (observeRows vaults v seenAt) db) := by
  have hcats := observeBatch_observeEach vaults db.catalog v seenAt hnd hat hperm
  have hcalls := foldlM_observeRows vaults v seenAt calls db
  rw [observeBatchRows, observeLocalCopiesBatchRows_eq, lastByPath_of_nodup hnd]
  revert hcats hcalls
  cases observeEach vaults v seenAt db.catalog (calls.map Prod.snd) with
  | none =>
      cases calls.foldlM (observeRows vaults v seenAt) db with
      | some db' => nofun
      | none =>
          cases observeLocalCopiesBatch vaults db.catalog v entries seenAt with
          | none => exact fun _ _ => .none
          | some cat => nofun
  | some cat' =>
      cases calls.foldlM (observeRows vaults v seenAt) db with
      | none => nofun
      | some db' =>
          cases observeLocalCopiesBatch vaults db.catalog v entries seenAt with
          | none => nofun
          | some cat =>
              rintro ⟨hsame⟩ ⟨rfl, hmarked⟩
              obtain ⟨hbatch, hcat⟩ := marksAdded_persistDirtyDirectories ses v
                { db with catalog := cat }
                (((entries.map LocalEntry.path).flatMap ancestorDirectories).dedup.insertionSort
                  (· ≤ ·))
              refine .some ⟨hcat ▸ hsame, fun w d => ?_, hbatch.vaults.trans hmarked.vaults.symm,
                hbatch.status.trans hmarked.status.symm,
                hbatch.aggregates.trans hmarked.aggregates.symm⟩
              refine (hbatch.dirty w d).trans (Iff.trans ?_ (hmarked.dirty w d).symm)
              refine or_congr_right (and_congr_right fun _ => ?_)
              change d ∈ List.insertionSort _ _ ↔ ∃ c ∈ calls, d ∈ ancestorDirectories c.2.path
              rw [mem_insertionSort, mem_dedup, mem_flatMap]
              constructor
              · rintro ⟨p, hp, hd⟩
                obtain ⟨e, he, rfl⟩ := mem_map.mp hp
                obtain ⟨c, hc, rfl⟩ := mem_map.mp (hperm.mem_iff.mpr he)
                exact ⟨c, hc, hd⟩
              · rintro ⟨c, hc, hd⟩
                have he := hperm.mem_iff.mp (mem_map_of_mem hc)
                exact ⟨c.2.path, mem_map_of_mem he, hd⟩

/-- A freed file at `a/b`, whose only copy is in the cloud. -/
def freedFile : VaultFile :=
  ⟨1, 0, .active, some ['a', '/', 'b'], 0, [],
    some ⟨.missing, .regular, some 3, some 7, some 5, some 1, none, some 1, 2, some 1, none⟩,
    [⟨1, 1, 0, some 1, some 3, none, some 5, .verified, .available, some 1, none, 1, none, none,
      .upload, .upload⟩], []⟩

/-- The database of that file. -/
def freedDb : Db where
  vaults := [0]
  catalog :=
    { files := [freedFile]
      jobs := []
      items := []
      ids_nodup := by simp
      paths_unique := by simp
      versions_unique := by simp [VaultFile.versionKeys, freedFile]
      jobIds_nodup := nodup_nil }
  dirty := []
  status := fun _ => none
  aggregates := fun _ _ => none

/-- The file reappears, and there is a new one next to it. -/
def reappeared : List LocalEntry :=
  [⟨['a', '/', 'b'], .regular, some 3, some 7, 9⟩, ⟨['a', '/', 'c'], .regular, some 4, none, 9⟩]

/-- One transaction for both, or one for each in the other order. -/
theorem batch_refines_single_fixture :
    Option.Rel (SameObservation freedDb)
        (observeBatchRows (fun _ => none) ⟨1, fun _ => 9⟩ 0 none freedDb reappeared)
        ((reappeared.reverse.map fun e => (⟨2, fun _ => 10⟩, e)).foldlM
          (observeRows (fun _ => none) 0 none) freedDb) ∧
      (observeBatchRows (fun _ => none) ⟨1, fun _ => 9⟩ 0 none freedDb reappeared).isSome = true :=
  ⟨batch_refines_single (fun _ => none) ⟨1, fun _ => 9⟩ 0 none freedDb reappeared 9 (by decide)
    (by decide) (reappeared.reverse.map fun e => (⟨2, fun _ => 10⟩, e)) (by decide), by decide⟩

end Frostvault
