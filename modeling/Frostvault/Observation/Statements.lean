import Frostvault.Observation.Identities

/-!
The statements of the two observation functions (`observe_local_copy`,
`_resolve_or_create_files` and `observe_local_copies_batch` of `app/catalog.py`).

One observation is an upsert of one row.  A batch is a lookup and guarded inserts for each
chunk of paths, one `UPDATE` whose columns are sub-selects over the derived table `s`, and one
guarded `INSERT`.  Both come to `observedCopy`, row by row.

* `upsertLocalCopy`, `upsertLocalCopy_eq`: `INSERT .. ON CONFLICT(vault_file_id) DO UPDATE`;
* `resolveChunk`, `resolveChunks_eq`: the chunked identities are those of one path at a time;
* `updateLocalCopies`, `insertLocalCopies`, `writeObserved_eq`: the two statements of a batch;
* `observeLocalCopyRows_eq`, `observeLocalCopiesBatchRows_eq`: the functions over them.
-/

namespace Frostvault

open List Sql

/-! ### Rows -/

/-- A row of the derived table `s`; the values of a single observation. -/
structure ObservedRow where
  vaultFileId : FileId
  presence : Presence
  fileType : FileType
  size : Option ℕ
  mtimeNs : Option ℤ
  lastSeenAt : Stamp
  observedAt : Stamp
deriving DecidableEq, Repr

/-- The row of an entry whose path resolved to an id. -/
def LocalEntry.row (e : LocalEntry) (id : FileId) (seenAt : Option Stamp) : ObservedRow where
  vaultFileId := id
  presence := presenceOf e.fileType
  fileType := e.fileType
  size := e.size
  mtimeNs := e.mtimeNs
  lastSeenAt := seenAt.getD e.observedAt
  observedAt := e.observedAt

/-- The row both functions insert; `onlyCopy` is `_only_cloud_copy_sql`. -/
def ObservedRow.inserted (r : ObservedRow) (onlyCopy : Option RowId) : LocalCopy where
  presence := r.presence
  fileType := r.fileType
  size := r.size
  mtimeNs := r.mtimeNs
  plaintextSha256 := none
  matchedArchiveVersionId := none
  cloudOnlyVersionId := if r.presence = .present then onlyCopy else none
  lastSeenAt := some r.lastSeenAt
  observedAt := r.observedAt
  contentObservedAt := some r.observedAt
  recoveredAt := none

/-- Type, size and modification time are those of the row, with `NULL`s taken as equal. -/
def sameContentSql (lc : LocalCopy) (t : FileType) (size : Option ℕ) (mtimeNs : Option ℤ) : Cond :=
  ((eqLit (some lc.fileType) t).and (eqOrBothNull lc.size size)).and
    (eqOrBothNull lc.mtimeNs mtimeNs)

/-! ### One observation -/

/-- The update of a conflicting row, over `excluded`. -/
def LocalCopy.onConflict (lc excluded : LocalCopy) : LocalCopy where
  presence := excluded.presence
  fileType := excluded.fileType
  size := excluded.size
  mtimeNs := excluded.mtimeNs
  plaintextSha256 :=
    if (sameContentSql lc excluded.fileType excluded.size excluded.mtimeNs).holds then
      lc.plaintextSha256 else none
  matchedArchiveVersionId :=
    if (sameContentSql lc excluded.fileType excluded.size excluded.mtimeNs).holds then
      lc.matchedArchiveVersionId else none
  cloudOnlyVersionId :=
    if excluded.presence = .present ∧ lc.presence ≠ .present then excluded.cloudOnlyVersionId
    else lc.cloudOnlyVersionId
  lastSeenAt := excluded.lastSeenAt
  observedAt := excluded.observedAt
  contentObservedAt :=
    -- `IS DISTINCT FROM`
    if (lc.presence, lc.fileType, lc.size, lc.mtimeNs) ≠
        (excluded.presence, excluded.fileType, excluded.size, excluded.mtimeNs) then
      some excluded.observedAt
    else lc.contentObservedAt.or ((some lc.observedAt).or (some excluded.observedAt))
  recoveredAt := lc.recoveredAt

/-- The upsert of `observe_local_copy`.  A recovery holds nothing back. -/
def upsertLocalCopy (cat : Catalog) (r : ObservedRow) (recovery : Bool) : Catalog :=
  cat.mapLocalCopies fun f =>
    if f.id = r.vaultFileId then
      let excluded := r.inserted (if recovery then none else f.onlyCloudCopy)
      match f.localCopy with
      | none => some excluded
      | some lc => some (lc.onConflict excluded)
    else f.localCopy

/-- `UPDATE local_copies SET recovered_at=%s WHERE vault_file_id=%s`. -/
def setRecoveredAt (cat : Catalog) (id : FileId) (recoveredAt : Stamp) : Catalog :=
  cat.mapLocalCopies fun f =>
    if f.id = id then
      f.localCopy.map fun lc => { lc with recoveredAt := some recoveredAt }
    else f.localCopy

/-- `observe_local_copy`, statement by statement. -/
def observeLocalCopyRows (vaults : VaultTable) (cat : Catalog) (v : VaultId) (e : LocalEntry)
    (seenAt recoveredAt : Option Stamp) : Option Catalog :=
  let (cat', id) := getOrCreateFile cat v e.path e.observedAt
  let written := upsertLocalCopy cat' (e.row id seenAt) recoveredAt.isSome
  let recovered := match recoveredAt with
    | some stamp => setRecoveredAt written id stamp
    | none => written
  cancelReappearedDeletions vaults recovered v [id]

/-! ### A batch -/

/-- `_chunked`. -/
def chunked {α : Type*} (seq : List α) (size : ℕ) : List (List α) :=
  (List.range ((seq.length + size - 1) / size)).map fun i => (seq.drop (i * size)).take size

/-- `SELECT fp.path, vf.id .. WHERE vf.vault_id=%s AND fp.path IN (..)`. -/
def currentRows (cat : Catalog) (v : VaultId) (paths : List Path) : List (Path × FileId) :=
  cat.files.filterMap fun f =>
    f.currentPath.bind fun p => if f.vaultId = v ∧ p ∈ paths then some (p, f.id) else none

/-- One chunk of `_resolve_or_create_files`: the lookup, the guarded inserts of the paths it did
not find, and their lookup.  A path that is held by now is not inserted. -/
def resolveChunk (v : VaultId) (createdAt : Stamp) (acc : Catalog × List (Path × FileId))
    (chunk : List Path) : Catalog × List (Path × FileId) :=
  let found := currentRows acc.1 v chunk
  let newPaths := chunk.filter fun p => p ∉ found.map Prod.fst
  if newPaths = [] then (acc.1, acc.2 ++ found)
  else
    let minted := newPaths.foldl (fun c p => (getOrCreateFile c v p createdAt).1) acc.1
    (minted, acc.2 ++ found ++ currentRows minted v newPaths)

/-- `_resolve_or_create_files`: `{path: resolved[path] for path in paths}`; `none` is a
`KeyError`. -/
def resolveOrCreateFilesRows (cat : Catalog) (v : VaultId) (paths : List Path)
    (createdAt : Stamp) : Option (Catalog × List (Path × FileId)) :=
  let r := (chunked paths.eraseDups 200).foldl (resolveChunk v createdAt) (cat, [])
  (paths.mapM fun p => (r.2.lookup p).map fun id => (p, id)).map fun ids => (r.1, ids)

/-- The row of `s` a sub-select finds for a file. -/
def subSelect (s : List ObservedRow) (id : FileId) : Option ObservedRow :=
  s.find? fun r => r.vaultFileId = id

/-- The columns of the `UPDATE` for the row `r` of `s`. -/
def LocalCopy.updatedBy (lc : LocalCopy) (r : ObservedRow) (onlyCopy : Option RowId) :
    LocalCopy where
  presence := r.presence
  fileType := r.fileType
  size := r.size
  mtimeNs := r.mtimeNs
  plaintextSha256 :=
    if (sameContentSql lc r.fileType r.size r.mtimeNs).holds then lc.plaintextSha256 else none
  matchedArchiveVersionId :=
    if (sameContentSql lc r.fileType r.size r.mtimeNs).holds then lc.matchedArchiveVersionId
    else none
  cloudOnlyVersionId :=
    if lc.presence ≠ .present ∧ r.presence = .present then onlyCopy else lc.cloudOnlyVersionId
  lastSeenAt := some r.lastSeenAt
  observedAt := r.observedAt
  contentObservedAt :=
    if (lc.presence, lc.fileType, lc.size, lc.mtimeNs) ≠
        (r.presence, r.fileType, r.size, r.mtimeNs) then some r.observedAt
    else lc.contentObservedAt.or (some lc.observedAt)
  recoveredAt := lc.recoveredAt

/-- `WITH s .. UPDATE local_copies .. WHERE vault_file_id IN (SELECT vault_file_id FROM s)`. -/
def updateLocalCopies (cat : Catalog) (s : List ObservedRow) : Catalog :=
  cat.mapLocalCopies fun f =>
    f.localCopy.map fun lc =>
      match subSelect s f.id with
      | some r => lc.updatedBy r f.onlyCloudCopy
      | none => lc

/-- `WITH s .. INSERT INTO local_copies .. WHERE NOT EXISTS (..)`. -/
def insertLocalCopies (cat : Catalog) (s : List ObservedRow) : Catalog :=
  cat.mapLocalCopies fun f =>
    match f.localCopy with
    | some lc => some lc
    | none => (subSelect s f.id).map fun r => r.inserted f.onlyCloudCopy

/-- `observe_local_copies_batch`, statement by statement. -/
def observeLocalCopiesBatchRows (vaults : VaultTable) (cat : Catalog) (v : VaultId)
    (entries : List LocalEntry) (seenAt : Option Stamp) : Option Catalog :=
  match lastByPath entries with
  | [] => some cat
  | e :: es => do
      let ordered := e :: es
      let (cat', fileIds) ←
        resolveOrCreateFilesRows cat v (ordered.map LocalEntry.path) e.observedAt
      let s ← ordered.mapM fun o => (fileIds.lookup o.path).map fun id => o.row id seenAt
      cancelReappearedDeletions vaults (insertLocalCopies (updateLocalCopies cat' s) s) v
        (fileIds.map Prod.snd)

/-! ### One row -/

section Row

variable {lc : LocalCopy} {e : LocalEntry} {id : FileId} {seenAt : Option Stamp}
  {onlyCopy : Option RowId}

lemma holds_sameContentSql (lc : LocalCopy) (e : LocalEntry) :
    (sameContentSql lc e.fileType e.size e.mtimeNs).holds = lc.unchangedBy e := by
  simp only [sameContentSql, Cond.holds_and, holds_eqLit, holds_eqOrBothNull,
    LocalCopy.unchangedBy, Option.some.injEq]

lemma distinctFrom_iff (lc : LocalCopy) (e : LocalEntry) :
    (lc.presence, lc.fileType, lc.size, lc.mtimeNs) ≠
        (presenceOf e.fileType, e.fileType, e.size, e.mtimeNs) ↔
      ¬(lc.presence = presenceOf e.fileType ∧ lc.unchangedBy e) := by
  simp only [ne_eq, Prod.mk.injEq, LocalCopy.unchangedBy, Bool.and_eq_true, decide_eq_true_eq,
    and_assoc]

lemma inserted_row : (e.row id seenAt).inserted onlyCopy = observedCopy none onlyCopy e seenAt :=
  rfl

/-- The stability stamp of both statements, whose `COALESCE` comes to `stamp`. -/
lemma contentObservedAt_row {stamp : Option Stamp}
    (hstamp : stamp = some (lc.contentObservedAt.getD lc.observedAt)) :
    (if (lc.presence, lc.fileType, lc.size, lc.mtimeNs) ≠
        (presenceOf e.fileType, e.fileType, e.size, e.mtimeNs) then some e.observedAt
      else stamp) =
      if lc.presence = presenceOf e.fileType ∧ lc.unchangedBy e = true then
        some (lc.contentObservedAt.getD lc.observedAt)
      else some e.observedAt := by
  have hdistinct := distinctFrom_iff lc e
  split <;> rename_i hd
  · rw [if_neg (hdistinct.mp hd)]
  · rw [if_pos (not_not.mp (hdistinct.not.mp hd)), hstamp]

lemma onConflict_row :
    lc.onConflict ((e.row id seenAt).inserted onlyCopy) =
      observedCopy (some lc) onlyCopy e seenAt := by
  simp only [LocalCopy.onConflict, ObservedRow.inserted, LocalEntry.row, observedCopy,
    holds_sameContentSql]
  congr 1
  refine contentObservedAt_row ?_
  cases lc.contentObservedAt <;> rfl

lemma updatedBy_row :
    lc.updatedBy (e.row id seenAt) onlyCopy = observedCopy (some lc) onlyCopy e seenAt := by
  simp only [LocalCopy.updatedBy, LocalEntry.row, observedCopy, holds_sameContentSql]
  congr 1
  · by_cases hp : presenceOf e.fileType = .present <;> simp [hp]
  · refine contentObservedAt_row ?_
    cases lc.contentObservedAt <;> rfl

end Row

variable {cat cat' : Catalog} {v : VaultId}

lemma mapLocalCopies_congr {g g' : VaultFile → Option LocalCopy}
    (h : ∀ f ∈ cat.files, g f = g' f) : cat.mapLocalCopies g = cat.mapLocalCopies g' := by
  refine Catalog.eq_of_rows (map_congr_left fun f hf => ?_) rfl rfl
  rw [h f hf]

/-! ### One observation -/

/-- **`observe_local_copy`** writes `observedCopy`. -/
theorem observeLocalCopyRows_eq (vaults : VaultTable) (cat : Catalog) (v : VaultId)
    (e : LocalEntry) (seenAt recoveredAt : Option Stamp) :
    observeLocalCopyRows vaults cat v e seenAt recoveredAt =
      observeLocalCopy vaults cat v e seenAt recoveredAt := by
  rw [observeLocalCopyRows, observeLocalCopy]
  generalize getOrCreateFile cat v e.path e.observedAt = r
  obtain ⟨cat', id⟩ := r
  dsimp only
  have hrow : ∀ (f : VaultFile) (onlyCopy : Option RowId),
      (match f.localCopy with
        | none => some ((e.row id seenAt).inserted onlyCopy)
        | some lc => some (lc.onConflict ((e.row id seenAt).inserted onlyCopy))) =
        some (observedCopy f.localCopy onlyCopy e seenAt) := by
    intro f onlyCopy
    cases f.localCopy with
    | none => rfl
    | some lc => exact congrArg some onConflict_row
  have hupsert : ∀ recovery, upsertLocalCopy cat' (e.row id seenAt) recovery =
      cat'.mapLocalCopies fun f =>
        if f.id = id then
          some (observedCopy f.localCopy (if recovery then none else f.onlyCloudCopy) e seenAt)
        else f.localCopy := by
    intro recovery
    refine mapLocalCopies_congr fun f _ => ?_
    exact if_congr Iff.rfl (hrow f _) rfl
  cases recoveredAt with
  | none =>
      dsimp only
      rw [Option.isSome_none, hupsert]
      rfl
  | some stamp =>
      dsimp only
      rw [Option.isSome_some, hupsert, setRecoveredAt, mapLocalCopies_mapLocalCopies]
      congr 1
      refine mapLocalCopies_congr fun f _ => ?_
      by_cases hid : f.id = id
      · simp [hid, VaultFile.withCopy]
      · simp [hid, VaultFile.withCopy]

/-! ### Chunks of paths -/

/-- The chunks of a list are the list, cut. -/
lemma flatten_chunked {α : Type*} (seq : List α) {size : ℕ} (hsize : 0 < size) :
    (chunked seq size).flatten = seq := by
  have hcut : ∀ n, ((List.range n).map fun i => (seq.drop (i * size)).take size).flatten =
      seq.take (n * size) := by
    intro n
    induction n with
    | zero => simp
    | succ n ih =>
        rw [range_succ, map_append, flatten_append, ih, Nat.succ_mul,
          take_add]
        simp
  rw [chunked, hcut]
  refine take_of_length_le ?_
  have hdiv := Nat.div_add_mod (seq.length + size - 1) size
  have hmod := Nat.mod_lt (seq.length + size - 1) hsize
  rw [Nat.mul_comm]
  omega

variable {fileIds : List (Path × FileId)} {p : Path}

lemma getOrCreateFile_of_held {f : VaultFile} (h : cat.fileAt? v p = some f)
    (at_ : Stamp) : getOrCreateFile cat v p at_ = (cat, f.id) := by
  unfold getOrCreateFile
  split
  · rename_i g hg
    rw [Option.some.inj (h.symm.trans hg)]
  · rename_i hnone
    cases h.symm.trans hnone

/-- Mint a file for each path nobody holds. -/
def mintFiles (v : VaultId) (at_ : Stamp) (cat : Catalog) (ps : List Path) : Catalog :=
  ps.foldl (fun c p => (getOrCreateFile c v p at_).1) cat

lemma mem_mintFiles {f : VaultFile} (hf : f ∈ cat.files) (at_ : Stamp) (ps : List Path) :
    f ∈ (mintFiles v at_ cat ps).files := by
  induction ps generalizing cat with
  | nil => exact hf
  | cons p ps ih =>
      obtain ⟨created, hext, -⟩ := getOrCreateFile_spec cat v p at_
      refine ih ?_
      rw [hext.files]
      exact mem_append_left _ hf

lemma Resolved.mono {id : FileId} (h : Resolved cat v p id)
    (hsub : ∀ f ∈ cat.files, f ∈ cat'.files) : Resolved cat' v p id := by
  obtain ⟨f, hf, hrest⟩ := h
  exact ⟨f, hsub f hf, hrest⟩

/-- Paths that are held already add nothing. -/
lemma mintFiles_filter (cat : Catalog) (at_ : Stamp) (ps : List Path)
    (hsub : ∀ f ∈ cat.files, f ∈ cat'.files) :
    mintFiles v at_ cat' (ps.filter fun p => cat.fileAt? v p = none) =
      mintFiles v at_ cat' ps := by
  induction ps generalizing cat' with
  | nil => rfl
  | cons p ps ih =>
      obtain ⟨created, hext, -⟩ := getOrCreateFile_spec cat' v p at_
      have hsub' : ∀ f ∈ cat.files, f ∈ (getOrCreateFile cat' v p at_).1.files := by
        intro f hf
        rw [hext.files]
        exact mem_append_left _ (hsub f hf)
      cases hp : cat.fileAt? v p with
      | none =>
          rw [filter_cons_of_pos (by simp [hp])]
          exact ih hsub'
      | some f =>
          rw [filter_cons_of_neg (by simp [hp])]
          obtain ⟨hf, hv, hpath⟩ := Catalog.mem_of_fileAt? hp
          have hheld : cat'.fileAt? v p = some f :=
            Catalog.fileAt?_eq_some_iff.mpr ⟨hsub f hf, hv, hpath⟩
          rw [ih hsub]
          show mintFiles v at_ cat' ps = mintFiles v at_ (getOrCreateFile cat' v p at_).1 ps
          rw [getOrCreateFile_of_held hheld]

lemma mem_currentRows {ps : List Path} {pid : Path × FileId} :
    pid ∈ currentRows cat v ps ↔ pid.1 ∈ ps ∧ Resolved cat v pid.1 pid.2 := by
  rw [currentRows, mem_filterMap]
  constructor
  · rintro ⟨f, hf, hrow⟩
    obtain ⟨p, hp, hrow⟩ := Option.bind_eq_some_iff.mp hrow
    split at hrow
    · rename_i hcond
      cases hrow
      exact ⟨hcond.2, f, hf, rfl, hcond.1, hp⟩
    · cases hrow
  · rintro ⟨hps, f, hf, hid, hv, hp⟩
    refine ⟨f, hf, Option.bind_eq_some_iff.mpr ⟨pid.1, hp, ?_⟩⟩
    rw [if_pos ⟨hv, hps⟩, hid]

lemma fileAt?_eq_none_iff :
    cat.fileAt? v p = none ↔ ∀ id, ¬Resolved cat v p id := by
  constructor
  · rintro hnone id ⟨f, hf, -, hv, hp⟩
    exact Catalog.not_currentPath_of_fileAt?_none hnone hf hv hp
  · intro hno
    cases h : cat.fileAt? v p with
    | none => rfl
    | some f =>
        obtain ⟨hf, hv, hp⟩ := Catalog.mem_of_fileAt? h
        exact absurd ⟨f, hf, rfl, hv, hp⟩ (hno f.id)

/-- The paths of a chunk the lookup does not find are those nobody holds. -/
lemma newPaths_eq (chunk : List Path) :
    (chunk.filter fun p => p ∉ (currentRows cat v chunk).map Prod.fst) =
      chunk.filter fun p => cat.fileAt? v p = none := by
  refine filter_congr fun p hp => decide_eq_decide.mpr ?_
  rw [fileAt?_eq_none_iff, mem_map]
  constructor
  · rintro hno id hres
    exact hno ⟨(p, id), mem_currentRows.mpr ⟨hp, hres⟩, rfl⟩
  · rintro hno ⟨pid, hpid, rfl⟩
    exact hno pid.2 (mem_currentRows.mp hpid).2

lemma resolved_mintFiles (cat : Catalog) (v : VaultId) (at_ : Stamp) {ps : List Path}
    (hp : p ∈ ps) : ∃ id, Resolved (mintFiles v at_ cat ps) v p id := by
  induction ps generalizing cat with
  | nil => cases hp
  | cons q ps ih =>
      obtain ⟨created, -, hres⟩ := getOrCreateFile_spec cat v q at_
      rcases mem_cons.mp hp with rfl | hp
      · exact ⟨_, hres.mono fun f hf => mem_mintFiles hf at_ ps⟩
      · exact ih _ hp

/-- What a chunk leaves: its paths resolved, and the rows of the chunks before it. -/
lemma resolveChunk_spec (v : VaultId) (at_ : Stamp) (acc : Catalog × List (Path × FileId))
    (chunk : List Path) (hacc : ∀ pid ∈ acc.2, Resolved acc.1 v pid.1 pid.2) :
    (resolveChunk v at_ acc chunk).1 = mintFiles v at_ acc.1 chunk ∧
      (∀ pid ∈ (resolveChunk v at_ acc chunk).2,
        Resolved (resolveChunk v at_ acc chunk).1 v pid.1 pid.2) ∧
      ∀ p, p ∈ acc.2.map Prod.fst ∨ p ∈ chunk →
        p ∈ (resolveChunk v at_ acc chunk).2.map Prod.fst := by
  have hmint := mintFiles_filter (v := v) acc.1 at_ chunk fun f hf => hf
  have hres : ∀ pid ∈ acc.2 ++ currentRows acc.1 v chunk, Resolved acc.1 v pid.1 pid.2 := by
    intro pid hpid
    rcases mem_append.mp hpid with hpid | hpid
    · exact hacc pid hpid
    · exact (mem_currentRows.mp hpid).2
  unfold resolveChunk
  dsimp only
  rw [newPaths_eq]
  split
  · rename_i hnone
    rw [hnone] at hmint
    refine ⟨hmint, hres, fun p hp => ?_⟩
    rw [map_append, mem_append]
    refine hp.imp_right fun hp => ?_
    have hheld : acc.1.fileAt? v p ≠ none := by
      simpa using filter_eq_nil_iff.mp hnone p hp
    obtain ⟨id, hid⟩ : ∃ id, Resolved acc.1 v p id := by
      simpa only [ne_eq, fileAt?_eq_none_iff, not_forall, not_not] using hheld
    exact mem_map.mpr ⟨(p, id), mem_currentRows.mpr ⟨hp, hid⟩, rfl⟩
  · refine ⟨hmint, fun pid hpid => ?_, fun p hp => ?_⟩
    · rcases mem_append.mp hpid with hpid | hpid
      · exact (hres pid hpid).mono fun f hf => mem_mintFiles hf at_ _
      · exact (mem_currentRows.mp hpid).2
    · rw [map_append, map_append, mem_append, mem_append]
      rcases hp with hp | hp
      · exact .inl (.inl hp)
      · by_cases hheld : acc.1.fileAt? v p = none
        · refine .inr ?_
          have hnew := mem_filter (p := fun p => decide (acc.1.fileAt? v p = none)).mpr
            ⟨hp, decide_eq_true hheld⟩
          obtain ⟨id, hid⟩ := resolved_mintFiles acc.1 v at_ hnew
          exact mem_map.mpr ⟨(p, id), mem_currentRows.mpr ⟨hnew, hid⟩, rfl⟩
        · obtain ⟨id, hid⟩ : ∃ id, Resolved acc.1 v p id := by
            simpa only [fileAt?_eq_none_iff, not_forall, not_not] using hheld
          exact .inl (.inr (mem_map.mpr ⟨(p, id), mem_currentRows.mpr ⟨hp, hid⟩, rfl⟩))

lemma foldl_resolveChunk_spec (v : VaultId) (at_ : Stamp) (chunks : List (List Path))
    (acc : Catalog × List (Path × FileId)) (hacc : ∀ pid ∈ acc.2, Resolved acc.1 v pid.1 pid.2) :
    (chunks.foldl (resolveChunk v at_) acc).1 = mintFiles v at_ acc.1 chunks.flatten ∧
      (∀ pid ∈ (chunks.foldl (resolveChunk v at_) acc).2,
        Resolved (chunks.foldl (resolveChunk v at_) acc).1 v pid.1 pid.2) ∧
      ∀ p, p ∈ acc.2.map Prod.fst ∨ p ∈ chunks.flatten →
        p ∈ (chunks.foldl (resolveChunk v at_) acc).2.map Prod.fst := by
  induction chunks generalizing acc with
  | nil => exact ⟨rfl, hacc, fun p hp => hp.resolve_right (by simp)⟩
  | cons chunk chunks ih =>
      obtain ⟨hcat, hres, hkeys⟩ := resolveChunk_spec v at_ acc chunk hacc
      obtain ⟨hcat', hres', hkeys'⟩ := ih (resolveChunk v at_ acc chunk) hres
      refine ⟨?_, hres', fun p hp => hkeys' p ?_⟩
      · rw [foldl_cons, hcat', hcat, flatten_cons, mintFiles, mintFiles, mintFiles,
          foldl_append]
      · rw [flatten_cons, mem_append, ← or_assoc] at hp
        exact hp.imp_left (hkeys p)

lemma Resolved.unique {id id' : FileId} (h : Resolved cat v p id)
    (h' : Resolved cat v p id') : id = id' := by
  obtain ⟨f, hf, hid, hv, hp⟩ := h
  exact hid.symm.trans (h'.id_eq hf hv hp)

/-- The lookup in the rows of resolved paths. -/
lemma lookup_resolved {ids : List (Path × FileId)} (hres : ∀ pid ∈ ids, Resolved cat v pid.1 pid.2)
    {id : FileId} (hkey : p ∈ ids.map Prod.fst) (hid : Resolved cat v p id) :
    ids.lookup p = some id := by
  have hmem : ∀ id', ids.lookup p = some id' → (p, id') ∈ ids := by
    intro id' h
    obtain ⟨l₁, l₂, rfl, -⟩ := lookup_eq_some_iff.mp h
    simp
  cases hl : ids.lookup p with
  | none =>
      obtain ⟨pid, hpid, rfl⟩ := mem_map.mp hkey
      have := lookup_eq_none_iff.mp hl pid hpid
      simp at this
  | some id' =>
      have hres' : Resolved cat v p id' := hres _ (hmem id' hl)
      rw [hres'.unique hid]

/-- A lookup that finds every key rebuilds the rows. -/
lemma mapM_lookup (look : Path → Option FileId) {ids : List (Path × FileId)}
    (h : ∀ pid ∈ ids, look pid.1 = some pid.2) :
    (ids.map Prod.fst).mapM (fun p => (look p).map fun id => (p, id)) = some ids := by
  induction ids with
  | nil => rfl
  | cons pid ids ih =>
      rw [forall_mem_cons] at h
      rw [map_cons, mapM_cons, ih h.2, h.1]
      rfl

/-- Removing duplicates changes nothing where there are none. -/
lemma eraseDups_of_nodup {α : Type*} [BEq α] [LawfulBEq α] {l : List α} (h : l.Nodup) :
    l.eraseDups = l := by
  induction l with
  | nil => rfl
  | cons a l ih =>
      obtain ⟨ha, hl⟩ := nodup_cons.mp h
      have hfilter : l.filter (fun b => !b == a) = l := by
        refine filter_eq_self.mpr fun b hb => ?_
        simpa using fun hba : b = a => ha (hba ▸ hb)
      rw [eraseDups_cons, hfilter, ih hl]

lemma foldl_resolvePath_fst (v : VaultId) (at_ : Stamp) (ps : List Path)
    (acc : Catalog × List (Path × FileId)) :
    (ps.foldl (resolvePath v at_) acc).1 = mintFiles v at_ acc.1 ps := by
  induction ps generalizing acc with
  | nil => rfl
  | cons p ps ih => exact ih (resolvePath v at_ acc p)

/-- **The chunked identities are those of one path at a time.** -/
theorem resolveOrCreateFilesRows_eq {paths : List Path} (hnd : paths.Nodup) (at_ : Stamp) :
    resolveOrCreateFilesRows cat v paths at_ = some (resolveOrCreateFiles cat v paths at_) := by
  obtain ⟨hcat, hres, hkeys⟩ :=
    foldl_resolveChunk_spec v at_ (chunked paths 200) (cat, []) (by simp)
  obtain ⟨-, -, hres', hfst⟩ := resolveOrCreateFiles_spec cat v paths at_
  have hcat' : (resolveOrCreateFiles cat v paths at_).1 = mintFiles v at_ cat paths := by
    rw [resolveOrCreateFiles, dedup_eq_self.mpr hnd, foldl_resolvePath_fst]
  rw [flatten_chunked paths (by decide)] at hcat hkeys
  rw [dedup_eq_self.mpr hnd] at hfst
  rw [resolveOrCreateFilesRows, eraseDups_of_nodup hnd]
  have hlook : ∀ pid ∈ (resolveOrCreateFiles cat v paths at_).2,
      ((chunked paths 200).foldl (resolveChunk v at_) (cat, [])).2.lookup pid.1 = some pid.2 := by
    intro pid hpid
    have hkey : pid.1 ∈ paths := hfst ▸ mem_map_of_mem hpid
    refine lookup_resolved hres (hkeys pid.1 (.inr hkey)) ?_
    rw [hcat, ← hcat']
    exact hres' pid hpid
  have hids := mapM_lookup (fun p => ((chunked paths 200).foldl (resolveChunk v at_)
    (cat, [])).2.lookup p) hlook
  rw [hfst] at hids
  rw [hids, hcat, ← hcat']
  rfl

/-! ### A batch -/

/-- The rows of `s`, in the order of the entries. -/
lemma subSelect_mapM {ordered : List LocalEntry} {seenAt : Option Stamp} {s : List ObservedRow}
    (h : (ordered.mapM fun o => (fileIds.lookup o.path).map fun id => o.row id seenAt) = some s)
    (id : FileId) :
    subSelect s id = (ordered.find? fun o => fileIds.lookup o.path = some id).map
      fun o => o.row id seenAt := by
  induction ordered generalizing s with
  | nil =>
      cases h
      rfl
  | cons o os ih =>
      rw [mapM_cons, Option.bind_eq_bind, Option.bind_eq_some_iff] at h
      obtain ⟨r, hr, h⟩ := h
      obtain ⟨rs, hrs, h⟩ := Option.bind_eq_some_iff.mp h
      cases h
      obtain ⟨id', hid', rfl⟩ := Option.map_eq_some_iff.mp hr
      have hrest := ih hrs
      rw [subSelect] at hrest ⊢
      by_cases hid : id' = id
      · subst hid
        rw [find?_cons_of_pos (by simp [LocalEntry.row]),
          find?_cons_of_pos (by simp [hid'])]
        rfl
      · rw [find?_cons_of_neg (by simp [LocalEntry.row, hid]),
          find?_cons_of_neg (by simp [hid', hid]), hrest]

/-- Every entry has a row as soon as its path has an id. -/
lemma exists_mapM {ordered : List LocalEntry}
    (seenAt : Option Stamp) (h : ∀ o ∈ ordered, o.path ∈ fileIds.map Prod.fst) :
    ∃ s, (ordered.mapM fun o => (fileIds.lookup o.path).map fun id => o.row id seenAt) =
      some s := by
  induction ordered with
  | nil => exact ⟨[], rfl⟩
  | cons o os ih =>
      rw [forall_mem_cons] at h
      obtain ⟨rs, hrs⟩ := ih h.2
      obtain ⟨pid, hpid, hp⟩ := mem_map.mp h.1
      obtain ⟨id, hid⟩ : ∃ id, fileIds.lookup o.path = some id := by
        rw [← Option.isSome_iff_exists, lookup_isSome_iff]
        exact ⟨pid, hpid, by simp [hp]⟩
      refine ⟨o.row id seenAt :: rs, ?_⟩
      rw [mapM_cons, hrs, hid]
      rfl

lemma lookup_eq_some_iff_any (hres : ∀ pid ∈ fileIds, Resolved cat v pid.1 pid.2) {id : FileId} :
    fileIds.lookup p = some id ↔
      (fileIds.any fun pid => decide (pid.1 = p) && decide (pid.2 = id)) := by
  rw [any_eq_true]
  constructor
  · intro h
    obtain ⟨l₁, l₂, rfl, -⟩ := lookup_eq_some_iff.mp h
    exact ⟨(p, id), by simp, by simp⟩
  · rintro ⟨pid, hpid, heq⟩
    rw [Bool.and_eq_true, decide_eq_true_eq, decide_eq_true_eq] at heq
    obtain ⟨rfl, rfl⟩ := heq
    exact lookup_resolved hres (mem_map_of_mem hpid) (hres pid hpid)

/-- **The two statements of a batch** write `observedCopy` into every row that `s` names. -/
lemma writeObserved_eq (s : List ObservedRow) (rowOf : FileId → Option LocalEntry)
    {seenAt : Option Stamp}
    (hs : ∀ f ∈ cat.files, subSelect s f.id = (rowOf f.id).map fun o => o.row f.id seenAt) :
    insertLocalCopies (updateLocalCopies cat s) s = cat.mapLocalCopies fun f =>
      match rowOf f.id with
      | some o => some (observedCopy f.localCopy f.onlyCloudCopy o seenAt)
      | none => f.localCopy := by
  rw [insertLocalCopies, updateLocalCopies, mapLocalCopies_mapLocalCopies]
  refine mapLocalCopies_congr fun f hf => ?_
  have hsub := hs f hf
  cases hrow : rowOf f.id with
  | none =>
      rw [hrow, Option.map_none] at hsub
      cases f.localCopy <;> simp [VaultFile.withCopy, hsub]
  | some o =>
      rw [hrow, Option.map_some] at hsub
      cases f.localCopy with
      | none =>
          simp only [VaultFile.withCopy, hsub, Option.map_none, Option.map_some]
          exact congrArg some inserted_row
      | some lc =>
          simp only [VaultFile.withCopy, hsub, Option.map_some]
          exact congrArg some updatedBy_row

/-- **`observe_local_copies_batch`** resolves the paths and writes `observedCopy`. -/
theorem observeLocalCopiesBatchRows_eq (vaults : VaultTable) (cat : Catalog) (v : VaultId)
    (entries : List LocalEntry) (seenAt : Option Stamp) :
    observeLocalCopiesBatchRows vaults cat v entries seenAt =
      observeLocalCopiesBatch vaults cat v entries seenAt := by
  have hnd := lastByPath_nodup entries
  rw [observeLocalCopiesBatchRows, observeLocalCopiesBatch]
  cases hes : lastByPath entries with
  | nil => rfl
  | cons e es =>
      rw [hes] at hnd
      dsimp only
      rw [resolveOrCreateFilesRows_eq hnd]
      obtain ⟨-, -, hres, hfst⟩ :=
        resolveOrCreateFiles_spec cat v ((e :: es).map LocalEntry.path) e.observedAt
      rw [dedup_eq_self.mpr hnd] at hfst
      generalize resolveOrCreateFiles cat v ((e :: es).map LocalEntry.path) e.observedAt = r
        at hres hfst
      obtain ⟨cat', fileIds⟩ := r
      dsimp only at hres hfst
      obtain ⟨s, hs⟩ := exists_mapM seenAt fun o (ho : o ∈ e :: es) =>
        show o.path ∈ fileIds.map Prod.fst from hfst ▸ mem_map_of_mem ho
      have hsub := fun f (_ : f ∈ cat'.files) => subSelect_mapM hs f.id
      simp only [lookup_eq_some_iff_any hres, Bool.decide_eq_true] at hsub
      simp only [Option.bind_eq_bind, Option.bind_some, hs]
      exact congrArg (fun cat => cancelReappearedDeletions vaults cat v (fileIds.map Prod.snd))
        (writeObserved_eq s (fun id => (e :: es).find? fun o => fileIds.any fun pid =>
          decide (pid.1 = o.path) && decide (pid.2 = id)) hsub)

end Frostvault
