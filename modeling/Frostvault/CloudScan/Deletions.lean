import Frostvault.CloudScan.Listed

/-!
Scans and authorised deletions, side by side.

A snapshot cleanup, a Vault move and a delayed deletion each delete an exact object version in
the bucket and then, in a transaction of their own, mark its row purged (`mark_versions_purged`,
`mark_items_deleted`).  A scan reads the pages of a listing, and merges them later in write
batches.  The merge of a listed version makes its row available, whatever it was.

* `CloudState`, `CloudAct`, `cloudStep`: one Vault with its bucket, any number of scans and
  deletions, in any interleaving;
* `deletions_kept_iff`: **a committed deletion stays purged and is never reported as a loss
  exactly when no write batch holds a version whose deletion has committed**.
-/

namespace Frostvault

open Runs

/-! ### One Vault and its bucket -/

/-- An exact object version. -/
abbrev ObjectVersion := ObjectKey × ProviderVersionId

/-- The merge of a scan: its listing, what it decided before the merge, the number of batches
that are written, and whether the scan has passed its check for the next one. -/
structure MergeProgress (codec : KeyCodec) (v : VaultId) where
  listing : Listing codec
  scope : MergeScope
  ofVault : scope.vaultId = v
  written : ℕ
  checked : Bool

/-- A scan: the pages it has read, and its merge once it has begun. -/
structure ScanRun (codec : KeyCodec) (v : VaultId) where
  versions : List ObjectItem
  markers : List ObjectItem
  merge : Option (MergeProgress codec v)

/-- The catalog, the bucket, and the scans under way.  `issued` are the object versions the
bucket has ever had, `deleted` those that were deleted with authority; `committed` are the rows
of deletions that have committed, `alarms` the rows reported as lost after that. -/
structure CloudState (codec : KeyCodec) (v : VaultId) where
  catalog : Catalog
  bucket : List ObjectItem
  issued : List ObjectVersion
  deleted : List ObjectVersion
  committed : List RowId
  alarms : List RowId
  scans : Stamp → Option (ScanRun codec v)
  generation : Option Stamp

/-- What can happen next. -/
inductive CloudAct
  | put (i : ObjectItem)
  | startScan (scan : Stamp)
  | readPage (scan : Stamp) (versions markers : List ObjectItem)
  | beginMerge (scan : Stamp) (clock : ScanClock)
  | checkCurrent (scan : Stamp)
  | mergeBatch (scan : Stamp)
  | finish (scan : Stamp)
  | deleteObject (key : ObjectKey) (n : ProviderVersionId)
  | commitPurge (rows : List RowId) (checkedAt : Stamp)

/-- `mark_versions_purged`. -/
def markVersionsPurged (cat : Catalog) (rows : List RowId) (checkedAt : Stamp) : Catalog :=
  cat.mapVersions
    (fun _ w => if w.id ∈ rows then w.setAvailability .purged checkedAt else w)
    ⟨fun _ _ => by split <;> rfl, fun _ _ => by split <;> rfl, fun _ _ => by split <;> rfl⟩

lemma markItemsDeleted_files (cat : Catalog) (ids : List ℕ) (at_ : Stamp) :
    (markItemsDeleted cat ids at_).files =
      (markVersionsPurged cat ((cat.items.filter fun i => i.id ∈ ids && i.kind = .version).filterMap
        DeletionItem.archiveVersionId) at_).files := rfl

variable {codec : KeyCodec} {v : VaultId}

/-- The row belongs to the Vault, and its object version was deleted. -/
def CloudState.objectDeleted (s : CloudState codec v) (id : RowId) : Bool :=
  s.catalog.files.any fun f => f.vaultId = v && f.versions.any fun w =>
    w.id = id && w.providerVersionId.any fun n => (w.objectKey, n) ∈ s.deleted

/-- The merge of a scan, once it has begun. -/
def CloudState.progress (s : CloudState codec v) (scan : Stamp) : Option (MergeProgress codec v) :=
  (s.scans scan).bind ScanRun.merge

/-- The write batch that is next in a scan. -/
def CloudState.nextBatch (s : CloudState codec v) (scan : Stamp) : List ListedVersion :=
  ((s.progress scan).bind fun m => m.listing.batches[m.written]?).getD []

/-- Another state of a scan's merge. -/
def CloudState.setProgress (s : CloudState codec v) (scan : Stamp) (m : MergeProgress codec v) :
    CloudState codec v :=
  { s with
    scans := Function.update s.scans scan
      ((s.scans scan).map fun r => { r with merge := some m }) }

/-- One step of a Vault. -/
def cloudStep (s : CloudState codec v) : CloudAct → Option (CloudState codec v)
  | .put i => do
      -- the bucket never issues a version id twice
      guard ((i.key, i.versionId) ∉ s.issued)
      some { s with bucket := s.bucket ++ [i], issued := s.issued ++ [(i.key, i.versionId)] }
  | .startScan scan => do
      guard ((s.scans scan).isNone)
      some { s with
        scans := Function.update s.scans scan (some ⟨[], [], none⟩)
        generation := some scan }
  | .readPage scan versions markers => do
      let r ← s.scans scan
      guard (r.merge.isNone ∧ ∀ i ∈ versions, i ∈ s.bucket)
      some { s with
        scans := Function.update s.scans scan
          (some ⟨r.versions ++ versions, r.markers ++ markers, none⟩) }
  | .beginMerge scan clock => do
      let r ← s.scans scan
      guard r.merge.isNone
      let listing := readListing codec scan r.versions r.markers
      some (s.setProgress scan ⟨listing, mergeScope s.catalog v scan clock listing, rfl, 0, false⟩)
  | .checkCurrent scan => do
      let m ← s.progress scan
      some (if s.generation = some scan then s.setProgress scan { m with checked := true }
        else { s with scans := Function.update s.scans scan none })
  | .mergeBatch scan => do
      let m ← s.progress scan
      let batch ← m.listing.batches[m.written]?
      guard (m.checked = true)
      some { s.setProgress scan { m with written := m.written + 1, checked := false } with
        catalog := mergeBatch m.scope s.catalog batch }
  | .finish scan => do
      let m ← s.progress scan
      guard (m.checked = true ∧ m.listing.batches.length ≤ m.written ∧
        m.listing.invalidKeys = false)
      let done := markUnseenArchiveVersionsMissing s.catalog v scan scan
      some { s with
        catalog := done.1
        alarms := s.alarms ++ done.2.filter (· ∈ s.committed)
        scans := Function.update s.scans scan none }
  | .deleteObject key n =>
      some { s with
        bucket := s.bucket.filter fun i => (i.key, i.versionId) ≠ (key, n)
        deleted := s.deleted ++ [(key, n)]
        issued := s.issued ++ [(key, n)] }
  | .commitPurge rows checkedAt => do
      guard (∀ id ∈ rows, s.objectDeleted id = true)
      some { s with
        catalog := markVersionsPurged s.catalog rows checkedAt
        committed := s.committed ++ rows }

/-- The row is in the Vault, and purged. -/
def PurgedRow (cat : Catalog) (v : VaultId) (id : RowId) : Prop :=
  ∃ f ∈ cat.files, f.vaultId = v ∧ ∃ w ∈ f.versions, w.id = id ∧ w.availability = .purged

/-- **Deletions stay**: every row whose deletion has committed is still purged, and none was
reported as a loss. -/
structure DeletionsKept (s : CloudState codec v) : Prop where
  purged : ∀ id ∈ s.committed, PurgedRow s.catalog v id
  unreported : s.alarms = []

/-- A write batch holds no version whose deletion has committed. -/
def MergesNoDeleted (s : CloudState codec v) : CloudAct → Prop
  | .mergeBatch scan => ∀ e ∈ s.nextBatch scan,
      ((s.catalog.versionAt? v e.objectKey e.versionId).all fun fw =>
        fw.2.id ∉ s.committed) = true
  | _ => True

instance (s : CloudState codec v) : ∀ a, Decidable (MergesNoDeleted s a)
  | .mergeBatch scan => inferInstanceAs (Decidable (∀ e ∈ s.nextBatch scan, _ = true))
  | .put _ | .startScan _ | .readPage .. | .beginMerge .. | .checkCurrent _ | .finish _
  | .deleteObject .. | .commitPurge .. => isTrue trivial

/-! ### Rows of committed deletions -/

lemma PurgedRow.map {cat cat' : Catalog} {id : RowId}
    {g : VaultFile → ArchiveVersion → ArchiveVersion} (h : PurgedRow cat v id)
    (hfiles : cat'.files = cat.files.map fun f => { f with versions := f.versions.map (g f) })
    (hg : ∀ f w, (g f w).id = w.id)
    (hp : ∀ f w, w.availability = .purged → (g f w).availability = .purged) :
    PurgedRow cat' v id := by
  obtain ⟨f, hf, hv, w, hw, hid, hpurged⟩ := h
  refine ⟨{ f with versions := f.versions.map (g f) }, ?_, hv, g f w, List.mem_map_of_mem hw,
    (hg f w).trans hid, hp f w hpurged⟩
  rw [hfiles]
  exact List.mem_map_of_mem hf

/-- A merge resurrects a purged row exactly when its batch holds the row. -/
lemma purgedRow_mergeBatch_iff (scope : MergeScope) {cat : Catalog} {batch : List ListedVersion}
    {f : VaultFile} {w : ArchiveVersion}
    (hdec : ∀ e ∈ batch, codec.path? e.objectKey = some e.path) (hf : f ∈ cat.files)
    (hv : f.vaultId = scope.vaultId) (hw : w ∈ f.versions) (hp : w.availability = .purged) :
    PurgedRow (mergeBatch scope cat batch) scope.vaultId w.id ↔ w.listedIn batch = false := by
  have hmerged : Merged cat codec scope batch (mergeBatch scope cat batch) :=
    merged_batch (Merged.start cat codec scope) hdec
  obtain ⟨rows, minted, hfiles, -, -⟩ := hmerged.files
  have hmem : f.withVersions (f.versions.map (mergedRow cat scope batch f) ++ rows f) ∈
      (mergeBatch scope cat batch).files := by
    rw [hfiles]
    exact List.mem_append_left _ (List.mem_map_of_mem hf)
  have hrow : mergedRow cat scope batch f w ∈
      (f.withVersions (f.versions.map (mergedRow cat scope batch f) ++ rows f)).versions :=
    List.mem_append_left _ (List.mem_map_of_mem hw)
  constructor
  · rintro ⟨f', hf', -, w', hw', hid, hp'⟩
    obtain ⟨-, rfl⟩ := Catalog.version_eq_of_id_eq _ hf' hmem hw' hrow (hid.trans mergedRow_id.symm)
    rw [← Bool.not_eq_true]
    intro hl
    rw [(mergedRow_of_listedIn hv hl).1] at hp'
    exact Availability.noConfusion hp'
  · intro hl
    refine ⟨_, hmem, hv, _, hrow, mergedRow_id, ?_⟩
    have hno : ∀ e ∈ batch, w.isObject e.objectKey e.versionId = false := fun e he =>
      Bool.eq_false_iff.mpr fun hobj =>
        Bool.noConfusion (hl.symm.trans (List.any_eq_true.mpr ⟨e, he, hobj⟩))
    rw [mergedRow_of_unlisted hno, if_neg]
    · exact hp
    · rintro ⟨harch, -⟩
      exact (inArchive_iff.mp harch).2 hp

variable {s : CloudState codec v}

/-- A batch is free of committed deletions exactly when none of their rows is in it. -/
lemma mergesNoDeleted_iff {scan : Stamp} :
    MergesNoDeleted s (.mergeBatch scan) ↔
      ∀ f ∈ s.catalog.files, f.vaultId = v → ∀ w ∈ f.versions, w.id ∈ s.committed →
        w.listedIn (s.nextBatch scan) = false := by
  constructor
  · intro hno f hf hv w hw hid
    rw [← Bool.not_eq_true]
    intro hl
    obtain ⟨e, he, hobj⟩ := List.any_eq_true.mp hl
    have hat : s.catalog.versionAt? v e.objectKey e.versionId = some (f, w) :=
      s.catalog.versionAt?_eq_some_iff.mpr ⟨hf, hv, hw, hobj⟩
    have := hno e he
    rw [hat] at this
    exact of_decide_eq_true this hid
  · intro hno e he
    cases hat : s.catalog.versionAt? v e.objectKey e.versionId with
    | none => rfl
    | some fw =>
        obtain ⟨hf, hv, hw, hobj⟩ := s.catalog.versionAt?_eq_some_iff.mp hat
        refine decide_eq_true fun hid => ?_
        have hl := hno fw.1 hf hv fw.2 hw hid
        rw [Bool.eq_false_iff] at hl
        exact hl (List.any_eq_true.mpr ⟨e, he, hobj⟩)

lemma DeletionsKept.congr {s' : CloudState codec v} (h : DeletionsKept s)
    (hcat : s'.catalog = s.catalog) (hcom : s'.committed = s.committed)
    (hal : s'.alarms = s.alarms) : DeletionsKept s' where
  purged id hid := by
    rw [hcat]
    exact h.purged id (hcom ▸ hid)
  unreported := hal.trans h.unreported

lemma DeletionsKept.finish (h : DeletionsKept s) (scan : Stamp) :
    (∀ id ∈ s.committed, PurgedRow (markUnseenArchiveVersionsMissing s.catalog v scan scan).1 v id) ∧
      (markUnseenArchiveVersionsMissing s.catalog v scan scan).2.filter (· ∈ s.committed) = [] := by
  refine ⟨fun id hid => (h.purged id hid).map rfl (fun f w => by split <;> rfl) ?_, ?_⟩
  · intro f w hp
    rw [if_neg]
    · exact hp
    · rintro ⟨-, -, hne, -⟩
      exact hne hp
  · rw [List.filter_eq_nil_iff]
    intro id hmem hid
    obtain ⟨f, hf, hidf⟩ := List.mem_flatMap.mp hmem
    obtain ⟨w, hw, rfl⟩ := List.mem_map.mp hidf
    obtain ⟨hw, harch⟩ := List.mem_filter.mp hw
    obtain ⟨g, hg, -, u, hu, huid, hp⟩ := h.purged w.id (of_decide_eq_true hid)
    obtain ⟨-, rfl⟩ := s.catalog.version_eq_of_id_eq hg (List.mem_filter.mp hf).1 hu hw huid
    rw [Bool.and_eq_true] at harch
    exact (inArchive_iff.mp harch.2).2 hp

/-- **One step keeps the deletions exactly when it merges none of their versions.** -/
lemma deletionsKept_step {s' : CloudState codec v} {a : CloudAct} (h : DeletionsKept s)
    (hs : cloudStep s a = some s') : DeletionsKept s' ↔ MergesNoDeleted s a := by
  cases a with
  | put i =>
      obtain ⟨-, rfl⟩ := checked_eq_some.mp hs
      exact iff_of_true (h.congr rfl rfl rfl) trivial
  | startScan scan =>
      obtain ⟨-, rfl⟩ := checked_eq_some.mp hs
      exact iff_of_true (h.congr rfl rfl rfl) trivial
  | readPage scan versions markers =>
      obtain ⟨r, -, -, rfl⟩ := read_checked_eq_some.mp hs
      exact iff_of_true (h.congr rfl rfl rfl) trivial
  | beginMerge scan clock =>
      obtain ⟨r, -, -, rfl⟩ := read_checked_eq_some.mp hs
      exact iff_of_true (h.congr rfl rfl rfl) trivial
  | checkCurrent scan =>
      obtain ⟨m, -, hs⟩ := Option.bind_eq_some_iff.mp hs
      refine iff_of_true ?_ trivial
      split at hs
      · cases hs
        exact h.congr rfl rfl rfl
      · cases hs
        exact h.congr rfl rfl rfl
  | mergeBatch scan =>
      obtain ⟨m, hm, hs⟩ := Option.bind_eq_some_iff.mp hs
      obtain ⟨batch, hb, -, rfl⟩ := read_checked_eq_some.mp hs
      have hnext : s.nextBatch scan = batch := by
        rw [CloudState.nextBatch, hm, Option.bind_some, hb, Option.getD_some]
      have hdec := m.listing.decoded batch (List.mem_of_getElem? hb)
      have hv := m.ofVault
      rw [mergesNoDeleted_iff, hnext]
      constructor
      · intro h' f hf hfv w hw hid
        have hpurged := h'.purged w.id hid
        obtain ⟨g, hg, -, u, hu, huid, hp⟩ := h.purged w.id hid
        obtain ⟨-, rfl⟩ := s.catalog.version_eq_of_id_eq hg hf hu hw huid
        refine (purgedRow_mergeBatch_iff m.scope hdec hf (hfv.trans hv.symm) hw hp).mp ?_
        rw [hv]
        exact hpurged
      · intro hno
        refine ⟨fun id hid => ?_, h.unreported⟩
        obtain ⟨f, hf, hfv, w, hw, rfl, hp⟩ := h.purged id hid
        have hpurged := (purgedRow_mergeBatch_iff m.scope hdec hf (hfv.trans hv.symm)
          hw hp).mpr (hno f hf hfv w hw hid)
        rw [hv] at hpurged
        exact hpurged
  | finish scan =>
      obtain ⟨m, -, -, rfl⟩ := read_checked_eq_some.mp hs
      obtain ⟨hpurged, hnone⟩ := h.finish scan
      refine iff_of_true ⟨hpurged, ?_⟩ trivial
      show s.alarms ++ _ = []
      rw [h.unreported, hnone]
      rfl
  | deleteObject key n =>
      cases hs
      exact iff_of_true (h.congr rfl rfl rfl) trivial
  | commitPurge rows checkedAt =>
      obtain ⟨hrows, rfl⟩ := checked_eq_some.mp hs
      refine iff_of_true ⟨fun id hid => ?_, h.unreported⟩ trivial
      rcases List.mem_append.mp hid with hid | hid
      · refine (h.purged id hid).map rfl (fun f w => by split <;> rfl) fun f w hp => ?_
        split
        · rfl
        · exact hp
      · have hex := hrows id hid
        rw [CloudState.objectDeleted] at hex
        obtain ⟨f, hf, hfw⟩ := List.any_eq_true.mp hex
        rw [Bool.and_eq_true, decide_eq_true_eq] at hfw
        obtain ⟨w, hw, hwid⟩ := List.any_eq_true.mp hfw.2
        rw [Bool.and_eq_true, decide_eq_true_eq] at hwid
        have hrow : (if w.id ∈ rows then w.setAvailability .purged checkedAt else w) =
            w.setAvailability .purged checkedAt := if_pos (hwid.1 ▸ hid)
        refine ⟨_, List.mem_map_of_mem hf, hfw.1, _, List.mem_map_of_mem hw, ?_, ?_⟩
        · exact (congrArg ArchiveVersion.id hrow).trans hwid.1
        · exact congrArg ArchiveVersion.availability hrow

/-! ### Every interleaving -/

/-- **Scans and deletions**: in every run, deletions that have committed stay purged and are
never reported as losses, in every state reached, exactly when no write batch merges a version
whose deletion has committed. -/
theorem deletions_kept_iff (codec : KeyCodec) (v : VaultId) (s t : CloudState codec v)
    (as : List CloudAct) (hcom : s.committed = []) (hal : s.alarms = [])
    (hrun : run cloudStep s as = some t) :
    (∀ bs u, bs <+: as → run cloudStep s bs = some u → DeletionsKept u) ↔
      Along cloudStep MergesNoDeleted s as := by
  have hstart : DeletionsKept s := by
    refine ⟨fun id hid => ?_, hal⟩
    rw [hcom] at hid
    cases hid
  exact along_iff_invariant (fun _ _ _ h hs => deletionsKept_step h hs) hstart hrun

instance (cat : Catalog) (v : VaultId) (id : RowId) : Decidable (PurgedRow cat v id) :=
  inferInstanceAs (Decidable (∃ f ∈ cat.files, _ ∧ ∃ w ∈ f.versions, _ ∧ _))

/-- The object of the second version of `lostKeeperCatalog`. -/
def listedObject : ObjectItem := ⟨0, 2, none, none, none, some 3⟩

/-- A Vault with two recorded versions, one of them in the bucket. -/
def quietVault : CloudState flatCodec 0 where
  catalog := lostKeeperCatalog
  bucket := [listedObject]
  issued := [(0, 2)]
  deleted := []
  committed := []
  alarms := []
  scans := fun _ => none
  generation := none

/-- A scan lists the version; it is deleted, and the deletion commits. -/
def listedThenDeleted : List CloudAct :=
  [.startScan 5, .readPage 5 [listedObject] [], .deleteObject 0 2, .commitPurge [2] 6]

/-- The scan goes on with its listing: the row is available again, and the next scan reports the
deletion as a loss. -/
theorem stale_listing_resurrects_deletion :
    ¬ ∀ (codec : KeyCodec) (v : VaultId) (s t : CloudState codec v) (as : List CloudAct),
      s.committed = [] → s.alarms = [] → run cloudStep s as = some t → DeletionsKept t := by
  intro hall
  have hrun : (run cloudStep quietVault (listedThenDeleted ++
      [.beginMerge 5 ⟨fun _ => 6, fun _ => 6⟩, .checkCurrent 5, .mergeBatch 5, .startScan 7,
        .beginMerge 7 ⟨fun _ => 7, fun _ => 7⟩, .checkCurrent 7, .finish 7])).map
        CloudState.alarms = some [2] := by
    decide
  obtain ⟨t, ht, halarms⟩ := Option.map_eq_some_iff.mp hrun
  have hkept := (hall _ _ _ t _ rfl rfl ht).unreported
  rw [halarms] at hkept
  cases hkept

/-- A newer scan starts first, so the listing is not merged: the deletion stays. -/
theorem deletion_kept_superseded_scan :
    (run cloudStep quietVault (listedThenDeleted ++
      [.startScan 7, .beginMerge 5 ⟨fun _ => 6, fun _ => 6⟩, .checkCurrent 5,
        .beginMerge 7 ⟨fun _ => 7, fun _ => 7⟩, .checkCurrent 7, .finish 7])).isSome = true ∧
    ∀ bs u, bs <+: listedThenDeleted ++
        [.startScan 7, .beginMerge 5 ⟨fun _ => 6, fun _ => 6⟩, .checkCurrent 5,
          .beginMerge 7 ⟨fun _ => 7, fun _ => 7⟩, .checkCurrent 7, .finish 7] →
      run cloudStep quietVault bs = some u → DeletionsKept u := by
  have hrun : (run cloudStep quietVault (listedThenDeleted ++
      [.startScan 7, .beginMerge 5 ⟨fun _ => 6, fun _ => 6⟩, .checkCurrent 5,
        .beginMerge 7 ⟨fun _ => 7, fun _ => 7⟩, .checkCurrent 7, .finish 7])).isSome = true := by
    decide
  obtain ⟨t, ht⟩ := Option.isSome_iff_exists.mp hrun
  exact ⟨hrun, (deletions_kept_iff flatCodec 0 quietVault t _ rfl rfl ht).mpr (by decide)⟩

end Frostvault
