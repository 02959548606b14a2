import Frostvault.CloudScan.Merge

/-!
Listed versions stay in the archive.

A scan takes rows out of the archive in two ways: a path that lost its keeper supersedes the
other rows of its file while the listing is merged, and a finished scan marks what it has not
seen as missing.  Both spare the rows this scan has seen, so a finished scan keeps every listed
version.  A scan that stops between two batches has superseded rows it has not seen yet.

* `ListedKept`: no listed version is left purged or missing;
* `StopsSafely`: the batches that were not merged hold no row that was missing and none that a
  merged version superseded;
* `listed_kept_iff`: **the first holds exactly when the second does**.
-/

namespace Frostvault

open List

variable {cat cat' : Catalog} {v : VaultId} {scanId : Stamp}

/-! ### Listed rows -/

/-- The row is one of the listed versions. -/
def ArchiveVersion.listedIn (w : ArchiveVersion) (listed : List ListedVersion) : Bool :=
  listed.any fun e => w.isObject e.objectKey e.versionId

/-- The row was not purged in the catalog. -/
def NotPurgedIn (cat : Catalog) (id : RowId) : Prop :=
  ∀ g ∈ cat.files, ∀ u ∈ g.versions, u.id = id → u.availability ≠ .purged

/-- No listed row of the Vault that was not purged before is out of the archive. -/
def ListedKept (cat cat' : Catalog) (v : VaultId) (listed : List ListedVersion) : Prop :=
  ∀ f ∈ cat'.files, f.vaultId = v → ∀ w ∈ f.versions, w.listedIn listed = true →
    NotPurgedIn cat w.id → w.inArchive = true

/-- The row was not missing, and no merged version supersedes it. -/
def Untouched (cat : Catalog) (scope : MergeScope) (merged : List ListedVersion) (file : FileId)
    (w : ArchiveVersion) : Prop :=
  w.availability ≠ .missing ∧ (w.unseen scope.scanId scope.scanId = true →
    ∀ e ∈ merged, supersedesFile cat scope e file = false)

/-- The listed rows beyond the merged versions were in the archive, and no merged version
supersedes them. -/
def StopsSafely (cat : Catalog) (scope : MergeScope) (listed merged : List ListedVersion) : Prop :=
  ∀ f ∈ cat.files, f.vaultId = scope.vaultId → ∀ w ∈ f.versions, w.listedIn listed = true →
    w.listedIn merged = false → w.availability ≠ .purged → Untouched cat scope merged f.id w

instance (cat : Catalog) (id : RowId) : Decidable (NotPurgedIn cat id) :=
  inferInstanceAs (Decidable (∀ g ∈ cat.files, ∀ u ∈ g.versions, _ → _))

instance (cat cat' : Catalog) (v : VaultId) (listed : List ListedVersion) :
    Decidable (ListedKept cat cat' v listed) :=
  inferInstanceAs (Decidable (∀ f ∈ cat'.files, _ → ∀ w ∈ f.versions, _ → _ → _))

instance (cat : Catalog) (scope : MergeScope) (merged : List ListedVersion) (file : FileId)
    (w : ArchiveVersion) : Decidable (Untouched cat scope merged file w) :=
  inferInstanceAs (Decidable (_ ∧ (_ → ∀ e ∈ merged, _)))

instance (cat : Catalog) (scope : MergeScope) (listed merged : List ListedVersion) :
    Decidable (StopsSafely cat scope listed merged) :=
  inferInstanceAs (Decidable (∀ f ∈ cat.files, _ → ∀ w ∈ f.versions, _ → _ → _ → _))

variable {done listed : List ListedVersion} {scope : MergeScope} {w : ArchiveVersion}

lemma inArchive_iff :
    w.inArchive ↔ w.availability ≠ .missing ∧ w.availability ≠ .purged := by
  simp [ArchiveVersion.inArchive]

lemma SeenBy.inArchive (h : SeenBy scanId w) : w.inArchive := by
  simp [inArchive_iff, h.1]

lemma mergedRow_listedIn {f : VaultFile} :
    (mergedRow cat scope done f w).listedIn listed = w.listedIn listed := by
  simp only [ArchiveVersion.listedIn, mergedRow_isObject]

lemma mergedRow_id {f : VaultFile} : (mergedRow cat scope done f w).id = w.id := by
  induction done using List.reverseRecOn with
  | nil => rfl
  | append_singleton es e ih =>
      rw [mergedRow, foldl_append, foldl_cons, foldl_nil, ← mergedRow, mergeRow]
      split
      · exact ih
      · split
        · exact ih
        · exact ih

lemma mergedRow_of_listedIn {f : VaultFile}
    (hv : f.vaultId = scope.vaultId) (h : w.listedIn done) :
    SeenBy scope.scanId (mergedRow cat scope done f w) :=
  mergedRow_of_listed hv (any_eq_true.mp h)

/-! ### A scan that stops -/

/-- **The state a merge leaves** keeps the listed rows exactly when it was safe to stop there. -/
lemma listedKept_merged_iff {codec : KeyCodec}
    {merged : List ListedVersion} (h : Merged cat codec scope merged cat') :
    ListedKept cat cat' scope.vaultId listed ↔ StopsSafely cat scope listed merged := by
  obtain ⟨rows, minted, hfiles, hrows, hminted⟩ := h.files
  constructor
  · intro hkept f hf hv w hw hlisted hnot hpurged
    have hmem : f.withVersions (f.versions.map (mergedRow cat scope merged f) ++ rows f) ∈
        cat'.files := by
      rw [hfiles]
      exact mem_append_left _ (mem_map_of_mem hf)
    have harch : (mergedRow cat scope merged f w).inArchive := by
      refine hkept _ hmem hv _ (mem_append_left _ (mem_map_of_mem hw)) ?_ ?_
      · rw [mergedRow_listedIn]
        exact hlisted
      · intro g hg u hu hid
        obtain ⟨-, rfl⟩ := cat.version_eq_of_id_eq hg hf hu hw (hid.trans mergedRow_id)
        exact hpurged
    have hno : ∀ e ∈ merged, w.isObject e.objectKey e.versionId = false := fun e he =>
      Bool.eq_false_iff.mpr fun hobj =>
        Bool.noConfusion (hnot.symm.trans (any_eq_true.mpr ⟨e, he, hobj⟩))
    rw [mergedRow_of_unlisted hno] at harch
    split at harch
    · cases harch
    · rename_i hsafe
      refine ⟨(inArchive_iff.mp harch).1, fun hun e he => ?_⟩
      by_contra hs
      exact hsafe ⟨harch, hun, e, he, by simpa using hs⟩
  · intro hsafe f' hf' hv w' hw' hlisted hpurged
    rw [hfiles] at hf'
    rcases mem_append.mp hf' with hf' | hf'
    · obtain ⟨f, hf, rfl⟩ := mem_map.mp hf'
      rcases mem_append.mp hw' with hw' | hw'
      · obtain ⟨w, hw, rfl⟩ := mem_map.mp hw'
        rw [mergedRow_listedIn] at hlisted
        cases hm : w.listedIn merged with
        | true => exact (mergedRow_of_listedIn hv hm).inArchive
        | false =>
            have hwp : w.availability ≠ .purged := hpurged f hf w hw mergedRow_id.symm
            obtain ⟨hmiss, hsup⟩ := hsafe f hf hv w hw hlisted hm hwp
            have hno : ∀ e ∈ merged, w.isObject e.objectKey e.versionId = false := fun e he =>
              Bool.eq_false_iff.mpr fun hobj =>
                Bool.noConfusion (hm.symm.trans (any_eq_true.mpr ⟨e, he, hobj⟩))
            rw [mergedRow_of_unlisted hno, if_neg]
            · exact inArchive_iff.mpr ⟨hmiss, hwp⟩
            · rintro ⟨-, hun, e, he, hs⟩
              rw [hsup hun e he] at hs
              cases hs
      · exact (hrows f hf w' hw').inArchive
    · exact (hminted f' hf' w' hw').inArchive

/-! ### A scan that goes on -/

/-- Every listed row of the Vault was seen. -/
def AllSeen (cat : Catalog) (v : VaultId) (scanId : Stamp) (listed : List ListedVersion) : Prop :=
  ∀ f ∈ cat.files, f.vaultId = v → ∀ w ∈ f.versions, w.listedIn listed = true → SeenBy scanId w

lemma AllSeen.listedKept (h : AllSeen cat' v scanId listed) :
    ListedKept cat cat' v listed :=
  fun f hf hv w hw hl _ => (h f hf hv w hw hl).inArchive

/-- A listing that was merged to its end. -/
lemma Merged.allSeen {codec : KeyCodec} {merged : List ListedVersion}
    (h : Merged cat codec scope merged cat') :
    AllSeen cat' scope.vaultId scope.scanId merged := by
  obtain ⟨rows, minted, hfiles, hrows, hminted⟩ := h.files
  intro f' hf' hv w' hw' hlisted
  rw [hfiles] at hf'
  rcases mem_append.mp hf' with hf' | hf'
  · obtain ⟨f, hf, rfl⟩ := mem_map.mp hf'
    rcases mem_append.mp hw' with hw' | hw'
    · obtain ⟨w, hw, rfl⟩ := mem_map.mp hw'
      rw [mergedRow_listedIn] at hlisted
      exact mergedRow_of_listedIn hv hlisted
    · exact hrows f hf w' hw'
  · exact hminted f' hf' w' hw'

/-- A delete marker changes no version row. -/
lemma AllSeen.recordDeleteMarker (h : AllSeen cat v scanId listed)
    (m : ListedMarker) (at_ : Stamp) :
    AllSeen (recordDeleteMarker cat v m at_) v scanId listed := by
  intro f' hf' hv w hw hlisted
  obtain ⟨f, hf, rfl⟩ := mem_map.mp hf'
  exact h f (resolveCloudPathFile_versions hf hw) hv w hw hlisted

lemma AllSeen.markerBatches {clock : ListedMarker → Stamp}
    (batches : List (List ListedMarker)) (h : AllSeen cat v scanId listed) :
    AllSeen (batches.foldl
      (fun cat batch => batch.foldl (fun cat m => Frostvault.recordDeleteMarker cat v m (clock m)) cat)
      cat) v scanId listed := by
  induction batches generalizing cat with
  | nil => exact h
  | cons b bs ih =>
      refine ih ?_
      induction b generalizing cat with
      | nil => exact h
      | cons m ms ihm => exact ihm (h.recordDeleteMarker m (clock m))

/-- Rows this scan has seen do not go missing. -/
lemma AllSeen.markUnseen (h : AllSeen cat v scanId listed) (startedAt : Stamp) :
    AllSeen (markUnseenArchiveVersionsMissing cat v scanId startedAt).1 v scanId listed := by
  intro f' hf' hv w' hw' hlisted
  obtain ⟨f, hf, rfl⟩ := mem_map.mp hf'
  obtain ⟨w, hw, rfl⟩ := mem_map.mp hw'
  dsimp only at hlisted ⊢
  split at hlisted
  · rename_i hgone
    have hseen := h f hf hv w hw hlisted
    rw [unseen_of_checked hseen.2] at hgone
    exact Bool.noConfusion hgone.2.1
  · rename_i hstay
    rw [if_neg hstay]
    exact h f hf hv w hw hlisted

/-! ### Every scan -/

lemma committedBatches_prefix {α : Type} (current : ℕ → Bool) (i : ℕ) (batches : List α) :
    committedBatches current i batches <+: batches := by
  induction batches generalizing i with
  | nil => exact prefix_refl _
  | cons b bs ih =>
      rw [committedBatches]
      split
      · exact cons_prefix_cons.mpr ⟨rfl, ih (i + 1)⟩
      · exact nil_prefix

/-- **A scan leaves no listed version purged or missing exactly when it stops safely**: for every
catalog, every listing in every order and cut, and every answer to the checks between batches. -/
theorem listed_kept_iff {codec : KeyCodec} (cat : Catalog) (v : VaultId) (scanId : Stamp)
    (clock : ScanClock) (listing : Listing codec) (current : ℕ → Bool) :
    ListedKept cat (scanCloud cat v scanId clock listing current).catalog v listing.versions ↔
      StopsSafely cat (mergeScope cat v scanId clock listing) listing.versions
        (committedBatches current 0 listing.batches).flatten := by
  have hdone := committedBatches_prefix current 0 listing.batches
  have hmerged := merged_batches (Merged.start cat codec (mergeScope cat v scanId clock listing))
    fun b hb => listing.decoded b (hdone.subset hb)
  rw [nil_append] at hmerged
  rw [scanCloud]
  dsimp only
  split
  · exact listedKept_merged_iff hmerged
  · rename_i hall
    have heq : committedBatches current 0 listing.batches = listing.batches :=
      hdone.eq_of_length_le (Nat.not_lt.mp hall)
    rw [heq] at hmerged ⊢
    refine iff_of_true ?_ ?_
    · have hseen := hmerged.allSeen
      split
      · exact (hseen.markerBatches _).listedKept
      · split
        · exact (hseen.markerBatches _).listedKept
        · exact ((hseen.markerBatches _).markUnseen _).listedKept
    · intro f _ _ w _ hlisted hnot
      exact Bool.noConfusion (hlisted.symm.trans hnot)

/-- Keys are read as they are, in one folder. -/
def flatCodec : KeyCodec := ⟨fun _ => some ['a'], fun _ => false⟩

/-- One file at `a` with two versions; the newer one, its keeper, is gone from the bucket. -/
def lostKeeperCatalog : Catalog where
  files := [⟨1, 0, .active, some ['a'], 0, [], none,
    [⟨1, 2, 0, some 1, none, none, none, .verified, .available, some 1, none, 1, none, none,
      .upload, .upload⟩,
    ⟨2, 1, 0, some 2, none, none, none, .verified, .available, some 1, none, 1, none, none,
      .upload, .upload⟩], []⟩]
  jobs := []
  items := []
  ids_nodup := by simp
  paths_unique := by simp
  versions_unique := by simp [VaultFile.versionKeys, KeysDistinct]
  jobIds_nodup := nodup_nil

/-- The bucket still has the older version, and one nobody recorded. -/
def lostKeeperListing : Listing flatCodec where
  batches := [[⟨['a'], 3, 0, none, "STANDARD", "", 4⟩], [⟨['a'], 2, 0, none, "STANDARD", "", 5⟩]]
  markerBatches := []
  invalidKeys := false
  decoded := by decide

/-- A newer scan starts after the first batch: the listed version of the second one is left
purged. -/
theorem superseded_scan_leaves_listed_purged :
    ¬ ∀ (codec : KeyCodec) (cat : Catalog) (v : VaultId) (scanId : Stamp) (clock : ScanClock)
      (listing : Listing codec) (current : ℕ → Bool),
      ListedKept cat (scanCloud cat v scanId clock listing current).catalog v listing.versions := by
  intro hall
  have h := hall flatCodec lostKeeperCatalog 0 9 ⟨fun _ => 10, fun _ => 10⟩ lostKeeperListing
    fun i => i = 0
  exact absurd h (by decide)

end Frostvault
