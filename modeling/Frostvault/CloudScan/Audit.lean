import Frostvault.CloudScan.Incidents

/-!
What a catalog audit and a finished scan write (`app/services/catalog_audit.py`,
`mark_unseen_archive_versions_missing` of `app/catalog.py`).

An audit reads the whole listing of a Vault and then the rows that are not purged.  Each row is
compared with the listing, and rewritten by an `UPDATE` that looks at its id only.  A scan that
has merged its listing selects the rows it has not seen and then rewrites them by an `UPDATE`
with conditions of its own.

* `auditRows`, `AuditScope.finding`: what an audit reads, and what it finds for a row;
* `auditLosses`, `auditWrites`: the rows it reports as lost, and those it rewrites;
* `lost_of_auditLosses`: it rewrites no row it reports in another way;
* `unseenRows`, `unseenWrites`: the same for a finished scan.
-/

namespace Frostvault

open List

/-! ### Rows that are rewritten -/

/-- How one row is rewritten. -/
inductive RowChange
  | missing
  | unseen (scanId : Stamp)
  | reclassed (c : StorageClass)
  | available
deriving DecidableEq, Repr

/-- The row after it. -/
def RowChange.apply (w : ArchiveVersion) : RowChange → ArchiveVersion
  | .missing => { w with availability := .missing }
  | .unseen scanId => w.setAvailability .missing scanId
  | .reclassed c =>
      { w with storageClass := some c, storageClassSource := .discovered,
               availability := .available }
  | .available => { w with availability := .available }

/-- The row goes missing. -/
def RowChange.lost : RowChange → Bool
  | .missing | .unseen _ => true
  | .reclassed _ | .available => false

lemma RowChange.apply_keys (w : ArchiveVersion) (c : RowChange) :
    (c.apply w).id = w.id ∧ (c.apply w).objectKey = w.objectKey ∧
      (c.apply w).providerVersionId = w.providerVersionId := by
  cases c <;> exact ⟨rfl, rfl, rfl⟩

lemma RowChange.apply_availability (w : ArchiveVersion) (c : RowChange) :
    (c.apply w).availability = if c.lost = true then .missing else .available := by
  cases c <;> rfl

/-- `UPDATE archive_versions SET .. WHERE id=%s`. -/
structure RowWrite where
  row : RowId
  change : RowChange
deriving DecidableEq, Repr

/-- The row after the writes for it. -/
def ArchiveVersion.written (ws : List RowWrite) (w : ArchiveVersion) : ArchiveVersion :=
  match ws.find? fun x => x.row = w.id with
  | some x => x.change.apply w
  | none => w

lemma written_keys (ws : List RowWrite) (w : ArchiveVersion) :
    (w.written ws).id = w.id ∧ (w.written ws).objectKey = w.objectKey ∧
      (w.written ws).providerVersionId = w.providerVersionId := by
  rw [ArchiveVersion.written]
  split
  · exact RowChange.apply_keys w _
  · exact ⟨rfl, rfl, rfl⟩

/-- The catalog after the writes. -/
def rewriteRows (cat : Catalog) (ws : List RowWrite) : Catalog :=
  cat.mapVersions (fun _ w => w.written ws)
    ⟨fun _ w => (written_keys ws w).1, fun _ w => (written_keys ws w).2.1,
      fun _ w => (written_keys ws w).2.2⟩

/-- A row that is written is missing afterwards exactly when it is written as lost. -/
lemma availability_written (ws : List RowWrite) (w : ArchiveVersion) :
    (∃ x ∈ ws, x.row = w.id ∧
      (w.written ws).availability = if x.change.lost = true then .missing else .available) ∨
    (∀ x ∈ ws, x.row ≠ w.id) ∧ w.written ws = w := by
  rw [ArchiveVersion.written]
  cases hfind : ws.find? fun x => x.row = w.id with
  | some x =>
      have hid : x.row = w.id := by simpa using find?_some hfind
      exact .inl ⟨x, mem_of_find?_eq_some hfind, hid, x.change.apply_availability w⟩
  | none =>
      refine .inr ⟨fun x hx => ?_, rfl⟩
      simpa using find?_eq_none.mp hfind x hx

/-! ### What an audit reads -/

/-- The columns of a row that incidents keep. -/
def VaultFile.missingRow (f : VaultFile) (w : ArchiveVersion) : MissingRow :=
  ⟨w.id, f.vaultId, f.id, w.objectKey, w.providerVersionId, f.currentPath⟩

/-- A row of the `SELECT` of an audit. -/
structure AuditRow extends MissingRow where
  storageClass : Option StorageClass
  availability : Availability
  discoveredAt : Stamp
deriving DecidableEq, Repr

/-- The `SELECT` of `audit_vault_catalog`: the rows of the Vault that are not purged. -/
def auditRows (cat : Catalog) (v : VaultId) : List AuditRow :=
  (cat.files.filter fun f => f.vaultId = v).flatMap fun f =>
    (f.versions.filter fun w => w.availability ≠ .purged).map fun w =>
      ⟨f.missingRow w, w.storageClass, w.availability, w.discoveredAt⟩

/-- `_active_upload_file_ids`. -/
def activeUploadFileIds (cat : Catalog) (v : VaultId) : List FileId :=
  (cat.jobs.filter fun j => j.vaultId = v && j.action = .upload && !j.status.terminal).map
    Job.vaultFileId

/-- `.. or "STANDARD"`. -/
def orStandard : Option StorageClass → StorageClass
  | none => "STANDARD"
  | some c => if c = "" then "STANDARD" else c

/-- What an audit compares the rows with. -/
structure AuditScope where
  startedAt : Stamp
  listing : List ObjectItem
  activeUploads : List FileId

/-- `cloud_versions.get(key)`: a later item replaces an earlier one. -/
def AuditScope.cloud? (s : AuditScope) (r : AuditRow) : Option ObjectItem :=
  r.providerVersionId.bind fun n =>
    s.listing.reverse.find? fun i => i.key = r.objectKey && i.versionId = n

/-- What an audit finds for a row. -/
inductive AuditFinding
  | spared
  | lost
  | reclassed (c : StorageClass)
  | back
  | unchanged
deriving DecidableEq, Repr

/-- One turn of the loop of `audit_vault_catalog`. -/
def AuditScope.finding (s : AuditScope) (r : AuditRow) : AuditFinding :=
  match s.cloud? r with
  | none =>
      if r.vaultFileId ∈ s.activeUploads then .spared
      else if s.startedAt < r.discoveredAt then .spared
      else .lost
  | some i =>
      if orStandard i.storageClass ≠ orStandard r.storageClass then
        .reclassed (orStandard i.storageClass)
      else if r.availability ≠ .available then .back
      else .unchanged

/-! ### What an audit writes -/

/-- The `UPDATE` of a row, if it gets one. -/
def AuditScope.write? (s : AuditScope) (r : AuditRow) : Option RowWrite :=
  match s.finding r with
  | .lost => if r.availability ≠ .missing then some ⟨r.id, .missing⟩ else none
  | .reclassed c => some ⟨r.id, .reclassed c⟩
  | .back => some ⟨r.id, .available⟩
  | .spared | .unchanged => none

/-- `missing_rows`. -/
def auditLosses (s : AuditScope) (rows : List AuditRow) : List MissingRow :=
  (rows.filter fun r => s.finding r = .lost).map AuditRow.toMissingRow

/-- The `UPDATE`s of an audit. -/
def auditWrites (s : AuditScope) (rows : List AuditRow) : List RowWrite :=
  rows.filterMap s.write?

/-- A write is for its row, and makes it missing where it was found lost. -/
lemma lost_of_write? {s : AuditScope} {r : AuditRow} {x : RowWrite} (h : s.write? r = some x) :
    x.row = r.id ∧ (s.finding r = .lost → x.change.lost) := by
  rw [AuditScope.write?] at h
  cases hf : s.finding r with
  | spared => simp [hf] at h
  | unchanged => simp [hf] at h
  | lost =>
      simp only [hf, Option.ite_none_right_eq_some] at h
      obtain ⟨-, h⟩ := h
      cases h
      exact ⟨rfl, fun _ => rfl⟩
  | reclassed c =>
      simp only [hf] at h
      cases h
      exact ⟨rfl, nofun⟩
  | back =>
      simp only [hf] at h
      cases h
      exact ⟨rfl, nofun⟩

/-- **The rows an audit reports as lost** are written as lost, if at all. -/
lemma lost_of_auditLosses {s : AuditScope} {rows : List AuditRow}
    (hnd : (rows.map fun r => r.id).Nodup) {a : MissingRow} (ha : a ∈ auditLosses s rows)
    {x : RowWrite} (hx : x ∈ auditWrites s rows) (hid : x.row = a.id) : x.change.lost := by
  obtain ⟨r, hr, rfl⟩ := mem_map.mp ha
  obtain ⟨hr, hlost⟩ := mem_filter.mp hr
  obtain ⟨r', hr', hw⟩ := mem_filterMap.mp hx
  obtain ⟨hrow, hchange⟩ := lost_of_write? hw
  obtain rfl : r' = r := inj_on_of_nodup_map hnd hr' hr (hrow.symm.trans hid)
  exact hchange (of_decide_eq_true hlost)

/-! ### Ids of what is read -/

lemma Catalog.versionIds_nodup (cat : Catalog) :
    (cat.files.flatMap fun f => f.versions.map ArchiveVersion.id).Nodup := by
  have hkeys : ((cat.files.flatMap VaultFile.versionKeys).map VersionKey.id).Nodup :=
    pairwise_map.mpr (cat.versions_unique.imp And.left)
  rw [map_flatMap] at hkeys
  have hids : (fun f : VaultFile => f.versionKeys.map VersionKey.id) =
      fun f => f.versions.map ArchiveVersion.id := by
    funext f
    rw [VaultFile.versionKeys, map_map]
    rfl
  rwa [hids] at hkeys

lemma Catalog.selected_nodup (cat : Catalog) (p : VaultFile → Bool)
    (q : VaultFile → ArchiveVersion → Bool) :
    ((cat.files.filter p).flatMap fun f =>
      (f.versions.filter (q f)).map ArchiveVersion.id).Nodup := by
  refine cat.versionIds_nodup.sublist ?_
  generalize cat.files = files
  induction files with
  | nil => exact nil_sublist _
  | cons f fs ih =>
      rw [flatMap_cons, filter_cons]
      split
      · rw [flatMap_cons]
        exact (filter_sublist.map _).append ih
      · exact ih.trans (sublist_append_right _ _)

lemma auditRows_nodup (cat : Catalog) (v : VaultId) : ((auditRows cat v).map fun r => r.id).Nodup := by
  have hids : (auditRows cat v).map (fun r => r.id) =
      (cat.files.filter fun f => f.vaultId = v).flatMap fun f =>
        (f.versions.filter fun w => w.availability ≠ .purged).map ArchiveVersion.id := by
    rw [auditRows, map_flatMap]
    refine flatMap_congr fun f _ => ?_
    rw [map_map]
    rfl
  rw [hids]
  exact cat.selected_nodup _ fun _ w => w.availability ≠ .purged

/-! ### A finished scan -/

/-- The `SELECT` of `mark_unseen_archive_versions_missing`. -/
def unseenRows (cat : Catalog) (v : VaultId) (scanId startedAt : Stamp) : List MissingRow :=
  (cat.files.filter fun f => f.vaultId = v && !activeUpload cat f.id).flatMap fun f =>
    (f.versions.filter fun w => w.unseen scanId startedAt && w.inArchive).map f.missingRow

/-- The rows its `UPDATE` finds. -/
def unseenWrites (cat : Catalog) (v : VaultId) (scanId startedAt : Stamp) : List RowWrite :=
  (cat.files.filter fun f => f.vaultId = v && !activeUpload cat f.id).flatMap fun f =>
    (f.versions.filter fun w => w.unseen scanId startedAt && w.availability ≠ .purged).map
      fun w => ⟨w.id, .unseen scanId⟩

/-- The rows that are selected are those the scan reports. -/
lemma unseenRows_ids (cat : Catalog) (v : VaultId) (scanId startedAt : Stamp) :
    (unseenRows cat v scanId startedAt).map MissingRow.id =
      (markUnseenArchiveVersionsMissing cat v scanId startedAt).2 := by
  rw [unseenRows, map_flatMap, markUnseenArchiveVersionsMissing]
  refine flatMap_congr fun f _ => ?_
  rw [map_map]
  rfl

lemma unseenRows_nodup (cat : Catalog) (v : VaultId) (scanId startedAt : Stamp) :
    ((unseenRows cat v scanId startedAt).map MissingRow.id).Nodup := by
  rw [unseenRows_ids]
  exact cat.selected_nodup _ fun _ w => w.unseen scanId startedAt && w.inArchive

lemma mem_unseenWrites {cat : Catalog} {v : VaultId} {scanId startedAt : Stamp} {x : RowWrite} :
    x ∈ unseenWrites cat v scanId startedAt ↔ ∃ f ∈ cat.files, f.vaultId = v ∧
      activeUpload cat f.id = false ∧ ∃ w ∈ f.versions, w.unseen scanId startedAt ∧
        w.availability ≠ .purged ∧ x = ⟨w.id, .unseen scanId⟩ := by
  simp only [unseenWrites, mem_flatMap, mem_filter, mem_map, Bool.and_eq_true,
    decide_eq_true_eq, Bool.not_eq_true', and_assoc, @eq_comm _ x]

end Frostvault
