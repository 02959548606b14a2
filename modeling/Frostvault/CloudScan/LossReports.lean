import Frostvault.CloudScan.Audit
import Frostvault.CloudScan.CloudOps

/-!
Loss incidents, next to scans, audits and authorised deletions.

A scan that has merged its listing, and an audit that has read the rows, report losses in one
transaction each: rows are made missing, and an incident is opened for every row that has none.
The transaction holds the rows it has written until it commits, but not those it only reports.
Meanwhile a purge, a Vault move or a snapshot cleanup deletes an exact object version in the
bucket and later marks its row purged; other scans merge, uploads publish, and objects vanish.

* `LossState`, `LossAct`, `lossStep`: one Vault with any number of scans, audits and deletions in
  any interleaving, statement by statement where a report reads;
* `LossesTrue`: every open incident is for a missing row, and none for a deletion;
* `Undisturbed`: what has to hold of a step;
* `losses_true_iff`: **in every run, the first holds in every state exactly when the second holds
  of every step**.
-/

namespace Frostvault

open Runs List

/-! ### A report under way -/

/-- Who reports. -/
inductive LossSource
  | scan (scanId : Stamp)
  | audit (n : ℕ) (startedAt : Stamp)
deriving DecidableEq, Repr

/-- The `reason` of the incidents. -/
def LossSource.reason : LossSource → String
  | .scan _ => "cloud_scan_unseen"
  | .audit .. => "audit_missing_in_cloud"

/-- Their `observed_at`. -/
def LossSource.observedAt : LossSource → Stamp
  | .scan scanId => scanId
  | .audit _ startedAt => startedAt

/-- An audit reports. -/
def LossSource.isAudit : LossSource → Bool
  | .scan _ => false
  | .audit .. => true

/-- How far the transaction is: it has read its rows, written them, or read the incidents. -/
inductive ReportStage
  | selected
  | updated
  | remembered (ws : List IncidentWrite)
deriving DecidableEq, Repr

/-- The incidents it is going to open. -/
def ReportStage.opened : ReportStage → List RowId
  | .remembered ws => ws.filterMap IncidentWrite.opens
  | _ => []

/-- The transaction of a report: the rows it reports, and those it has written and holds. -/
structure LossReport where
  source : LossSource
  accused : List MissingRow
  writes : List RowWrite
  stage : ReportStage
  accused_nodup : (accused.map MissingRow.id).Nodup
  accused_lost : ∀ a ∈ accused, ∀ x ∈ writes, x.row = a.id → x.change.lost = true
  opened_accused : ∀ id ∈ stage.opened, ∃ a ∈ accused, a.id = id

/-- `restored_ids`: the rows it has made available. -/
def LossReport.restored (r : LossReport) : List RowId :=
  (r.writes.filter fun x => !x.change.lost).map RowWrite.row

/-- The rows it holds. -/
def LossReport.held (r : LossReport) : List RowId := r.writes.map RowWrite.row

variable {a : Availability} {cat : Catalog} {id : RowId}

lemma LossReport.not_restored (r : LossReport) (h : id ∈ r.stage.opened) :
    id ∉ r.restored := by
  intro hr
  obtain ⟨a, ha, rfl⟩ := r.opened_accused id h
  obtain ⟨x, hx, hid⟩ := mem_map.mp hr
  obtain ⟨hx, hkept⟩ := mem_filter.mp hx
  rw [r.accused_lost a ha x hx hid] at hkept
  cases hkept

/-! ### One Vault -/

/-- An audit before it writes: its listing so far, and the rows once it has read them. -/
structure AuditRun where
  startedAt : Stamp
  listing : List ObjectItem
  read : Option (List AuditRow × List FileId)
  read_nodup : ∀ r, read = some r → (r.1.map fun r => r.id).Nodup

/-- The transaction that records a deletion: `mark_versions_purged` of a Vault move or a snapshot
cleanup, `mark_items_deleted` of a delayed deletion. -/
inductive DeletionCommit
  | versions (rows : List RowId) (at_ : Stamp)
  | items (ids : List ℕ) (at_ : Stamp)

/-- The rows it marks purged. -/
def DeletionCommit.rows (cat : Catalog) : DeletionCommit → List RowId
  | .versions rows _ => rows
  | .items ids _ => (cat.items.filter fun i => i.id ∈ ids && i.kind = .version).filterMap
      DeletionItem.archiveVersionId

/-- The catalog after it. -/
def DeletionCommit.apply (cat : Catalog) : DeletionCommit → Catalog
  | .versions rows at_ => markVersionsPurged cat rows at_
  | .items ids at_ => markItemsDeleted cat ids at_

/-- The time it records. -/
def DeletionCommit.time : DeletionCommit → Stamp
  | .versions _ at_ | .items _ at_ => at_

lemma DeletionCommit.apply_files (cat : Catalog) (d : DeletionCommit) :
    (d.apply cat).files = (markVersionsPurged cat (d.rows cat) d.time).files := by
  cases d with
  | versions rows at_ => rfl
  | items ids at_ => exact markItemsDeleted_files cat ids at_

/-- The Vault of `CloudState`, its incidents, and the reports under way.  `erased` are the object
versions that were there until they were deleted with authority; `settled` are the rows of such
deletions that have committed, and `overridden` the purged rows an audit has rewritten. -/
structure LossState (codec : KeyCodec) (v : VaultId) where
  cloud : CloudState codec v
  incidents : IncidentTable
  erased : List ObjectVersion
  settled : List RowId
  overridden : List RowId
  audits : ℕ → Option AuditRun
  reports : List LossReport

/-- What can happen next. -/
inductive LossAct
  | cloud (a : CloudAct)
  | lose (key : ObjectKey) (n : ProviderVersionId)
  | merge (scan : Stamp)
  | record (o : VersionObservation)
  | place (row : RowId) (p : Placement)
  | settle (d : DeletionCommit)
  | elsewhere (cat : Catalog)
  | listAudit (n : ℕ) (startedAt : Stamp)
  | auditPage (n : ℕ) (versions : List ObjectItem)
  | readAudit (n : ℕ)
  | writeAudit (n : ℕ)
  | selectUnseen (scan : Stamp)
  | updateUnseen (scan : Stamp)
  | remember (source : LossSource)
  | commit (source : LossSource)
  | abandon (source : LossSource)

variable {codec : KeyCodec} {v : VaultId}

namespace LossState

/-- The catalog, as it is committed. -/
def catalog (s : LossState codec v) : Catalog := s.cloud.catalog

/-- The report of a source. -/
def report? (s : LossState codec v) (source : LossSource) : Option LossReport :=
  s.reports.find? fun r => r.source = source

/-- The rows the other reports hold. -/
def heldByOthers (s : LossState codec v) (source : LossSource) : List RowId :=
  (s.reports.filter fun r => r.source ≠ source).flatMap LossReport.held

/-- All rows that are held. -/
def held (s : LossState codec v) : List RowId := s.reports.flatMap LossReport.held

/-- The state with another catalog. -/
def withCatalog (s : LossState codec v) (cat : Catalog) : LossState codec v :=
  { s with cloud := { s.cloud with catalog := cat } }

/-- The state with a report in its new form. -/
def setReport (s : LossState codec v) (r : LossReport) : LossState codec v :=
  { s with reports := (s.reports.filter fun r' => r'.source ≠ r.source) ++ [r] }

/-- The row is in the Vault, and its object version is not in the bucket. -/
def objectGone (s : LossState codec v) (id : RowId) : Bool :=
  s.catalog.files.any fun f => f.vaultId = v && f.versions.any fun w =>
    w.id = id && w.providerVersionId.all fun n =>
      s.cloud.bucket.all fun i => (i.key, i.versionId) ≠ (w.objectKey, n)

/-- The object version of the row was there until it was deleted with authority. -/
def objectErased (s : LossState codec v) (id : RowId) : Bool :=
  s.catalog.files.any fun f => f.versions.any fun w =>
    w.id = id && w.providerVersionId.any fun n => (w.objectKey, n) ∈ s.erased

/-- The object versions deleted with authority, after a step in the bucket. -/
def erasedAfter (s : LossState codec v) : CloudAct → List ObjectVersion
  | .deleteObject key n =>
      if s.cloud.bucket.any fun i => (i.key, i.versionId) = (key, n) then s.erased ++ [(key, n)]
      else s.erased
  | _ => s.erased

end LossState

/-- The rows stand as they were. -/
def Leaves (cat cat' : Catalog) (ids : List RowId) : Prop :=
  ∀ id ∈ ids, cat'.version? id = cat.version? id

instance (cat cat' : Catalog) (ids : List RowId) : Decidable (Leaves cat cat' ids) :=
  inferInstanceAs (Decidable (∀ id ∈ ids, _))

/-- The ids of the rows with their availability. -/
def Catalog.standing (cat : Catalog) : List (RowId × Availability) :=
  cat.files.flatMap fun f => f.versions.map fun w => (w.id, w.availability)

/-- The end of `record_archive_version` for a row that was there: its incidents are resolved. -/
def resolveSeen (cat : Catalog) (t : IncidentTable) (v : VaultId) (key : ObjectKey)
    (n : ProviderVersionId) (at_ : Stamp) : IncidentTable :=
  match cat.versionAt? v key n with
  | some fw => resolveArchiveVersionIncidents t [fw.2.id] at_
  | none => t

/-- One listed version, with its incidents. -/
def mergeResolving (scope : MergeScope) (s : Catalog × IncidentTable) (e : ListedVersion) :
    Catalog × IncidentTable :=
  (mergeVersion scope s.1 e,
    resolveSeen s.1 s.2 scope.vaultId e.objectKey e.versionId scope.scanId)

/-- The catalog is written by the step itself. -/
def CloudAct.writesCatalog : CloudAct → Bool
  | .mergeBatch _ | .finish _ | .commitPurge .. => true
  | _ => false

/-- The transaction of an audit once its `UPDATE`s are through. -/
def AuditRun.report (n : ℕ) (startedAt : Stamp) (listing : List ObjectItem) (rows : List AuditRow)
    (active : List FileId) (hnd : (rows.map fun r => r.id).Nodup) : LossReport where
  source := .audit n startedAt
  accused := auditLosses ⟨startedAt, listing, active⟩ rows
  writes := auditWrites ⟨startedAt, listing, active⟩ rows
  stage := .updated
  accused_nodup := by
    rw [auditLosses, map_map]
    exact hnd.sublist (filter_sublist.map _)
  accused_lost _ ha _ hx hid := lost_of_auditLosses hnd ha hx hid
  opened_accused _ h := absurd h not_mem_nil

/-- The transaction of a finished scan after its `SELECT`. -/
def selectReport (cat : Catalog) (v : VaultId) (scan : Stamp) : LossReport where
  source := .scan scan
  accused := unseenRows cat v scan scan
  writes := []
  stage := .selected
  accused_nodup := unseenRows_nodup cat v scan scan
  accused_lost _ _ _ hx := absurd hx not_mem_nil
  opened_accused _ h := absurd h not_mem_nil

/-- The same after its `UPDATE`. -/
def LossReport.update (r : LossReport) (cat : Catalog) (v : VaultId) (scan : Stamp) :
    LossReport where
  source := r.source
  accused := r.accused
  writes := unseenWrites cat v scan scan
  stage := .updated
  accused_nodup := r.accused_nodup
  accused_lost _ _ x hx _ := by
    obtain ⟨f, -, -, -, w, -, -, -, rfl⟩ := mem_unseenWrites.mp hx
    rfl
  opened_accused _ h := absurd h not_mem_nil

/-- The transaction after the `SELECT`s of `remember_missing_archives`. -/
def LossReport.remember (r : LossReport) (t : IncidentTable) : LossReport where
  source := r.source
  accused := r.accused
  writes := r.writes
  stage := .remembered (incidentWrites t r.accused)
  accused_nodup := r.accused_nodup
  accused_lost := r.accused_lost
  opened_accused _ h := opens_incidentWrites h

/-- The purged rows a transaction rewrites. -/
def purgedRows (cat : Catalog) (ids : List RowId) : List RowId :=
  ids.filter fun id => (id, .purged) ∈ cat.standing

/-- What the commit of a report leaves. -/
def LossState.committed (s : LossState codec v) (r : LossReport) (t : IncidentTable) :
    LossState codec v :=
  { s.withCatalog (rewriteRows s.catalog r.writes) with
    incidents := resolveArchiveVersionIncidents t r.restored r.source.observedAt
    overridden := s.overridden ++ if r.source.isAudit then purgedRows s.catalog r.held else []
    reports := s.reports.filter fun r' => r'.source ≠ r.source }

/-- One step of a Vault. -/
def lossStep (s : LossState codec v) : LossAct → Option (LossState codec v)
  | .cloud a => do
      guard (a.writesCatalog = false)
      let cloud ← cloudStep s.cloud a
      some { s with cloud := cloud, erased := s.erasedAfter a }
  | .lose key n =>
      some { s with cloud := { s.cloud with
        bucket := s.cloud.bucket.filter fun i => (i.key, i.versionId) ≠ (key, n) } }
  | .merge scan => do
      let m ← s.cloud.progress scan
      let batch ← m.listing.batches[m.written]?
      let cloud ← cloudStep s.cloud (.mergeBatch scan)
      guard (Leaves s.catalog cloud.catalog s.held)
      some { s with
        cloud := cloud
        incidents := (batch.foldl (mergeResolving m.scope) (s.catalog, s.incidents)).2 }
  | .record o => do
      let r ← recordVersion s.catalog v o
      guard (Leaves s.catalog r.1 s.held)
      some { s.withCatalog r.1 with
        incidents := resolveSeen s.catalog s.incidents v o.objectKey o.versionId o.scanId }
  | .place row p => do
      let cat ← updateVersionStoragePlacement s.catalog row p
      guard (Leaves s.catalog cat s.held)
      some (s.withCatalog cat)
  | .settle d => do
      guard ((∀ id ∈ d.rows s.catalog, s.objectGone id = true) ∧
        Leaves s.catalog (d.apply s.catalog) s.held)
      some { s.withCatalog (d.apply s.catalog) with
        settled := s.settled ++ (d.rows s.catalog).filter s.objectErased }
  | .elsewhere cat => do
      guard (cat.standing = s.catalog.standing ∧ Leaves s.catalog cat s.held)
      some (s.withCatalog cat)
  | .listAudit n startedAt => do
      guard ((s.audits n).isNone)
      some { s with audits := Function.update s.audits n (some ⟨startedAt, [], none, nofun⟩) }
  | .auditPage n versions => do
      let a ← s.audits n
      guard (a.read.isNone ∧ ∀ i ∈ versions, i ∈ s.cloud.bucket)
      some { s with
        audits := Function.update s.audits n
          (some ⟨a.startedAt, a.listing ++ versions, none, nofun⟩) }
  | .readAudit n => do
      let a ← s.audits n
      guard (a.read.isNone)
      some { s with
        audits := Function.update s.audits n (some ⟨a.startedAt, a.listing,
          some (auditRows s.catalog v, activeUploadFileIds s.catalog v), fun _ h => by
            cases h
            exact auditRows_nodup _ _⟩) }
  | .writeAudit n => do
      let a ← s.audits n
      match h : a.read with
      | none => none
      | some read =>
          let r := AuditRun.report n a.startedAt a.listing read.1 read.2 (a.read_nodup read h)
          guard ((s.report? r.source).isNone ∧ ∀ id ∈ r.held, id ∉ s.held)
          some { s.setReport r with audits := Function.update s.audits n none }
  | .selectUnseen scan => do
      let m ← s.cloud.progress scan
      guard (m.checked = true ∧ m.listing.batches.length ≤ m.written ∧
        m.listing.invalidKeys = false ∧ (s.report? (.scan scan)).isNone)
      some (s.setReport (selectReport s.catalog v scan))
  | .updateUnseen scan => do
      let r ← s.report? (.scan scan)
      guard (r.stage = .selected ∧
        ∀ id ∈ (r.update s.catalog v scan).held, id ∉ s.heldByOthers r.source)
      some (s.setReport (r.update s.catalog v scan))
  | .remember source => do
      let r ← s.report? source
      guard (r.stage = .updated)
      some (s.setReport (r.remember s.incidents))
  | .commit source => do
      let r ← s.report? source
      match r.stage with
      | .remembered ws => do
          let t ← writeIncidents r.source.reason r.source.observedAt s.incidents ws
          guard (Leaves s.catalog (rewriteRows s.catalog r.writes) (s.heldByOthers source))
          some (s.committed r t)
      | _ => none
  | .abandon source =>
      some { s with reports := s.reports.filter fun r => r.source ≠ source }

/-! ### What is to hold -/

/-- The row is in the catalog with this availability. -/
def Catalog.Stands (cat : Catalog) (a : Availability) (id : RowId) : Prop :=
  (id, a) ∈ cat.standing

instance (cat : Catalog) (a : Availability) (id : RowId) : Decidable (cat.Stands a id) :=
  inferInstanceAs (Decidable (_ ∈ _))

lemma stands_iff :
    cat.Stands a id ↔ ∃ f ∈ cat.files, ∃ w ∈ f.versions, w.id = id ∧ w.availability = a := by
  simp [Catalog.Stands, Catalog.standing]

lemma Catalog.Stands.unique {b : Availability}
    (ha : cat.Stands a id) (hb : cat.Stands b id) : a = b := by
  obtain ⟨f, hf, w, hw, rfl, rfl⟩ := stands_iff.mp ha
  obtain ⟨g, hg, u, hu, hid, rfl⟩ := stands_iff.mp hb
  obtain ⟨-, rfl⟩ := cat.version_eq_of_id_eq hg hf hu hw hid
  rfl

/-- **Losses are true**: an open incident is for a missing row, a version has one at most, none is
for a deletion that has committed, and no audit has rewritten a purged row. -/
structure LossesTrue (s : LossState codec v) : Prop where
  missing : ∀ id, s.incidents.Accuses id → s.catalog.Stands .missing id
  single : ∀ id, (s.incidents.rows.filter fun i => i.reportsLoss id).length ≤ 1
  spared : ∀ id ∈ s.settled, ¬s.incidents.Accuses id
  kept : s.overridden = []

/-- A report may commit: an audit has rewritten no row that was purged meanwhile, and what is
going to be reported is still missing, or missing through the report itself, and is no deletion
that has committed. -/
def LossReport.MayCommit (r : LossReport) (s : LossState codec v) : Prop :=
  (r.source.isAudit = true → ∀ id ∈ r.held, ¬s.catalog.Stands .purged id) ∧
    ∀ id ∈ r.stage.opened, id ∉ s.settled ∧ (s.catalog.Stands .missing id ∨
      id ∈ r.held ∧ id ∈ s.catalog.standing.map Prod.fst)

/-- No deletion is recorded, and no object version replaced, for a row with an open incident, and
no report commits that has been overtaken. -/
def Undisturbed (s : LossState codec v) : LossAct → Prop
  | .settle d => ∀ id ∈ d.rows s.catalog, ¬s.incidents.Accuses id
  | .place row _ => ¬s.incidents.Accuses row
  | .commit source => ∀ r ∈ s.report? source, r.MayCommit s
  | _ => True

instance (r : LossReport) (s : LossState codec v) : Decidable (r.MayCommit s) :=
  inferInstanceAs (Decidable ((_ → _) ∧ _))

instance (s : LossState codec v) : ∀ a, Decidable (Undisturbed s a)
  | .settle d => inferInstanceAs (Decidable (∀ id ∈ d.rows s.catalog, _))
  | .place row _ => inferInstanceAs (Decidable (¬s.incidents.Accuses row))
  | .commit source => inferInstanceAs (Decidable (∀ r ∈ s.report? source, r.MayCommit s))
  | .cloud _ | .lose .. | .merge _ | .record _ | .elsewhere _ | .listAudit .. | .auditPage ..
  | .readAudit _ | .writeAudit _ | .selectUnseen _ | .updateUnseen _ | .remember _
  | .abandon _ => isTrue trivial

/-! ### Rows that are rewritten -/

/-- A rewriting of rows, seen at one row. -/
lemma stands_map_iff {cat' : Catalog} {g : ArchiveVersion → ArchiveVersion}
    (hfiles : cat'.files = cat.files.map fun f => { f with versions := f.versions.map g })
    (hg : ∀ w, (g w).id = w.id) :
    cat'.Stands a id ↔
      ∃ f ∈ cat.files, ∃ w ∈ f.versions, w.id = id ∧ (g w).availability = a := by
  rw [stands_iff, hfiles]
  constructor
  · rintro ⟨_, hf', _, hw', rfl, rfl⟩
    obtain ⟨f, hf, rfl⟩ := mem_map.mp hf'
    obtain ⟨w, hw, rfl⟩ := mem_map.mp hw'
    exact ⟨f, hf, w, hw, (hg w).symm, rfl⟩
  · rintro ⟨f, hf, w, hw, rfl, rfl⟩
    exact ⟨_, mem_map_of_mem hf, _, mem_map_of_mem hw, hg w, rfl⟩

/-- **A deletion is recorded**: its rows are purged, the others stand as they did. -/
lemma stands_settle {d : DeletionCommit} :
    (d.apply cat).Stands a id ↔
      if id ∈ d.rows cat then a = .purged ∧ id ∈ cat.standing.map Prod.fst
      else cat.Stands a id := by
  rw [stands_map_iff (d.apply_files cat) fun w => by split <;> rfl]
  split
  · rename_i hid
    constructor
    · rintro ⟨f, hf, w, hw, rfl, rfl⟩
      rw [if_pos hid]
      refine ⟨rfl, mem_map.mpr ⟨(w.id, w.availability), ?_, rfl⟩⟩
      exact stands_iff.mpr ⟨f, hf, w, hw, rfl, rfl⟩
    · rintro ⟨rfl, hmem⟩
      obtain ⟨⟨_, a⟩, hstand, rfl⟩ := mem_map.mp hmem
      obtain ⟨f, hf, w, hw, hwid, -⟩ := stands_iff.mp hstand
      refine ⟨f, hf, w, hw, hwid, ?_⟩
      rw [if_pos (by rw [hwid]; exact hid)]
      rfl
  · rename_i hid
    rw [stands_iff]
    refine exists_congr fun f => and_congr_right fun _ => exists_congr fun w =>
      and_congr_right fun _ => and_congr_right fun hwid => ?_
    rw [if_neg (by rw [hwid]; exact hid)]

/-- **A report is committed**: what it has made missing is missing, what it has not written stands
as it did. -/
lemma stands_rewriteRows {ws : List RowWrite} (h : ∀ x ∈ ws, x.row = id → x.change.lost) :
    (rewriteRows cat ws).Stands .missing id ↔
      cat.Stands .missing id ∨ id ∈ ws.map RowWrite.row ∧ id ∈ cat.standing.map Prod.fst := by
  rw [stands_map_iff rfl fun w => (written_keys ws w).1]
  constructor
  · rintro ⟨f, hf, w, hw, rfl, ha⟩
    rcases availability_written ws w with ⟨x, hx, hid, -⟩ | ⟨-, heq⟩
    · refine .inr ⟨mem_map.mpr ⟨x, hx, hid⟩,
        mem_map.mpr ⟨(w.id, w.availability), ?_, rfl⟩⟩
      exact stands_iff.mpr ⟨f, hf, w, hw, rfl, rfl⟩
    · rw [heq] at ha
      exact .inl (stands_iff.mpr ⟨f, hf, w, hw, rfl, ha⟩)
  · intro hor
    have hrow : id ∈ cat.standing.map Prod.fst := by
      rcases hor with hmiss | ⟨-, hmem⟩
      · exact mem_map.mpr ⟨(id, .missing), hmiss, rfl⟩
      · exact hmem
    obtain ⟨⟨_, a⟩, hstand, rfl⟩ := mem_map.mp hrow
    obtain ⟨f, hf, w, hw, hwid, rfl⟩ := stands_iff.mp hstand
    refine ⟨f, hf, w, hw, hwid, ?_⟩
    rcases availability_written ws w with ⟨x, hx, hid, ha⟩ | ⟨hno, heq⟩
    · rw [ha, if_pos (h x hx (hid.trans hwid))]
    · rw [heq]
      rcases hor with hmiss | ⟨hin, -⟩
      · exact Catalog.Stands.unique hstand hmiss
      · obtain ⟨x, hx, hid⟩ := mem_map.mp hin
        exact absurd (hid.trans hwid.symm) (hno x hx)

/-! ### Rows that are seen again -/

/-- Every open incident is for a missing row. -/
def OpenMissing (s : Catalog × IncidentTable) : Prop :=
  ∀ id, s.2.Accuses id → s.1.Stands .missing id

lemma accuses_resolveSeen {t : IncidentTable} {u : VaultId} {key : ObjectKey}
    {n : ProviderVersionId} {at_ : Stamp} :
    (resolveSeen cat t u key n at_).Accuses id ↔
      t.Accuses id ∧ ∀ fw, cat.versionAt? u key n = some fw → id ≠ fw.2.id := by
  rw [resolveSeen]
  split
  · rename_i fw hat
    rw [accuses_resolve, hat]
    simp
  · rename_i hat
    rw [hat]
    simp

/-- **A listed version is merged**: what stays accused is missing, and nothing is accused anew. -/
lemma OpenMissing.mergeResolving {s : Catalog × IncidentTable} (h : OpenMissing s)
    (scope : MergeScope) (e : ListedVersion) :
    OpenMissing (mergeResolving scope s e) ∧
      ∀ id, (Frostvault.mergeResolving scope s e).2.Accuses id → s.2.Accuses id := by
  refine ⟨fun id hid => ?_, fun id hid => (accuses_resolveSeen.mp hid).1⟩
  obtain ⟨hacc, hother⟩ := accuses_resolveSeen.mp hid
  obtain ⟨f, hf, w, hw, rfl, hmiss⟩ := stands_iff.mp (h id hacc)
  obtain ⟨owner, minted, new, hstep⟩ := mergeVersion_spec s.1 scope e
  refine stands_iff.mpr ⟨mergedFile s.1 scope e owner new f,
    hstep.mem_files.mpr ⟨f, .inl hf, rfl⟩,
    mergeRow scope (supersedes s.1 scope e owner f.id) e f.vaultId w,
    mem_append_left _ (mem_map_of_mem hw), ?_⟩
  have hrow : mergeRow scope (supersedes s.1 scope e owner f.id) e f.vaultId w = w := by
    rw [mergeRow, if_neg, if_neg]
    · rintro ⟨-, harch, -⟩
      exact (inArchive_iff.mp harch).1 hmiss
    · rintro ⟨hv, hobj⟩
      exact hother (f, w) (s.1.versionAt?_eq_some_iff.mpr ⟨hf, hv, hw, hobj⟩) rfl
  rw [hrow]
  exact ⟨rfl, hmiss⟩

lemma OpenMissing.batch {s : Catalog × IncidentTable} (h : OpenMissing s) (scope : MergeScope)
    (batch : List ListedVersion) :
    OpenMissing (batch.foldl (Frostvault.mergeResolving scope) s) ∧
      ∀ id, (batch.foldl (Frostvault.mergeResolving scope) s).2.Accuses id → s.2.Accuses id := by
  induction batch generalizing s with
  | nil => exact ⟨h, fun _ hid => hid⟩
  | cons e es ih =>
      obtain ⟨hone, hless⟩ := h.mergeResolving scope e
      obtain ⟨hrest, hless'⟩ := ih hone
      exact ⟨hrest, fun id hid => hless id (hless' id hid)⟩

lemma foldl_mergeResolving_fst (scope : MergeScope) (s : Catalog × IncidentTable)
    (batch : List ListedVersion) :
    (batch.foldl (mergeResolving scope) s).1 = mergeBatch scope s.1 batch := by
  induction batch generalizing s with
  | nil => rfl
  | cons e es ih => exact ih (mergeResolving scope s e)

/-- **A version is recorded**: likewise. -/
lemma OpenMissing.record {cat' : Catalog} {t : IncidentTable} (h : OpenMissing (cat, t))
    {o : VersionObservation} {row : RowId} (hrec : recordVersion cat v o = some (cat', row)) :
    OpenMissing (cat', resolveSeen cat t v o.objectKey o.versionId o.scanId) := by
  intro id hid
  obtain ⟨hacc, hother⟩ := accuses_resolveSeen.mp hid
  obtain ⟨f, hf, w, hw, rfl, hmiss⟩ := stands_iff.mp (h id hacc)
  obtain ⟨g, hg, hgv, u, hu, hobj, hkeys, rfl⟩ | ⟨hnew, rfl⟩ := recordVersion_cases hrec
  · have hne : w.id ≠ u.id :=
      hother (g, u) (cat.versionAt?_eq_some_iff.mpr ⟨hg, hgv, hu, hobj⟩)
    refine (stands_map_iff rfl fun x => by split <;> rfl).mpr ⟨f, hf, w, hw, rfl, ?_⟩
    rw [if_neg hne]
    exact hmiss
  · have hown := (recordOwner_file? cat v o f.id).2 f (cat.file?_eq_of_mem hf)
    refine stands_iff.mpr ⟨_, mem_map_of_mem (Catalog.mem_of_file? hown).1, w, ?_, rfl, hmiss⟩
    exact mem_append_left _ hw

/-- **An object version is replaced**: the row is available, the others stand as they did. -/
lemma stands_place {cat' : Catalog} {row : RowId} {p : Placement}
    (h : updateVersionStoragePlacement cat row p = some cat') :
    cat'.Stands .missing id ↔ cat.Stands .missing id ∧ id ≠ row := by
  rw [updateVersionStoragePlacement] at h
  split at h
  · cases h
    rw [stands_map_iff rfl fun w => by split <;> rfl, stands_iff]
    constructor
    · rintro ⟨f, hf, w, hw, rfl, hmiss⟩
      split at hmiss
      · cases hmiss
      · rename_i hne
        exact ⟨⟨f, hf, w, hw, rfl, hmiss⟩, hne⟩
    · rintro ⟨⟨f, hf, w, hw, rfl, hmiss⟩, hne⟩
      refine ⟨f, hf, w, hw, rfl, ?_⟩
      rw [if_neg hne]
      exact hmiss
  · cases h

/-! ### One step -/

/-- Reading and deleting in the bucket leaves the catalog alone. -/
lemma cloudStep_catalog {s s' : CloudState codec v} {a : CloudAct} (ha : a.writesCatalog = false)
    (hs : cloudStep s a = some s') : s'.catalog = s.catalog := by
  cases a with
  | put i =>
      obtain ⟨-, rfl⟩ := checked_eq_some.mp hs
      rfl
  | startScan scan =>
      obtain ⟨-, rfl⟩ := checked_eq_some.mp hs
      rfl
  | readPage scan versions markers =>
      obtain ⟨r, -, -, rfl⟩ := read_checked_eq_some.mp hs
      rfl
  | beginMerge scan clock =>
      obtain ⟨r, -, -, rfl⟩ := read_checked_eq_some.mp hs
      rfl
  | checkCurrent scan =>
      obtain ⟨m, -, hs⟩ := Option.bind_eq_some_iff.mp hs
      cases hs
      split <;> rfl
  | deleteObject key n =>
      cases hs
      rfl
  | mergeBatch scan => cases ha
  | finish scan => cases ha
  | commitPurge rows checkedAt => cases ha

variable {s s' : LossState codec v}

/-- Nothing is lost where the rows, the incidents and the ledgers are the old ones. -/
lemma LossesTrue.congr (h : LossesTrue s) (hcat : s'.catalog.standing = s.catalog.standing)
    (hinc : s'.incidents = s.incidents) (hset : s'.settled = s.settled)
    (hover : s'.overridden = s.overridden) : LossesTrue s' where
  missing id hid := by
    rw [hinc] at hid
    rw [Catalog.Stands, hcat]
    exact h.missing id hid
  single id := s'.incidents.losses_le_one id
  spared id hid := by
    rw [hset] at hid
    rw [hinc]
    exact h.spared id hid
  kept := hover.trans h.kept

lemma LossesTrue.fewer (h : LossesTrue s) (hmiss : OpenMissing (s'.catalog, s'.incidents))
    (hless : ∀ id, s'.incidents.Accuses id → s.incidents.Accuses id)
    (hset : s'.settled = s.settled) (hover : s'.overridden = s.overridden) : LossesTrue s' where
  missing := hmiss
  single id := s'.incidents.losses_le_one id
  spared id hid hacc := by
    rw [hset] at hid
    exact h.spared id hid (hless id hacc)
  kept := hover.trans h.kept

/-- **A recorded deletion** leaves the losses true exactly when none of its rows has an open
incident. -/
lemma lossesTrue_settle (h : LossesTrue s) {d : DeletionCommit}
    (hs : lossStep s (.settle d) = some s') :
    LossesTrue s' ↔ ∀ id ∈ d.rows s.catalog, ¬s.incidents.Accuses id := by
  obtain ⟨-, rfl⟩ := checked_eq_some.mp hs
  constructor
  · intro h' id hid hacc
    have hmiss : (d.apply s.catalog).Stands .missing id := h'.missing id hacc
    rw [stands_settle, if_pos hid] at hmiss
    exact Availability.noConfusion hmiss.1
  · intro hno
    refine ⟨fun id hacc => ?_, fun id => s.incidents.losses_le_one id, fun id hid hacc => ?_,
      h.kept⟩
    · show (d.apply s.catalog).Stands .missing id
      rw [stands_settle, if_neg fun hid => hno id hid hacc]
      exact h.missing id hacc
    · rcases mem_append.mp hid with hid | hid
      · exact h.spared id hid hacc
      · exact hno id (mem_filter.mp hid).1 hacc

/-- **A replaced object version** leaves the losses true exactly when its row has no open
incident. -/
lemma lossesTrue_place (h : LossesTrue s) {row : RowId} {p : Placement}
    (hs : lossStep s (.place row p) = some s') :
    LossesTrue s' ↔ ¬s.incidents.Accuses row := by
  obtain ⟨cat, hcat, -, rfl⟩ := read_checked_eq_some.mp hs
  constructor
  · intro h' hacc
    exact ((stands_place hcat).mp (h'.missing row hacc)).2 rfl
  · intro hno
    refine ⟨fun id hacc => (stands_place hcat).mpr ⟨h.missing id hacc, ?_⟩,
      fun id => s.incidents.losses_le_one id, h.spared, h.kept⟩
    rintro rfl
    exact hno hacc

lemma purgedRows_eq_nil_iff {ids : List RowId} :
    purgedRows cat ids = [] ↔ ∀ id ∈ ids, ¬cat.Stands .purged id := by
  rw [purgedRows, filter_eq_nil_iff]
  refine forall₂_congr fun id _ => not_congr ?_
  exact decide_eq_true_iff

/-- **A report that commits** leaves the losses true exactly when it may. -/
lemma lossesTrue_committed (h : LossesTrue s) (r : LossReport) {ws : List IncidentWrite}
    (hstage : r.stage = .remembered ws) {t : IncidentTable}
    (ht : writeIncidents r.source.reason r.source.observedAt s.incidents ws = some t) :
    LossesTrue (s.committed r t) ↔ r.MayCommit s := by
  have hopened : r.stage.opened = ws.filterMap IncidentWrite.opens := by rw [hstage]; rfl
  have hacc : ∀ id, (s.committed r t).incidents.Accuses id ↔
      (s.incidents.Accuses id ∨ id ∈ r.stage.opened) ∧ id ∉ r.restored := by
    intro id
    rw [hopened, ← accuses_writeIncidents ht]
    exact accuses_resolve
  -- a row that is not made available is lost by every write
  have hlost : ∀ id, id ∉ r.restored → ∀ x ∈ r.writes, x.row = id → x.change.lost := by
    intro id hid x hx hrow
    by_contra hkept
    refine hid (mem_map.mpr ⟨x, mem_filter.mpr ⟨hx, ?_⟩, hrow⟩)
    simpa using hkept
  have hstands : ∀ id, id ∉ r.restored → ((s.committed r t).catalog.Stands .missing id ↔
      s.catalog.Stands .missing id ∨ id ∈ r.held ∧ id ∈ s.catalog.standing.map Prod.fst) :=
    fun id hid => stands_rewriteRows (hlost id hid)
  have hover : (s.committed r t).overridden = [] ↔
      (r.source.isAudit → ∀ id ∈ r.held, ¬s.catalog.Stands .purged id) := by
    show s.overridden ++ _ = [] ↔ _
    rw [h.kept, nil_append, ← purgedRows_eq_nil_iff]
    split
    · rename_i haudit
      simp [haudit]
    · rename_i haudit
      simp [haudit]
  constructor
  · intro h'
    refine ⟨hover.mp h'.kept, fun id hid => ?_⟩
    have hnot := r.not_restored hid
    have hid' := (hacc id).mpr ⟨.inr hid, hnot⟩
    exact ⟨fun hset => h'.spared id hset hid', (hstands id hnot).mp (h'.missing id hid')⟩
  · rintro ⟨hkept, hnew⟩
    refine ⟨fun id hid => ?_, fun id => (s.committed r t).incidents.losses_le_one id,
      fun id hset hid => ?_, hover.mpr hkept⟩
    · obtain ⟨hor, hnot⟩ := (hacc id).mp hid
      refine (hstands id hnot).mpr ?_
      rcases hor with hold | hopen
      · exact .inl (h.missing id hold)
      · exact (hnew id hopen).2
    · obtain ⟨hor, -⟩ := (hacc id).mp hid
      rcases hor with hold | hopen
      · exact h.spared id hset hold
      · exact (hnew id hopen).1 hset

/-- **One step** leaves the losses true exactly when it is undisturbed. -/
lemma lossesTrue_step {a : LossAct} (h : LossesTrue s) (hs : lossStep s a = some s') :
    LossesTrue s' ↔ Undisturbed s a := by
  cases a with
  | cloud a =>
      obtain ⟨ha, hs⟩ := guard_bind_eq_some.mp hs
      obtain ⟨cloud, hcloud, hs⟩ := Option.bind_eq_some_iff.mp hs
      cases hs
      refine iff_of_true (h.congr ?_ rfl rfl rfl) trivial
      exact congrArg Catalog.standing (cloudStep_catalog ha hcloud)
  | lose key n =>
      cases hs
      exact iff_of_true (h.congr rfl rfl rfl rfl) trivial
  | merge scan =>
      obtain ⟨m, hm, hs⟩ := Option.bind_eq_some_iff.mp hs
      obtain ⟨batch, hb, hs⟩ := Option.bind_eq_some_iff.mp hs
      obtain ⟨cloud, hcloud, -, rfl⟩ := read_checked_eq_some.mp hs
      obtain ⟨m', hm', hcloud⟩ := Option.bind_eq_some_iff.mp hcloud
      cases hm.symm.trans hm'
      obtain ⟨batch', hb', hcloud⟩ := Option.bind_eq_some_iff.mp hcloud
      cases hb.symm.trans hb'
      obtain ⟨-, rfl⟩ := checked_eq_some.mp hcloud
      have hopen : OpenMissing (s.catalog, s.incidents) := h.missing
      obtain ⟨hmiss, hless⟩ := hopen.batch m.scope batch
      refine iff_of_true (h.fewer ?_ hless rfl rfl) trivial
      have hcat := foldl_mergeResolving_fst m.scope (s.catalog, s.incidents) batch
      intro id hid
      show (mergeBatch m.scope s.catalog batch).Stands .missing id
      rw [← hcat]
      exact hmiss id hid
  | record o =>
      obtain ⟨r, hr, -, rfl⟩ := read_checked_eq_some.mp hs
      have hopen : OpenMissing (s.catalog, s.incidents) := h.missing
      exact iff_of_true (h.fewer (hopen.record hr) (fun id hid => (accuses_resolveSeen.mp hid).1)
        rfl rfl) trivial
  | place row p => exact lossesTrue_place h hs
  | settle d => exact lossesTrue_settle h hs
  | elsewhere cat =>
      obtain ⟨hcat, rfl⟩ := checked_eq_some.mp hs
      exact iff_of_true (h.congr hcat.1 rfl rfl rfl) trivial
  | listAudit n startedAt =>
      obtain ⟨-, rfl⟩ := checked_eq_some.mp hs
      exact iff_of_true (h.congr rfl rfl rfl rfl) trivial
  | auditPage n versions =>
      obtain ⟨a, -, -, rfl⟩ := read_checked_eq_some.mp hs
      exact iff_of_true (h.congr rfl rfl rfl rfl) trivial
  | readAudit n =>
      obtain ⟨a, -, -, rfl⟩ := read_checked_eq_some.mp hs
      exact iff_of_true (h.congr rfl rfl rfl rfl) trivial
  | writeAudit n =>
      obtain ⟨a, -, hs⟩ := Option.bind_eq_some_iff.mp hs
      split at hs
      · cases hs
      · obtain ⟨-, rfl⟩ := checked_eq_some.mp hs
        exact iff_of_true (h.congr rfl rfl rfl rfl) trivial
  | selectUnseen scan =>
      obtain ⟨m, -, -, rfl⟩ := read_checked_eq_some.mp hs
      exact iff_of_true (h.congr rfl rfl rfl rfl) trivial
  | updateUnseen scan =>
      obtain ⟨r, -, -, rfl⟩ := read_checked_eq_some.mp hs
      exact iff_of_true (h.congr rfl rfl rfl rfl) trivial
  | remember source =>
      obtain ⟨r, -, -, rfl⟩ := read_checked_eq_some.mp hs
      exact iff_of_true (h.congr rfl rfl rfl rfl) trivial
  | commit source =>
      obtain ⟨r, hr, hs⟩ := Option.bind_eq_some_iff.mp hs
      have honly : Undisturbed s (.commit source) ↔ r.MayCommit s := by
        simp [Undisturbed, hr]
      split at hs
      · rename_i ws hstage
        obtain ⟨t, ht, -, rfl⟩ := read_checked_eq_some.mp hs
        exact (lossesTrue_committed h r hstage ht).trans honly.symm
      · cases hs
  | abandon source =>
      cases hs
      exact iff_of_true (h.congr rfl rfl rfl rfl) trivial

/-! ### Every interleaving -/

/-- **Loss incidents**: from a state where the losses are true, they are in every state a run
reaches exactly when no deletion is recorded, and no object version replaced, for a row with an
open incident, and no report commits that has been overtaken. -/
theorem losses_true_iff (codec : KeyCodec) (v : VaultId) (s t : LossState codec v)
    (as : List LossAct) (h : LossesTrue s) (hrun : run lossStep s as = some t) :
    (∀ bs u, bs <+: as → run lossStep s bs = some u → LossesTrue u) ↔
      Along lossStep Undisturbed s as :=
  along_iff_invariant (fun _ _ _ h hs => lossesTrue_step h hs) h hrun

/-- A Vault without incidents, deletions and reports. -/
def LossState.start (cloud : CloudState codec v) : LossState codec v :=
  ⟨cloud, ⟨[], nodup_nil, List.Pairwise.nil⟩, [], [], [], fun _ => none, []⟩

lemma lossesTrue_start (cloud : CloudState codec v) : LossesTrue (LossState.start cloud) where
  missing _ h := Bool.noConfusion h
  single _ := Nat.zero_le 1
  spared _ h := absurd h not_mem_nil
  kept := rfl

/-- One file with one version, whose deletion is a Job's. -/
def purgeCatalog : Catalog where
  files := [⟨1, 0, .active, some ['a'], 0, [], none,
    [⟨2, 1, 0, some 2, none, none, none, .verified, .available, some 1, none, 1, none, none,
      .upload, .upload⟩], []⟩]
  jobs := []
  items := [⟨1, 7, 1, .version, some 2, none, 0, 2, 0, .pending⟩]
  ids_nodup := by simp
  paths_unique := by simp
  versions_unique := by simp [VaultFile.versionKeys]
  jobIds_nodup := nodup_nil

/-- The bucket holds the version. -/
def purgeVault : LossState flatCodec 0 :=
  .start
    { catalog := purgeCatalog
      bucket := [listedObject]
      issued := [(0, 2)]
      deleted := []
      committed := []
      alarms := []
      scans := fun _ => none
      generation := none }

/-- An audit that lists the bucket, reads the rows, and reports; `middle` happens after it has
read. -/
def auditAround (n : ℕ) (startedAt : Stamp) (middle : List LossAct) : List LossAct :=
  [.listAudit n startedAt, .readAudit n] ++ middle ++
    [.writeAudit n, .remember (.audit n startedAt), .commit (.audit n startedAt)]

/-- **The deletion is accused**: the object is deleted, an audit lists the bucket and reads the
row, the deletion commits, and the audit makes the purged row missing. -/
theorem deletion_accused :
    ¬ ∀ (codec : KeyCodec) (v : VaultId) (s t : LossState codec v) (as : List LossAct),
      LossesTrue s → run lossStep s as = some t → LossesTrue t := by
  intro hall
  have hrun : (run lossStep purgeVault (.cloud (.deleteObject 0 2) ::
      auditAround 1 5 [.settle (.items [1] 6)])).any (fun t =>
        decide (2 ∈ t.settled ∧ t.incidents.Accuses 2)) = true := by
    decide +kernel
  obtain ⟨t, ht, hbad⟩ := (Option.any_eq_true _ _).mp hrun
  obtain ⟨hset, hacc⟩ := of_decide_eq_true hbad
  exact (hall flatCodec 0 purgeVault t _ (lossesTrue_start _) ht).spared 2 hset hacc

/-- The deletion commits before the audit reads: nothing is reported. -/
theorem losses_true_settled_first :
    (run lossStep purgeVault (.cloud (.deleteObject 0 2) ::
      .settle (.items [1] 6) :: auditAround 1 7 [])).isSome = true ∧
    ∀ bs u, bs <+: .cloud (.deleteObject 0 2) :: .settle (.items [1] 6) :: auditAround 1 7 [] →
      run lossStep purgeVault bs = some u → LossesTrue u := by
  have hrun : (run lossStep purgeVault (.cloud (.deleteObject 0 2) ::
      .settle (.items [1] 6) :: auditAround 1 7 [])).isSome = true := by
    decide +kernel
  obtain ⟨t, ht⟩ := Option.isSome_iff_exists.mp hrun
  exact ⟨hrun, (losses_true_iff flatCodec 0 purgeVault t _ (lossesTrue_start _) ht).mpr
    (by decide +kernel)⟩

end Frostvault
