import Frostvault.CloudScan.Deletions

/-!
Catalog incidents (`app/services/catalog_incidents.py`, migration `0039_catalog_incidents.py`).

An `archive_version_missing` incident says that an Archive Version was lost.  A version has one
open incident of a kind at most: the partial unique index
`catalog_incidents_one_open_version_uq` refuses a second one.

* `IncidentTable`: the table with its index;
* `rememberMissingArchives`, `resolveArchiveVersionIncidents`: the two functions that write it;
* `incidentWrites`: what the first one writes, decided by what it reads;
* `remember_eq_writes`: reading everything first makes no difference in one transaction;
* `accuses_writeIncidents`: the versions that have an open incident afterwards.
-/

namespace Frostvault

open List

/-! ### The table -/

/-- `kind`. -/
inductive IncidentKind
  | archiveVersionMissing | cloudOnlyConflict
deriving DecidableEq, Repr

/-- `status`, open or resolved. -/
inductive IncidentStatus
  | opened | resolved
deriving DecidableEq, Repr

/-- A row of `catalog_incidents`. -/
structure Incident where
  id : ℕ
  vaultId : VaultId
  vaultFileId : FileId
  archiveVersionId : RowId
  kind : IncidentKind
  status : IncidentStatus
  reason : String
  path : Path
  objectKey : Option ObjectKey
  providerVersionId : Option ProviderVersionId
  openedAt : Stamp
  lastSeenAt : Stamp
  resolvedAt : Option Stamp
deriving DecidableEq, Repr

/-- `catalog_incidents_one_open_version_uq`. -/
def OneOpen (a b : Incident) : Prop :=
  a.status = .opened → b.status = .opened → a.kind = b.kind →
    a.archiveVersionId ≠ b.archiveVersionId

instance (a b : Incident) : Decidable (OneOpen a b) :=
  inferInstanceAs (Decidable (_ → _ → _ → _))

/-- The incidents, with the promises of the indexes. -/
structure IncidentTable where
  rows : List Incident
  ids_nodup : (rows.map Incident.id).Nodup
  one_open : rows.Pairwise OneOpen

/-- `archive_version_id=%s AND kind='archive_version_missing' AND status='open'`. -/
def Incident.reportsLoss (i : Incident) (row : RowId) : Bool :=
  i.archiveVersionId = row && i.kind = .archiveVersionMissing && i.status = .opened

variable {at_ : Stamp} {reason : String} {row : RowId} {t t' : IncidentTable}

lemma Incident.reportsLoss_iff {i : Incident} :
    i.reportsLoss row ↔
      i.archiveVersionId = row ∧ i.kind = .archiveVersionMissing ∧ i.status = .opened := by
  simp [Incident.reportsLoss, and_assoc]

namespace IncidentTable

/-- The open incident of a version that was lost. -/
def lossOf? (t : IncidentTable) (row : RowId) : Option Incident :=
  t.rows.find? fun i => i.reportsLoss row

/-- The version has an open `archive_version_missing` incident. -/
def Accuses (t : IncidentTable) (row : RowId) : Prop :=
  (t.rows.any fun i => i.reportsLoss row) = true

instance (t : IncidentTable) (row : RowId) : Decidable (t.Accuses row) :=
  inferInstanceAs (Decidable (_ = true))

lemma accuses_iff :
    t.Accuses row ↔ ∃ i ∈ t.rows, i.reportsLoss row := any_eq_true

/-- **No version has two** open incidents. -/
theorem losses_le_one (t : IncidentTable) (row : RowId) :
    (t.rows.filter fun i => i.reportsLoss row).length ≤ 1 := by
  have hpair : (t.rows.filter fun i => i.reportsLoss row).Pairwise OneOpen :=
    t.one_open.sublist filter_sublist
  have hall : ∀ i ∈ t.rows.filter fun i => i.reportsLoss row,
      i.archiveVersionId = row ∧ i.kind = .archiveVersionMissing ∧ i.status = .opened :=
    fun i hi => Incident.reportsLoss_iff.mp (mem_filter.mp hi).2
  generalize (t.rows.filter fun i => i.reportsLoss row) = losses at hpair hall
  match losses with
  | [] => exact Nat.zero_le 1
  | [_] => exact Nat.le_refl 1
  | a :: b :: _ =>
      obtain ⟨ha, hka, hsa⟩ := hall a mem_cons_self
      obtain ⟨hb, hkb, hsb⟩ := hall b (mem_cons_of_mem a mem_cons_self)
      have hne := rel_of_pairwise_cons hpair mem_cons_self
      exact absurd (ha.trans hb.symm) (hne hsa hsb (hka.trans hkb.symm))

/-! ### Statements -/

/-- Rewrite the rows, their ids and what the index looks at kept or closed. -/
def mapRows (t : IncidentTable) (g : Incident → Incident) (hid : ∀ i, (g i).id = i.id)
    (hg : ∀ i, (g i).status = .opened → i.status = .opened ∧ (g i).kind = i.kind ∧
      (g i).archiveVersionId = i.archiveVersionId) : IncidentTable where
  rows := t.rows.map g
  ids_nodup := by
    rw [map_map, show Incident.id ∘ g = Incident.id from funext hid]
    exact t.ids_nodup
  one_open := by
    rw [pairwise_map]
    refine t.one_open.imp fun {a b} hab ha hb hk => ?_
    obtain ⟨ha, hka, hva⟩ := hg a ha
    obtain ⟨hb, hkb, hvb⟩ := hg b hb
    rw [hva, hvb]
    exact hab ha hb (hka.symm.trans (hk.trans hkb))

/-- `UPDATE catalog_incidents SET last_seen_at=%s, reason=%s WHERE id=%s`. -/
def refresh (t : IncidentTable) (id : ℕ) (reason : String) (observedAt : Stamp) : IncidentTable :=
  t.mapRows (fun i => if i.id = id then { i with lastSeenAt := observedAt, reason := reason } else i)
    (fun i => by split <;> rfl) (fun i => by split <;> exact fun h => ⟨h, rfl, rfl⟩)

/-- The next value of the sequence. -/
def freshId (t : IncidentTable) : ℕ := Catalog.fresh (t.rows.map Incident.id)

/-- `INSERT INTO catalog_incidents`: the index raises when the version has an open incident. -/
def insert? (t : IncidentTable) (i : Incident) : Option IncidentTable :=
  if h : i.id = t.freshId ∧ ∀ j ∈ t.rows, OneOpen j i then
    some
      { rows := t.rows ++ [i]
        ids_nodup := by
          rw [map_append, nodup_append]
          refine ⟨t.ids_nodup, by simp, fun a ha b hb => ?_⟩
          rw [mem_singleton.mp hb, h.1]
          exact Nat.ne_of_lt (Catalog.lt_fresh ha)
        one_open := by
          rw [pairwise_append]
          refine ⟨t.one_open, pairwise_singleton _ _, fun j hj k hk => ?_⟩
          rw [mem_singleton.mp hk]
          exact h.2 j hj }
  else none

lemma accuses_refresh {id : ℕ} :
    (t.refresh id reason at_).Accuses row ↔ t.Accuses row := by
  rw [Accuses, Accuses, refresh, mapRows, any_map]
  have hsame : ∀ i : Incident, Incident.reportsLoss
      (if i.id = id then { i with lastSeenAt := at_, reason := reason } else i) row =
        i.reportsLoss row := fun i => by split <;> rfl
  simp only [Function.comp_def, hsame]

lemma accuses_insert? {i : Incident} (h : t.insert? i = some t') :
    t'.Accuses row ↔ t.Accuses row ∨ i.reportsLoss row := by
  rw [insert?] at h
  split at h
  · cases h
    simp [Accuses]
  · cases h

end IncidentTable

/-! ### `remember_missing_archives` -/

/-- A row as `remember_missing_archives` gets it. -/
structure MissingRow where
  id : RowId
  vaultId : VaultId
  vaultFileId : FileId
  objectKey : ObjectKey
  providerVersionId : Option ProviderVersionId
  path : Option Path
deriving DecidableEq, Repr

/-- The incident that is inserted for a row. -/
def MissingRow.incident (r : MissingRow) (id : ℕ) (reason : String) (observedAt : Stamp) :
    Incident where
  id := id
  vaultId := r.vaultId
  vaultFileId := r.vaultFileId
  archiveVersionId := r.id
  kind := .archiveVersionMissing
  status := .opened
  reason := reason
  path := r.path.getD []
  objectKey := some r.objectKey
  providerVersionId := r.providerVersionId
  openedAt := observedAt
  lastSeenAt := observedAt
  resolvedAt := none

lemma MissingRow.reportsLoss_incident {r : MissingRow} {id : ℕ}
    : (r.incident id reason at_).reportsLoss row ↔ r.id = row := by
  rw [Incident.reportsLoss_iff]
  exact and_iff_left ⟨rfl, rfl⟩

/-- One row of `remember_missing_archives`. -/
def rememberRow (reason : String) (observedAt : Stamp) (s : IncidentTable × List Incident)
    (r : MissingRow) : Option (IncidentTable × List Incident) :=
  match s.1.lossOf? r.id with
  | some existing => some (s.1.refresh existing.id reason observedAt, s.2)
  | none =>
      let i := r.incident s.1.freshId reason observedAt
      (s.1.insert? i).map fun t => (t, s.2 ++ [i])

/-- `remember_missing_archives`: the table after it, and the incidents it opened. -/
def rememberMissingArchives (t : IncidentTable) (rows : List MissingRow) (reason : String)
    (observedAt : Stamp) : Option (IncidentTable × List Incident) :=
  rows.foldlM (rememberRow reason observedAt) (t, [])

/-- `resolve_archive_version_incidents`. -/
def resolveArchiveVersionIncidents (t : IncidentTable) (ids : List RowId) (observedAt : Stamp) :
    IncidentTable :=
  t.mapRows
    (fun i =>
      if ids.any i.reportsLoss then
        { i with status := .resolved, resolvedAt := some observedAt, lastSeenAt := observedAt }
      else i)
    (fun i => by split <;> rfl)
    (fun i => by
      split
      · exact fun h => IncidentStatus.noConfusion h
      · exact fun h => ⟨h, rfl, rfl⟩)

lemma accuses_resolve {ids : List RowId} :
    (resolveArchiveVersionIncidents t ids at_).Accuses row ↔ t.Accuses row ∧ row ∉ ids := by
  simp only [IncidentTable.accuses_iff, resolveArchiveVersionIncidents, IncidentTable.mapRows,
    mem_map]
  constructor
  · rintro ⟨_, ⟨i, hi, rfl⟩, hl⟩
    split at hl
    · exact absurd (Incident.reportsLoss_iff.mp hl).2.2 (by simp)
    · rename_i hno
      refine ⟨⟨i, hi, hl⟩, fun hrow => hno ?_⟩
      exact any_eq_true.mpr ⟨row, hrow, hl⟩
  · rintro ⟨⟨i, hi, hl⟩, hrow⟩
    refine ⟨i, ⟨i, hi, if_neg fun hany => hrow ?_⟩, hl⟩
    obtain ⟨r, hr, hl'⟩ := any_eq_true.mp hany
    rw [← (Incident.reportsLoss_iff.mp hl).1, (Incident.reportsLoss_iff.mp hl').1]
    exact hr

/-! ### What is decided by reading -/

/-- What `remember_missing_archives` writes for a row. -/
inductive IncidentWrite
  | refresh (id : ℕ)
  | accuse (r : MissingRow)
deriving DecidableEq, Repr

/-- The existing incident is refreshed, or a new one inserted. -/
def incidentWrite (t : IncidentTable) (r : MissingRow) : IncidentWrite :=
  match t.lossOf? r.id with
  | some existing => .refresh existing.id
  | none => .accuse r

/-- What `remember_missing_archives` writes for its rows, as they are read. -/
def incidentWrites (t : IncidentTable) (rows : List MissingRow) : List IncidentWrite :=
  rows.map (incidentWrite t)

/-- One write. -/
def IncidentWrite.run (reason : String) (observedAt : Stamp) (t : IncidentTable) :
    IncidentWrite → Option IncidentTable
  | .refresh id => some (t.refresh id reason observedAt)
  | .accuse r => t.insert? (r.incident t.freshId reason observedAt)

/-- The version a write opens an incident for. -/
def IncidentWrite.opens : IncidentWrite → Option RowId
  | .refresh _ => none
  | .accuse r => some r.id

lemma accuses_run {w : IncidentWrite} (h : w.run reason at_ t = some t') :
    t'.Accuses row ↔ t.Accuses row ∨ w.opens = some row := by
  cases w with
  | refresh id =>
      cases h
      rw [IncidentTable.accuses_refresh]
      simp [IncidentWrite.opens]
  | accuse r =>
      rw [IncidentTable.accuses_insert? h, MissingRow.reportsLoss_incident]
      simp [IncidentWrite.opens]

/-- All of them, in order. -/
def writeIncidents (reason : String) (observedAt : Stamp) (t : IncidentTable)
    (ws : List IncidentWrite) : Option IncidentTable :=
  ws.foldlM (IncidentWrite.run reason observedAt) t

/-- **What is accused afterwards**: the versions that were, and those a write opened one for. -/
lemma accuses_writeIncidents {ws : List IncidentWrite}
    (h : writeIncidents reason at_ t ws = some t') :
    t'.Accuses row ↔ t.Accuses row ∨ row ∈ ws.filterMap IncidentWrite.opens := by
  induction ws generalizing t with
  | nil =>
      cases h
      simp
  | cons w ws ih =>
      obtain ⟨u, hu, h⟩ := Option.bind_eq_some_iff.mp h
      rw [ih h, accuses_run hu, or_assoc]
      cases hw : w.opens <;> simp [hw, eq_comm]

/-- Every incident that is opened is for one of the rows. -/
lemma opens_incidentWrites {rows : List MissingRow}
    (h : row ∈ (incidentWrites t rows).filterMap IncidentWrite.opens) :
    ∃ r ∈ rows, r.id = row := by
  obtain ⟨w, hw, ho⟩ := mem_filterMap.mp h
  obtain ⟨r, hr, rfl⟩ := mem_map.mp hw
  refine ⟨r, hr, ?_⟩
  rw [incidentWrite] at ho
  split at ho
  · cases ho
  · exact Option.some.inj ho

/-! ### Reading first -/

/-- A refreshed incident is still the one that is found. -/
lemma incidentWrite_refresh {id : ℕ}
    (r : MissingRow) : incidentWrite (t.refresh id reason at_) r = incidentWrite t r := by
  have hsame : ∀ i : Incident, Incident.reportsLoss
      (if i.id = id then { i with lastSeenAt := at_, reason := reason } else i) r.id =
        i.reportsLoss r.id := fun i => by split <;> rfl
  have hfind : (t.refresh id reason at_).lossOf? r.id = (t.lossOf? r.id).map fun i =>
      if i.id = id then { i with lastSeenAt := at_, reason := reason } else i := by
    rw [IncidentTable.lossOf?, IncidentTable.refresh, IncidentTable.mapRows, find?_map]
    simp only [Function.comp_def, hsame]
    rfl
  rw [incidentWrite, hfind, incidentWrite]
  cases t.lossOf? r.id with
  | none => rfl
  | some i =>
      simp only [Option.map_some, IncidentWrite.refresh.injEq]
      split <;> rfl

/-- An incident of another version is not found. -/
lemma incidentWrite_insert? {i : Incident} {r : MissingRow}
    (h : t.insert? i = some t') (hother : i.reportsLoss r.id = false) :
    incidentWrite t' r = incidentWrite t r := by
  rw [IncidentTable.insert?] at h
  split at h
  · cases h
    simp [incidentWrite, IncidentTable.lossOf?, find?_append, hother]
  · cases h

lemma rememberRow_eq_run (reason : String) (at_ : Stamp) (s : IncidentTable × List Incident)
    (r : MissingRow) : (rememberRow reason at_ s r).map Prod.fst =
      (incidentWrite s.1 r).run reason at_ s.1 := by
  rw [rememberRow, incidentWrite]
  cases s.1.lossOf? r.id with
  | some i => rfl
  | none =>
      simp only [Option.map_map, IncidentWrite.run]
      exact Option.map_id'

/-- The write of one row does not change what is decided for another. -/
lemma incidentWrite_run {r r' : MissingRow}
    (h : (incidentWrite t r).run reason at_ t = some t') (hne : r.id ≠ r'.id) :
    incidentWrite t' r' = incidentWrite t r' := by
  rw [incidentWrite] at h
  split at h
  · cases h
    exact incidentWrite_refresh r'
  · refine incidentWrite_insert? h (Bool.eq_false_iff.mpr fun hl => hne ?_)
    exact MissingRow.reportsLoss_incident.mp hl

/-- **One transaction alone**: `remember_missing_archives` writes what it would write had it read
everything first. -/
theorem remember_eq_writes (t : IncidentTable) (rows : List MissingRow)
    (hnd : (rows.map MissingRow.id).Nodup) (reason : String) (at_ : Stamp) :
    (rememberMissingArchives t rows reason at_).map Prod.fst =
      writeIncidents reason at_ t (incidentWrites t rows) := by
  rw [rememberMissingArchives]
  generalize ([] : List Incident) = opened
  induction rows generalizing t opened with
  | nil => rfl
  | cons r rows ih =>
      obtain ⟨hr, hnd⟩ := nodup_cons.mp hnd
      have hone := rememberRow_eq_run reason at_ (t, opened) r
      rw [foldlM_cons, incidentWrites, map_cons, writeIncidents, foldlM_cons, ← hone]
      cases hstep : rememberRow reason at_ (t, opened) r with
      | none => rfl
      | some u =>
          rw [hstep] at hone
          have hlater : rows.map (incidentWrite t) = incidentWrites u.1 rows := by
            refine map_congr_left fun r' hr' => (incidentWrite_run hone.symm fun hid => ?_).symm
            exact hr (hid ▸ mem_map_of_mem hr')
          rw [hlater]
          exact ih u.1 hnd u.2

/-- Before the first scan. -/
def noIncidents : IncidentTable := ⟨[], nodup_nil, .nil⟩

/-- Two rows of one Vault. -/
def twoMissing : List MissingRow := [⟨1, 0, 0, 0, some 1, some ['a']⟩, ⟨2, 0, 0, 0, some 2, none⟩]

theorem remember_eq_writes_twoMissing :
    (rememberMissingArchives noIncidents twoMissing "lost" 5).map Prod.fst =
      writeIncidents "lost" 5 noIncidents (incidentWrites noIncidents twoMissing) :=
  remember_eq_writes _ _ (by decide) _ _

end Frostvault
