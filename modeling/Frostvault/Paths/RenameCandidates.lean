import Frostvault.Lib.Grouping
import Frostvault.Paths.PathHistory

/-!
Which missing files are renamed by themselves (`list_rename_candidates` of `app/catalog.py`), and
the loop that confirms them (`_apply_auto_renames` of `app/storage.py`).

The rows of a Vault are grouped by their fingerprint in lower case, the missing ones and the
present ones apart.  A fingerprint with one missing and one present row is a candidate, if the two
were observed within the window, nothing of the present file is archived and neither has a Job
that is not over.  The fingerprints of a Vault are texts, and two that differ in case only are
the same: `Spelling` says how the texts of the column stand for the digests of `local_copies`.

* `renameCandidates`: the list, from the rows in whatever order they come;
* `mem_renameCandidates_iff`: **a candidate is the only missing and the only present row of its
  digest**;
* `renameCandidates_scoped`: the query for one digest finds the sublist with this digest;
* `Tables.mem_renameCandidates_iff`: the list the confirmation reads again is the same one;
* `Tables.Beside.listRenameCandidates`: **what happens beside a digest leaves it alone**;
* `Tables.Listed.statements`: the six statements of a candidate touch one row each;
* `Tables.Rename.Done`: what they leave;
* `Tables.confirmCandidates_listed`: the loop confirms all of its candidates;
* `rename_candidates_unambiguous`: the result;
* `held_copy_beside_candidate`: the query does not see a Local Copy that is held back.
-/

namespace Frostvault

open List Table

/-! ### The list -/

/-- `plaintext_sha256` as it is stored. -/
abbrev DigestText := List Char

/-- `lower(..)` of the query and of Python, which agree on hexadecimal digits. -/
def lowerDigest (d : DigestText) : DigestText := d.map Char.toLower

/-- A row of the query. -/
structure CandidateRow where
  vaultFileId : FileId
  path : Path
  presence : Presence
  observedAt : Stamp
  digest : DigestText
  hasArchive : Bool
  hasPendingJob : Bool
deriving DecidableEq, Repr

/-- A candidate. -/
structure RenameCandidate where
  missingVaultFileId : FileId
  missingPath : Path
  newVaultFileId : FileId
  newPath : Path
  digest : DigestText
deriving DecidableEq, Repr

/-- The key of a row. -/
def CandidateRow.group (r : CandidateRow) : DigestText := lowerDigest r.digest

/-- `AND lower(lc.plaintext_sha256)=%s`. -/
def scopedTo (digest : Option DigestText) (rows : List CandidateRow) : List CandidateRow :=
  match digest with
  | none => rows
  | some d => rows.filter fun r => r.group = lowerDigest d

/-- `_within_rename_window`. -/
def withinRenameWindow (start stop : Stamp) : Bool :=
  decide ((start - stop) + (stop - start) ≤ autoRenameWindow)

/-- What keeps a pair from being a candidate. -/
def renameAllowed (m p : CandidateRow) : Bool :=
  withinRenameWindow m.observedAt p.observedAt &&
    !(p.hasArchive || p.hasPendingJob || m.hasPendingJob)

/-- The candidate of a pair. -/
def pairOf (digest : DigestText) (m p : CandidateRow) : RenameCandidate :=
  ⟨m.vaultFileId, m.path, p.vaultFileId, p.path, digest⟩

/-- One digest. -/
def candidateOf (digest : DigestText) :
    List CandidateRow → List CandidateRow → Option RenameCandidate
  | [m], [p] => if renameAllowed m p then some (pairOf digest m p) else none
  | _, _ => none

/-- `missing_by_digest`. -/
def missingByDigest (rows : List CandidateRow) : FieldMerge.Record DigestText (List CandidateRow) :=
  Grouping.groupBy CandidateRow.group (rows.filter fun r => r.presence = .missing)

/-- `present_by_digest`. -/
def presentByDigest (rows : List CandidateRow) : FieldMerge.Record DigestText (List CandidateRow) :=
  Grouping.groupBy CandidateRow.group (rows.filter fun r => r.presence ≠ .missing)

/-- `list_rename_candidates`, from the rows of its query. -/
def renameCandidates (rows : List CandidateRow) : List RenameCandidate :=
  (missingByDigest rows).filterMap fun e =>
    candidateOf e.1 e.2 ((FieldMerge.get (presentByDigest rows) e.1).getD [])

/-- The missing rows of a digest. -/
def missingRows (rows : List CandidateRow) (digest : DigestText) : List CandidateRow :=
  rows.filter fun r => r.presence = .missing && r.group = digest

/-- The present rows of a digest. -/
def presentRows (rows : List CandidateRow) (digest : DigestText) : List CandidateRow :=
  rows.filter fun r => r.presence ≠ .missing && r.group = digest

variable {rows rows' : List CandidateRow} {c : RenameCandidate} {digest : DigestText}

lemma candidateOf_eq_some {missing present : List CandidateRow} :
    candidateOf digest missing present = some c ↔
      ∃ m p, missing = [m] ∧ present = [p] ∧ renameAllowed m p ∧
        pairOf digest m p = c := by
  unfold candidateOf
  split
  · rename_i m p
    constructor
    · intro h
      obtain ⟨hallowed, hc⟩ := Option.ite_none_right_eq_some.mp h
      exact ⟨m, p, rfl, rfl, hallowed, Option.some.inj hc⟩
    · rintro ⟨m', p', hm, hp, hallowed, rfl⟩
      obtain rfl := singleton_inj.mp hm
      obtain rfl := singleton_inj.mp hp
      rw [if_pos hallowed]
  · rename_i hother
    refine iff_of_false nofun ?_
    rintro ⟨m, p, hm, hp, -⟩
    exact hother m p hm hp

lemma mem_missingByDigest_iff {group : List CandidateRow} :
    (digest, group) ∈ missingByDigest rows ↔
      group = missingRows rows digest ∧ group ≠ [] := by
  rw [missingByDigest, Grouping.mem_groupBy_iff, filter_filter, missingRows]
  simp only [Bool.and_comm]

/-- A group of the present rows, empty if there is none. -/
lemma getD_presentByDigest (rows : List CandidateRow) (digest : DigestText) :
    (FieldMerge.get (presentByDigest rows) digest).getD [] = presentRows rows digest := by
  have hrows : (rows.filter fun r => r.presence ≠ .missing).filter
      (fun r => r.group = digest) = presentRows rows digest := by
    rw [filter_filter, presentRows]
    simp only [Bool.and_comm]
  rw [presentByDigest, Grouping.get_groupBy, hrows]
  split
  · rename_i hnil
    exact hnil.symm
  · rfl

/-- **A candidate** is the only missing and the only present row of its digest. -/
theorem mem_renameCandidates_iff :
    c ∈ renameCandidates rows ↔
      ∃ m p, missingRows rows c.digest = [m] ∧ presentRows rows c.digest = [p] ∧
        renameAllowed m p ∧ pairOf c.digest m p = c := by
  rw [renameCandidates, mem_filterMap]
  constructor
  · rintro ⟨⟨digest, group⟩, hgroup, hc⟩
    rw [getD_presentByDigest] at hc
    obtain ⟨m, p, hm, hp, hallowed, rfl⟩ := candidateOf_eq_some.mp hc
    exact ⟨m, p, (mem_missingByDigest_iff.mp hgroup).1.symm.trans hm, hp, hallowed, rfl⟩
  · rintro ⟨m, p, hm, hp, hallowed, hc⟩
    refine ⟨(c.digest, [m]), mem_missingByDigest_iff.mpr ⟨hm.symm, cons_ne_nil _ _⟩, ?_⟩
    rw [getD_presentByDigest]
    exact candidateOf_eq_some.mpr ⟨m, p, rfl, hp, hallowed, hc⟩

/-- No two candidates have one digest. -/
lemma renameCandidates_digest_nodup (rows : List CandidateRow) :
    ((renameCandidates rows).map RenameCandidate.digest).Nodup := by
  have hkeys : ((renameCandidates rows).map RenameCandidate.digest).Sublist
      ((missingByDigest rows).map Prod.fst) := by
    rw [renameCandidates]
    induction missingByDigest rows with
    | nil => exact List.Sublist.refl _
    | cons e groups ih =>
        rw [filterMap_cons, map_cons]
        split
        · exact ih.trans (sublist_cons_self _ _)
        · rename_i c hc
          obtain ⟨m, p, -, -, -, rfl⟩ := candidateOf_eq_some.mp hc
          exact ih.cons_cons e.1
  exact hkeys.nodup (Grouping.groupBy_keys_nodup _)

lemma renameCandidates_nodup (rows : List CandidateRow) : (renameCandidates rows).Nodup :=
  (renameCandidates_digest_nodup rows).of_map _

/-! ### One digest -/

/-- Rows in another order have the same candidates. -/
lemma mem_renameCandidates_of_perm (h : rows'.Perm rows) :
    c ∈ renameCandidates rows' ↔ c ∈ renameCandidates rows := by
  have hsingle : ∀ {l l' : List CandidateRow}, l'.Perm l → ∀ r, l' = [r] ↔ l = [r] := by
    intro l l' hl r
    constructor
    · rintro rfl
      exact perm_singleton.mp hl.symm
    · rintro rfl
      exact perm_singleton.mp hl
  rw [mem_renameCandidates_iff, mem_renameCandidates_iff]
  refine exists_congr fun m => exists_congr fun p => ?_
  rw [missingRows, missingRows, presentRows, presentRows, hsingle (h.filter _),
    hsingle (h.filter _)]

/-- The query for one digest finds the candidates with it. -/
lemma mem_renameCandidates_scopedTo {d : DigestText} :
    c ∈ renameCandidates (scopedTo (some d) rows) ↔
      c ∈ renameCandidates rows ∧ c.digest = lowerDigest d := by
  by_cases hd : c.digest = lowerDigest d
  · -- the rows of this digest are all in the scope
    have hscope : ∀ cond : CandidateRow → Bool,
        (scopedTo (some d) rows).filter (fun r => cond r && r.group = c.digest) =
          rows.filter fun r => cond r && r.group = c.digest := by
      intro cond
      rw [scopedTo, filter_filter, hd]
      refine filter_congr fun r _ => ?_
      cases cond r <;> simp
    rw [mem_renameCandidates_iff, mem_renameCandidates_iff, missingRows, missingRows,
      presentRows, presentRows, hscope, hscope, and_iff_left hd]
  · -- and those of another one are not
    refine iff_of_false (fun h => ?_) fun h => hd h.2
    obtain ⟨m, -, hm, -⟩ := mem_renameCandidates_iff.mp h
    have hmem : m ∈ missingRows (scopedTo (some d) rows) c.digest := hm ▸ mem_singleton_self m
    obtain ⟨hscope, hgroup⟩ := mem_filter.mp hmem
    rw [Bool.and_eq_true, decide_eq_true_eq, decide_eq_true_eq] at hgroup
    exact hd (hgroup.2.symm.trans (of_decide_eq_true (mem_filter.mp hscope).2))

/-- **The query for one digest** finds the sublist of the candidates with this digest. -/
theorem renameCandidates_scoped (d : DigestText) (h : rows'.Perm (scopedTo (some d) rows)) :
    renameCandidates rows' =
      (renameCandidates rows).filter fun c => c.digest = lowerDigest d := by
  have hmem : ∀ c, c ∈ renameCandidates rows' ↔
      c ∈ (renameCandidates rows).filter fun c => c.digest = lowerDigest d := by
    intro c
    rw [mem_renameCandidates_of_perm h, mem_renameCandidates_scopedTo, mem_filter,
      decide_eq_true_eq]
  have hperm := (perm_ext_iff_of_nodup (renameCandidates_nodup rows')
    ((renameCandidates_nodup rows).filter _)).mpr hmem
  -- all of them have one digest, so there is at most one
  have hshort : (renameCandidates rows').length ≤ 1 := by
    have hone : (renameCandidates rows').map RenameCandidate.digest =
        List.replicate (renameCandidates rows').length (lowerDigest d) := by
      rw [eq_replicate_iff, length_map]
      refine ⟨rfl, fun b hb => ?_⟩
      obtain ⟨c, hc, rfl⟩ := mem_map.mp hb
      exact of_decide_eq_true (mem_filter.mp ((hmem c).mp hc)).2
    exact nodup_replicate.mp (hone ▸ renameCandidates_digest_nodup rows')
  match hlist : renameCandidates rows', hshort with
  | [], _ => exact (nil_perm.mp (hlist ▸ hperm)).symm
  | [c], _ => exact singleton_perm.mp (hlist ▸ hperm)

/-! ### Files -/

/-- Rows of one file have one presence and one digest: they join its only Local Copy. -/
def OneCopyEach (rows : List CandidateRow) : Prop :=
  ∀ r ∈ rows, ∀ s ∈ rows, r.vaultFileId = s.vaultFileId →
    r.presence = s.presence ∧ r.group = s.group

/-- The files of a candidate have rows with its digest. -/
lemma files_of_mem (hc : c ∈ renameCandidates rows) :
    (∃ r ∈ rows, r.vaultFileId = c.missingVaultFileId ∧ r.presence = .missing ∧
      r.group = c.digest) ∧
    ∃ r ∈ rows, r.vaultFileId = c.newVaultFileId ∧ r.presence ≠ .missing ∧
      r.group = c.digest := by
  obtain ⟨m, p, hm, hp, -, hpair⟩ := mem_renameCandidates_iff.mp hc
  obtain ⟨hmr, hmk⟩ := mem_filter.mp (hm ▸ mem_singleton_self m :
    m ∈ missingRows rows c.digest)
  obtain ⟨hpr, hpk⟩ := mem_filter.mp (hp ▸ mem_singleton_self p :
    p ∈ presentRows rows c.digest)
  rw [Bool.and_eq_true, decide_eq_true_eq, decide_eq_true_eq] at hmk hpk
  refine ⟨⟨m, hmr, ?_, hmk⟩, p, hpr, ?_, hpk⟩
  · rw [← hpair, pairOf]
  · rw [← hpair, pairOf]

/-- **No file is in two candidates**, nor on both sides of one. -/
theorem renameCandidates_files_nodup (h : OneCopyEach rows) :
    ((renameCandidates rows).flatMap fun c => [c.missingVaultFileId, c.newVaultFileId]).Nodup := by
  rw [nodup_flatMap]
  constructor
  · intro c hc
    obtain ⟨⟨r, hr, hrid, hrm, -⟩, s, hs, hsid, hsp, -⟩ := files_of_mem hc
    rw [nodup_cons, mem_singleton]
    refine ⟨fun heq => hsp ?_, nodup_singleton _⟩
    rw [← (h r hr s hs (hrid.trans (heq.trans hsid.symm))).1, hrm]
  · have hfiles : ∀ c ∈ renameCandidates rows, ∀ id ∈ [c.missingVaultFileId, c.newVaultFileId],
        ∃ r ∈ rows, r.vaultFileId = id ∧ r.group = c.digest := by
      intro c hc id hid
      obtain ⟨⟨r, hr, hrid, -, hrd⟩, s, hs, hsid, -, hsd⟩ := files_of_mem hc
      rcases mem_cons.mp hid with rfl | hid
      · exact ⟨r, hr, hrid, hrd⟩
      · exact ⟨s, hs, hsid.trans (mem_singleton.mp hid).symm, hsd⟩
    refine (pairwise_map.mp (renameCandidates_digest_nodup rows)).imp_of_mem ?_
    intro c c' hc hc' hne id hid hid'
    obtain ⟨r, hr, hrid, hrd⟩ := hfiles c hc id hid
    obtain ⟨s, hs, hsid, hsd⟩ := hfiles c' hc' id hid'
    exact hne (hrd.symm.trans ((h r hr s hs (hrid.trans hsid.symm)).2.trans hsd))

/-! ### The rows of a Vault -/

/-- The texts of the column.  A digest of `local_copies` is what two texts that differ in case
only have in common. -/
structure Spelling where
  text : FileId → Digest → DigestText
  lower_text : ∀ i j d e, lowerDigest (text i d) = lowerDigest (text j e) ↔ d = e

namespace Tables

variable {w : Spelling} {t : Tables} {v : VaultId} {d : Digest} {snap : RenameSnapshot}

/-- What the query reads of a joined row. -/
def candidateRow (w : Spelling) (t : Tables) (row : JoinedRow) : CandidateRow :=
  ⟨row.file.id, row.path.path, row.copy.presence, row.copy.observedAt,
    (row.copy.plaintextSha256.map (w.text row.file.id)).getD [],
    decide (row.file.id ∈ t.versions), t.hasPendingJob row.file.id⟩

/-- The query of `list_rename_candidates`, but for its scope and its order. -/
def renameRows (w : Spelling) (t : Tables) (v : VaultId) : List CandidateRow :=
  (t.joined.filter fun row => isRenameRow v .missing row || isRenameRow v .present row).map
    (t.candidateRow w)

/-- The rows of one side of a digest. -/
def sideRows (t : Tables) (v : VaultId) (d : Digest) (presence : Presence) : List JoinedRow :=
  (t.joined.filter fun row => row.copy.plaintextSha256 = some d).filter (isRenameRow v presence)

/-- Two files that may be one. -/
def pairAllowed (t : Tables) (snap : RenameSnapshot) : Prop :=
  (snap.missing.copy.observedAt - snap.provisional.copy.observedAt) +
      (snap.provisional.copy.observedAt - snap.missing.copy.observedAt) ≤ autoRenameWindow ∧
    snap.provisional.file.id ∉ t.versions ∧ t.hasPendingJob snap.provisional.file.id = false ∧
    t.hasPendingJob snap.missing.file.id = false

/-- The candidate of a pair of joined rows. -/
def candidateFrom (w : Spelling) (d : Digest) (snap : RenameSnapshot) : RenameCandidate :=
  ⟨snap.missing.file.id, snap.missing.path.path, snap.provisional.file.id,
    snap.provisional.path.path, lowerDigest (w.text snap.missing.file.id d)⟩

lemma listRenameCandidates_eq_some :
    t.listRenameCandidates v (some d) = some snap ↔
      t.sideRows v d .missing = [snap.missing] ∧ t.sideRows v d .present = [snap.provisional] ∧
        t.pairAllowed snap := by
  rw [listRenameCandidates]
  split
  · rename_i m p hm hp
    rw [sideRows, hm, sideRows, hp, Option.ite_none_right_eq_some, Option.some.injEq]
    constructor
    · rintro ⟨hallowed, rfl⟩
      exact ⟨rfl, rfl, hallowed⟩
    · rintro ⟨hm', hp', hallowed⟩
      obtain rfl := singleton_inj.mp hm'
      obtain rfl := singleton_inj.mp hp'
      exact ⟨hallowed, rfl⟩
  · rename_i hother
    refine iff_of_false nofun ?_
    rintro ⟨hm, hp, -⟩
    exact hother _ _ hm hp

variable {id : FileId} {presence : Presence} {row : JoinedRow} {t' : Tables}

lemma isRenameRow_presence (h : isRenameRow v presence row) :
    row.copy.presence = presence ∧ ∃ d, row.copy.plaintextSha256 = some d := by
  simp only [isRenameRow, Bool.and_eq_true, decide_eq_true_eq] at h
  exact ⟨h.1.2, Option.isSome_iff_exists.mp h.1.1.2⟩

/-- The group of a row is its digest. -/
lemma group_candidateRow {e : Digest} (i : FileId) (h : row.copy.plaintextSha256 = some e) :
    (t.candidateRow w row).group = lowerDigest (w.text i d) ↔
      row.copy.plaintextSha256 = some d := by
  rw [CandidateRow.group, candidateRow, h, Option.map_some, Option.getD_some, w.lower_text,
    Option.some.injEq]

/-- The rows of a group are those of a digest, on either side. -/
lemma filter_renameRows (i : FileId) (side : Presence → Bool)
    (hside : ∀ q, q = .missing ∨ q = .present → (side q ↔ q = presence))
    (hpresence : presence = .missing ∨ presence = .present) :
    (t.renameRows w v).filter (fun r => side r.presence && r.group = lowerDigest (w.text i d)) =
      (t.sideRows v d presence).map (t.candidateRow w) := by
  rw [renameRows, sideRows, filter_map, filter_filter, filter_filter]
  congr 1
  refine filter_congr fun row _ => ?_
  rw [Bool.eq_iff_iff, Function.comp_apply, Bool.and_eq_true, Bool.and_eq_true, Bool.and_eq_true,
    Bool.or_eq_true, decide_eq_true_eq, decide_eq_true_eq]
  constructor
  · rintro ⟨⟨hq, hgroup⟩, hrow⟩
    have hkind : row.copy.presence = .missing ∨ row.copy.presence = .present :=
      hrow.imp (fun h => (isRenameRow_presence h).1) fun h => (isRenameRow_presence h).1
    have hq : row.copy.presence = presence := (hside _ hkind).mp hq
    obtain ⟨e, he⟩ : ∃ e, row.copy.plaintextSha256 = some e :=
      hrow.elim (fun h => (isRenameRow_presence h).2) fun h => (isRenameRow_presence h).2
    refine ⟨?_, (group_candidateRow i he).mp hgroup⟩
    rcases hrow with hrow | hrow
    · rwa [← hq, (isRenameRow_presence hrow).1]
    · rwa [← hq, (isRenameRow_presence hrow).1]
  · rintro ⟨hrow, hd⟩
    have hq : row.copy.presence = presence := (isRenameRow_presence hrow).1
    have hkind : row.copy.presence = .missing ∨ row.copy.presence = .present := by
      rwa [hq]
    refine ⟨⟨(hside _ hkind).mpr hq, (group_candidateRow i hd).mpr hd⟩, ?_⟩
    rcases hpresence with rfl | rfl
    · exact .inl hrow
    · exact .inr hrow

lemma missingRows_renameRows (i : FileId) :
    missingRows (t.renameRows w v) (lowerDigest (w.text i d)) =
      (t.sideRows v d .missing).map (t.candidateRow w) := by
  refine filter_renameRows i (fun q => q = .missing) (fun q _ => ?_) (.inl rfl)
  rw [decide_eq_true_eq]

lemma presentRows_renameRows (i : FileId) :
    presentRows (t.renameRows w v) (lowerDigest (w.text i d)) =
      (t.sideRows v d .present).map (t.candidateRow w) := by
  refine filter_renameRows i (fun q => q ≠ .missing) (fun q hq => ?_) (.inr rfl)
  rw [decide_eq_true_eq]
  rcases hq with rfl | rfl <;> decide

lemma renameAllowed_candidateRow {m p : JoinedRow} :
    renameAllowed (t.candidateRow w m) (t.candidateRow w p) ↔ t.pairAllowed ⟨m, p⟩ := by
  rw [renameAllowed, withinRenameWindow, Bool.and_eq_true, decide_eq_true_eq, Bool.not_eq_true',
    Bool.or_eq_false_iff, Bool.or_eq_false_iff, and_assoc, pairAllowed]
  exact and_congr_right fun _ => and_congr_left fun _ => decide_eq_false_iff_not

/-- **The list the confirmation reads again**, digest by digest, is the list of the Vault. -/
theorem mem_renameCandidates_iff {c : RenameCandidate} :
    c ∈ renameCandidates (t.renameRows w v) ↔
      ∃ d snap, t.listRenameCandidates v (some d) = some snap ∧ candidateFrom w d snap = c := by
  rw [Frostvault.mem_renameCandidates_iff]
  constructor
  · rintro ⟨m, p, hm, hp, hallowed, hpair⟩
    have hmem : m ∈ missingRows (t.renameRows w v) c.digest := hm ▸ mem_singleton_self m
    obtain ⟨hrow, hside⟩ := mem_filter.mp hmem
    rw [Bool.and_eq_true, decide_eq_true_eq, decide_eq_true_eq] at hside
    obtain ⟨row, hjoined, rfl⟩ := mem_map.mp hrow
    -- the digest of the missing row names the group
    obtain ⟨d, hd⟩ : ∃ d, row.copy.plaintextSha256 = some d :=
      (Bool.or_eq_true_iff.mp (mem_filter.mp hjoined).2).elim
        (fun h => (isRenameRow_presence h).2) fun h => (isRenameRow_presence h).2
    have hdigest : c.digest = lowerDigest (w.text row.file.id d) := by
      rw [← hside.2, CandidateRow.group, candidateRow, hd, Option.map_some, Option.getD_some]
    rw [hdigest, missingRows_renameRows, map_eq_singleton_iff] at hm
    rw [hdigest, presentRows_renameRows, map_eq_singleton_iff] at hp
    obtain ⟨m, hm, hmrow⟩ := hm
    obtain ⟨p, hp, rfl⟩ := hp
    rw [← hmrow] at hallowed hpair
    have hid : m.file.id = row.file.id := congrArg CandidateRow.vaultFileId hmrow
    refine ⟨d, ⟨m, p⟩, listRenameCandidates_eq_some.mpr
      ⟨hm, hp, renameAllowed_candidateRow.mp hallowed⟩, ?_⟩
    rw [← hpair, pairOf, candidateFrom, hid, ← hdigest]
    simp only [candidateRow, hid]
  · rintro ⟨d, snap, hlist, rfl⟩
    obtain ⟨hm, hp, hallowed⟩ := listRenameCandidates_eq_some.mp hlist
    refine ⟨t.candidateRow w snap.missing, t.candidateRow w snap.provisional, ?_, ?_,
      renameAllowed_candidateRow.mpr hallowed, rfl⟩
    · rw [candidateFrom, missingRows_renameRows, hm, map_singleton]
    · rw [candidateFrom, presentRows_renameRows, hp, map_singleton]

/-! ### The rest of the tables -/

/-- A copy of one of the two files of a pair. -/
def ofPair (snap : RenameSnapshot) (id : FileId) : Bool :=
  id = snap.missing.file.id || id = snap.provisional.file.id

/-- **Beside a pair** nothing changes, and the copies of the pair keep its digest. -/
structure Beside (snap : RenameSnapshot) (t t' : Tables) : Prop where
  vaults : t'.vaults = t.vaults
  versions : t'.versions = t.versions
  jobs : t'.jobs = t.jobs
  files : ∃ g : FileRow → FileRow, t'.files = t.files.map g ∧
    ∀ f, (g f).id = f.id ∧ (ofPair snap f.id = false → g f = f)
  paths : (t'.paths.filter fun r => !ofPair snap r.vaultFileId) =
    t.paths.filter fun r => !ofPair snap r.vaultFileId
  copies : (t'.copies.filter fun r => !ofPair snap r.vaultFileId) =
    t.copies.filter fun r => !ofPair snap r.vaultFileId
  digest : (∀ c ∈ t.copies, ofPair snap c.vaultFileId = true →
      c.copy.plaintextSha256 = snap.provisional.copy.plaintextSha256) →
    ∀ c ∈ t'.copies, ofPair snap c.vaultFileId = true →
      c.copy.plaintextSha256 = snap.provisional.copy.plaintextSha256

lemma Beside.refl (snap : RenameSnapshot) (t : Tables) : Beside snap t t :=
  ⟨rfl, rfl, rfl, ⟨id, (map_id _).symm, fun _ => ⟨rfl, fun _ => rfl⟩⟩, rfl, rfl, id⟩

lemma Beside.trans {t'' : Tables} (h : Beside snap t t') (h' : Beside snap t' t'') :
    Beside snap t t'' := by
  obtain ⟨g, hg, hkeep⟩ := h.files
  obtain ⟨g', hg', hkeep'⟩ := h'.files
  refine ⟨h'.vaults.trans h.vaults, h'.versions.trans h.versions, h'.jobs.trans h.jobs,
    ⟨g' ∘ g, ?_, fun f => ⟨?_, fun hf => ?_⟩⟩, h'.paths.trans h.paths, h'.copies.trans h.copies,
    fun hd => h'.digest (h.digest hd)⟩
  · rw [hg', hg, map_map]
  · exact (hkeep' (g f)).1.trans (hkeep f).1
  · rw [Function.comp_apply, (hkeep f).2 hf, (hkeep' f).2 hf]

lemma ofPair_missing (snap : RenameSnapshot) : ofPair snap snap.missing.file.id := by
  simp [ofPair]

lemma ofPair_provisional (snap : RenameSnapshot) :
    ofPair snap snap.provisional.file.id := by
  simp [ofPair]

variable {c : Rename}

lemma claim_beside (c : Rename) (seen t : Tables) : Beside c.snap t (c.claim seen t).1 := by
  refine ⟨rfl, rfl, rfl, ⟨_, rfl, fun f => ⟨?_, fun hf => ?_⟩⟩, rfl, rfl, id⟩
  · dsimp only
    split <;> rfl
  · dsimp only
    rw [if_neg]
    intro hcond
    simp only [Bool.and_eq_true, decide_eq_true_eq] at hcond
    rw [hcond.1.1.1, ofPair_provisional] at hf
    cases hf

lemma closePath_beside (c : Rename) (hrow : ofPair c.snap row.file.id)
    (pair : Bool) (t : Tables) : Beside c.snap t (c.closePath row pair t).1 := by
  refine ⟨rfl, rfl, rfl, (Beside.refl c.snap t).files,
    filter_update (fun r => rfl) fun r hr => ?_, rfl, id⟩
  simp only [Bool.and_eq_true, decide_eq_true_eq] at hr
  rw [hr.1.1.1.1.1, hrow]
  rfl

lemma consumeCopy_beside (c : Rename) (seen t : Tables) :
    Beside c.snap t (c.consumeCopy seen t).1 := by
  refine ⟨rfl, rfl, rfl, (Beside.refl c.snap t).files, rfl, ?_, fun hd r hr =>
    hd r (mem_filter.mp hr).1⟩
  show (List.filter _ (List.filter _ t.copies)) = _
  rw [filter_filter]
  refine filter_congr fun r _ => ?_
  by_cases hr : r.vaultFileId = c.snap.provisional.file.id
  · rw [hr, ofPair_provisional]
    rfl
  · dsimp only
    rw [decide_eq_false hr, Bool.false_and, Bool.not_false, Bool.and_true]

lemma insertNewPath_beside (fileIndex : Bool) (c : Rename) (seen t : Tables) :
    Beside c.snap t (c.insertNewPath fileIndex seen t).1 := by
  unfold Rename.insertNewPath
  dsimp only
  split
  · refine ⟨rfl, rfl, rfl, (Beside.refl c.snap t).files, ?_, rfl, id⟩
    dsimp only
    rw [filter_append, filter_cons_of_neg, filter_nil, append_nil]
    rw [ofPair_missing]
    decide
  · exact Beside.refl _ _

lemma restoreCopy_beside (c : Rename) (seen t : Tables) :
    Beside c.snap t (c.restoreCopy seen t).1 := by
  refine ⟨rfl, rfl, rfl, (Beside.refl c.snap t).files, rfl,
    filter_update (fun r => rfl) fun r hr => ?_, fun hd r hr hid => ?_⟩
  · rw [Bool.and_eq_true, decide_eq_true_eq] at hr
    rw [hr.1, ofPair_missing]
    rfl
  · obtain ⟨s, hs, rfl⟩ := mem_map.mp hr
    revert hid
    dsimp only
    split
    · exact fun _ => rfl
    · exact hd s hs

/-- **Beside the pair**, the six statements change nothing. -/
lemma statements_beside {fileIndex : Bool} {see : ℕ → Tables → Tables}
    (hrun : Savepoints.swapAll (c.statements fileIndex see) t = some t') :
    Beside c.snap t t' := by
  refine Savepoints.swapAll_rel (R := Beside c.snap) (Beside.refl _) Beside.trans ?_ hrun
  intro stmt hstmt t
  simp only [Rename.statements, mem_cons, not_mem_nil, or_false] at hstmt
  rcases hstmt with rfl | rfl | rfl | rfl | rfl | rfl
  · exact claim_beside c _ t
  · exact closePath_beside c (ofPair_provisional _) _ t
  · exact consumeCopy_beside c _ t
  · exact closePath_beside c (ofPair_missing _) _ t
  · exact insertNewPath_beside fileIndex c _ t
  · exact restoreCopy_beside c _ t

/-! ### Keys -/

/-- What the keys of the tables promise. -/
structure Sound (t : Tables) : Prop where
  functional : t.Functional
  fileIds : Unique (fun f : FileRow => some f.id) t.files
  copyIds : Unique (fun c : CopyRow => some c.vaultFileId) t.copies

lemma mem_joined_iff :
    row ∈ t.joined ↔
      row.file ∈ t.files ∧ row.path ∈ t.paths ∧ row.path.vaultFileId = row.file.id ∧
        row.path.vaultId = row.file.vaultId ∧ ⟨row.file.id, row.copy⟩ ∈ t.copies := by
  rw [joined, mem_flatMap]
  constructor
  · rintro ⟨pair, hpair, hrow⟩
    obtain ⟨c, hc, rfl⟩ := mem_map.mp hrow
    obtain ⟨hf, hr, hid, hvault⟩ := mem_joinPaths.mp hpair
    obtain ⟨hmem, hcid⟩ := mem_filter.mp hc
    refine ⟨hf, hr, hid, of_decide_eq_true hvault, ?_⟩
    rwa [← of_decide_eq_true hcid]
  · rintro ⟨hf, hr, hid, hvault, hc⟩
    refine ⟨(row.file, row.path), mem_joinPaths.mpr ⟨hf, hr, hid, decide_eq_true hvault⟩, ?_⟩
    exact mem_map.mpr
      ⟨⟨row.file.id, row.copy⟩, mem_filter.mpr ⟨hc, decide_eq_true rfl⟩, rfl⟩

lemma Sound.copy_eq (h : t.Sound) {a b : JoinedRow} (ha : a ∈ t.joined) (hb : b ∈ t.joined)
    (hid : a.file.id = b.file.id) : a.copy = b.copy := by
  have hcopy := h.copyIds.eq_of_key_eq (mem_joined_iff.mp ha).2.2.2.2
    (mem_joined_iff.mp hb).2.2.2.2 rfl (congrArg some hid.symm)
  exact congrArg CopyRow.copy hcopy

/-- Rows of one file join its only Local Copy. -/
lemma Sound.oneCopyEach (h : t.Sound) (w : Spelling) (v : VaultId) :
    OneCopyEach (t.renameRows w v) := by
  intro r hr s hs hid
  obtain ⟨a, ha, rfl⟩ := mem_map.mp hr
  obtain ⟨b, hb, rfl⟩ := mem_map.mp hs
  have hid : a.file.id = b.file.id := hid
  have hcopy := h.copy_eq (mem_filter.mp ha).1 (mem_filter.mp hb).1 hid
  simp only [candidateRow, CandidateRow.group, hcopy, hid, and_self]

lemma markPathsDirty_eq (ses : Session) (v : VaultId) (t : Tables) (ps : List Path) :
    ∃ dirty, t.markPathsDirty ses v ps = { t with dirty := dirty } := by
  rw [markPathsDirty]
  generalize (ps.flatMap ancestorDirectories).dedup.insertionSort (· ≤ ·) = ds
  induction ds generalizing t with
  | nil => exact ⟨t.dirty, rfl⟩
  | cons d ds ih =>
      obtain ⟨dirty, hdirty⟩ := ih (t.persistDirtyDirectory ses v d)
      exact ⟨dirty, hdirty⟩

/-- The joined rows of the files beside a pair. -/
lemma Beside.joined_filter (h : Beside snap t t') :
    (t'.joined.filter fun row => !ofPair snap row.file.id) =
      t.joined.filter fun row => !ofPair snap row.file.id := by
  -- the rows of a file beside the pair only need what is beside it
  have hrows : ∀ t : Tables, (t.joined.filter fun row => !ofPair snap row.file.id) =
      t.files.flatMap fun f => if ofPair snap f.id then [] else
        (((t.paths.filter fun r => !ofPair snap r.vaultFileId).filter
          fun r => r.vaultFileId = f.id && r.vaultId = f.vaultId).flatMap fun r =>
            ((t.copies.filter fun r => !ofPair snap r.vaultFileId).filter
              fun c => c.vaultFileId = f.id).map fun c => ⟨f, r, c.copy⟩) := by
    intro t
    rw [joined, joinPaths, flatMap_assoc, filter_flatMap]
    refine flatMap_congr fun f _ => ?_
    rw [flatMap_map, filter_flatMap]
    split
    · rename_i hf
      refine flatMap_eq_nil_iff.mpr fun r _ => filter_eq_nil_iff.mpr fun row hrow => ?_
      obtain ⟨c, -, rfl⟩ := mem_map.mp hrow
      rw [hf]
      decide
    · rename_i hf
      have hbeside : ∀ id, id = f.id → (!ofPair snap id) := by
        rintro id rfl
        rw [Bool.eq_false_of_not_eq_true hf]
        rfl
      have hpaths : (t.paths.filter fun r => !ofPair snap r.vaultFileId).filter
          (fun r => r.vaultFileId = f.id && r.vaultId = f.vaultId) =
          t.paths.filter fun r => r.vaultFileId = f.id && r.vaultId = f.vaultId := by
        rw [filter_filter]
        refine filter_congr fun r _ => Bool.and_eq_left_iff_imp.mpr fun hr => ?_
        exact hbeside _ (of_decide_eq_true (Bool.and_eq_true_iff.mp hr).1)
      have hcopies : (t.copies.filter fun r => !ofPair snap r.vaultFileId).filter
          (fun c => c.vaultFileId = f.id) = t.copies.filter fun c => c.vaultFileId = f.id := by
        rw [filter_filter]
        exact filter_congr fun c _ => Bool.and_eq_left_iff_imp.mpr fun hc =>
          hbeside _ (of_decide_eq_true hc)
      rw [hpaths, hcopies]
      refine flatMap_congr fun r _ => filter_eq_self.mpr fun row hrow => ?_
      obtain ⟨c, -, rfl⟩ := mem_map.mp hrow
      exact hbeside _ rfl
  obtain ⟨g, hg, hkeep⟩ := h.files
  rw [hrows, hrows, h.paths, h.copies, hg, flatMap_map]
  refine flatMap_congr fun f _ => ?_
  rw [(hkeep f).1]
  split
  · rfl
  · rename_i hf
    rw [(hkeep f).2 (Bool.eq_false_of_not_eq_true hf)]

/-- The copies of a pair have its digest. -/
def PairDigest (snap : RenameSnapshot) (t : Tables) : Prop :=
  ∀ c ∈ t.copies, ofPair snap c.vaultFileId = true →
    c.copy.plaintextSha256 = snap.provisional.copy.plaintextSha256

/-- The rows of another digest are beside the pair. -/
lemma sideRows_beside {e : Digest} (hd : PairDigest snap t)
    (he : snap.provisional.copy.plaintextSha256 ≠ some e) (presence : Presence) :
    t.sideRows v e presence = ((t.joined.filter fun row => !ofPair snap row.file.id).filter
      fun row => row.copy.plaintextSha256 = some e).filter (isRenameRow v presence) := by
  rw [sideRows]
  congr 1
  rw [filter_filter]
  refine filter_congr fun row hrow => ?_
  refine (Bool.and_eq_left_iff_imp.mpr fun hdigest => ?_).symm
  rw [Bool.not_eq_true']
  refine Bool.eq_false_of_not_eq_true fun hpair => he ?_
  rw [← hd _ (mem_joined_iff.mp hrow).2.2.2.2 hpair]
  exact of_decide_eq_true hdigest

/-- **The candidates of the other digests** stay. -/
lemma Beside.listRenameCandidates {e : Digest} (h : Beside snap t t')
    (hd : PairDigest snap t) (he : snap.provisional.copy.plaintextSha256 ≠ some e) :
    t'.listRenameCandidates v (some e) = t.listRenameCandidates v (some e) := by
  ext other
  rw [listRenameCandidates_eq_some, listRenameCandidates_eq_some,
    sideRows_beside (h.digest hd) he, sideRows_beside hd he, sideRows_beside (h.digest hd) he,
    sideRows_beside hd he, h.joined_filter]
  have hjobs : ∀ id, t'.hasPendingJob id = t.hasPendingJob id := by
    intro id
    rw [hasPendingJob, hasPendingJob, h.jobs]
  rw [pairAllowed, pairAllowed, h.versions, hjobs, hjobs]

/-! ### The chain goes through -/

/-- The two sides of a candidate. -/
structure Listed (t : Tables) (v : VaultId) (snap : RenameSnapshot) : Prop where
  missing : snap.missing ∈ t.joined
  provisional : snap.provisional ∈ t.joined
  missingRow : isRenameRow v .missing snap.missing = true
  provisionalRow : isRenameRow v .present snap.provisional = true
  allowed : t.pairAllowed snap
  digest : snap.missing.copy.plaintextSha256 = snap.provisional.copy.plaintextSha256

lemma mem_sideRows :
    row ∈ t.sideRows v d presence ↔
      row ∈ t.joined ∧ row.copy.plaintextSha256 = some d ∧ isRenameRow v presence row := by
  rw [sideRows, mem_filter, mem_filter, decide_eq_true_eq, and_assoc]

lemma listed_of_list (h : t.listRenameCandidates v (some d) = some snap) :
    Listed t v snap ∧ snap.provisional.copy.plaintextSha256 = some d := by
  obtain ⟨hm, hp, hallowed⟩ := listRenameCandidates_eq_some.mp h
  obtain ⟨hmj, hmd, hmr⟩ := mem_sideRows.mp (hm ▸ mem_singleton_self snap.missing)
  obtain ⟨hpj, hpd, hpr⟩ := mem_sideRows.mp (hp ▸ mem_singleton_self snap.provisional)
  exact ⟨⟨hmj, hpj, hmr, hpr, hallowed, hmd.trans hpd.symm⟩, hpd⟩

/-- The two sides are two files: one copy is not both missing and present. -/
lemma Listed.ids_ne (hs : t.Sound) (h : Listed t v snap) :
    snap.missing.file.id ≠ snap.provisional.file.id := by
  intro hid
  have hcopy := hs.copy_eq h.missing h.provisional hid
  have hmissing := (isRenameRow_presence h.missingRow).1
  rw [hcopy, (isRenameRow_presence h.provisionalRow).1] at hmissing
  cases hmissing

lemma Listed.pairDigest (hs : t.Sound) (h : Listed t v snap) : PairDigest snap t := by
  intro c hc hpair
  have hcopy : ∀ row ∈ t.joined, c.vaultFileId = row.file.id → c.copy = row.copy := by
    intro row hrow hid
    have hsame := hs.copyIds.eq_of_key_eq hc (mem_joined_iff.mp hrow).2.2.2.2 rfl
      (congrArg some hid.symm)
    exact congrArg CopyRow.copy hsame
  rw [ofPair, Bool.or_eq_true, decide_eq_true_eq, decide_eq_true_eq] at hpair
  rcases hpair with hid | hid
  · rw [hcopy _ h.missing hid, h.digest]
  · rw [hcopy _ h.provisional hid]

/-- The pair as a predicate of the chain describes it. -/
structure PairAt (t : Tables) (snap : RenameSnapshot) (v : VaultId) (missingPath : PathState)
    (status : FileStatus) (retiredAt : Option Stamp) (provisionalPath : PathState) : Prop where
  missingFile : snap.missing.file ∈ t.files
  missingVault : snap.missing.file.vaultId = v
  missingPath : ∃ r ∈ t.paths, pathMatches r snap.missing.file.id v missingPath = true
  missingCopy : ⟨snap.missing.file.id, snap.missing.copy⟩ ∈ t.copies
  provisionalFile : ∃ f ∈ t.files,
    fileMatches f snap.provisional.file.id v status retiredAt = true
  provisionalPath : ∃ r ∈ t.paths, pathMatches r snap.provisional.file.id v provisionalPath = true
  unarchived : snap.provisional.file.id ∉ t.versions

lemma pathMatches_iff {r : FilePathRow} {state : PathState} :
    pathMatches r id v state ↔ r = ⟨id, v, state.1, state.2.1, state.2.2⟩ := by
  obtain ⟨i, u, p, from_, to_⟩ := r
  simp [pathMatches, and_assoc]

lemma fileMatches_iff {f : FileRow} {status : FileStatus} {retiredAt : Option Stamp} :
    fileMatches f id v status retiredAt ↔
      f.id = id ∧ f.vaultId = v ∧ f.status = status ∧ f.retiredAt = retiredAt := by
  simp [fileMatches, and_assoc]

/-- What the predicate asks for is there. -/
lemma PairAt.pairPredicate {missingPath provisionalPath : PathState} {status : FileStatus}
    {retiredAt : Option Stamp}
    (h : PairAt t snap v missingPath status retiredAt provisionalPath) (copyPresent : Bool)
    (hcopy : if copyPresent then ⟨snap.provisional.file.id, snap.provisional.copy⟩ ∈ t.copies
      else ∀ c ∈ t.copies, c.vaultFileId ≠ snap.provisional.file.id) :
    t.pairPredicate snap v missingPath status retiredAt provisionalPath copyPresent := by
  rw [Tables.pairPredicate, Bool.and_eq_true]
  constructor
  · obtain ⟨r, hr, hmatch⟩ := h.missingPath
    have hrow := pathMatches_iff.mp hmatch
    have hid : r.vaultFileId = snap.missing.file.id := congrArg FilePathRow.vaultFileId hrow
    have hvault : r.vaultId = snap.missing.file.vaultId :=
      (congrArg FilePathRow.vaultId hrow).trans h.missingVault.symm
    refine any_eq_true.mpr ⟨⟨snap.missing.file, r, snap.missing.copy⟩,
      mem_joined_iff.mpr ⟨h.missingFile, hr, hid, hvault, h.missingCopy⟩, ?_⟩
    rw [Bool.and_eq_true, Bool.and_eq_true, fileMatches_iff]
    exact ⟨⟨⟨rfl, h.missingVault, rfl, rfl⟩, hmatch⟩, by simp [copyMatches]⟩
  · obtain ⟨f, hf, hfile⟩ := h.provisionalFile
    obtain ⟨r, hr, hmatch⟩ := h.provisionalPath
    obtain rfl := pathMatches_iff.mp hmatch
    obtain ⟨hid, hvault, hstatus⟩ := fileMatches_iff.mp hfile
    refine any_eq_true.mpr ⟨(f, _), mem_joinPaths.mpr
      ⟨hf, hr, hid.symm, decide_eq_true hvault.symm⟩, ?_⟩
    rw [Bool.and_eq_true, Bool.and_eq_true, Bool.and_eq_true]
    refine ⟨⟨⟨hfile, hmatch⟩, decide_eq_true (hid ▸ h.unarchived)⟩, ?_⟩
    cases copyPresent with
    | true =>
        rw [if_pos rfl] at hcopy ⊢
        refine any_eq_true.mpr ⟨_, hcopy, ?_⟩
        rw [Bool.and_eq_true, decide_eq_true_eq]
        exact ⟨hid.symm, by simp [copyMatches]⟩
    | false =>
        rw [if_neg Bool.false_ne_true] at hcopy ⊢
        rw [Bool.not_eq_true', any_eq_false]
        intro c hc heq
        exact hcopy c hc ((of_decide_eq_true heq).trans hid)

/-- A file has a path in some state. -/
def HasPath (t : Tables) (v : VaultId) (id : FileId) (state : PathState) : Prop :=
  ∃ r ∈ t.paths, pathMatches r id v state = true

/-- The state of the current path of a joined row. -/
def currentState (row : JoinedRow) : PathState := (row.path.path, row.path.validFrom, none)

lemma closePath_one (h : t.Functional) (hr : HasPath t c.vaultId row.file.id (currentState row)) :
    (c.closePath row true t).2 = 1 := by
  obtain ⟨r, hr, hmatch⟩ := hr
  obtain rfl := pathMatches_iff.mp hmatch
  refine h.paths.countP_eq_one (k := (c.vaultId, row.path.path)) hr ?_ fun s _ hs => ?_
  · simp [currentState]
  · simp only [Bool.and_eq_true, decide_eq_true_eq, Option.isNone_iff_eq_none] at hs
    exact pathKey_eq_some.mpr ⟨hs.1.2, hs.1.1.1.1.2, hs.1.1.1.2⟩

lemma closePath_closed (hr : HasPath t c.vaultId row.file.id (currentState row)) :
    HasPath (c.closePath row true t).1 c.vaultId row.file.id
      (row.path.path, row.path.validFrom, some c.changedAt) := by
  obtain ⟨r, hr, hmatch⟩ := hr
  obtain rfl := pathMatches_iff.mp hmatch
  refine ⟨_, mem_update_of_pos hr ?_, pathMatches_iff.mpr rfl⟩
  simp [currentState]

lemma closePath_other {state : PathState}
    (hne : id ≠ row.file.id) (h : HasPath t c.vaultId id state) :
    HasPath (c.closePath row true t).1 c.vaultId id state := by
  obtain ⟨r, hr, hmatch⟩ := h
  refine ⟨r, mem_update_of_neg hr ?_, hmatch⟩
  obtain rfl := pathMatches_iff.mp hmatch
  simp [hne]

/-- The path that is closed is free. -/
lemma pathKey_ne_of_closePath (h : t.Functional) (hone : (c.closePath row true t).2 = 1) :
    ∀ r ∈ (c.closePath row true t).1.paths, r.pathKey ≠ some (c.vaultId, row.path.path) := by
  have hall := h.paths.forall_of_countP_eq_one (k := (c.vaultId, row.path.path))
    (fun r _ hr => ?_) hone
  · intro r hr hkey
    obtain ⟨s, hs, rfl⟩ := mem_map.mp hr
    split at hkey
    · exact absurd hkey (by simp [closeRow_keys])
    · rename_i hcond
      exact hcond (hall s hs hkey)
  · simp only [Bool.and_eq_true, decide_eq_true_eq, Option.isNone_iff_eq_none] at hr
    exact pathKey_eq_some.mpr ⟨hr.1.2, hr.1.1.1.1.2, hr.1.1.1.2⟩

/-- Closing a path frees no path that is not free. -/
lemma closePath_pathKey_ne {k : VaultId × Path} (h : ∀ r ∈ t.paths, r.pathKey ≠ some k) :
    ∀ r ∈ (c.closePath row true t).1.paths, r.pathKey ≠ some k := by
  intro r hr hkey
  obtain ⟨s, hs, rfl⟩ := mem_map.mp hr
  split at hkey
  · exact absurd hkey (by simp [closeRow_keys])
  · exact h s hs hkey

section

variable (h : t.Sound)

include h

lemma Sound.closePath (c : Rename) (row : JoinedRow) (pair : Bool) :
    (c.closePath row pair t).1.Sound :=
  ⟨h.functional.closePath c row pair, h.fileIds, h.copyIds⟩

lemma Sound.closeProvisional (c : Rename) (seen : Tables) :
    (c.closeProvisional seen t).1.Sound :=
  h.closePath c _ _

lemma Sound.closeMissing (c : Rename) (seen : Tables) :
    (c.closeMissing seen t).1.Sound :=
  h.closePath c _ _

lemma Sound.claim (c : Rename) (seen : Tables) : (c.claim seen t).1.Sound where
  functional := h.functional.congr (claim_ids c seen t) rfl
  fileIds := h.fileIds.map fun f _ => by
    split
    · exact .inl rfl
    · exact .inl rfl
  copyIds := h.copyIds

lemma Sound.consumeCopy (c : Rename) (seen : Tables) :
    (c.consumeCopy seen t).1.Sound :=
  ⟨h.functional.congr rfl rfl, h.fileIds, h.copyIds.sublist filter_sublist⟩

lemma Sound.restoreCopy (c : Rename) (seen : Tables) :
    (c.restoreCopy seen t).1.Sound where
  functional := h.functional.congr rfl rfl
  fileIds := h.fileIds
  copyIds := h.copyIds.map fun r _ => by
    split
    · exact .inl rfl
    · exact .inl rfl

end

/-- **Claiming** the provisional file. -/
lemma PairAt.claim (hs : t.Sound) (hne : c.snap.missing.file.id ≠ c.snap.provisional.file.id)
    (h : PairAt t c.snap c.vaultId c.missingCurrent .active c.snap.provisional.file.retiredAt
      c.provisionalCurrent)
    (hcopy : ⟨c.snap.provisional.file.id, c.snap.provisional.copy⟩ ∈ t.copies) :
    (c.claim t t).2 = 1 ∧ PairAt (c.claim t t).1 c.snap c.vaultId c.missingCurrent .retired
      (some c.changedAt) c.provisionalCurrent := by
  have hpair := h.pairPredicate true (by rwa [if_pos rfl])
  obtain ⟨f, hf, hfile⟩ := h.provisionalFile
  obtain ⟨hid, hvault, hstatus, -⟩ := fileMatches_iff.mp hfile
  have hcond : (f.id = c.snap.provisional.file.id && f.vaultId = c.vaultId &&
      f.status = .active && t.pairPredicate c.snap c.vaultId c.missingCurrent .active
        c.snap.provisional.file.retiredAt c.provisionalCurrent true) := by
    simp [hid, hvault, hstatus, hpair]
  constructor
  · refine hs.fileIds.countP_eq_one (k := c.snap.provisional.file.id) hf hcond fun g _ hg => ?_
    simp only [Bool.and_eq_true, decide_eq_true_eq] at hg
    exact congrArg some hg.1.1.1
  · refine ⟨mem_update_of_neg h.missingFile ?_, h.missingVault, h.missingPath, h.missingCopy,
      ⟨_, mem_update_of_pos hf hcond, fileMatches_iff.mpr ⟨hid, hvault, rfl, rfl⟩⟩,
      h.provisionalPath, h.unarchived⟩
    simp [hne]

/-- The pair once the provisional file is claimed. -/
def ClaimedAt (c : Rename) (t : Tables) (missingPath provisionalPath : PathState) : Prop :=
  PairAt t c.snap c.vaultId missingPath .retired (some c.changedAt) provisionalPath

/-- A predicate on the claimed pair, with the provisional copy or without. -/
lemma ClaimedAt.claimedPair {missingPath provisionalPath : PathState}
    (h : ClaimedAt c t missingPath provisionalPath) (copyPresent : Bool)
    (hcopy : if copyPresent then ⟨c.snap.provisional.file.id, c.snap.provisional.copy⟩ ∈ t.copies
      else ∀ r ∈ t.copies, r.vaultFileId ≠ c.snap.provisional.file.id) :
    c.claimedPair t missingPath provisionalPath copyPresent :=
  h.pairPredicate copyPresent hcopy

/-- **Closing** the provisional path. -/
lemma ClaimedAt.closeProvisional (hs : t.Sound)
    (hne : c.snap.missing.file.id ≠ c.snap.provisional.file.id)
    (h : ClaimedAt c t c.missingCurrent c.provisionalCurrent)
    (hcopy : ⟨c.snap.provisional.file.id, c.snap.provisional.copy⟩ ∈ t.copies) :
    (c.closeProvisional t t).2 = 1 ∧
      ClaimedAt c (c.closeProvisional t t).1 c.missingCurrent c.provisionalClosed ∧
      ∀ r ∈ (c.closeProvisional t t).1.paths,
        r.pathKey ≠ some (c.vaultId, c.snap.provisional.path.path) := by
  rw [Rename.closeProvisional, h.claimedPair true (by rwa [if_pos rfl])]
  have hone := closePath_one (c := c) hs.functional h.provisionalPath
  exact ⟨hone, ⟨h.missingFile, h.missingVault, closePath_other hne h.missingPath, h.missingCopy,
    h.provisionalFile, closePath_closed h.provisionalPath, h.unarchived⟩,
    pathKey_ne_of_closePath hs.functional hone⟩

/-- **Consuming** the provisional Local Copy. -/
lemma ClaimedAt.consumeCopy (hs : t.Sound)
    (hne : c.snap.missing.file.id ≠ c.snap.provisional.file.id)
    (h : ClaimedAt c t c.missingCurrent c.provisionalClosed)
    (hcopy : ⟨c.snap.provisional.file.id, c.snap.provisional.copy⟩ ∈ t.copies) :
    (c.consumeCopy t t).2 = 1 ∧
      ClaimedAt c (c.consumeCopy t t).1 c.missingCurrent c.provisionalClosed ∧
      ∀ r ∈ (c.consumeCopy t t).1.copies, r.vaultFileId ≠ c.snap.provisional.file.id := by
  have hpair := h.claimedPair true (by rwa [if_pos rfl])
  refine ⟨?_, ⟨h.missingFile, h.missingVault, h.missingPath, mem_filter.mpr
    ⟨h.missingCopy, ?_⟩, h.provisionalFile, h.provisionalPath, h.unarchived⟩, ?_⟩
  · refine hs.copyIds.countP_eq_one (k := c.snap.provisional.file.id) hcopy ?_ fun r _ hr => ?_
    · simp [hpair]
    · rw [Bool.and_eq_true, decide_eq_true_eq] at hr
      exact congrArg some hr.1
  · simp [hne]
  · intro r hr hid
    obtain ⟨-, hkeep⟩ := mem_filter.mp hr
    simp [hid, hpair] at hkeep

/-- **Closing** the missing path. -/
lemma ClaimedAt.closeMissing (hs : t.Sound)
    (hne : c.snap.missing.file.id ≠ c.snap.provisional.file.id)
    (h : ClaimedAt c t c.missingCurrent c.provisionalClosed)
    (hgone : ∀ r ∈ t.copies, r.vaultFileId ≠ c.snap.provisional.file.id)
    (hfree : ∀ r ∈ t.paths, r.pathKey ≠ some (c.vaultId, c.snap.provisional.path.path)) :
    (c.closeMissing t t).2 = 1 ∧
      ClaimedAt c (c.closeMissing t t).1 c.missingClosed c.provisionalClosed ∧
      (∀ r ∈ (c.closeMissing t t).1.paths,
        r.pathKey ≠ some (c.vaultId, c.snap.provisional.path.path)) ∧
      ∀ r ∈ (c.closeMissing t t).1.paths, r.fileKey ≠ some c.snap.missing.file.id := by
  rw [Rename.closeMissing, h.claimedPair false (by rwa [if_neg Bool.false_ne_true])]
  have hone := closePath_one (c := c) hs.functional h.missingPath
  exact ⟨hone, ⟨h.missingFile, h.missingVault, closePath_closed h.missingPath, h.missingCopy,
    h.provisionalFile, closePath_other hne.symm h.provisionalPath, h.unarchived⟩,
    closePath_pathKey_ne hfree, hs.functional.fileKey_ne_of_closePath hone⟩

/-- **The new path** of the missing file. -/
lemma ClaimedAt.insertNewPath (fileIndex : Bool) (hs : t.Sound)
    (h : ClaimedAt c t c.missingClosed c.provisionalClosed)
    (hnew : c.newPath = c.snap.provisional.path.path)
    (hgone : ∀ r ∈ t.copies, r.vaultFileId ≠ c.snap.provisional.file.id)
    (hfree : ∀ r ∈ t.paths, r.pathKey ≠ some (c.vaultId, c.snap.provisional.path.path))
    (hfile : ∀ r ∈ t.paths, r.fileKey ≠ some c.snap.missing.file.id) :
    (c.insertNewPath fileIndex t t).2 = 1 ∧ (c.insertNewPath fileIndex t t).1.Sound ∧
      ClaimedAt c (c.insertNewPath fileIndex t t).1 c.missingRenamed c.provisionalClosed ∧
      (c.insertNewPath fileIndex t t).1.copies = t.copies ∧
      ∀ r ∈ t.paths, r ∈ (c.insertNewPath fileIndex t t).1.paths := by
  have hpair := h.claimedPair false (by rwa [if_neg Bool.false_ne_true])
  have hpathFree : t.pathFree c.vaultId c.newPath := by
    rw [pathFree, Bool.not_eq_true', any_eq_false]
    intro r hr hcond
    simp only [Bool.and_eq_true, decide_eq_true_eq, Option.isNone_iff_eq_none] at hcond
    exact hfree r hr (pathKey_eq_some.mpr ⟨hcond.2, hcond.1.1, hcond.1.2.trans hnew⟩)
  have hconflicts : t.pathConflicts fileIndex
      ⟨c.snap.missing.file.id, c.vaultId, c.newPath, c.changedAt, none⟩ = false := by
    rw [pathConflicts, Bool.or_eq_false_iff, Bool.and_eq_false_iff]
    refine ⟨conflicts_eq_false.mpr fun k hk s hs hsk => ?_,
      .inr (conflicts_eq_false.mpr fun k hk s hs hsk => ?_)⟩
    · cases hk
      exact hfree s hs (hnew ▸ hsk)
    · cases hk
      exact hfile s hs hsk
  have hinserted : c.insertNewPath fileIndex t t =
      ({ t with paths := t.paths ++
        [⟨c.snap.missing.file.id, c.vaultId, c.newPath, c.changedAt, none⟩] }, 1) := by
    unfold Rename.insertNewPath
    dsimp only
    rw [hpair, hpathFree, hconflicts]
    rfl
  have hfunctional := hs.functional.insertNewPath fileIndex hfile
    (mem_map_of_mem h.missingFile) t
  rw [hinserted] at hfunctional ⊢
  obtain ⟨r, hr, hmatch⟩ := h.provisionalPath
  refine ⟨rfl, ⟨hfunctional, hs.fileIds, hs.copyIds⟩, ⟨h.missingFile, h.missingVault,
    ⟨_, mem_append_right _ (mem_singleton_self _), pathMatches_iff.mpr rfl⟩,
    h.missingCopy, h.provisionalFile, ⟨r, mem_append_left _ hr, hmatch⟩, h.unarchived⟩, rfl,
    fun r hr => mem_append_left _ hr⟩

/-- **What a confirmation leaves.**  The missing file goes on at the new path, with what was
observed of the other one, which is retired and has no Local Copy any more; the path each of them
had is closed. -/
structure Rename.Done (c : Rename) (t : Tables) : Prop where
  file : c.snap.missing.file ∈ t.files
  current : HasPath t c.vaultId c.snap.missing.file.id c.missingRenamed
  former : HasPath t c.vaultId c.snap.missing.file.id c.missingClosed
  copy : ⟨c.snap.missing.file.id, c.takenOver c.snap.missing.copy⟩ ∈ t.copies
  retired : ∃ f ∈ t.files,
    fileMatches f c.snap.provisional.file.id c.vaultId .retired (some c.changedAt) = true
  closed : HasPath t c.vaultId c.snap.provisional.file.id c.provisionalClosed
  consumed : ∀ r ∈ t.copies, r.vaultFileId ≠ c.snap.provisional.file.id

/-- **Restoring** the missing Local Copy. -/
lemma ClaimedAt.restoreCopy (hs : t.Sound)
    (h : ClaimedAt c t c.missingRenamed c.provisionalClosed)
    (hformer : HasPath t c.vaultId c.snap.missing.file.id c.missingClosed)
    (hgone : ∀ r ∈ t.copies, r.vaultFileId ≠ c.snap.provisional.file.id) :
    (c.restoreCopy t t).2 = 1 ∧ c.Done (c.restoreCopy t t).1 := by
  have hpair := h.claimedPair false (by rwa [if_neg Bool.false_ne_true])
  constructor
  · refine hs.copyIds.countP_eq_one (k := c.snap.missing.file.id) h.missingCopy ?_
      fun r _ hr => ?_
    · simp [hpair]
    · rw [Bool.and_eq_true, decide_eq_true_eq] at hr
      exact congrArg some hr.1
  · refine ⟨h.missingFile, h.missingPath, hformer, ?_, h.provisionalFile, h.provisionalPath,
      fun r hr => ?_⟩
    · exact mem_update_of_pos h.missingCopy (by simp [hpair])
    · obtain ⟨r₀, hr₀, rfl⟩ := mem_map.mp hr
      dsimp only
      split
      · exact hgone r₀ hr₀
      · exact hgone r₀ hr₀

/-- The path of a file beside a pair. -/
lemma Beside.hasPath (h : Beside snap t t') {state : PathState}
    (hid : ofPair snap id = false) (hpath : HasPath t v id state) : HasPath t' v id state := by
  obtain ⟨r, hr, hmatch⟩ := hpath
  refine ⟨r, ?_, hmatch⟩
  have hmem : r ∈ t.paths.filter fun r => !ofPair snap r.vaultFileId := by
    refine mem_filter.mpr ⟨hr, ?_⟩
    rw [pathMatches_iff.mp hmatch, hid]
    rfl
  rw [← h.paths] at hmem
  exact (mem_filter.mp hmem).1

/-- **Another confirmation** leaves it so. -/
lemma Rename.Done.beside (h : c.Done t) (hbeside : Beside snap t t')
    (hm : ofPair snap c.snap.missing.file.id = false)
    (hp : ofPair snap c.snap.provisional.file.id = false) : c.Done t' := by
  obtain ⟨g, hg, hkeep⟩ := hbeside.files
  have hfile : ∀ f ∈ t.files, ofPair snap f.id = false → f ∈ t'.files := by
    intro f hf hid
    rw [hg]
    exact mem_map.mpr ⟨f, hf, (hkeep f).2 hid⟩
  have hcopy : ∀ r, ofPair snap r.vaultFileId = false → (r ∈ t'.copies ↔ r ∈ t.copies) := by
    intro r hid
    have hiff := congrArg (r ∈ ·) hbeside.copies
    simpa only [mem_filter, hid, Bool.not_false, and_true, eq_iff_iff] using hiff
  refine ⟨hfile _ h.file hm, hbeside.hasPath hm h.current, hbeside.hasPath hm h.former,
    (hcopy _ hm).mpr h.copy, ?_, hbeside.hasPath hp h.closed, fun r hr hid => ?_⟩
  · obtain ⟨f, hf, hmatch⟩ := h.retired
    refine ⟨f, hfile f hf ?_, hmatch⟩
    rw [(fileMatches_iff.mp hmatch).1, hp]
  · refine h.consumed r ((hcopy r ?_).mp hr) hid
    rw [hid, hp]

lemma Listed.pairAt (h : Listed t c.vaultId c.snap) :
    PairAt t c.snap c.vaultId c.missingCurrent .active c.snap.provisional.file.retiredAt
      c.provisionalCurrent := by
  obtain ⟨hmf, hmp, hmid, hmvault, hmc⟩ := mem_joined_iff.mp h.missing
  obtain ⟨hpf, hpp, hpid, hpvault, -⟩ := mem_joined_iff.mp h.provisional
  have hmrow := h.missingRow
  have hprow := h.provisionalRow
  simp only [isRenameRow, Bool.and_eq_true, decide_eq_true_eq, Option.isNone_iff_eq_none]
    at hmrow hprow
  obtain ⟨⟨⟨⟨⟨⟨hmcur, hmv⟩, -⟩, -⟩, -⟩, -⟩, -⟩ := hmrow
  obtain ⟨⟨⟨⟨⟨⟨hpcur, hpv⟩, hpactive⟩, -⟩, -⟩, -⟩, -⟩ := hprow
  refine ⟨hmf, hmv, ⟨_, hmp, ?_⟩, hmc, ⟨_, hpf, fileMatches_iff.mpr ⟨rfl, hpv, hpactive, rfl⟩⟩,
    ⟨_, hpp, ?_⟩, h.allowed.2.1⟩
  · simp [pathMatches, hmid, hmvault, hmv, hmcur, Rename.missingCurrent]
  · simp [pathMatches, hpid, hpvault, hpv, hpcur, Rename.provisionalCurrent]

/-- **The chain of a candidate** touches one row in each of its statements, and leaves the rename
behind. -/
theorem Listed.statements (fileIndex : Bool) (hs : t.Sound) (h : Listed t c.vaultId c.snap)
    (hnew : c.newPath = c.snap.provisional.path.path) :
    ∃ t', Savepoints.swapAll (c.statements fileIndex fun _ t => t) t = some t' ∧ t'.Sound ∧
      c.Done t' := by
  have hne := h.ids_ne hs
  have hcopy := (mem_joined_iff.mp h.provisional).2.2.2.2
  obtain ⟨hone₁, h₁⟩ := h.pairAt.claim hs hne hcopy
  have hs₁ := hs.claim c t
  obtain ⟨hone₂, h₂, hfree₂⟩ := ClaimedAt.closeProvisional hs₁ hne h₁ hcopy
  have hs₂ := hs₁.closeProvisional c (c.claim t t).1
  obtain ⟨hone₃, h₃, hgone₃⟩ := h₂.consumeCopy hs₂ hne hcopy
  have hs₃ := hs₂.consumeCopy c (c.closeProvisional (c.claim t t).1 (c.claim t t).1).1
  obtain ⟨hone₄, h₄, hfree₄, hfile₄⟩ := h₃.closeMissing hs₃ hne hgone₃ hfree₂
  have hs₄ := hs₃.closeMissing c
    (c.consumeCopy (c.closeProvisional (c.claim t t).1 (c.claim t t).1).1
      (c.closeProvisional (c.claim t t).1 (c.claim t t).1).1).1
  obtain ⟨hone₅, hs₅, h₅, hcopies₅, hpaths₅⟩ :=
    h₄.insertNewPath fileIndex hs₄ hnew hgone₃ hfree₄ hfile₄
  obtain ⟨r, hr, hmatch⟩ := h₄.missingPath
  obtain ⟨hone₆, hdone⟩ := h₅.restoreCopy hs₅ ⟨r, hpaths₅ r hr, hmatch⟩ (hcopies₅ ▸ hgone₃)
  refine ⟨_, Savepoints.swapAll_cons_eq_some.mpr ⟨hone₁, Savepoints.swapAll_cons_eq_some.mpr
    ⟨hone₂, Savepoints.swapAll_cons_eq_some.mpr ⟨hone₃, Savepoints.swapAll_cons_eq_some.mpr
    ⟨hone₄, Savepoints.swapAll_cons_eq_some.mpr ⟨hone₅, Savepoints.swapAll_cons_eq_some.mpr
    ⟨hone₆, Savepoints.swapAll_nil _⟩⟩⟩⟩⟩⟩, hs₅.restoreCopy c _, hdone⟩

/-! ### Confirmations -/

lemma loadRenameCandidate_listed (hs : t.Sound)
    (h : t.listRenameCandidates v (some d) = some snap) :
    t.loadRenameCandidate v snap.missing.file.id snap.provisional.path.path = some snap := by
  obtain ⟨hlisted, hdigest⟩ := listed_of_list h
  obtain ⟨hm, hp, -⟩ := listRenameCandidates_eq_some.mp h
  have hmissing : (t.joined.filter fun m => isRenameRow v .missing m &&
      m.file.id = snap.missing.file.id) = [snap.missing] := by
    have hscope : (t.joined.filter fun m => isRenameRow v .missing m &&
        m.file.id = snap.missing.file.id) =
        (t.sideRows v d .missing).filter fun m => m.file.id = snap.missing.file.id := by
      rw [sideRows, filter_filter, filter_filter]
      refine filter_congr fun row hrow => ?_
      rw [Bool.and_comm (isRenameRow v .missing row)]
      refine (Bool.and_eq_left_iff_imp.mpr fun hcond => decide_eq_true ?_).symm
      have hid := of_decide_eq_true (Bool.and_eq_true_iff.mp hcond).1
      rw [hs.copy_eq hrow hlisted.missing hid, hlisted.digest, hdigest]
    rw [hscope, hm]
    simp
  have hprovisional : (t.joined.filter fun p => isRenameRow v .present p &&
      p.file.id ≠ snap.missing.file.id && p.path.path = snap.provisional.path.path &&
      p.copy.plaintextSha256 = snap.missing.copy.plaintextSha256) = [snap.provisional] := by
    have hscope : (t.joined.filter fun p => isRenameRow v .present p &&
        p.file.id ≠ snap.missing.file.id && p.path.path = snap.provisional.path.path &&
        p.copy.plaintextSha256 = snap.missing.copy.plaintextSha256) =
        (t.sideRows v d .present).filter fun p => p.file.id ≠ snap.missing.file.id &&
          p.path.path = snap.provisional.path.path := by
      rw [sideRows, filter_filter, filter_filter, hlisted.digest, hdigest]
      refine filter_congr fun row _ => ?_
      ac_rfl
    rw [hscope, hp]
    simp [(hlisted.ids_ne hs).symm]
  rw [loadRenameCandidate, hmissing, flatMap_singleton, hprovisional]
  rfl

variable {s : Savepoints.Session Tables}

/-- **A candidate is confirmed**, and nothing changes beside its pair. -/
theorem confirmFileRename_listed (fileIndex : Bool) (ses : Session) (changedAt : Stamp)
    (hs : s.current.Sound)
    (hactive : s.current.reserveRenameConfirmation v)
    (h : s.current.listRenameCandidates v (some d) = some snap) :
    ∃ t', t'.Sound ∧ Beside snap s.current t' ∧
      Rename.Done ⟨v, snap.provisional.path.path, changedAt, snap⟩ t' ∧
      confirmFileRename fileIndex (fun _ t => t) ses snap.missing.file.id
        snap.provisional.path.path changedAt v s =
          (.ok snap.missing.file.id, { s with current := t' }) := by
  obtain ⟨hlisted, hdigest⟩ := listed_of_list h
  obtain ⟨t', hrun, hsound, hdone⟩ := Listed.statements
    (c := ⟨v, snap.provisional.path.path, changedAt, snap⟩) fileIndex hs hlisted rfl
  obtain ⟨dirty, hmarked⟩ := markPathsDirty_eq ses v t'
    [snap.missing.path.path, snap.provisional.path.path, snap.provisional.path.path]
  have hbeside := statements_beside hrun
  refine ⟨{ t' with dirty := dirty },
    ⟨hsound.functional.congr rfl rfl, hsound.fileIds, hsound.copyIds⟩,
    ⟨hbeside.vaults, hbeside.versions, hbeside.jobs, hbeside.files, hbeside.paths,
      hbeside.copies, hbeside.digest⟩,
    ⟨hdone.file, hdone.current, hdone.former, hdone.copy, hdone.retired, hdone.closed,
      hdone.consumed⟩, ?_⟩
  rw [← hmarked]
  refine confirmFileRename_ok hactive (loadRenameCandidate_listed hs h) ?_ ⟨rfl, rfl⟩ hrun
  rwa [hlisted.digest, hdigest]

/-- One candidate of the list. -/
def confirmCandidate (fileIndex : Bool) (ses : Session) (changedAt : Stamp) (v : VaultId)
    (c : RenameCandidate) (s : Savepoints.Session Tables) :
    Except CatalogError FileId × Savepoints.Session Tables :=
  confirmFileRename fileIndex (fun _ t => t) ses c.missingVaultFileId c.newPath changedAt v s

/-- The loop of `_apply_auto_renames`; an exception ends it. -/
def confirmCandidates (fileIndex : Bool) (ses : Session) (changedAt : Stamp) (v : VaultId) :
    List RenameCandidate → Savepoints.Session Tables →
      Except CatalogError (List FileId) × Savepoints.Session Tables
  | [], s => (.ok [], s)
  | c :: cs, s =>
      match confirmCandidate fileIndex ses changedAt v c s with
      | (.error e, s') => (.error e, s')
      | (.ok id, s') =>
          match confirmCandidates fileIndex ses changedAt v cs s' with
          | (.error e, s'') => (.error e, s'')
          | (.ok ids, s'') => (.ok (id :: ids), s'')

/-- A candidate is a pair of the tables. -/
def IsListedAs (w : Spelling) (v : VaultId) (t : Tables) (c : RenameCandidate) (d : Digest)
    (snap : RenameSnapshot) : Prop :=
  t.listRenameCandidates v (some d) = some snap ∧ candidateFrom w d snap = c

/-- A candidate is some pair of the tables. -/
def IsListed (w : Spelling) (v : VaultId) (t : Tables) (c : RenameCandidate) : Prop :=
  ∃ d snap, IsListedAs w v t c d snap

lemma ofPair_of_listed {c : RenameCandidate} (h : IsListedAs w v t c d snap) :
    ofPair snap id = false ↔ id ∉ [c.missingVaultFileId, c.newVaultFileId] := by
  obtain ⟨-, rfl⟩ := h
  simp [ofPair, candidateFrom]

/-- One candidate: it is confirmed, and those of the other digests are listed as before. -/
lemma confirmCandidate_listed (fileIndex : Bool) (ses : Session) (changedAt : Stamp)
    (hs : s.current.Sound)
    (hactive : s.current.reserveRenameConfirmation v) {c : RenameCandidate}
    (hc : IsListedAs w v s.current c d snap) :
    ∃ t', t'.Sound ∧ Beside snap s.current t' ∧
      Rename.Done ⟨v, c.newPath, changedAt, snap⟩ t' ∧
      (∀ c' e other, c'.digest ≠ c.digest → IsListedAs w v s.current c' e other →
        IsListedAs w v t' c' e other) ∧
      confirmCandidate fileIndex ses changedAt v c s =
        (.ok c.missingVaultFileId, { s with current := t' }) := by
  obtain ⟨hlist, rfl⟩ := hc
  obtain ⟨t', hsound, hbeside, hdone, hrun⟩ := confirmFileRename_listed fileIndex ses changedAt hs
    hactive hlist
  refine ⟨t', hsound, hbeside, hdone, ?_, hrun⟩
  rintro c' e other hne ⟨hother, rfl⟩
  obtain ⟨hlisted, hdigest⟩ := listed_of_list hlist
  refine ⟨?_, rfl⟩
  rw [hbeside.listRenameCandidates (hlisted.pairDigest hs)]
  · exact hother
  · rw [hdigest]
    intro heq
    exact hne ((w.lower_text _ _ _ _).mpr (Option.some.inj heq).symm)

/-- What the loop leaves: every candidate is renamed, and what has been renamed before stays so. -/
structure RenamesDone (w : Spelling) (v : VaultId) (changedAt : Stamp) (cs : List RenameCandidate)
    (t t' : Tables) : Prop where
  sound : t'.Sound
  vaults : t'.vaults = t.vaults
  renamed : ∀ c ∈ cs, ∀ d snap, IsListedAs w v t c d snap →
    Rename.Done ⟨v, c.newPath, changedAt, snap⟩ t'
  kept : ∀ r : Rename, (∀ c ∈ cs, r.snap.missing.file.id ∉
      [c.missingVaultFileId, c.newVaultFileId] ∧
    r.snap.provisional.file.id ∉ [c.missingVaultFileId, c.newVaultFileId]) → r.Done t → r.Done t'
  listed : ∀ c', (∀ c ∈ cs, c'.digest ≠ c.digest) → ∀ d snap, IsListedAs w v t c' d snap →
    IsListedAs w v t' c' d snap

/-- **The loop** confirms all it is given, if no two of them have one digest or one file. -/
theorem confirmCandidates_listed (fileIndex : Bool) (ses : Session) (changedAt : Stamp)
    (hs : s.current.Sound)
    (hactive : s.current.reserveRenameConfirmation v) {cs : List RenameCandidate}
    (hcs : ∀ c ∈ cs, IsListed w v s.current c)
    (hnodup : (cs.map RenameCandidate.digest).Nodup)
    (hfiles : (cs.flatMap fun c => [c.missingVaultFileId, c.newVaultFileId]).Nodup) :
    ∃ t', RenamesDone w v changedAt cs s.current t' ∧
      confirmCandidates fileIndex ses changedAt v cs s =
        (.ok (cs.map RenameCandidate.missingVaultFileId), { s with current := t' }) := by
  induction cs generalizing s with
  | nil => exact ⟨s.current, ⟨hs, rfl, by simp, fun _ _ h => h, fun _ _ _ _ h => h⟩, rfl⟩
  | cons c cs ih =>
      obtain ⟨hnew, hnodup⟩ := nodup_cons.mp hnodup
      rw [flatMap_cons, nodup_append'] at hfiles
      obtain ⟨-, hfiles, hdisjoint⟩ := hfiles
      obtain ⟨d, snap, hc⟩ := hcs c mem_cons_self
      obtain ⟨t₁, hs₁, hbeside, hdone, hkeep₁, hrun₁⟩ := confirmCandidate_listed fileIndex ses
        changedAt hs hactive hc
      have hne : ∀ c' ∈ cs, c'.digest ≠ c.digest := fun c' hc' heq =>
        hnew (heq ▸ mem_map_of_mem hc')
      have hapart : ∀ c' ∈ cs, ∀ id ∈ [c.missingVaultFileId, c.newVaultFileId],
          id ∉ [c'.missingVaultFileId, c'.newVaultFileId] := fun c' hc' id hid hid' =>
        hdisjoint hid (mem_flatMap.mpr ⟨c', hc', hid'⟩)
      obtain ⟨t₂, hrest, hrun₂⟩ := ih (s := { s with current := t₁ }) hs₁
        (by rwa [reserveRenameConfirmation, hbeside.vaults])
        (fun c' hc' => (hcs c' (mem_cons_of_mem _ hc')).imp fun e => Exists.imp fun other =>
          hkeep₁ c' e other (hne c' hc')) hnodup hfiles
      refine ⟨t₂, ⟨hrest.sound, hrest.vaults.trans hbeside.vaults, ?_, ?_, ?_⟩, ?_⟩
      · intro c' hc' e other hother
        rcases mem_cons.mp hc' with rfl | hc'
        · -- the first of them is not touched again
          obtain ⟨hlist, rfl⟩ := hc
          obtain ⟨hlist', hfrom⟩ := hother
          obtain rfl : d = e := (w.lower_text _ _ _ _).mp
            (congrArg RenameCandidate.digest hfrom).symm
          cases hlist.symm.trans hlist'
          exact hrest.kept _ (fun c' hc' =>
            ⟨hapart c' hc' _ (mem_cons_self), hapart c' hc' _ (by simp [candidateFrom])⟩) hdone
        · exact hrest.renamed c' hc' e other (hkeep₁ c' e other (hne c' hc') hother)
      · intro r hr hdone
        obtain ⟨hm, hp⟩ := hr c mem_cons_self
        exact hrest.kept r (fun c' hc' => hr c' (mem_cons_of_mem _ hc'))
          (hdone.beside hbeside ((ofPair_of_listed hc).mpr hm) ((ofPair_of_listed hc).mpr hp))
      · intro c' hc' e other hother
        exact hrest.listed c' (fun a ha => hc' a (mem_cons_of_mem _ ha)) e other
          (hkeep₁ c' e other (hc' c mem_cons_self) hother)
      · rw [confirmCandidates, hrun₁]
        dsimp only
        rw [hrun₂]
        rfl

/-- A Vault that takes no confirmations: nothing happens. -/
lemma confirmCandidate_inactive (fileIndex : Bool) (ses : Session) (changedAt : Stamp)
    (hactive : s.current.reserveRenameConfirmation v = false) (c : RenameCandidate) :
    confirmCandidate fileIndex ses changedAt v c s = (.error .vaultFileNotFound, s) := by
  rw [confirmCandidate, confirmFileRename, hactive]
  rfl

lemma confirmCandidates_inactive (fileIndex : Bool) (ses : Session) (changedAt : Stamp)
    (hactive : s.current.reserveRenameConfirmation v = false) (cs : List RenameCandidate) :
    (confirmCandidates fileIndex ses changedAt v cs s).2 = s := by
  cases cs with
  | nil => rfl
  | cons c cs => rw [confirmCandidates, confirmCandidate_inactive fileIndex ses changedAt hactive]

/-- **No confirmation fails because of an earlier one** of the list. -/
theorem confirmCandidate_after (fileIndex : Bool) (ses : Session) (changedAt : Stamp)
    (hs : s.current.Sound) {done : List RenameCandidate} {c : RenameCandidate}
    (hlisted : ∀ a ∈ c :: done, IsListed w v s.current a)
    (hnodup : ((c :: done).map RenameCandidate.digest).Nodup)
    (hfiles : (done.flatMap fun c => [c.missingVaultFileId, c.newVaultFileId]).Nodup) :
    (confirmCandidate fileIndex ses changedAt v c
        (confirmCandidates fileIndex ses changedAt v done s).2).1 =
      (confirmCandidate fileIndex ses changedAt v c s).1 := by
  cases hactive : s.current.reserveRenameConfirmation v with
  | false => rw [confirmCandidates_inactive fileIndex ses changedAt hactive]
  | true =>
      obtain ⟨hnew, hnodup⟩ := nodup_cons.mp hnodup
      obtain ⟨d, snap, hc⟩ := hlisted c mem_cons_self
      obtain ⟨t₁, hdone, hrun₁⟩ := confirmCandidates_listed fileIndex ses changedAt hs hactive
        (fun a ha => hlisted a (mem_cons_of_mem _ ha)) hnodup hfiles
      have hc₁ := hdone.listed c (fun a ha heq => hnew (heq ▸ mem_map_of_mem ha)) d snap hc
      obtain ⟨t₂, -, -, -, -, hrun₂⟩ := confirmCandidate_listed (s := { s with current := t₁ })
        fileIndex ses changedAt hdone.sound
        (by rwa [reserveRenameConfirmation, hdone.vaults]) hc₁
      obtain ⟨t₃, -, -, -, -, hrun₃⟩ :=
        confirmCandidate_listed fileIndex ses changedAt hs hactive hc
      rw [hrun₁, hrun₂, hrun₃]

/-! ### The only two files of a digest -/

/-- An active regular file of the Vault with the digest, at its current path. -/
def OfDigest (t : Tables) (v : VaultId) (d : Digest) (row : JoinedRow) : Prop :=
  row ∈ t.joined ∧ row.path.validTo = none ∧ row.file.vaultId = v ∧ row.file.status = .active ∧
    row.copy.fileType = .regular ∧ row.copy.plaintextSha256 = some d

/-- A candidate is the only missing and the only present file of its digest, among some files. -/
def PairsOnly (w : Spelling) (t : Tables) (v : VaultId) (among : JoinedRow → Prop)
    (c : RenameCandidate) : Prop :=
  ∃ d m p, c.digest = lowerDigest (w.text m.file.id d) ∧ m.file.id = c.missingVaultFileId ∧
    p.file.id = c.newVaultFileId ∧
    (∀ row, t.OfDigest v d row ∧ row.copy.presence = .missing ∧ among row ↔ row = m) ∧
    ∀ row, t.OfDigest v d row ∧ row.copy.presence = .present ∧ among row ↔ row = p

/-- A Local Copy that is not held back. -/
def Unheld (row : JoinedRow) : Prop := row.copy.cloudOnlyVersionId = none

lemma mem_sideRows_iff :
    row ∈ t.sideRows v d presence ↔
      t.OfDigest v d row ∧ row.copy.presence = presence ∧ Unheld row := by
  rw [mem_sideRows, isRenameRow, OfDigest, Unheld]
  simp only [Bool.and_eq_true, decide_eq_true_eq, Option.isNone_iff_eq_none]
  constructor
  · rintro ⟨hj, hd, ⟨⟨⟨⟨⟨hto, hv⟩, hact⟩, htype⟩, -⟩, hpres⟩, hheld⟩
    exact ⟨⟨hj, hto, hv, hact, htype, hd⟩, hpres, hheld⟩
  · rintro ⟨⟨hj, hto, hv, hact, htype, hd⟩, hpres, hheld⟩
    exact ⟨hj, hd, ⟨⟨⟨⟨⟨hto, hv⟩, hact⟩, htype⟩, by rw [hd]; rfl⟩, hpres⟩, hheld⟩

lemma pairsOnly_of_listed {c : RenameCandidate} (h : IsListed w v t c) :
    PairsOnly w t v Unheld c := by
  obtain ⟨d, snap, hlist, rfl⟩ := h
  obtain ⟨hm, hp, -⟩ := listRenameCandidates_eq_some.mp hlist
  refine ⟨d, snap.missing, snap.provisional, rfl, rfl, rfl, fun row => ?_, fun row => ?_⟩
  · rw [← mem_sideRows_iff, hm, mem_singleton]
  · rw [← mem_sideRows_iff, hp, mem_singleton]

end Tables

/-- **Automatic renames are unambiguous** among the Local Copies that are not held back.  In tables
that keep their keys, whatever the order in which the queries return their rows: no Vault File is
in two candidates; a candidate pairs the only missing and the only present file of its digest;
the list for one digest is the sublist of the list of the Vault with this digest; the loop
confirms all of the list, and in the end every file that was missing is at its new path with the
Local Copy of the other one, which is retired; and each confirmation goes as if it were the
first. -/
theorem rename_candidates_unambiguous (fileIndex : Bool) (ses : Session) (changedAt : Stamp)
    (w : Spelling) (v : VaultId) {s : Savepoints.Session Tables} (hs : s.current.Sound)
    {rows : List CandidateRow} (hrows : rows.Perm (s.current.renameRows w v)) :
    ((renameCandidates rows).flatMap fun c => [c.missingVaultFileId, c.newVaultFileId]).Nodup ∧
    (∀ c ∈ renameCandidates rows, Tables.PairsOnly w s.current v Tables.Unheld c) ∧
    (∀ d rows', rows'.Perm (scopedTo (some d) (s.current.renameRows w v)) →
      renameCandidates rows' = (renameCandidates rows).filter fun c => c.digest = lowerDigest d) ∧
    (s.current.reserveRenameConfirmation v = true →
      ∃ t', Tables.confirmCandidates fileIndex ses changedAt v (renameCandidates rows) s =
          (.ok ((renameCandidates rows).map RenameCandidate.missingVaultFileId),
            { s with current := t' }) ∧
        t'.Sound ∧ ∀ c ∈ renameCandidates rows, ∃ snap : RenameSnapshot,
          snap.missing ∈ s.current.joined ∧ snap.provisional ∈ s.current.joined ∧
            snap.missing.file.id = c.missingVaultFileId ∧
            snap.provisional.file.id = c.newVaultFileId ∧
            Tables.Rename.Done ⟨v, c.newPath, changedAt, snap⟩ t') ∧
    ∀ done c rest, renameCandidates rows = done ++ c :: rest →
      (Tables.confirmCandidate fileIndex ses changedAt v c
          (Tables.confirmCandidates fileIndex ses changedAt v done s).2).1 =
        (Tables.confirmCandidate fileIndex ses changedAt v c s).1 := by
  have hone : OneCopyEach rows := fun r hr r' hr' =>
    hs.oneCopyEach w v r (hrows.subset hr) r' (hrows.subset hr')
  have hlisted : ∀ c ∈ renameCandidates rows, Tables.IsListed w v s.current c := fun c hc =>
    Tables.mem_renameCandidates_iff.mp ((mem_renameCandidates_of_perm hrows).mp hc)
  have hnodup := renameCandidates_digest_nodup rows
  have hfiles := renameCandidates_files_nodup hone
  refine ⟨hfiles, fun c hc => Tables.pairsOnly_of_listed (hlisted c hc),
    fun d rows' hperm => ?_, fun hactive => ?_, fun done c rest hsplit => ?_⟩
  · refine renameCandidates_scoped d (hperm.trans ?_)
    exact hrows.symm.filter _
  · obtain ⟨t', hdone, hrun⟩ :=
      Tables.confirmCandidates_listed fileIndex ses changedAt hs hactive hlisted hnodup hfiles
    refine ⟨t', hrun, hdone.sound, fun c hc => ?_⟩
    obtain ⟨d, snap, hpair⟩ := hlisted c hc
    obtain ⟨hsides, -⟩ := Tables.listed_of_list hpair.1
    exact ⟨snap, hsides.missing, hsides.provisional,
      congrArg RenameCandidate.missingVaultFileId hpair.2,
      congrArg RenameCandidate.newVaultFileId hpair.2, hdone.renamed c hc d snap hpair⟩
  · -- the candidates before it, and itself, are some of the list
    have hbefore : done.Sublist (renameCandidates rows) := by
      rw [hsplit]
      exact sublist_append_left _ _
    have hsub : (done ++ [c]).Sublist (renameCandidates rows) := by
      rw [hsplit]
      exact (List.Sublist.refl done).append (singleton_sublist.mpr mem_cons_self)
    have hperm : (c :: done).Perm (done ++ [c]) := (perm_append_singleton c done).symm
    refine Tables.confirmCandidate_after fileIndex ses changedAt hs
      (fun a ha => hlisted a (hsub.subset (hperm.subset ha))) ?_
      (hfiles.sublist (hbefore.flatMap _))
    exact (hperm.map _).nodup_iff.mpr (hnodup.sublist (hsub.map _))

/-- A text of so many letters, in upper case for the first file. -/
def lettersSpelling : Spelling where
  text i d := List.replicate d (if i = 1 then 'A' else 'a')
  lower_text i j d e := by
    have hlower : ∀ i d, lowerDigest (List.replicate d (if i = 1 then 'A' else 'a')) =
        List.replicate d 'a' := by
      intro i d
      rw [lowerDigest, map_replicate]
      split <;> rfl
    rw [hlower, hlower]
    exact replicate_left_injective _ |>.eq_iff

/-- Two files have moved at once. -/
def movedTables : Tables where
  vaults := fun _ =>
    some ⟨"photos", .active, false, true, fun _ => true, false, fun _ => true, none⟩
  files := [⟨1, 1, .active, 0, none⟩, ⟨2, 1, .active, 0, none⟩, ⟨3, 1, .active, 0, none⟩,
    ⟨4, 1, .active, 0, none⟩]
  paths := [⟨1, 1, ['a'], 0, none⟩, ⟨2, 1, ['b'], 0, none⟩, ⟨3, 1, ['c'], 0, none⟩,
    ⟨4, 1, ['d'], 0, none⟩]
  copies := [⟨1, ⟨.missing, .regular, some 5, some 1, some 7, none, none, some 1, 1, none, none⟩⟩,
    ⟨2, ⟨.missing, .regular, some 5, some 1, some 8, none, none, some 1, 1, none, none⟩⟩,
    ⟨3, ⟨.present, .regular, some 5, some 1, some 7, none, none, some 2, 2, none, none⟩⟩,
    ⟨4, ⟨.present, .regular, some 5, some 1, some 8, none, none, some 2, 2, none, none⟩⟩]
  versions := []
  deleteMarkers := []
  jobs := []
  dirty := []

lemma movedTables_sound : movedTables.Sound where
  functional := ⟨by decide, by decide, by decide⟩
  fileIds := by decide
  copyIds := by decide

/-- Both moves are found, both are confirmed, and the first file goes on at the path of the
third. -/
theorem rename_candidates_unambiguous_two_moves :
    (renameCandidates (movedTables.renameRows lettersSpelling 1)).map
      RenameCandidate.missingVaultFileId = [1, 2] ∧
    (∃ t', Tables.confirmCandidates true ⟨1, fun _ => 3⟩ 3 1
        (renameCandidates (movedTables.renameRows lettersSpelling 1)) ⟨movedTables, []⟩ =
          (.ok [1, 2], ⟨t', []⟩) ∧
      Tables.HasPath t' 1 1 (['c'], 3, none)) := by
  have hlist : (renameCandidates (movedTables.renameRows lettersSpelling 1)).map
      RenameCandidate.missingVaultFileId = [1, 2] := by decide
  have hmem : (⟨1, ['a'], 3, ['c'], List.replicate 7 'a'⟩ : RenameCandidate) ∈
      renameCandidates (movedTables.renameRows lettersSpelling 1) := by decide
  obtain ⟨t', hrun, -, hdone⟩ := (rename_candidates_unambiguous true ⟨1, fun _ => 3⟩ 3
    lettersSpelling 1 (s := ⟨movedTables, []⟩) movedTables_sound
    (List.Perm.refl _)).2.2.2.1 (by decide)
  obtain ⟨snap, -, -, hid, -, hdone⟩ := hdone _ hmem
  refine ⟨hlist, t', hlist ▸ hrun, ?_⟩
  have hpath := hdone.current
  rwa [hid] at hpath

/-- The file `a` has moved to `c`, and the same content has come back at `e`, where it is held
back for a version in the cloud. -/
def heldTables : Tables :=
  { movedTables with
    files := [⟨1, 1, .active, 0, none⟩, ⟨3, 1, .active, 0, none⟩, ⟨5, 1, .active, 0, none⟩]
    paths := [⟨1, 1, ['a'], 0, none⟩, ⟨3, 1, ['c'], 0, none⟩, ⟨5, 1, ['e'], 0, none⟩]
    copies := [
      ⟨1, ⟨.missing, .regular, some 5, some 1, some 7, none, none, some 1, 1, none, none⟩⟩,
      ⟨3, ⟨.present, .regular, some 5, some 1, some 7, none, none, some 2, 2, none, none⟩⟩,
      ⟨5, ⟨.present, .regular, some 5, some 1, some 7, none, some 9, some 2, 2, none, none⟩⟩] }

lemma heldTables_sound : heldTables.Sound where
  functional := ⟨by decide, by decide, by decide⟩
  fileIds := by decide
  copyIds := by decide

/-- The candidate `a`, `c` is listed beside a held Local Copy of its digest: `c` is not the only
present file with it. -/
theorem held_copy_beside_candidate :
    ¬ ∀ (w : Spelling) (v : VaultId) (t : Tables), t.Sound →
      ∀ c ∈ renameCandidates (t.renameRows w v), Tables.PairsOnly w t v (fun _ => True) c := by
  intro hall
  have hmem : (⟨1, ['a'], 3, ['c'], List.replicate 7 'a'⟩ : RenameCandidate) ∈
      renameCandidates (heldTables.renameRows lettersSpelling 1) := by decide
  obtain ⟨d, m, p, hdigest, -, -, -, honly⟩ := hall lettersSpelling 1 _ heldTables_sound _ hmem
  obtain rfl : 7 = d := (lettersSpelling.lower_text 1 m.file.id 7 d).mp hdigest
  let moved : JoinedRow := ⟨⟨3, 1, .active, 0, none⟩, ⟨3, 1, ['c'], 0, none⟩,
    ⟨.present, .regular, some 5, some 1, some 7, none, none, some 2, 2, none, none⟩⟩
  let held : JoinedRow := ⟨⟨5, 1, .active, 0, none⟩, ⟨5, 1, ['e'], 0, none⟩,
    ⟨.present, .regular, some 5, some 1, some 7, none, some 9, some 2, 2, none, none⟩⟩
  have hmoved : moved = p := (honly moved).mp ⟨⟨by decide, rfl, rfl, rfl, rfl, rfl⟩, rfl, trivial⟩
  have hheld : held = p := (honly held).mp ⟨⟨by decide, rfl, rfl, rfl, rfl, rfl⟩, rfl, trivial⟩
  exact absurd (hmoved.trans hheld.symm) (by decide)

end Frostvault
