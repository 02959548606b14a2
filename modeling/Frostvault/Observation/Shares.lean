import Frostvault.Aggregates.Refresh
import Frostvault.Observation.LocalCopies
import Mathlib.Algebra.Order.BigOperators.Group.List
import Mathlib.Algebra.Ring.Int.Defs

/-!
What each file adds to the rollup of a directory.

The rollup a full rebuild stores for a directory is the sum of the shares of the files, in
any order.  A file has a share when it is active and visible in the Vault and the directory
is an ancestor of its current path.

* `rebuild_eq_shares`: the rollup as a sum of shares;
* `rebuild_congr_of_shares`: files with the same shares give the same rollup;
* `copyWeight`: a measure that only a change of a share lowers, when a Local Copy goes
  missing;
* `shares_eq_of_rebuild_eq`: no two such changes cancel out in the rollup.
-/

namespace Frostvault

variable {coll : Collation}

/-! ### Sums of shares -/

/-- What a file adds to the rollup of a directory. -/
def share (jobs : List Job) (v : VaultId) (d : Path) (f : VaultFile) : Option FileContribution :=
  (fileRow jobs v f).bind fun r =>
    if d ∈ ancestorDirectories r.path then contributionFromRow r else none

/-- The shares of all files. -/
def shares (cat : Catalog) (v : VaultId) (d : Path) : List FileContribution :=
  cat.files.filterMap (share cat.jobs v d)

/-- The order in which contributions are added does not matter. -/
instance : RightCommutative DirectoryRollup.add where
  right_comm r c c' := by
    simp only [DirectoryRollup.add, DirectoryRollup.mk.injEq, RollupColumns.mk.injEq]
    refine ⟨⟨trivial, ?_, ?_, ?_, funext fun s => ?_, funext fun a => ?_⟩, funext fun k => ?_⟩ <;>
      exact Nat.add_right_comm _ _ _

/-- The rows that name a directory contribute its shares. -/
lemma rowsNaming_perm_shares (cat : Catalog) (v : VaultId) (d : Path) :
    ((rowsNaming coll cat v d).map contributionOf).Perm (shares cat v d) := by
  have hperm : (rowsNaming coll cat v d).Perm ((cat.rows v).filter fun r =>
      r.visible && decide (d ∈ ancestorDirectories r.path)) :=
    (List.perm_insertionSort _ _).filter _
  refine (hperm.map contributionOf).trans (List.Perm.of_eq ?_)
  rw [Catalog.rows, shares]
  induction cat.files with
  | nil => rfl
  | cons f fs ih =>
      cases hr : fileRow cat.jobs v f with
      | none => simp [hr, share, ih]
      | some r =>
          by_cases hd : d ∈ ancestorDirectories r.path
          · cases hv : r.visible with
            | false => simp [hr, share, hd, hv, contributionFromRow, ih]
            | true => simp [hr, share, hd, hv, contributionFromRow, ih]
          · simp [hr, share, hd, ih]

/-- **The rollup of a full rebuild is the sum of the shares.** -/
lemma rebuild_eq_shares (cat : Catalog) (v : VaultId) (batchSize : Option ℤ) (d : Path) :
    rebuildVaultDirectoryAggregates coll cat v batchSize d =
      if shares cat v d = [] then none
      else some ((shares cat v d).foldl DirectoryRollup.add .zero) := by
  have hp := @rowsNaming_perm_shares coll cat v d
  rw [rebuildVaultDirectoryAggregates_apply, hp.foldl_eq]
  have hnil : rowsNaming coll cat v d = [] ↔ shares cat v d = [] := by
    rw [← List.length_eq_zero_iff, ← List.length_eq_zero_iff, ← hp.length_eq, List.length_map]
  simp only [hnil]

lemma rebuild_congr_of_shares {cat cat' : Catalog} {v : VaultId} {d : Path}
    (batchSize : Option ℤ) (h : shares cat' v d = shares cat v d) :
    rebuildVaultDirectoryAggregates coll cat v batchSize d =
      rebuildVaultDirectoryAggregates coll cat' v batchSize d := by
  rw [rebuild_eq_shares, rebuild_eq_shares, h]

/-! ### Files without a share -/

variable {jobs jobs' : List Job} {v : VaultId} {d p : Path} {f : VaultFile}

lemma share_eq_none_of_vaultId (h : f.vaultId ≠ v) : share jobs v d f = none := by
  simp [share, fileRow, h]

lemma share_eq_none_of_outside (h : ∀ p, f.currentPath = some p → d ∉ ancestorDirectories p) :
    share jobs v d f = none := by
  cases hr : fileRow jobs v f with
  | none => simp [share, hr]
  | some r =>
      have hd := h r.path (fileRow_eq_some hr).2.2.1
      simp [share, hr, hd]

lemma share_congr_jobs (h : failedUploadSql jobs' f.id = failedUploadSql jobs f.id) :
    share jobs' v d f = share jobs v d f := by
  have hat : rowAt jobs' f = rowAt jobs f := funext fun p => by simp only [rowAt, h]
  have hrow : fileRow jobs' v f = fileRow jobs v f := by simp only [fileRow, hat]
  rw [share, share, hrow]

/-! ### A Local Copy that goes missing -/

/-- The weight of a state among the files with a version: what a missing copy can only
lower. -/
def stateWeight : ProtectionState → ℤ
  | .protected_ => 2
  | .pending => 2
  | .problem => 1
  | .unconfirmed => 0
  | .cloudOnly => 0

/-- The weight of a contribution. -/
def copyWeight (c : FileContribution) : ℤ :=
  stateWeight c.state + c.localSize + (if c.uploadEligible then 1 else 0) +
    if c.recoverEligible then 0 else 1

/-- The same weight, read off a rollup. -/
def DirectoryRollup.weight (r : DirectoryRollup) : ℤ :=
  2 * r.stateCounts .protected_ + 2 * r.stateCounts .pending + r.stateCounts .problem +
    r.localSize + r.actionCounts .upload + r.itemCount - r.actionCounts .recover

lemma weight_add (r : DirectoryRollup) (c : FileContribution) :
    (r.add c).weight = r.weight + copyWeight c := by
  cases hu : c.uploadEligible <;> cases hr : c.recoverEligible <;> cases hs : c.state <;>
    simp [DirectoryRollup.add, DirectoryRollup.weight, copyWeight, stateWeight,
      FileContribution.counts, hu, hr, hs] <;> omega

lemma weight_foldl (cs : List FileContribution) (r : DirectoryRollup) :
    (cs.foldl DirectoryRollup.add r).weight = r.weight + (cs.map copyWeight).sum := by
  induction cs generalizing r with
  | nil => simp
  | cons c cs ih =>
      rw [List.foldl_cons, ih, weight_add, List.map_cons, List.sum_cons]
      omega

/-- The weight of a share; a file without one weighs nothing. -/
def shareWeight (o : Option FileContribution) : ℤ := (o.map copyWeight).getD 0

@[simp] lemma shareWeight_none : shareWeight none = 0 := rfl

@[simp] lemma shareWeight_some (c : FileContribution) : shareWeight (some c) = copyWeight c := rfl

lemma sum_shareWeight_of_rebuild_eq {cat cat' : Catalog} {batchSize : Option ℤ}
    (h : rebuildVaultDirectoryAggregates coll cat v batchSize d =
      rebuildVaultDirectoryAggregates coll cat' v batchSize d) :
    (cat.files.map fun f => shareWeight (share cat.jobs v d f)).sum =
      (cat'.files.map fun f => shareWeight (share cat'.jobs v d f)).sum := by
  have hsum : ∀ c : Catalog, (c.files.map fun f => shareWeight (share c.jobs v d f)).sum =
      ((shares c v d).map copyWeight).sum := by
    intro c
    rw [shares]
    induction c.files with
    | nil => rfl
    | cons f fs ih =>
        cases hf : share c.jobs v d f <;> simp [hf, ih]
  have hweight : ∀ c : Catalog, ((shares c v d).map copyWeight).sum =
      ((rebuildVaultDirectoryAggregates coll c v batchSize d).map DirectoryRollup.weight).getD
        0 := by
    intro c
    rw [rebuild_eq_shares]
    split
    · rename_i hnil
      simp [hnil]
    · rw [Option.map_some, weight_foldl]
      simp [DirectoryRollup.weight, DirectoryRollup.zero]
  rw [hsum, hsum, hweight, hweight, h]

/-- Sums of terms that only get smaller are equal only if every term stays. -/
lemma eq_of_sum_eq_of_le {α : Type*} {g h : α → ℤ} {l : List α} (hle : ∀ x ∈ l, h x ≤ g x)
    (heq : (l.map g).sum = (l.map h).sum) : ∀ x ∈ l, h x = g x := by
  induction l with
  | nil => simp
  | cons a l ih =>
      have hl : (l.map h).sum ≤ (l.map g).sum :=
        List.sum_le_sum fun x hx => hle x (List.mem_cons_of_mem _ hx)
      have ha := hle a List.mem_cons_self
      rw [List.map_cons, List.map_cons, List.sum_cons, List.sum_cons] at heq
      intro x hx
      rcases List.mem_cons.mp hx with rfl | hx
      · omega
      · exact ih (fun y hy => hle y (List.mem_cons_of_mem _ hy)) (by omega) x hx

/-- The state of a file with a version, without three-valued logic. -/
lemma stateSql_some (lc : LocalCopy) (a : ArchiveVersion) (failed : Bool) :
    stateSql (some lc) (some a) failed =
      if a.availability = .missing ∨ a.integrity = .mismatch ∨ lc.cloudOnlyVersionId.isSome ∨
          lc.presence = .unsupported ∨
          ((protectedSql (some lc) (some a)).holds = false ∧ failed) then .problem
      else if a.availability = .unknown then .unconfirmed
      else if lc.presence = .missing then
        if a.integrity = .verified ∧ a.availability = .available then .cloudOnly else .unconfirmed
      else if (protectedSql (some lc) (some a)).holds then .protected_ else .pending := by
  have hexists : localExistsSql (some lc) = decide (lc.presence ≠ .missing) := by
    cases h : lc.presence <;> simp [localExistsSql, h]
  simp only [stateSql, problemSql, hexists, Sql.Cond.holds_or, Sql.Cond.holds_and,
    Sql.Cond.holds_not_coalesce, Sql.holds_eqLit, Sql.holds_isNotNull, Sql.Cond.holds_some,
    Option.map_some, Option.bind_some, Option.some.injEq, Bool.or_eq_true, decide_eq_true_eq,
    Bool.and_eq_true, Bool.not_eq_true', or_assoc, Option.isSome_some, Bool.and_true,
    decide_not, Bool.not_not]

lemma not_protectedSql_gone (lc : LocalCopy) (at_ : Stamp) (av : Option ArchiveVersion) :
    (protectedSql (some (lc.gone at_)) av).holds = false := by
  simp [protectedSql, LocalCopy.gone]

variable {lc : LocalCopy}

/-- **A copy on disk that goes missing lowers the state's weight, or keeps the state.** -/
lemma stateWeight_gone (h : lc.presence ≠ .missing) (a : ArchiveVersion)
    (failed : Bool) (at_ : Stamp) :
    stateSql (some (lc.gone at_)) (some a) failed ≠ .protected_ ∧
    stateWeight (stateSql (some (lc.gone at_)) (some a) failed) ≤
      stateWeight (stateSql (some lc) (some a) failed) ∧
    (stateWeight (stateSql (some (lc.gone at_)) (some a) failed) =
        stateWeight (stateSql (some lc) (some a) failed) →
      stateSql (some (lc.gone at_)) (some a) failed = stateSql (some lc) (some a) failed) := by
  rw [stateSql_some, stateSql_some, not_protectedSql_gone]
  simp only [LocalCopy.gone, h, if_false, if_true]
  by_cases h1 : a.availability = .missing ∨ a.integrity = .mismatch ∨
      lc.cloudOnlyVersionId.isSome
  · have h2 : ∀ q : Prop, a.availability = .missing ∨ a.integrity = .mismatch ∨
        lc.cloudOnlyVersionId.isSome ∨ q := fun q => by tauto
    simp [h2]
  · have h2 : ∀ q : Prop, (a.availability = .missing ∨ a.integrity = .mismatch ∨
        lc.cloudOnlyVersionId.isSome ∨ q) ↔ q := fun q => by tauto
    simp only [h2]
    cases hp : (protectedSql (some lc) (some a)).holds with
    | true =>
        -- a protected copy has an available version: the state falls to cloud-only or problem
        have hav : a.availability = .available ∧ lc.presence ≠ .unsupported := by
          simp only [protectedSql, Sql.Cond.holds_and, Sql.holds_eqLit, Bool.and_eq_true,
            decide_eq_true_eq, Option.map_some, Option.some.injEq] at hp
          exact ⟨hp.1.1.2, by simp [hp.1.1.1.1.1]⟩
        cases failed <;> by_cases hc : a.integrity = .verified <;>
          simp [hav.1, hav.2, hc, stateWeight]
    | false =>
        cases failed <;> by_cases hu : lc.presence = .unsupported <;>
          by_cases hk : a.availability = .unknown <;>
          by_cases hc : a.integrity = .verified ∧ a.availability = .available <;>
          simp [hu, hk, hc, stateWeight]

lemma stateWeight_nonneg (s : ProtectionState) : 0 ≤ stateWeight s := by
  cases s <;> simp [stateWeight]

/-- A missing copy that is marked missing again shows no change. -/
lemma rowAt_gone_of_missing (jobs : List Job) (f : VaultFile) (q : Path) (at_ : Stamp)
    (h : lc.presence = .missing) :
    rowAt jobs (f.withCopy (some (lc.gone at_))) q = rowAt jobs (f.withCopy (some lc)) q := by
  obtain ⟨presence, t, n, mt, sha, matched, hold, seen, obs, content, recovered⟩ := lc
  subst h
  rfl

/-- A copy that is not missing is on disk. -/
lemma localExists_withCopy (jobs : List Job) (f : VaultFile) (q : Path)
    (h : lc.presence ≠ .missing) :
    (rowAt jobs (f.withCopy (some lc)) q).localExists := by
  have hp : (rowAt jobs (f.withCopy (some lc)) q).localPresence = some lc.presence := rfl
  rw [VisibleRow.localExists, hp]
  cases hl : lc.presence with
  | missing => exact absurd hl h
  | present => rfl
  | unsupported => rfl

/-- The contribution of a file with a version, before and after its copy goes missing. -/
lemma contributionOf_gone (jobs : List Job) (f : VaultFile) (q : Path) (at_ : Stamp)
    {a : ArchiveVersion} (h : lc.presence ≠ .missing)
    (hav : f.latestVersion = some a) :
    copyWeight (contributionOf (rowAt jobs (f.withCopy (some (lc.gone at_))) q)) ≤
      copyWeight (contributionOf (rowAt jobs (f.withCopy (some lc)) q)) ∧
    (copyWeight (contributionOf (rowAt jobs (f.withCopy (some (lc.gone at_))) q)) =
        copyWeight (contributionOf (rowAt jobs (f.withCopy (some lc)) q)) →
      some (contributionOf (rowAt jobs (f.withCopy (some (lc.gone at_))) q)) =
        some (contributionOf (rowAt jobs (f.withCopy (some lc)) q))) := by
  generalize hc : contributionOf (rowAt jobs (f.withCopy (some lc)) q) = c
  generalize hc' : contributionOf (rowAt jobs (f.withCopy (some (lc.gone at_))) q) = c'
  have hstate : c.state = stateSql (some lc) (some a) (failedUploadSql jobs f.id) := by
    rw [← hc, ← hav]
    rfl
  have hstate' : c'.state = stateSql (some (lc.gone at_)) (some a) (failedUploadSql jobs f.id) := by
    rw [← hc', ← hav]
    rfl
  obtain ⟨hnp, hle, heq⟩ := stateWeight_gone h a (failedUploadSql jobs f.id) at_
  rw [← hstate', ← hstate] at hle heq
  rw [← hstate'] at hnp
  have hlocal' : c'.localSize = 0 := by rw [← hc']; rfl
  have hup' : c'.uploadEligible = false := by rw [← hc']; rfl
  have hclean' : c'.cleanupEligible = false := by rw [← hc']; rfl
  have hrec : c.recoverEligible = false := by
    rw [← hc]
    simp [contributionOf, localExists_withCopy jobs f q h]
  rw [copyWeight, copyWeight, hlocal', hup', hrec]
  refine ⟨?_, fun hw => ?_⟩
  · cases c.uploadEligible <;> cases c'.recoverEligible <;> simp <;> omega
  · have hparts : stateWeight c'.state = stateWeight c.state ∧ c.localSize = 0 ∧
        c.uploadEligible = false ∧ c'.recoverEligible = false := by
      cases hu : c.uploadEligible <;> cases hr : c'.recoverEligible <;>
        simp [hu, hr] at hw ⊢ <;> omega
    obtain ⟨hsw, hlocal, hup, hrec'⟩ := hparts
    have hs := heq hsw
    have hclean : c.cleanupEligible = false := by
      rw [← hc] at hs ⊢
      have hnp' : (rowAt jobs (f.withCopy (some lc)) q).protectionState ≠ .protected_ := by
        rw [hs] at hnp
        exact hnp
      simp [contributionOf, hnp']
    have hrest : c'.path = c.path ∧ c'.totalSize = c.totalSize ∧ c'.cloudSize = c.cloudSize ∧
        c'.hasCloud = c.hasCloud ∧ c'.storageClass = c.storageClass := by
      rw [← hc, ← hc']
      exact ⟨rfl, rfl, rfl, rfl, rfl⟩
    obtain ⟨h1, h2, h3, h4, h5⟩ := hrest
    cases c
    cases c'
    simp_all

/-- **A missing copy lowers the weight of a file's contribution, or leaves the contribution as
it is.** -/
lemma copyWeight_gone (jobs : List Job) (f : VaultFile) (q : Path) (at_ : Stamp)
    (o : Option LocalCopy) :
    shareWeight (contributionFromRow (rowAt jobs (f.withCopy (o.map (LocalCopy.gone · at_))) q)) ≤
      shareWeight (contributionFromRow (rowAt jobs (f.withCopy o) q)) ∧
    (shareWeight (contributionFromRow
          (rowAt jobs (f.withCopy (o.map (LocalCopy.gone · at_))) q)) =
        shareWeight (contributionFromRow (rowAt jobs (f.withCopy o) q)) →
      contributionFromRow (rowAt jobs (f.withCopy (o.map (LocalCopy.gone · at_))) q) =
        contributionFromRow (rowAt jobs (f.withCopy o) q)) := by
  cases o with
  | none => exact ⟨le_rfl, fun _ => rfl⟩
  | some lc =>
      rw [Option.map_some]
      by_cases hmiss : lc.presence = .missing
      · rw [rowAt_gone_of_missing jobs f q at_ hmiss]
        exact ⟨le_rfl, fun _ => rfl⟩
      · have hex := localExists_withCopy jobs f q hmiss
        have hgone : (rowAt jobs (f.withCopy (some (lc.gone at_))) q).localExists = false := rfl
        have hvis : (rowAt jobs (f.withCopy (some lc)) q).visible := by
          simp [VisibleRow.visible, hex]
        have hrec : (contributionOf (rowAt jobs (f.withCopy (some lc)) q)).recoverEligible =
            false := by simp [contributionOf, hex]
        rw [contributionFromRow, contributionFromRow, if_pos hvis]
        cases hav : f.latestVersion with
        | none =>
            -- the file disappears from the folder
            have hinv : ¬ (rowAt jobs (f.withCopy (some (lc.gone at_))) q).visible := by
              rw [VisibleRow.visible, hgone]
              simp [rowAt, VaultFile.withCopy, VaultFile.latestVersion] at hav ⊢
              exact hav
            rw [if_neg hinv, shareWeight_none, shareWeight_some]
            have hpos : 1 ≤ copyWeight (contributionOf (rowAt jobs (f.withCopy (some lc)) q)) := by
              have hs := stateWeight_nonneg
                (contributionOf (rowAt jobs (f.withCopy (some lc)) q)).state
              rw [copyWeight, hrec]
              split <;> simp <;> omega
            exact ⟨by omega, fun h => by omega⟩
        | some a =>
            have hvis' : (rowAt jobs (f.withCopy (some (lc.gone at_))) q).visible := by
              rw [VisibleRow.visible, hgone]
              simp [rowAt, VaultFile.withCopy, VaultFile.latestVersion] at hav ⊢
              simp [hav]
            rw [if_pos hvis', shareWeight_some, shareWeight_some]
            exact contributionOf_gone jobs f q at_ hmiss hav

end Frostvault
