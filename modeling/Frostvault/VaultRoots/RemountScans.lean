import Frostvault.Lib.Runs
import Frostvault.VaultRoots.MountGate

/-!
Local scans over a mount that is lost and comes back (`storage._verified_local_scan`,
`source_layout.verify_mounts_once`, `vault_local_access`).

A scan decides that it has completed the alias (`requires_full_local_scan`) before its final
transaction, and takes the demand out of the gate after it.  The gate is one per alias, and
does not know which Vault's scan, nor one started when, is the one that was asked for.

* `mountStep`: the functions of the gate, the stages of the scans, and what happens to the
  disk and to the rows;
* `mountStep_gate`: only the completion of a scan of the alias opens a gate;
* `mountStep_scans`: a scan that was not started anew goes on as it was;
* `allowed_after_scan`: **a gate that went down lets work through again only after a scan on
  the alias completed**, one that was running already, that had its own acceptance of the
  mount, or that was started behind a gate that was up again;
* `sibling_scan_opens_gate`: the scan of one Vault lets the work of another one through.
-/

namespace Frostvault

open Runs

/-! ### The steps -/

/-- What happens: to the disk, to a row of `vaults`, a call of a function of the gate, or the
next stage of a local scan. -/
inductive MountAct
  | disk (disk : MountedDisk)
  | row (v : VaultId) (row : Option RootRow)
  | verifyMountsOnce
  | reconcile
  | access (v : VaultId)
  | startScan (v : VaultId)
  | decide (v : VaultId) (complete : Bool)
  | commit (v : VaultId)
  | finish (v : VaultId)
  | abort (v : VaultId)

/-- The scan of a Vault is at another stage, or over. -/
def MountWorld.setScan (g : MountWorld) (v : VaultId) (scan : Option LocalScan) : MountWorld :=
  { g with scans := Function.update g.scans v scan }

/-- `completed_alias`: set for a complete walk of an alias that asks for one. -/
def completedAlias (g : MountWorld) (scan : LocalScan) (complete : Bool) : Option String :=
  if complete then scan.volumeAlias.filter fun name => requiresFullLocalScan (g.runtime name)
  else none

/-- `_validate_enrolled_scan_root`: the root still has the identity it was enrolled with. -/
def MountedDisk.validRoot (disk : MountedDisk) (row : RootRow) : Bool :=
  row.rootIdentity.isSome && disk.rootIdentity row.sourceRoot = row.rootIdentity

/-- `_current_verified_scan_row`, and the process after its check of the access. -/
def currentVerifiedScanRow (g : MountWorld) (v : VaultId) (scan : LocalScan) :
    Option MountWorld := do
  let row ← g.rows v
  guard (row.sourceRoot = scan.vault.sourceRoot ∧ row.active ∧ g.disk.validRoot row)
  guard ((vaultLocalAccess g row).1.scannable)
  pure (vaultLocalAccess g row).2

/-- The gate after the scan; a scan that completed no alias leaves it. -/
def MountWorld.noteScanCompleted (g : MountWorld) : Option String → MountWorld
  | none => g
  | some name => g.setGate name (noteFullLocalScanCompleted (g.runtime name))

/-- **One step.**  A scan of a Vault starts when none is running, `scan_lock_for_vault`. -/
def mountStep (g : MountWorld) : MountAct → Option MountWorld
  | .disk disk => some { g with disk := disk }
  | .row v row => some { g with rows := Function.update g.rows v row }
  | .verifyMountsOnce => some (verifyMountsOnce g)
  | .reconcile => some (reconcileSourceVolumeIdentities g)
  | .access v => do
      let row ← g.rows v
      pure (vaultLocalAccess g row).2
  | .startScan v => do
      let row ← g.rows v
      guard ((g.scans v).isNone ∧ g.disk.validRoot row)
      guard ((vaultLocalAccess g row).1.scannable)
      pure ((vaultLocalAccess g row).2.setScan v
        (some ⟨row, (vaultLocalAccess g row).1.volumeAlias, .walking⟩))
  | .decide v complete => do
      let scan ← g.scans v
      guard (scan.stage = .walking)
      pure (g.setScan v (some { scan with stage := .decided (completedAlias g scan complete) }))
  | .commit v => do
      let scan ← g.scans v
      match scan.stage with
      | .decided completed =>
          let g' ← currentVerifiedScanRow g v scan
          pure (g'.setScan v (some { scan with stage := .committed completed }))
      | _ => none
  | .finish v => do
      let scan ← g.scans v
      match scan.stage with
      | .committed completed => pure ((g.noteScanCompleted completed).setScan v none)
      | _ => none
  | .abort v => some (g.setScan v none)

/-! ### What a step does to a gate -/

variable {g g' : MountWorld} {name : String}

@[simp]
lemma gate_setScan (g : MountWorld) (v : VaultId) (scan : Option LocalScan) (name : String) :
    (g.setScan v scan).gate name = g.gate name := rfl

@[simp]
lemma scans_setScan (g : MountWorld) (v : VaultId) (scan : Option LocalScan) :
    (g.setScan v scan).scans = Function.update g.scans v scan := rfl

variable {a : MountAct} {scan : LocalScan}

/-- The check of a row leaves what `vault_local_access` leaves. -/
lemma currentVerifiedScanRow_eq_some {v : VaultId} (h : currentVerifiedScanRow g v scan = some g') :
    ∃ row, g.rows v = some row ∧ g' = (vaultLocalAccess g row).2 := by
  obtain ⟨row, hrow, h⟩ := Option.bind_eq_some_iff.mp h
  obtain ⟨-, h⟩ := guard_bind_eq_some.mp h
  obtain ⟨-, h⟩ := guard_bind_eq_some.mp h
  exact ⟨row, hrow, (Option.some.inj h).symm⟩

/-- The aliases a scan has decided on. -/
def ScanStage.completed : ScanStage → Option String
  | .walking => none
  | .decided completed => completed
  | .committed completed => completed

/-- What a step does to the gates and to the scans. -/
inductive StepEffect (g : MountWorld) : MountAct → MountWorld → Prop
  | gates {a : MountAct} {g' : MountWorld} (hscans : g'.scans = g.scans)
      (hkeeps : ∀ name, Keeps (g.gate name) (g'.gate name)) : StepEffect g a g'
  | started {v : VaultId} {row : RootRow} (hrow : g.rows v = some row)
      (hscannable : (vaultLocalAccess g row).1.scannable = true) :
      StepEffect g (.startScan v) ((vaultLocalAccess g row).2.setScan v
        (some ⟨row, (vaultLocalAccess g row).1.volumeAlias, .walking⟩))
  | moved {a : MountAct} {v : VaultId} {scan : LocalScan} {stage : ScanStage}
      {g' : MountWorld} (hscan : g.scans v = some scan)
      (hstage : ∀ name, stage.completed = some name →
        scan.stage.completed = some name ∨ scan.volumeAlias = some name)
      (hscans : g'.scans = Function.update g.scans v (some { scan with stage := stage }))
      (hkeeps : ∀ name, Keeps (g.gate name) (g'.gate name)) : StepEffect g a g'
  | finished {v : VaultId} {scan : LocalScan} {completed : Option String}
      (hscan : g.scans v = some scan) (hstage : scan.stage = .committed completed) :
      StepEffect g (.finish v) ((g.noteScanCompleted completed).setScan v none)
  | aborted {v : VaultId} : StepEffect g (.abort v) (g.setScan v none)

lemma completedAlias_eq_some {complete : Bool}
    (h : completedAlias g scan complete = some name) : scan.volumeAlias = some name := by
  unfold completedAlias at h
  split_ifs at h
  exact (Option.filter_eq_some_iff.mp h).1

/-- **What a step can do.** -/
lemma stepEffect (h : mountStep g a = some g') : StepEffect g a g' := by
  cases a with
  | disk disk =>
      cases h
      exact .gates rfl fun _ => Keeps.refl _
  | row v row =>
      cases h
      exact .gates rfl fun _ => Keeps.refl _
  | verifyMountsOnce =>
      cases h
      exact .gates (scans_verifyMountsOnce g) (keeps_verifyMountsOnce g)
  | reconcile =>
      cases h
      exact .gates rfl (keeps_reconcile g)
  | access v =>
      obtain ⟨row, -, h⟩ := Option.bind_eq_some_iff.mp h
      cases h
      exact .gates (scans_vaultLocalAccess g row) fun name => keeps_vaultLocalAccess g name row
  | startScan v =>
      obtain ⟨row, hrow, h⟩ := Option.bind_eq_some_iff.mp h
      obtain ⟨-, h⟩ := guard_bind_eq_some.mp h
      obtain ⟨hscannable, rfl⟩ := checked_eq_some.mp h
      exact .started hrow hscannable
  | decide v complete =>
      obtain ⟨scan, hscan, -, rfl⟩ := read_checked_eq_some.mp h
      refine .moved hscan (fun name hname => Or.inr ?_) rfl fun _ => Keeps.refl _
      exact completedAlias_eq_some hname
  | commit v =>
      obtain ⟨scan, hscan, h⟩ := Option.bind_eq_some_iff.mp h
      split at h
      · rename_i completed hdecided
        obtain ⟨g₁, hrow, h⟩ := Option.bind_eq_some_iff.mp h
        obtain ⟨row, -, rfl⟩ := currentVerifiedScanRow_eq_some hrow
        cases h
        have hstage : ∀ name, (ScanStage.committed completed).completed = some name →
            scan.stage.completed = some name ∨ scan.volumeAlias = some name := by
          intro name hname
          rw [hdecided]
          exact Or.inl hname
        refine .moved hscan hstage ?_ fun name => keeps_vaultLocalAccess g name row
        simp [MountWorld.setScan]
      · cases h
  | finish v =>
      obtain ⟨scan, hscan, h⟩ := Option.bind_eq_some_iff.mp h
      split at h
      · rename_i completed hstage
        cases h
        exact .finished hscan hstage
      · cases h
  | abort v =>
      cases h
      exact .aborted

/-- The scan of `w` ends and takes the demand for a scan of the alias away. -/
def Completes (g : MountWorld) (w : VaultId) (name : String) : Prop :=
  ∃ scan, g.scans w = some scan ∧ scan.stage = .committed (some name)

/-- The end of a scan opens the gate of the alias it completed, and no other one. -/
lemma gate_noteScanCompleted {completed : Option String} (h : completed ≠ some name) :
    (g.noteScanCompleted completed).gate name = g.gate name := by
  cases completed with
  | none => rfl
  | some other => exact gate_setGate_of_ne g (fun heq => h (by rw [heq])) _

/-- **Only the completion of a scan opens a gate.** -/
lemma mountStep_gate (h : mountStep g a = some g') (name : String) :
    Keeps (g.gate name) (g'.gate name) ∨ ∃ w, a = .finish w ∧ Completes g w name := by
  cases stepEffect h with
  | gates _ hkeeps => exact Or.inl (hkeeps name)
  | started _ _ => exact Or.inl (keeps_vaultLocalAccess g name _)
  | moved _ _ _ hkeeps => exact Or.inl (hkeeps name)
  | @finished v scan completed hscan hstage =>
      by_cases hname : completed = some name
      · exact Or.inr ⟨v, rfl, scan, hscan, by rw [hstage, hname]⟩
      · rw [gate_setScan, gate_noteScanCompleted hname]
        exact Or.inl (Keeps.refl _)
  | aborted => exact Or.inl (Keeps.refl _)

lemma down_of_noteFullLocalScanCompleted {entry : Option MountState}
    (h : (gateOf (noteFullLocalScanCompleted entry)).Down) : (gateOf entry).Down := by
  rcases entry with _ | st
  · exact h
  · simp only [noteFullLocalScanCompleted] at h
    split_ifs at h with hlost
    · exact down_iff.mpr (Or.inr hlost)
    · cases h

/-- **A gate that goes down is gated.** -/
lemma gated_of_down (h : mountStep g a = some g') (hup : ¬(g.gate name).Down)
    (hdown : (g'.gate name).Down) : (g'.gate name).Gated := by
  rcases mountStep_gate h name with hkeeps | ⟨w, rfl, scan, hscan, hstage⟩
  · exact (hkeeps.down hdown).resolve_left hup
  · simp only [mountStep, hscan, Option.bind_eq_bind, Option.bind_some, hstage] at h
    cases h
    refine absurd (down_of_noteFullLocalScanCompleted ?_) hup
    simpa [MountWorld.noteScanCompleted] using hdown

/-! ### What a step does to a scan -/

lemma scans_of_update_none {scans : VaultId → Option LocalScan} {v w : VaultId}
    (h : Function.update scans v none w = some scan) :
    scans w = some scan := by
  by_cases heq : w = v
  · subst heq
    simp at h
  · rwa [Function.update_of_ne heq] at h

/-- The scan of a row, on the alias it was answered with, which is all it can complete. -/
structure ScanOf (row : RootRow) (place : Option String) (scan : LocalScan) : Prop where
  vault : scan.vault = row
  volumeAlias : scan.volumeAlias = place
  completed : ∀ name, scan.stage.completed = some name → place = some name

/-- **A scan that is not started anew goes on as it was.** -/
lemma mountStep_scans {w : VaultId} (h : mountStep g a = some g')
    (ha : a ≠ .startScan w) {scan' : LocalScan} (hscan' : g'.scans w = some scan') :
    ∃ scan, g.scans w = some scan ∧
      ∀ row place, ScanOf row place scan → ScanOf row place scan' := by
  cases stepEffect h with
  | gates hscans _ =>
      rw [hscans] at hscan'
      exact ⟨scan', hscan', fun _ _ => id⟩
  | @started v row _ _ =>
      have hne : w ≠ v := fun heq => ha (by rw [heq])
      rw [scans_setScan, Function.update_of_ne hne, scans_vaultLocalAccess] at hscan'
      exact ⟨scan', hscan', fun _ _ => id⟩
  | @moved _ v scan stage _ hscan hstage hscans _ =>
      rw [hscans] at hscan'
      by_cases heq : w = v
      · subst heq
        rw [Function.update_self] at hscan'
        cases hscan'
        refine ⟨scan, hscan, fun row place hof => ⟨hof.vault, hof.volumeAlias, ?_⟩⟩
        intro name hname
        rcases hstage name hname with hold | hplace
        · exact hof.completed name hold
        · rw [← hof.volumeAlias, hplace]
      · rw [Function.update_of_ne heq] at hscan'
        exact ⟨scan', hscan', fun _ _ => id⟩
  | @finished v scan completed hscan hstage =>
      have hscans : ((g.noteScanCompleted completed).setScan v none).scans =
          Function.update g.scans v none := by
        cases completed <;> rfl
      rw [hscans] at hscan'
      exact ⟨scan', scans_of_update_none hscan', fun _ _ => id⟩
  | @aborted v => exact ⟨scan', scans_of_update_none hscan', fun _ _ => id⟩

/-- A scan is started with the row there is, and the alias its answer named. -/
lemma scan_of_start {w : VaultId}
    (h : mountStep g (.startScan w) = some g') (hscan : g'.scans w = some scan) :
    ∃ row, g.rows w = some row ∧ (vaultLocalAccess g row).1.scannable ∧
      ScanOf row (vaultLocalAccess g row).1.volumeAlias scan := by
  obtain ⟨row, hrow, h⟩ := Option.bind_eq_some_iff.mp h
  obtain ⟨-, h⟩ := guard_bind_eq_some.mp h
  obtain ⟨hscannable, rfl⟩ := checked_eq_some.mp h
  rw [scans_setScan, Function.update_self] at hscan
  cases hscan
  refine ⟨row, hrow, hscannable, rfl, rfl, fun name hname => ?_⟩
  exact absurd hname (by simp [ScanStage.completed])

/-- The scan of `w` that is running after the actions was started by one of them, as the last
one of that Vault, behind the answer for `row` in the state `z`. -/
structure StartedIn (u : MountWorld) (as : List MountAct) (w : VaultId) (z : MountWorld)
    (row : RootRow) : Prop where
  start : ∃ bs cs, as = bs ++ .startScan w :: cs ∧ .startScan w ∉ cs ∧
    run mountStep u bs = some z
  row_eq : z.rows w = some row
  scannable : (vaultLocalAccess z row).1.scannable = true

/-- **Where a scan comes from.**  It was running before, or one of the actions started it. -/
lemma scan_origin {u y : MountWorld} {as : List MountAct} {w : VaultId}
    (h : run mountStep u as = some y) (hscan : y.scans w = some scan) :
    (.startScan w ∉ as ∧ ∃ scan₀, u.scans w = some scan₀) ∨
    ∃ z row, StartedIn u as w z row ∧
      ScanOf row (vaultLocalAccess z row).1.volumeAlias scan := by
  induction as using List.reverseRecOn generalizing y scan with
  | nil =>
      cases h
      exact Or.inl ⟨List.not_mem_nil, scan, hscan⟩
  | append_singleton as a ih =>
      obtain ⟨x, hx, hlast⟩ := run_append.mp h
      obtain ⟨y', hstep, hy⟩ := run_cons_eq_some.mp hlast
      cases hy
      by_cases ha : a = .startScan w
      · subst ha
        obtain ⟨row, hrow, hscannable, hof⟩ := scan_of_start hstep hscan
        exact Or.inr ⟨x, row, ⟨⟨as, [], rfl, List.not_mem_nil, hx⟩, hrow, hscannable⟩, hof⟩
      · obtain ⟨scan₁, hscan₁, hsame⟩ := mountStep_scans hstep ha hscan
        rcases ih hx hscan₁ with ⟨hnot, hold⟩ | ⟨z, row, hstarted, hof⟩
        · refine Or.inl ⟨?_, hold⟩
          simp [hnot, Ne.symm ha]
        · obtain ⟨bs, cs, rfl, hcs, hz⟩ := hstarted.start
          refine Or.inr ⟨z, row, ⟨⟨bs, cs ++ [a], by simp, ?_, hz⟩, hstarted.row_eq,
            hstarted.scannable⟩, hsame _ _ hof⟩
          simp [hcs, Ne.symm ha]

/-! ### The gate over a run -/

lemma volumeAlias_gatedAccess (row : RootRow) :
    (gatedAccess g name row).1.volumeAlias = some name := by
  rcases gatedAccess_cases g name row with ⟨health, -, hblocked, -⟩ | ⟨v, -, hopen⟩
  · rw [hblocked]
    rfl
  · rw [hopen]
    unfold openAccess
    dsimp only
    split_ifs <;> rfl

lemma volumeAlias_reconnectedAccess (disk : MountedDisk) (row : RootRow) (accepted : String) :
    (reconnectedAccess disk name row accepted).volumeAlias = some name := by
  unfold reconnectedAccess
  split
  · rfl
  · split
    · rfl
    · split
      · rfl
      · rfl
      · split_ifs <;> rfl

/-- The alias an answer names is the one the root lies on. -/
lemma location_of_volumeAlias {row : RootRow} (hname : name ≠ managedAlias)
    (h : (vaultLocalAccess g row).1.volumeAlias = some name) :
    row.location = .custom name hname := by
  unfold vaultLocalAccess at h
  split at h
  · exact absurd h (by simp [blockedVaultAccess])
  · split_ifs at h
    exact absurd h (by simp [blockedVaultAccess])
  · split_ifs at h <;> exact absurd (Option.some.inj h).symm hname
  · rename_i other _ hloc
    have hsome : some other = some name := by
      split at h
      · rwa [volumeAlias_reconnectedAccess] at h
      · rwa [volumeAlias_gatedAccess] at h
    cases hsome
    exact hloc

/-- **After a loss, only a scan lets work through again.**  When a step wrote into the gate of
an alias that its mount is lost or is another one, and work on a root without an acceptance of
its own is allowed afterwards, a complete scan on that alias has ended in between.  That scan
was running already when the step was made, or the Vault it is of had an accepted fingerprint
when it started, or it started behind a gate that was up again. -/
theorem allowed_after_scan {x u t : MountWorld} {a : MountAct} {as : List MountAct}
    {name : String} {reserved : name ≠ managedAlias} {row : RootRow}
    (hup : ¬(x.gate name).Down) (hloss : mountStep x a = some u) (hdown : (u.gate name).Down)
    (hrun : run mountStep u as = some t) (hloc : row.location = .custom name reserved)
    (haccepted : t.accepted row = none)
    (hallowed : (vaultLocalAccess t row).1.localOperationsAllowed = true) :
    ∃ bs w cs y, as = bs ++ .finish w :: cs ∧ run mountStep u bs = some y ∧
      Completes y w name ∧
      ((.startScan w ∉ bs ∧ ∃ scan₀, u.scans w = some scan₀) ∨
        ∃ z row', StartedIn u bs w z row' ∧ row'.location = .custom name reserved ∧
          (z.accepted row' ≠ none ∨ ¬((vaultLocalAccess z row').2.gate name).Down)) := by
  have hgated : (u.gate name).Gated := gated_of_down hloss hup hdown
  have hopen : ¬(t.gate name).Gated := not_gated_of_allowed hloc haccepted hallowed
  obtain ⟨bs, b, cs, y, y', rfl, hy, hstep, hgy, hgy'⟩ :=
    exists_breaking_step (I := fun g => (g.gate name).Gated) hgated hrun hopen
  rcases mountStep_gate hstep name with hkeeps | ⟨w, rfl, hcompletes⟩
  · exact absurd (hkeeps.gated hgy) hgy'
  · refine ⟨bs, w, cs, y, rfl, hy, hcompletes, ?_⟩
    obtain ⟨scan, hscan, hstage⟩ := hcompletes
    refine (scan_origin hy hscan).imp_right fun ⟨z, row', hstarted, hof⟩ => ?_
    have hplace : (vaultLocalAccess z row').1.volumeAlias = some name :=
      hof.completed name (by rw [hstage]; rfl)
    have hloc' := location_of_volumeAlias reserved hplace
    refine ⟨z, row', hstarted, hloc', ?_⟩
    by_cases hacc : z.accepted row' = none
    · right
      have hscannable := hstarted.scannable
      rw [vaultLocalAccess_custom hloc' hacc] at hscannable ⊢
      exact (open_of_scannable hscannable).1
    · exact Or.inl hacc

/-! ### Two Vaults on one volume -/

/-- A healthy disk with one volume, `photos`, with this fingerprint. -/
def photosDisk (fingerprint : String) : MountedDisk where
  volumes name := if name = "photos" then some ⟨true, true, .ok fingerprint⟩ else none
  boundaryFault _ := none
  staysWithin _ := true
  rootIdentity root := some root
  layoutReady := true
  outsideBlocked := true

/-- The row of a Vault on it. -/
def photosRow (root : String) (accepted : Option String) : RootRow where
  sourceRoot := root
  location := .custom "photos" (by decide)
  reconnectFingerprint := accepted
  active := true
  rootIdentity := some root

/-- A process that has just started, with two Vaults on the volume. -/
def photosWorld : MountWorld where
  runtime _ := none
  known _ := false
  expected _ := none
  enforcing := false
  persisted _ := none
  rows v :=
    if v = 1 then some (photosRow "/sources/photos/a" none)
    else if v = 2 then some (photosRow "/sources/photos/b" none) else none
  scans _ := none
  disk := photosDisk "nas"

/-- What is mounted changes, and the process looks. -/
def photosMounted (disk : MountedDisk) : List MountAct := [.disk disk, .verifyMountsOnce]

/-- The volume goes away. -/
def photosLoss : List MountAct := photosMounted { photosDisk "nas" with volumes := fun _ => none }

/-- The rest of a scan that has started. -/
def scanEnd (v : VaultId) : List MountAct := [.decide v true, .commit v, .finish v]

/-- Whether the gate is down after the actions. -/
def photosDown (as : List MountAct) : Option Bool :=
  (run mountStep photosWorld as).map fun g => decide (g.gate "photos").Down

/-- Whether the first Vault may work after the actions. -/
def photosAllowed (as : List MountAct) (accepted : Option String) : Option Bool :=
  (run mountStep photosWorld as).map fun g =>
    (vaultLocalAccess g (photosRow "/sources/photos/a" accepted)).1.localOperationsAllowed

/-- The enrolled volume is gone, and the process has not looked yet. -/
def photosGone : MountWorld :=
  { reconcileSourceVolumeIdentities photosWorld with
    disk := { photosDisk "nas" with volumes := fun _ => none } }

/-- The scan after which the first Vault may work again. -/
theorem allowed_after_scan_photos : ∃ bs w cs y,
    photosMounted (photosDisk "nas") ++ .startScan 2 :: scanEnd 2 = bs ++ .finish w :: cs ∧
      run mountStep (verifyMountsOnce photosGone) bs = some y ∧ Completes y w "photos" := by
  have hrun : (run mountStep (verifyMountsOnce photosGone)
      (photosMounted (photosDisk "nas") ++ .startScan 2 :: scanEnd 2)).isSome := by decide
  obtain ⟨bs, w, cs, y, has, hy, hcompletes, -⟩ :=
    allowed_after_scan (x := photosGone) (a := .verifyMountsOnce) (by decide) rfl (by decide)
      (Option.some_get hrun).symm (rfl : (photosRow "/sources/photos/a" none).location = _)
      rfl rfl
  exact ⟨bs, w, cs, y, has, hy, hcompletes⟩

/-- **Three ways past the gate without a scan of the Vault that started after the return.**
The first Vault may work after the scan of the second one; after a scan of its own that was
running when the volume was lost; and, when it has accepted the mount that came in place of
the expected one, after no scan. -/
theorem sibling_scan_opens_gate :
    (photosDown (.reconcile :: photosLoss) = some true ∧
      photosAllowed (.reconcile :: photosLoss ++ photosMounted (photosDisk "nas") ++
        .startScan 2 :: scanEnd 2) none = some true) ∧
    (photosDown (.reconcile :: .startScan 1 :: photosLoss) = some true ∧
      photosAllowed (.reconcile :: .startScan 1 :: photosLoss ++
        photosMounted (photosDisk "nas") ++ scanEnd 1) none = some true) ∧
    (photosDown (.reconcile :: photosLoss) = some true ∧
      photosAllowed (.reconcile :: photosLoss ++ photosMounted (photosDisk "usb"))
        (some "usb") = some true) := by
  decide

end Frostvault
