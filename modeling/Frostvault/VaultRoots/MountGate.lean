import Frostvault.Catalog

/-!
The gate of a Source Volume (`source_layout.py`): what the process remembers about the mount
behind an alias, and whether a vault root on it may be worked on.

`_runtime_mount_state` has one entry per alias.  A loss and a replacement are written into it
by `verify_mounts_once`, `reconcile_source_volume_identities` and the check inside
`vault_local_access`; `note_full_local_scan_completed` is the only function that takes the
demand for a scan out of it.

* `vaultLocalAccess`: the answer for a root, and what the check leaves in the gate;
* `MountState.Down`: the gate says that the mount is lost or is another one;
* `MountState.Gated`: a scan is demanded, or will be as soon as the mount is the expected one;
* `Keeps`: what an operation may do to a gate: it stays gated, and when it goes down it is
  gated;
* `keeps_vaultLocalAccess`, `keeps_reconcile`, `keeps_verifyMountsOnce`: all but the
  completion of a scan do no more;
* `open_of_allowed`: work is allowed behind an open gate only.
-/

namespace Frostvault

/-! ### Volumes -/

/-- The texts of `volume_health` and `identity_health`. -/
inductive VolumeHealth
  | ok
  | readOnly
  | inaccessible
  | absent
  | replaced
  | identityAmbiguous
  | identityUnsupported
  | mountLost
  | scanRequired
  | unavailable
  deriving DecidableEq, Repr

/-- A `MountIdentityError`, by what its text says. -/
inductive MountIdentityError
  | ambiguous
  | other
  deriving DecidableEq, Repr

/-- `_identity_error_health`. -/
def identityErrorHealth : MountIdentityError → VolumeHealth
  | .ambiguous => .identityAmbiguous
  | .other => .identityUnsupported

/-- One mount directly under the sources root, and what its mount metadata hashes to. -/
structure SourceVolume where
  accessible : Bool
  writable : Bool
  fingerprint : Except MountIdentityError String

/-- `volume.access = "rw"`. -/
def SourceVolume.readWrite (v : SourceVolume) : Bool := v.accessible && v.writable

/-- `volume.health` in `discover_source_volumes`. -/
def SourceVolume.health (v : SourceVolume) : VolumeHealth :=
  if !v.accessible then .inaccessible else if v.readWrite then .ok else .readOnly

/-- A row of `source_volumes`, as far as it is compared. -/
structure VolumeIdentity where
  version : String
  expected : String
  deriving DecidableEq, Repr

/-- `FINGERPRINT_VERSION`. -/
def fingerprintVersion : String := "linux-mountinfo-v1"

/-! ### The gate of an alias -/

/-- An entry of `_runtime_mount_state`; a missing key reads as the default. -/
structure MountState where
  lost : Bool := false
  needsScan : Bool := false
  identityHealth : Option VolumeHealth := none
  deriving DecidableEq, Repr

/-- The entry of an alias, as `.get(alias, {})` reads it. -/
def gateOf (entry : Option MountState) : MountState := entry.getD {}

/-- The healths that block before anything is probed. -/
def VolumeHealth.unsafeIdentity : VolumeHealth → Bool
  | .absent | .replaced | .identityAmbiguous | .identityUnsupported => true
  | _ => false

/-- The healths after which `reconcile_source_volume_identities` demands a scan. -/
def VolumeHealth.otherMount : VolumeHealth → Bool
  | .replaced | .identityAmbiguous | .identityUnsupported => true
  | _ => false

/-- `note_mount_lost`. -/
def noteMountLost : MountState := { lost := true, needsScan := true }

/-- `note_mount_returned`. -/
def noteMountReturned (entry : Option MountState) : MountState :=
  { gateOf entry with lost := false, needsScan := true }

/-- `note_full_local_scan_completed`: the whole entry goes unless the mount is lost. -/
def noteFullLocalScanCompleted : Option MountState → Option MountState
  | none => none
  | some st => if st.lost then some { st with needsScan := false } else none

/-- `requires_full_local_scan`. -/
def requiresFullLocalScan (entry : Option MountState) : Bool := (gateOf entry).needsScan

/-- The two tests of `vault_local_access` on the entry: the health it blocks with. -/
def gateBlocks (st : MountState) : Option VolumeHealth :=
  match st.identityHealth.filter VolumeHealth.unsafeIdentity with
  | some health => some health
  | none => if st.lost then some .mountLost else none

/-- What an identity check writes: the health it found, and a demand for a scan when the
health before was one of `after`. -/
def MountState.observed (st : MountState) (after : VolumeHealth → Bool) (health : VolumeHealth) :
    MountState where
  lost := false
  needsScan := st.needsScan || (health = .ok && st.identityHealth.any after)
  identityHealth := some health

/-- The health `_check_live_volume_identity` finds. -/
def liveIdentityHealth (expected : Option VolumeIdentity) (v : SourceVolume) : VolumeHealth :=
  match v.fingerprint with
  | .error e => identityErrorHealth e
  | .ok observed =>
      match expected with
      | none => .identityUnsupported
      | some identity =>
          if identity.version ≠ fingerprintVersion then .identityUnsupported
          else if observed = identity.expected then .ok else .replaced

/-- `_check_live_volume_identity`. -/
def checkLiveVolumeIdentity (expected : Option VolumeIdentity) (v : SourceVolume)
    (entry : Option MountState) : MountState :=
  (gateOf entry).observed VolumeHealth.unsafeIdentity (liveIdentityHealth expected v)

/-- The health `reconcile_source_volume_identities` finds; a volume without a row is enrolled
with what is there. -/
def reconciledHealth (persisted : Option VolumeIdentity) (v : SourceVolume) : VolumeHealth :=
  match persisted with
  | none =>
      match v.fingerprint with
      | .error e => identityErrorHealth e
      | .ok _ => .ok
  | some identity =>
      if identity.version ≠ fingerprintVersion then .identityUnsupported
      else
        match v.fingerprint with
        | .error e => identityErrorHealth e
        | .ok observed => if observed ≠ identity.expected then .replaced else .ok

/-- What `reconcile_source_volume_identities` makes of the entry of one alias. -/
def reconcileEntry (persisted : Option VolumeIdentity) (volume : Option SourceVolume)
    (entry : Option MountState) : Option MountState :=
  match volume with
  | some v =>
      some ((gateOf entry).observed VolumeHealth.otherMount (reconciledHealth persisted v))
  | none =>
      if persisted.isSome then
        some { gateOf entry with lost := true, needsScan := true, identityHealth := some .absent }
      else entry

/-- The row of an alias after `reconcile_source_volume_identities`. -/
def enrolledIdentity (persisted : Option VolumeIdentity) (volume : Option SourceVolume) :
    Option VolumeIdentity :=
  match persisted, volume with
  | some identity, _ => some identity
  | none, some v => v.fingerprint.toOption.map (VolumeIdentity.mk fingerprintVersion)
  | none, none => none

/-- What the two loops of `verify_mounts_once` make of the entry of one alias. -/
def verifyEntry (known live : Bool) (entry : Option MountState) : Option MountState :=
  if live then
    if (gateOf entry).lost then some (noteMountReturned entry) else entry
  else if known && !(gateOf entry).lost then some noteMountLost else entry

/-! ### The process -/

/-- `MANAGED_DIR_NAME`. -/
def managedAlias : String := "managed"

/-- What `_lexical_source_alias` says about a root; `managed` is no alias of a volume. -/
inductive SourceLocation
  | invalid
  | outside
  | managed
  | custom (name : String) (reserved : name ≠ managedAlias)

/-- A row of `vaults`, as far as the gate and a scan read it. -/
structure RootRow where
  sourceRoot : String
  location : SourceLocation
  reconnectFingerprint : Option String
  active : Bool
  rootIdentity : Option String

/-- What is mounted, and what the filesystem says about a root. -/
structure MountedDisk where
  volumes : String → Option SourceVolume
  boundaryFault : String → Option MountIdentityError
  staysWithin : String → Bool
  rootIdentity : String → Option String
  layoutReady : Bool
  outsideBlocked : Bool

/-- Where a local scan is. -/
inductive ScanStage
  | walking
  | decided (completedAlias : Option String)
  | committed (completedAlias : Option String)
  deriving DecidableEq

/-- A running `_verified_local_scan`: the row it was started with, `access.volume_alias`, and
how far it is. -/
structure LocalScan where
  vault : RootRow
  volumeAlias : Option String
  stage : ScanStage

/-- The module state of `source_layout`, the two tables it reads, the disk, and the scans. -/
structure MountWorld where
  runtime : String → Option MountState
  known : String → Bool
  expected : String → Option VolumeIdentity
  enforcing : Bool
  persisted : String → Option VolumeIdentity
  rows : VaultId → Option RootRow
  scans : VaultId → Option LocalScan
  disk : MountedDisk

/-- The gate of an alias. -/
def MountWorld.gate (g : MountWorld) (name : String) : MountState := gateOf (g.runtime name)

/-- The gate of one alias is written. -/
def MountWorld.setGate (g : MountWorld) (name : String) (entry : Option MountState) :
    MountWorld :=
  { g with runtime := Function.update g.runtime name entry }

/-- `VaultLocalAccess`. -/
structure VaultLocalAccess where
  localOperationsAllowed : Bool
  cloudCatalogAllowed : Bool
  volumeAlias : Option String
  volumeHealth : VolumeHealth
  deriving DecidableEq, Repr

/-- `_blocked_vault_access`. -/
def blockedVaultAccess (name : Option String) (health : VolumeHealth) : VaultLocalAccess :=
  ⟨false, true, name, health⟩

/-- The fingerprint accepted for this root alone; it is read once identities are enforced. -/
def MountWorld.accepted (g : MountWorld) (row : RootRow) : Option String :=
  if g.enforcing then row.reconnectFingerprint.filter (· ≠ "") else none

/-- The answer for a root with an accepted fingerprint: the gate is not looked at. -/
def reconnectedAccess (disk : MountedDisk) (name : String) (row : RootRow) (accepted : String) :
    VaultLocalAccess :=
  match disk.volumes name with
  | none => blockedVaultAccess (some name) .absent
  | some v =>
      if v.health ≠ .ok ∨ !v.readWrite then blockedVaultAccess (some name) v.health
      else
        match v.fingerprint, disk.boundaryFault row.sourceRoot with
        | .error e, _ => blockedVaultAccess (some name) (identityErrorHealth e)
        | .ok _, some e => blockedVaultAccess (some name) (identityErrorHealth e)
        | .ok observed, none =>
            if observed ≠ accepted then blockedVaultAccess (some name) .replaced
            else if !disk.staysWithin row.sourceRoot then
              blockedVaultAccess (some name) .unavailable
            else ⟨true, true, some name, .ok⟩

/-- The answer behind a gate that does not block; a volume that is `inaccessible` has been
answered before. -/
def openAccess (disk : MountedDisk) (name : String) (row : RootRow) (v : SourceVolume)
    (st : MountState) : VaultLocalAccess :=
  let health := if st.needsScan then .scanRequired else v.health
  if !disk.staysWithin row.sourceRoot then blockedVaultAccess (some name) .unavailable
  else ⟨health = .ok && v.readWrite, true, some name, health⟩

/-- Once identities are enforced, the live mount is compared before an answer. -/
def MountWorld.afterIdentityCheck (g : MountWorld) (name : String) (v : SourceVolume) :
    MountWorld :=
  if g.enforcing then
    g.setGate name (some (checkLiveVolumeIdentity (g.expected name) v (g.runtime name)))
  else g

/-- The answer for a root without one, and the process after the check of the live mount. -/
def gatedAccess (g : MountWorld) (name : String) (row : RootRow) :
    VaultLocalAccess × MountWorld :=
  match gateBlocks (g.gate name) with
  | some health => (blockedVaultAccess (some name) health, g)
  | none =>
      match g.disk.volumes name with
      | none => (blockedVaultAccess (some name) .absent, g)
      | some v =>
          if v.health = .inaccessible then (blockedVaultAccess (some name) .inaccessible, g)
          else
            match gateBlocks ((g.afterIdentityCheck name v).gate name) with
            | some health =>
                (blockedVaultAccess (some name) health, g.afterIdentityCheck name v)
            | none =>
                (openAccess g.disk name row v ((g.afterIdentityCheck name v).gate name),
                  g.afterIdentityCheck name v)

/-- **`vault_local_access`.**  The answer for a root, and the process after it. -/
def vaultLocalAccess (g : MountWorld) (row : RootRow) : VaultLocalAccess × MountWorld :=
  match row.location with
  | .invalid => (blockedVaultAccess none .unavailable, g)
  | .outside =>
      if g.disk.outsideBlocked then (blockedVaultAccess none .unavailable, g)
      else (⟨true, true, none, .ok⟩, g)
  | .managed =>
      if !g.disk.layoutReady || !g.disk.staysWithin row.sourceRoot then
        (blockedVaultAccess (some managedAlias) .unavailable, g)
      else (⟨true, true, some managedAlias, .ok⟩, g)
  | .custom name _ =>
      match g.accepted row with
      | some accepted => (reconnectedAccess g.disk name row accepted, g)
      | none => gatedAccess g name row

/-- A scan may run: work is allowed, or a scan is what is missing. -/
def VaultLocalAccess.scannable (access : VaultLocalAccess) : Bool :=
  access.localOperationsAllowed || access.volumeHealth = .scanRequired

/-- `reconcile_source_volume_identities`.  Each turn of its loops is about one alias. -/
def reconcileSourceVolumeIdentities (g : MountWorld) : MountWorld :=
  { g with
    runtime := fun name => reconcileEntry (g.persisted name) (g.disk.volumes name) (g.runtime name)
    persisted := fun name => enrolledIdentity (g.persisted name) (g.disk.volumes name)
    expected := fun name => enrolledIdentity (g.persisted name) (g.disk.volumes name)
    known := fun name => g.known name || (g.disk.volumes name).isSome
    enforcing := true }

/-- The two loops of `verify_mounts_once`. -/
def verifyKnownMounts (g : MountWorld) : MountWorld :=
  { g with
    runtime := fun name =>
      verifyEntry (g.known name) (g.disk.volumes name).isSome (g.runtime name)
    known := fun name => g.known name || (g.disk.volumes name).isSome }

/-- `verify_mounts_once`. -/
def verifyMountsOnce (g : MountWorld) : MountWorld :=
  if g.enforcing then reconcileSourceVolumeIdentities (verifyKnownMounts g)
  else verifyKnownMounts g

/-! ### What an operation may do to a gate -/

/-- The gate says that the mount is lost, or that it is not the expected one. -/
def MountState.Down (st : MountState) : Prop := (gateBlocks st).isSome

/-- A scan is demanded, or will be by whoever finds the expected mount again. -/
def MountState.Gated (st : MountState) : Prop :=
  st.needsScan ∨ (¬st.lost ∧ st.identityHealth.any VolumeHealth.otherMount)

instance (st : MountState) : Decidable st.Down :=
  inferInstanceAs (Decidable ((gateBlocks st).isSome = true))

/-- A gated gate stays gated, and a gate that goes down is gated. -/
structure Keeps (st st' : MountState) : Prop where
  gated : st.Gated → st'.Gated
  down : st'.Down → st.Down ∨ st'.Gated

variable {st st' st'' : MountState}

lemma Keeps.refl (st : MountState) : Keeps st st := ⟨id, Or.inl⟩

lemma Keeps.trans (h : Keeps st st') (h' : Keeps st' st'') : Keeps st st'' := by
  refine ⟨fun hg => h'.gated (h.gated hg), fun hd => ?_⟩
  rcases h'.down hd with hd' | hg
  · exact (h.down hd').imp_right h'.gated
  · exact Or.inr hg

/-- What writes the demand for a scan is free in all else. -/
lemma keeps_of_needsScan (h : st'.needsScan) : Keeps st st' :=
  ⟨fun _ => Or.inl h, fun _ => Or.inr (Or.inl h)⟩

lemma down_iff : st.Down ↔ st.identityHealth.any VolumeHealth.unsafeIdentity ∨ st.lost := by
  unfold MountState.Down gateBlocks
  rcases st.identityHealth with _ | health
  · cases st.lost <;> simp
  · cases health <;> cases st.lost <;> simp [VolumeHealth.unsafeIdentity, Option.filter]

/-- What an identity check can find. -/
def VolumeHealth.Observable (health : VolumeHealth) : Prop :=
  health = .ok ∨ health.otherMount = true

lemma observable_identityErrorHealth (e : MountIdentityError) :
    (identityErrorHealth e).Observable := by
  cases e <;> exact Or.inr rfl

lemma observable_liveIdentityHealth (expected : Option VolumeIdentity) (v : SourceVolume) :
    (liveIdentityHealth expected v).Observable := by
  unfold liveIdentityHealth
  split
  · exact observable_identityErrorHealth _
  · split
    · exact Or.inr rfl
    · split_ifs
      · exact Or.inr rfl
      · exact Or.inl rfl
      · exact Or.inr rfl

lemma observable_reconciledHealth (persisted : Option VolumeIdentity) (v : SourceVolume) :
    (reconciledHealth persisted v).Observable := by
  unfold reconciledHealth
  split
  · split
    · exact observable_identityErrorHealth _
    · exact Or.inl rfl
  · split_ifs
    · exact Or.inr rfl
    · split
      · exact observable_identityErrorHealth _
      · split_ifs
        · exact Or.inr rfl
        · exact Or.inl rfl

variable {health : VolumeHealth}

/-- **An identity check keeps the gate.**  What it writes is gated when it finds another
mount, and when it finds the expected one again it demands the scan. -/
lemma keeps_observed {after : VolumeHealth → Bool}
    (hafter : ∀ h : VolumeHealth, h.otherMount → after h) (hobs : health.Observable) :
    Keeps st (st.observed after health) := by
  rcases hobs with rfl | hother
  · refine ⟨fun hg => Or.inl ?_, fun hd => ?_⟩
    · rcases hg with hscan | ⟨-, hhealth⟩
      · simp [MountState.observed, hscan]
      · obtain ⟨h, hh, hmount⟩ := (Option.any_eq_true _ _).mp hhealth
        simp [MountState.observed, hh, hafter h hmount]
    · simp [down_iff, MountState.observed, VolumeHealth.unsafeIdentity] at hd
  · have hg : (st.observed after health).Gated := by
      refine Or.inr ⟨by simp [MountState.observed], ?_⟩
      simp [MountState.observed, hother]
    exact ⟨fun _ => hg, fun _ => Or.inr hg⟩

lemma unsafeIdentity_of_otherMount (h : health.otherMount) :
    health.unsafeIdentity := by
  cases health <;> simp_all [VolumeHealth.otherMount, VolumeHealth.unsafeIdentity]

lemma keeps_checkLiveVolumeIdentity (expected : Option VolumeIdentity) (v : SourceVolume)
    (entry : Option MountState) :
    Keeps (gateOf entry) (checkLiveVolumeIdentity expected v entry) :=
  keeps_observed (fun _ h => unsafeIdentity_of_otherMount h)
    (observable_liveIdentityHealth expected v)

lemma keeps_reconcileEntry (persisted : Option VolumeIdentity) (volume : Option SourceVolume)
    (entry : Option MountState) :
    Keeps (gateOf entry) (gateOf (reconcileEntry persisted volume entry)) := by
  unfold reconcileEntry
  split
  · exact keeps_observed (fun _ h => h) (observable_reconciledHealth _ _)
  · split_ifs
    · exact keeps_of_needsScan rfl
    · exact Keeps.refl _

lemma keeps_verifyEntry (known live : Bool) (entry : Option MountState) :
    Keeps (gateOf entry) (gateOf (verifyEntry known live entry)) := by
  unfold verifyEntry
  split_ifs
  · exact keeps_of_needsScan rfl
  · exact Keeps.refl _
  · exact keeps_of_needsScan rfl
  · exact Keeps.refl _

/-! ### The functions keep the gate -/

variable (g : MountWorld) (name : String)

@[simp]
lemma gate_setGate_self (entry : Option MountState) :
    (g.setGate name entry).gate name = gateOf entry := by
  simp [MountWorld.gate, MountWorld.setGate]

@[simp]
lemma gate_setGate_of_ne {name other : String} (h : other ≠ name) (entry : Option MountState) :
    (g.setGate name entry).gate other = g.gate other := by
  simp [MountWorld.gate, MountWorld.setGate, h]

lemma keeps_reconcile :
    Keeps (g.gate name) ((reconcileSourceVolumeIdentities g).gate name) :=
  keeps_reconcileEntry _ _ _

lemma keeps_verifyMountsOnce : Keeps (g.gate name) ((verifyMountsOnce g).gate name) := by
  have hverify : Keeps (g.gate name) ((verifyKnownMounts g).gate name) :=
    keeps_verifyEntry _ _ _
  unfold verifyMountsOnce
  split_ifs
  · exact hverify.trans (keeps_reconcile _ name)
  · exact hverify

/-- A checked mount leaves its own gate written, and only that. -/
lemma keeps_afterIdentityCheck (checked : String) (v : SourceVolume) :
    Keeps (g.gate name) ((g.afterIdentityCheck checked v).gate name) := by
  unfold MountWorld.afterIdentityCheck
  split_ifs
  · by_cases h : name = checked
    · subst h
      rw [gate_setGate_self]
      exact keeps_checkLiveVolumeIdentity _ _ _
    · rw [gate_setGate_of_ne _ h]
      exact Keeps.refl _
  · exact Keeps.refl _

lemma scans_afterIdentityCheck (checked : String) (v : SourceVolume) :
    (g.afterIdentityCheck checked v).scans = g.scans := by
  unfold MountWorld.afterIdentityCheck
  split_ifs <;> rfl

lemma ne_scanRequired_of_gateBlocks (h : gateBlocks st = some health) :
    health ≠ .scanRequired := by
  unfold gateBlocks at h
  split at h
  · rename_i heq
    obtain ⟨-, hunsafe⟩ := Option.filter_eq_some_iff.mp heq
    rw [← Option.some.inj h]
    rintro rfl
    cases hunsafe
  · split_ifs at h
    rw [← Option.some.inj h]
    decide

/-- **What `vault_local_access` does behind the gate.**  It answers with a block, before or
after the check of the mount, or lets through a mount that was checked. -/
lemma gatedAccess_cases (row : RootRow) :
    (∃ health, health ≠ VolumeHealth.scanRequired ∧
      (gatedAccess g name row).1 = blockedVaultAccess (some name) health ∧
      ((gatedAccess g name row).2 = g ∨
        ∃ v, (gatedAccess g name row).2 = g.afterIdentityCheck name v)) ∨
    ∃ v, gateBlocks ((g.afterIdentityCheck name v).gate name) = none ∧
      gatedAccess g name row =
        (openAccess g.disk name row v ((g.afterIdentityCheck name v).gate name),
          g.afterIdentityCheck name v) := by
  unfold gatedAccess
  cases hblocks : gateBlocks (g.gate name) with
  | some health =>
      exact Or.inl ⟨health, ne_scanRequired_of_gateBlocks hblocks, rfl, Or.inl rfl⟩
  | none =>
      cases g.disk.volumes name with
      | none => exact Or.inl ⟨.absent, by decide, rfl, Or.inl rfl⟩
      | some v =>
          dsimp only
          split_ifs
          · exact Or.inl ⟨.inaccessible, by decide, rfl, Or.inl rfl⟩
          · cases hafter : gateBlocks ((g.afterIdentityCheck name v).gate name) with
            | some health =>
                exact Or.inl
                  ⟨health, ne_scanRequired_of_gateBlocks hafter, rfl, Or.inr ⟨v, rfl⟩⟩
            | none => exact Or.inr ⟨v, hafter, by simp⟩

/-- `vault_local_access` writes nothing but the gate of a mount it compared. -/
lemma vaultLocalAccess_snd (row : RootRow) :
    (vaultLocalAccess g row).2 = g ∨
      ∃ checked v, (vaultLocalAccess g row).2 = g.afterIdentityCheck checked v := by
  unfold vaultLocalAccess
  split
  · exact Or.inl rfl
  · split_ifs <;> exact Or.inl rfl
  · split_ifs <;> exact Or.inl rfl
  · split
    · exact Or.inl rfl
    · rcases gatedAccess_cases g _ row with ⟨-, -, -, h | ⟨v, h⟩⟩ | ⟨v, -, h⟩
      · exact Or.inl h
      · exact Or.inr ⟨_, v, h⟩
      · exact Or.inr ⟨_, v, by rw [h]⟩

lemma keeps_vaultLocalAccess (row : RootRow) :
    Keeps (g.gate name) ((vaultLocalAccess g row).2.gate name) := by
  rcases vaultLocalAccess_snd g row with h | ⟨checked, v, h⟩
  · rw [h]
    exact Keeps.refl _
  · rw [h]
    exact keeps_afterIdentityCheck g name checked v

@[simp]
lemma scans_vaultLocalAccess (row : RootRow) : (vaultLocalAccess g row).2.scans = g.scans := by
  rcases vaultLocalAccess_snd g row with h | ⟨checked, v, h⟩ <;> rw [h]
  exact scans_afterIdentityCheck g checked v

lemma scans_verifyMountsOnce : (verifyMountsOnce g).scans = g.scans := by
  unfold verifyMountsOnce
  split_ifs <;> rfl

/-! ### Which gate lets work through -/

variable {g} {name}

/-- **Nothing runs behind a gate that is down.**  An answer on which a scan may run was given
for a gate that is up, and when it allows work no scan is demanded. -/
lemma open_of_scannable {row : RootRow} (h : (gatedAccess g name row).1.scannable) :
    ¬((gatedAccess g name row).2.gate name).Down ∧
      ((gatedAccess g name row).1.localOperationsAllowed →
        ((gatedAccess g name row).2.gate name).needsScan = false) := by
  rcases gatedAccess_cases g name row with ⟨health, hne, hblocked, -⟩ | ⟨v, hup, hopen⟩
  · rw [hblocked] at h
    simp [VaultLocalAccess.scannable, blockedVaultAccess, hne] at h
  · rw [hopen]
    refine ⟨by simp [MountState.Down, hup], fun hallowed => ?_⟩
    by_contra hscan
    rw [Bool.not_eq_false] at hscan
    simp only [openAccess, hscan, if_true] at hallowed
    split_ifs at hallowed <;> simp [blockedVaultAccess] at hallowed

/-- A root without an accepted fingerprint is answered behind the gate of its alias. -/
lemma vaultLocalAccess_custom {row : RootRow} {reserved : name ≠ managedAlias}
    (hloc : row.location = .custom name reserved) (haccepted : g.accepted row = none) :
    vaultLocalAccess g row = gatedAccess g name row := by
  simp only [vaultLocalAccess, hloc, haccepted]

/-- A gate that is up and demands no scan will not demand one either. -/
lemma not_gated_of_up (hup : ¬st.Down) (hscan : st.needsScan = false) : ¬st.Gated := by
  rintro (h | ⟨-, h⟩)
  · rw [hscan] at h
    cases h
  · obtain ⟨health, hhealth, hother⟩ := (Option.any_eq_true _ _).mp h
    refine hup (down_iff.mpr (Or.inl ?_))
    rw [hhealth]
    exact unsafeIdentity_of_otherMount hother

/-- **Work is allowed behind an open gate only.** -/
lemma not_gated_of_allowed {row : RootRow} {reserved : name ≠ managedAlias}
    (hloc : row.location = .custom name reserved) (haccepted : g.accepted row = none)
    (h : (vaultLocalAccess g row).1.localOperationsAllowed) : ¬(g.gate name).Gated := by
  have hkeeps := keeps_vaultLocalAccess g name row
  rw [vaultLocalAccess_custom hloc haccepted] at h hkeeps
  have hopen := @open_of_scannable g name row (by simp [VaultLocalAccess.scannable, h])
  intro hgated
  exact not_gated_of_up hopen.1 (hopen.2 h) (hkeeps.gated hgated)

end Frostvault
