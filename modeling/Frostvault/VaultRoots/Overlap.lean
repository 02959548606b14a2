import Frostvault.VaultRoots.Adoption

/-!
The roots of the Vaults do not overlap.

Roots are stored resolved, so two of them overlap exactly when one path begins with the other.
A reconnection compares such paths.  An adoption compares the path as it was spelled in the
request, and a spelling that crosses a link says nothing about the directory it leads to.

* `pathsOverlap_slashed`: what the comparison of texts decides;
* `RootsPlaced`: every root that is held is real and lies in a Source Volume or is a folder of
  its own; `rootsPlaced_step`: every step keeps this;
* `disjoint_insertVault`, `disjoint_setRoot`: when a new root overlaps none;
* `roots_disjoint_iff`: **the roots stay disjoint exactly when no adoption leads through a link
  to, into or around a root that is held**;
* `adoption_through_link_overlaps`: a run in which two Vaults share a root.
-/

namespace Frostvault

open Runs List LinkedTree

variable {w w' : RootWorld} {p q root : DirPath} {volume : EntryName}

/-! ### Texts and paths -/

/-- One path begins with the other. -/
def Overlapping (p q : DirPath) : Prop := p <+: q ∨ q <+: p

instance (p q : DirPath) : Decidable (Overlapping p q) := inferInstanceAs (Decidable (_ ∨ _))

lemma Overlapping.symm (h : Overlapping p q) : Overlapping q p := Or.symm h

lemma EntryName.text_injective : Function.Injective EntryName.text := by
  rintro ⟨a, ha⟩ ⟨b, hb⟩ h
  cases h
  rfl

/-- The names of a path join to texts that can be told apart. -/
lemma mem_map_text (p : DirPath) : ∀ c ∈ p.map EntryName.text, c ≠ [] ∧ '/' ∉ c := by
  intro c hc
  obtain ⟨n, -, rfl⟩ := mem_map.mp hc
  exact ⟨n.names.1, n.names.2.1⟩

lemma slashed_injective (h : slashed p = slashed q) : p = q :=
  EntryName.text_injective.list_map
    (Text.intercalate_injective '/' (mem_map_text p) (mem_map_text q) h)

lemma slashed_eq_nil_iff : slashed p = [] ↔ p = [] :=
  ⟨fun h => slashed_injective h, fun h => by rw [h]; rfl⟩

/-- The text of a path with a slash begins the text of the paths below it. -/
lemma slashed_append_prefix_iff (hp : p ≠ []) :
    slashed p ++ ['/'] <+: slashed q ↔ p <+: q ∧ p ≠ q := by
  rw [slashed, slashed, Text.append_sep_prefix_intercalate '/' fun c hc => (mem_map_text q c hc).2]
  simp only [length_map, ← map_take]
  constructor
  · rintro ⟨i, -, hi, h⟩
    obtain rfl := slashed_injective h
    refine ⟨List.take_prefix i q, fun heq => ?_⟩
    have hlen := congrArg List.length heq
    rw [length_take] at hlen
    omega
  · rintro ⟨hpre, hne⟩
    have hlen : p.length < q.length := by
      refine lt_of_le_of_ne hpre.length_le fun h => hne (hpre.eq_of_length h)
    refine ⟨p.length, length_pos_of_ne_nil hp, hlen, ?_⟩
    rw [← prefix_iff_eq_take.mp hpre]

/-- **`paths_overlap` decides whether two paths overlap.** -/
lemma pathsOverlap_slashed : pathsOverlap (slashed p) (slashed q) ↔ Overlapping p q := by
  simp only [pathsOverlap, Bool.or_eq_true, decide_eq_true_eq, isPrefixOf_iff_prefix,
    slashed_eq_nil_iff]
  constructor
  · rintro ((((h | rfl) | rfl) | h) | h)
    · rw [slashed_injective h]
      exact .inl (prefix_refl q)
    · exact .inl nil_prefix
    · exact .inr nil_prefix
    · rcases eq_or_ne q [] with rfl | hq
      · exact .inr nil_prefix
      · exact .inr ((slashed_append_prefix_iff hq).mp h).1
    · rcases eq_or_ne p [] with rfl | hp
      · exact .inl nil_prefix
      · exact .inl ((slashed_append_prefix_iff hp).mp h).1
  · intro h
    by_cases heq : p = q
    · exact .inl (.inl (.inl (.inl (by rw [heq]))))
    · rcases eq_or_ne p [] with rfl | hp
      · exact .inl (.inl (.inl (.inr rfl)))
      · rcases eq_or_ne q [] with rfl | hq
        · exact .inl (.inl (.inr rfl))
        · rcases h with h | h
          · exact .inr ((slashed_append_prefix_iff hp).mpr ⟨h, heq⟩)
          · exact .inl (.inr ((slashed_append_prefix_iff hq).mpr ⟨h, Ne.symm heq⟩))

/-- Paths below a directory overlap as what is left of them does. -/
lemma overlapping_append_iff {base : DirPath} :
    Overlapping (base ++ p) (base ++ q) ↔ Overlapping p q := by
  simp only [Overlapping, prefix_append_right_inj]

/-! ### What is known of the roots -/

/-- Two Vaults that hold their roots have overlapping ones in the filesystem. -/
def RootsOverlap (fs : Filesystem) (u v : VaultRoot) : Prop :=
  ∃ p q, fs.resolve u.sourceRoot = some p ∧ fs.resolve v.sourceRoot = some q ∧ Overlapping p q

/-- **No two held roots overlap.** -/
def DisjointRoots (w : RootWorld) : Prop :=
  w.occupied.Pairwise fun u v => ¬RootsOverlap w.fs u v

/-- The root lies in a Source Volume, or is a folder of its own among the managed ones. -/
def Placed (fs : Filesystem) (root : DirPath) : Prop :=
  (∃ volume, volume ≠ managedDirName ∧ fs.volumePath volume <+: root) ∨
    ∃ uuid, root = fs.sources ++ [managedDirName, uuid]

/-- Every root that is held is real and placed, and the ids are told apart. -/
structure RootsPlaced (w : RootWorld) : Prop where
  real : ∀ vault ∈ w.occupied, Real w.fs.tree vault.sourceRoot
  placed : ∀ vault ∈ w.occupied, Placed w.fs vault.sourceRoot
  ids_nodup : (w.vaults.map VaultRoot.id).Nodup

variable {fs fs' : Filesystem} {id : VaultId} {relative : DirPath} {vault : VaultRoot}
  {volumeAlias : List Char}

lemma mem_occupied :
    vault ∈ w.occupied ↔ vault ∈ w.vaults ∧ vault.rootReleased = false := by
  simp [RootWorld.occupied]

/-- Real roots overlap as their paths do. -/
lemma rootsOverlap_iff {u v : VaultRoot} (hu : Real fs.tree u.sourceRoot)
    (hv : Real fs.tree v.sourceRoot) :
    RootsOverlap fs u v ↔ Overlapping u.sourceRoot v.sourceRoot := by
  constructor
  · rintro ⟨p, q, hp, hq, h⟩
    cases (resolve_of_real hu).symm.trans hp
    cases (resolve_of_real hv).symm.trans hq
    exact h
  · exact fun h => ⟨_, _, resolve_of_real hu, resolve_of_real hv, h⟩

lemma RootsPlaced.disjointRoots_iff (hw : RootsPlaced w) : DisjointRoots w ↔
    w.occupied.Pairwise fun u v => ¬Overlapping u.sourceRoot v.sourceRoot := by
  refine List.Pairwise.iff_of_mem fun hu hv => not_congr ?_
  exact rootsOverlap_iff (hw.real _ hu) (hw.real _ hv)

lemma hasIdentity_iff : fs.hasIdentity p ↔ Real fs.tree p := by
  rw [Filesystem.hasIdentity, decide_eq_true_eq, Filesystem.resolve, resolve_eq_self_iff]

/-! ### A new root -/

/-- The path overlaps no root that is held. -/
def Clear (w : RootWorld) (root : DirPath) : Prop :=
  ∀ vault ∈ w.occupied, ¬Overlapping root vault.sourceRoot

lemma occupied_insertVault (w : RootWorld) (root : DirPath) :
    (w.insertVault root).occupied =
      w.occupied ++ [⟨Catalog.fresh (w.vaults.map VaultRoot.id), root, true, false⟩] := by
  simp [RootWorld.occupied, RootWorld.insertVault, filter_append]

lemma rootsPlaced_insertVault (hw : RootsPlaced w) (hreal : Real w.fs.tree root)
    (hplaced : Placed w.fs root) : RootsPlaced (w.insertVault root) where
  real vault hvault := by
    rw [occupied_insertVault] at hvault
    rcases mem_append.mp hvault with h | h
    · exact hw.real vault h
    · rw [mem_singleton.mp h]
      exact hreal
  placed vault hvault := by
    rw [occupied_insertVault] at hvault
    rcases mem_append.mp hvault with h | h
    · exact hw.placed vault h
    · rw [mem_singleton.mp h]
      exact hplaced
  ids_nodup := by
    simp only [RootWorld.insertVault, map_append, map_cons, map_nil]
    rw [← concat_eq_append]
    exact hw.ids_nodup.concat fun h => lt_irrefl _ (Catalog.lt_fresh h)

/-- **A new root**: the roots stay disjoint exactly when it overlaps none. -/
lemma disjoint_insertVault (hw : RootsPlaced w) (hreal : Real w.fs.tree root)
    (hplaced : Placed w.fs root) (hd : DisjointRoots w) :
    DisjointRoots (w.insertVault root) ↔ Clear w root := by
  rw [(rootsPlaced_insertVault hw hreal hplaced).disjointRoots_iff, occupied_insertVault,
    pairwise_append]
  simp only [pairwise_singleton, mem_singleton, true_and, forall_eq]
  constructor
  · exact fun h vault hvault hover => h.2 vault hvault hover.symm
  · exact fun h => ⟨hw.disjointRoots_iff.mp hd, fun vault hvault hover => h vault hvault hover.symm⟩

/-- In different places below the sources root nothing overlaps. -/
lemma volumePath_prefix_of_overlapping {place : EntryName} {p q : DirPath}
    (hp : fs.volumePath place <+: p) (hq : ∃ place', fs.volumePath place' <+: q)
    (h : Overlapping p q) : fs.volumePath place <+: q := by
  obtain ⟨place', hq⟩ := hq
  have hlen : (fs.volumePath place).length ≤ (fs.volumePath place').length := by
    simp [Filesystem.volumePath]
  rcases h with h | h
  · exact hp.trans h
  · have hsame := (prefix_of_prefix_length_le hp (hq.trans h) hlen).trans hq
    exact hsame

lemma Placed.exists_volumePath (h : Placed fs root) :
    ∃ place, fs.volumePath place <+: root := by
  obtain ⟨volume, -, hpre⟩ | ⟨uuid, rfl⟩ := h
  · exact ⟨volume, hpre⟩
  · exact ⟨managedDirName, [uuid], by simp [Filesystem.volumePath]⟩

lemma volumePath_injective {n m : EntryName}
    (hn : fs.volumePath n <+: root) (hm : fs.volumePath m <+: root) : n = m := by
  have hlen : (fs.volumePath n).length = (fs.volumePath m).length := by
    simp [Filesystem.volumePath]
  have heq := (prefix_of_prefix_length_le hn hm hlen.le).eq_of_length hlen
  simpa [Filesystem.volumePath] using heq

/-! ### Adoption -/

/-- A root that is held and lies below the volume is among the occupied ones. -/
lemma mem_occupiedVaultRoots (hw : RootsPlaced w) (h : vault ∈ w.occupied)
    {rest : DirPath} (hroot : vault.sourceRoot = w.fs.volumePath volume ++ rest) :
    rest ∈ occupiedVaultRoots w (w.fs.volumePath volume) := by
  have hresolve : w.fs.resolve vault.sourceRoot = some vault.sourceRoot :=
    resolve_of_real (hw.real vault h)
  refine mem_filterMap.mpr ⟨vault, h, ?_⟩
  have hpre : w.fs.volumePath volume <+: vault.sourceRoot := hroot ▸ prefix_append _ rest
  rw [if_pos hpre, hresolve, Option.getD_some, if_pos hpre, hroot, drop_left]

/-- A spelling that the check accepts overlaps no root that is held. -/
lemma clear_of_noVaultOverlap (hw : RootsPlaced w)
    (h : noVaultOverlap w (w.fs.volumePath volume) relative) :
    Clear w (w.fs.volumePath volume ++ relative) := by
  intro vault hvault hover
  have hpre : w.fs.volumePath volume <+: vault.sourceRoot :=
    volumePath_prefix_of_overlapping (prefix_append _ relative)
      (hw.placed vault hvault).exists_volumePath hover
  obtain ⟨rest, hrest⟩ := hpre
  have hmem := mem_occupiedVaultRoots hw hvault hrest.symm
  have hapart := all_eq_true.mp h rest hmem
  rw [Bool.not_eq_true', ← Bool.not_eq_true, pathsOverlap_slashed] at hapart
  rw [← hrest, overlapping_append_iff] at hover
  exact hapart hover

/-- What an adoption has checked. -/
structure AdoptedRoot (w : RootWorld) (volume : EntryName) (relative root : DirPath) : Prop where
  unmanaged : volume ≠ managedDirName
  resolved : w.fs.resolve (w.fs.volumePath volume ++ relative) = some root
  inside : w.fs.volumePath volume <+: root
  apart : noVaultOverlap w (w.fs.volumePath volume) relative = true

lemma volume?_eq_some (h : fs.volume? volumeAlias = some volume) : volume ≠ managedDirName := by
  simp only [Filesystem.volume?, Option.bind_eq_bind, Option.bind_eq_some_iff,
    Option.guard_eq_some', exists_const, Option.some.injEq] at h
  obtain ⟨_, -, ⟨hne, -⟩, rfl⟩ := h
  exact hne

lemma adoptedRoot_of_resolveAdoptionCandidate {relativePath : List Char}
    (h : resolveAdoptionCandidate w volumeAlias relativePath = some root) :
    ∃ volume relative, w.fs.volume? (Text.strip isSpace volumeAlias) = some volume ∧
      canonicalizeRelativePath relativePath = some relative ∧
        AdoptedRoot w volume relative root := by
  simp only [resolveAdoptionCandidate, resolveDirectory, Option.bind_eq_bind,
    Option.bind_eq_some_iff, Option.guard_eq_some', exists_const, Option.some.injEq] at h
  obtain ⟨volume, hvolume, relative, hrelative, target, ⟨-, _, hresolve, hinside, rfl⟩, -, hapart,
    rfl⟩ := h
  have hunmanaged := volume?_eq_some hvolume
  exact ⟨volume, relative, hvolume, hrelative, hunmanaged, hresolve, hinside, hapart⟩

lemma AdoptedRoot.real (h : AdoptedRoot w volume relative root) :
    Real w.fs.tree root := resolve_real h.resolved

lemma AdoptedRoot.placed (h : AdoptedRoot w volume relative root) :
    Placed w.fs root := .inl ⟨volume, h.unmanaged, h.inside⟩

/-- **When an adoption goes wrong**: only where the path leads through a link. -/
def LeadsClear (w : RootWorld) : RootAct → Prop
  | .adopt volumeAlias relativePath =>
      ∀ volume relative root, w.fs.volume? (Text.strip isSpace volumeAlias) = some volume →
        canonicalizeRelativePath relativePath = some relative →
        w.fs.resolve (w.fs.volumePath volume ++ relative) = some root →
        root ≠ w.fs.volumePath volume ++ relative → Clear w root
  | _ => True

/-- An adopted root overlaps no other exactly when no link led to it, or to a free place. -/
lemma AdoptedRoot.clear_iff (hw : RootsPlaced w) {relativePath : List Char}
    (hvolume : w.fs.volume? (Text.strip isSpace volumeAlias) = some volume)
    (hrelative : canonicalizeRelativePath relativePath = some relative)
    (h : AdoptedRoot w volume relative root) :
    Clear w root ↔ LeadsClear w (.adopt volumeAlias relativePath) := by
  constructor
  · intro hclear volume' relative' root' hvolume' hrelative' hresolve' _
    cases hvolume.symm.trans hvolume'
    cases hrelative.symm.trans hrelative'
    cases h.resolved.symm.trans hresolve'
    exact hclear
  · intro hclear
    by_cases hlink : root = w.fs.volumePath volume ++ relative
    · rw [hlink]
      exact clear_of_noVaultOverlap hw h.apart
    · exact hclear volume relative root hvolume hrelative h.resolved hlink

/-! ### A folder of its own -/

lemma mkdirFree_eq_some (h : mkdirFree fs p = some fs') :
    fs.tree p = none ∧ fs'.sources = fs.sources ∧
      ∀ q, fs'.tree q = if q = p then some .directory else fs.tree q := by
  simp only [mkdirFree] at h
  split at h
  · rename_i hfree
    cases h
    exact ⟨hfree, rfl, fun _ => rfl⟩
  · cases h

/-- The filesystem has more directories. -/
structure Grows (fs fs' : Filesystem) : Prop where
  sources : fs'.sources = fs.sources
  directory : ∀ q, fs.tree q = some .directory → fs'.tree q = some .directory

lemma grows_mkdirFree (h : mkdirFree fs p = some fs') : Grows fs fs' := by
  obtain ⟨hfree, hsources, htree⟩ := mkdirFree_eq_some h
  refine ⟨hsources, fun q hq => ?_⟩
  rw [htree]
  split
  · rfl
  · exact hq

lemma grows_ensureManagedDirectory (fs : Filesystem) : Grows fs (ensureManagedDirectory fs) := by
  unfold ensureManagedDirectory
  cases h : mkdirFree fs (fs.sources ++ [managedDirName]) with
  | none => exact ⟨rfl, fun _ h => h⟩
  | some fs' => exact grows_mkdirFree h

lemma Grows.trans {fs'' : Filesystem} (h : Grows fs fs') (h' : Grows fs' fs'') :
    Grows fs fs'' :=
  ⟨h'.sources.trans h.sources, fun q hq => h'.directory q (h.directory q hq)⟩

lemma Grows.volumePath (h : Grows fs fs') (n : EntryName) :
    fs'.volumePath n = fs.volumePath n := by rw [Filesystem.volumePath, h.sources]; rfl

lemma Grows.placed (h : Grows fs fs') (hp : Placed fs root) :
    Placed fs' root := by
  obtain ⟨n, hne, hpre⟩ | ⟨uuid, rfl⟩ := hp
  · exact .inl ⟨n, hne, by rwa [h.volumePath]⟩
  · exact .inr ⟨uuid, by rw [h.sources]⟩

/-- More directories change nothing for the roots. -/
lemma RootsPlaced.grow (hw : RootsPlaced w) (h : Grows w.fs fs) :
    RootsPlaced { w with fs := fs } where
  real vault hvault := (hw.real vault hvault).mono h.directory
  placed vault hvault := h.placed (hw.placed vault hvault)
  ids_nodup := hw.ids_nodup

lemma DisjointRoots.grow (hw : RootsPlaced w) (hd : DisjointRoots w)
    (h : Grows w.fs fs) : DisjointRoots { w with fs := fs } :=
  (hw.grow h).disjointRoots_iff.mpr (hw.disjointRoots_iff.mp hd)

/-- A new folder among the managed ones overlaps no root. -/
lemma clear_managed (hw : RootsPlaced w) (hgrow : Grows w.fs fs)
    {uuid : EntryName} (hfree : fs.tree (fs.sources ++ [managedDirName, uuid]) = none) :
    Clear w (fs.sources ++ [managedDirName, uuid]) := by
  intro vault hvault hover
  rw [hgrow.sources] at hover hfree
  have hpre : w.fs.volumePath managedDirName <+: w.fs.sources ++ [managedDirName, uuid] :=
    ⟨[uuid], by simp [Filesystem.volumePath]⟩
  have hmanaged := volumePath_prefix_of_overlapping hpre
    (hw.placed vault hvault).exists_volumePath hover
  rcases hw.placed vault hvault with ⟨n, hne, hn⟩ | ⟨uuid', hroot⟩
  · exact hne (volumePath_injective hn hmanaged)
  · rw [hroot] at hover
    have hsame : uuid = uuid' := by
      rcases hover with h | h
      · simpa using h
      · exact (by simpa using h : uuid' = uuid).symm
    have hdir := (hw.real vault hvault)
    rw [hroot, ← hsame] at hdir
    have hlast : w.fs.sources ++ [managedDirName, uuid] =
        w.fs.sources ++ [managedDirName] ++ [uuid] := by simp
    rw [hlast] at hdir hfree
    rw [hgrow.directory _ hdir.directory] at hfree
    cases hfree

/-! ### Reconnection and release -/

/-- The Vaults that hold their root after one of them was reconnected. -/
lemma mem_occupied_setRoot (h : vault ∈ (w.setRoot id root).occupied) :
    ∃ old ∈ w.occupied, vault.id = old.id ∧
      vault.sourceRoot = if old.id = id then root else old.sourceRoot := by
  obtain ⟨hmem, hheld⟩ := mem_occupied.mp h
  obtain ⟨old, hold, rfl⟩ := mem_map.mp hmem
  by_cases hid : old.id = id
  · rw [if_pos hid] at hheld ⊢
    exact ⟨old, mem_occupied.mpr ⟨hold, hheld⟩, rfl, by rw [if_pos hid]⟩
  · rw [if_neg hid] at hheld ⊢
    exact ⟨old, mem_occupied.mpr ⟨hold, hheld⟩, rfl, by rw [if_neg hid]⟩

lemma rootsPlaced_setRoot (hw : RootsPlaced w) (id : VaultId) (hreal : Real w.fs.tree root)
    (hplaced : Placed w.fs root) : RootsPlaced (w.setRoot id root) where
  real vault hvault := by
    obtain ⟨old, hold, -, hroot⟩ := mem_occupied_setRoot hvault
    rw [hroot]
    split
    · exact hreal
    · exact hw.real old hold
  placed vault hvault := by
    obtain ⟨old, hold, -, hroot⟩ := mem_occupied_setRoot hvault
    rw [hroot]
    split
    · exact hplaced
    · exact hw.placed old hold
  ids_nodup := by
    have hids : (w.setRoot id root).vaults.map VaultRoot.id = w.vaults.map VaultRoot.id := by
      rw [RootWorld.setRoot, map_map]
      refine map_congr_left fun vault _ => ?_
      simp only [Function.comp_apply]
      split <;> rfl
    rw [hids]
    exact hw.ids_nodup

/-- Held roots that do not overlap, told apart by the ids of their Vaults. -/
lemma RootsPlaced.disjointRoots_iff_ids (hw : RootsPlaced w) : DisjointRoots w ↔
    ∀ u ∈ w.occupied, ∀ v ∈ w.occupied, u.id ≠ v.id → ¬Overlapping u.sourceRoot v.sourceRoot := by
  have hids : (w.occupied.map VaultRoot.id).Nodup :=
    hw.ids_nodup.sublist (filter_sublist.map VaultRoot.id)
  have hne : w.occupied.Pairwise fun u v => u.id ≠ v.id := pairwise_map.mp hids
  rw [hw.disjointRoots_iff]
  constructor
  · intro h u hu v hv huv
    have hsymm : Std.Symm fun u v : VaultRoot =>
        u.id ≠ v.id → ¬Overlapping u.sourceRoot v.sourceRoot :=
      ⟨fun u v hapart hne hover => hapart (Ne.symm hne) hover.symm⟩
    have hpair : w.occupied.Pairwise fun u v : VaultRoot =>
        u.id ≠ v.id → ¬Overlapping u.sourceRoot v.sourceRoot :=
      h.imp fun {u v} hover (_ : u.id ≠ v.id) => hover
    have hall := List.Pairwise.forall_of_forall (fun u _ hself => absurd rfl hself) hpair
    exact hall hu hv huv
  · intro h
    refine (pairwise_iff_forall_sublist.mpr ?_)
    intro u v hsub
    have huv := pairwise_iff_forall_sublist.mp hne hsub
    have hmem := hsub.subset
    exact h u (hmem (by simp)) v (hmem (by simp)) huv

/-- A reconnection to a root that overlaps no other one. -/
lemma disjoint_setRoot (hw : RootsPlaced w) (hreal : Real w.fs.tree root)
    (hplaced : Placed w.fs root) (hd : DisjointRoots w)
    (hclear : ∀ vault ∈ w.occupied, vault.id ≠ id → ¬Overlapping root vault.sourceRoot) :
    DisjointRoots (w.setRoot id root) := by
  rw [(rootsPlaced_setRoot hw id hreal hplaced).disjointRoots_iff_ids]
  intro u hu v hv hne hover
  obtain ⟨u', hu', hid, hroot⟩ := mem_occupied_setRoot hu
  obtain ⟨v', hv', hid', hroot'⟩ := mem_occupied_setRoot hv
  rw [hid, hid'] at hne
  rw [hroot, hroot'] at hover
  by_cases h : u'.id = id
  · have h' : v'.id ≠ id := fun h' => hne (h.trans h'.symm)
    rw [if_pos h, if_neg h'] at hover
    exact hclear v' hv' h' hover
  · rw [if_neg h] at hover
    by_cases h' : v'.id = id
    · rw [if_pos h'] at hover
      exact hclear u' hu' h hover.symm
    · rw [if_neg h'] at hover
      exact hw.disjointRoots_iff_ids.mp hd u' hu' v' hv' hne hover

/-- `_reject_overlap` compares paths. -/
lemma rejectOverlap_iff : rejectOverlap w id root ↔
    ∀ vault ∈ w.occupied, vault.id ≠ id → ¬Overlapping root vault.sourceRoot := by
  simp only [rejectOverlap, all_eq_true, Bool.or_eq_true, Bool.and_eq_true,
    decide_eq_true_eq, ne_eq, commonPath_eq_left_iff, commonPath_eq_right_iff, Overlapping, not_or]
  exact forall₂_congr fun vault _ => or_iff_not_imp_left

lemma mem_occupied_releaseRoot :
    vault ∈ (releaseRoot w id).occupied ↔ vault ∈ w.occupied ∧ vault.id ≠ id := by
  rw [mem_occupied, mem_occupied]
  constructor
  · rintro ⟨hmem, hheld⟩
    obtain ⟨old, hold, rfl⟩ := mem_map.mp hmem
    by_cases hid : old.id = id
    · rw [if_pos hid] at hheld
      cases hheld
    · rw [if_neg hid] at hheld ⊢
      exact ⟨⟨hold, hheld⟩, hid⟩
  · rintro ⟨⟨hold, hheld⟩, hid⟩
    exact ⟨mem_map.mpr ⟨vault, hold, if_neg hid⟩, hheld⟩

lemma rootsPlaced_releaseRoot (hw : RootsPlaced w) (id : VaultId) :
    RootsPlaced (releaseRoot w id) where
  real vault hvault := hw.real vault (mem_occupied_releaseRoot.mp hvault).1
  placed vault hvault := hw.placed vault (mem_occupied_releaseRoot.mp hvault).1
  ids_nodup := by
    have hids : (releaseRoot w id).vaults.map VaultRoot.id = w.vaults.map VaultRoot.id := by
      rw [releaseRoot, map_map]
      refine map_congr_left fun vault _ => ?_
      simp only [Function.comp_apply]
      split <;> rfl
    rw [hids]
    exact hw.ids_nodup

/-! ### Runs -/

/-- **What one step does**: the roots stay placed, and disjoint exactly when its adoption leads
to a free place. -/
lemma rootsPlaced_step {a : RootAct} (hw : RootsPlaced w) (h : rootStep w a = some w') :
    RootsPlaced w' ∧ (DisjointRoots w → (DisjointRoots w' ↔ LeadsClear w a)) := by
  cases a with
  | adopt volumeAlias relativePath =>
      simp only [rootStep, adoptVault, Option.bind_eq_bind, Option.bind_eq_some_iff,
        Option.guard_eq_some', exists_const, Option.some.injEq] at h
      obtain ⟨root, hroot, -, rfl⟩ := h
      obtain ⟨volume, relative, hvolume, hrelative, hadopted⟩ :=
        adoptedRoot_of_resolveAdoptionCandidate hroot
      refine ⟨rootsPlaced_insertVault hw hadopted.real hadopted.placed, fun hd => ?_⟩
      rw [disjoint_insertVault hw hadopted.real hadopted.placed hd]
      exact hadopted.clear_iff hw hvolume hrelative
  | createEmpty uuid =>
      simp only [rootStep, createEmptyVault, Option.bind_eq_bind, Option.bind_eq_some_iff,
        Option.guard_eq_some', exists_const, Option.some.injEq] at h
      obtain ⟨fs, hfs, hidentity, rfl⟩ := h
      have hensure := grows_ensureManagedDirectory w.fs
      have hgrow : Grows w.fs fs := hensure.trans (grows_mkdirFree hfs)
      have hplaced' := hw.grow hgrow
      have hsources : (ensureManagedDirectory w.fs).sources = fs.sources :=
        (grows_mkdirFree hfs).sources.symm
      have hreal := hasIdentity_iff.mp hidentity
      have hnew : Placed fs (fs.sources ++ [managedDirName, uuid]) := .inr ⟨uuid, rfl⟩
      rw [hsources] at hreal ⊢
      refine ⟨rootsPlaced_insertVault hplaced' hreal hnew, fun hd => ?_⟩
      rw [disjoint_insertVault hplaced' hreal hnew (hd.grow hw hgrow)]
      refine ⟨fun _ => trivial, fun _ => ?_⟩
      have hclear := clear_managed hw hensure (mkdirFree_eq_some hfs).1
      rw [hsources] at hclear
      exact hclear
  | reconnect id volumeAlias relativePath busy boundary =>
      simp only [rootStep, reconnectVaultRoot, relocationCandidate, Option.bind_eq_bind,
        Option.bind_eq_some_iff, Option.guard_eq_some', exists_const, Option.some.injEq] at h
      obtain ⟨_, -, -, volume, hvolume, root, ⟨relative, -, hresolve, -, rfl⟩, hclear, -, rfl⟩ := h
      have hreal : Real w.fs.tree (w.fs.volumePath volume ++ relative) := resolve_real hresolve
      have hplaced : Placed w.fs (w.fs.volumePath volume ++ relative) :=
        .inl ⟨volume, volume?_eq_some hvolume, prefix_append _ _⟩
      refine ⟨rootsPlaced_setRoot hw id hreal hplaced, fun hd => ⟨fun _ => trivial, fun _ => ?_⟩⟩
      exact disjoint_setRoot hw hreal hplaced hd (rejectOverlap_iff.mp hclear)
  | release id =>
      cases h
      have hplaced := rootsPlaced_releaseRoot hw id
      refine ⟨hplaced, fun hd => ⟨fun _ => trivial, fun _ => ?_⟩⟩
      rw [hplaced.disjointRoots_iff_ids]
      intro u hu v hv
      exact hw.disjointRoots_iff_ids.mp hd u (mem_occupied_releaseRoot.mp hu).1 v
        (mem_occupied_releaseRoot.mp hv).1

lemma rootsPlaced_run {as : List RootAct} (hw : RootsPlaced w)
    (h : run rootStep w as = some w') : RootsPlaced w' :=
  run_induction (fun _ _ _ hu hstep => (rootsPlaced_step hu hstep).1) hw h

lemma rootsPlaced_nil (fs : Filesystem) : RootsPlaced ⟨fs, []⟩ :=
  ⟨(fun _ h => nomatch h), (fun _ h => nomatch h), nodup_nil⟩

/-- **The roots of the Vaults do not overlap**, in every state of a run, exactly when no adoption
of the run leads through a link to, into or around a root that is held. -/
theorem roots_disjoint_iff (fs : Filesystem) {as : List RootAct}
    (hrun : run rootStep ⟨fs, []⟩ as = some w) :
    (∀ bs u, bs <+: as → run rootStep ⟨fs, []⟩ bs = some u → DisjointRoots u) ↔
      Along rootStep LeadsClear ⟨fs, []⟩ as := by
  have hnil := rootsPlaced_nil fs
  rw [← along_iff_invariant (I := fun u => RootsPlaced u ∧ DisjointRoots u)
    (fun u a u' hu hstep => ?_) ⟨hnil, List.Pairwise.nil⟩ hrun]
  · constructor
    · exact fun h bs u hbs hu => ⟨rootsPlaced_run hnil hu, h bs u hbs hu⟩
    · exact fun h bs u hbs hu => (h bs u hbs hu).2
  · obtain ⟨hplaced, hiff⟩ := rootsPlaced_step hu.1 hstep
    exact ⟨fun h => (hiff hu.2).mp h.2, fun h => ⟨hplaced, (hiff hu.2).mpr h⟩⟩

/-- The name of an entry, from its characters. -/
def entryName (c : Char) (h : NamesEntry [c] := by decide) : EntryName := ⟨[c], h⟩

/-- The Source Volumes and a volume. -/
abbrev sourcesName : EntryName := entryName 's'
abbrev volumeName : EntryName := entryName 'p'

/-- A Source Volume `p` with the directories `a`, `a/b` and `c`, and a link `l` to `a`. -/
def linkedVolume : Filesystem where
  tree := fun p =>
    if p ∈ [[sourcesName], [sourcesName, volumeName],
        [sourcesName, volumeName, entryName 'a'],
        [sourcesName, volumeName, entryName 'a', entryName 'b'],
        [sourcesName, volumeName, entryName 'c']] then some .directory
    else if p = [sourcesName, volumeName, entryName 'l'] then
      some (.link false [.down (entryName 'a')])
    else none
  maxLinks := 40
  sources := [sourcesName]
  sources_real := (real_nil _).concat (by decide)
  healthy := fun _ => true
  isMount := fun _ => false
  accessible := fun _ => true

/-- The directories `a/b` and `c` of the volume are adopted, then the first one is released. -/
theorem roots_disjoint_adopted_released : ∃ w,
    run rootStep ⟨linkedVolume, []⟩
      [.adopt ['p'] ['a', '/', 'b'], .adopt ['p'] ['c'], .release 1] = some w ∧
    ∀ bs u, bs <+: [.adopt ['p'] ['a', '/', 'b'], .adopt ['p'] ['c'], .release 1] →
      run rootStep ⟨linkedVolume, []⟩ bs = some u → DisjointRoots u := by
  have hrun : run rootStep ⟨linkedVolume, []⟩
      [.adopt ['p'] ['a', '/', 'b'], .adopt ['p'] ['c'], .release 1] = some _ := rfl
  refine ⟨_, hrun, (roots_disjoint_iff linkedVolume hrun).mpr ⟨?_, fun w₁ hw₁ =>
    ⟨?_, fun _ _ => ⟨trivial, fun _ _ => trivial⟩⟩⟩⟩
  · intro volume relative root _ _ _ _ vault hvault
    cases hvault
  · -- no link leads to `c`
    intro volume relative root hvolume hrelative hresolve hlink
    cases hw₁
    cases hvolume
    cases hrelative
    cases hresolve
    exact absurd rfl hlink

/-- `a/b` is adopted twice, the second time as `l/b`, and two Vaults hold it. -/
theorem adoption_through_link_overlaps : ¬∀ (fs : Filesystem) (as : List RootAct) (w : RootWorld),
    run rootStep ⟨fs, []⟩ as = some w → DisjointRoots w := by
  intro h
  have hrun : run rootStep ⟨linkedVolume, []⟩
      [.adopt ['p'] ['a', '/', 'b'], .adopt ['p'] ['l', '/', 'b']] = some _ := rfl
  have hplaced := rootsPlaced_run (rootsPlaced_nil linkedVolume) hrun
  have hdisjoint := hplaced.disjointRoots_iff.mp (h _ _ _ hrun)
  refine (pairwise_cons.mp hdisjoint).1 _ mem_cons_self ?_
  exact .inl (prefix_refl _)

end Frostvault
