import Frostvault.Aggregates.Rollup
import Frostvault.Lib.LinkedTree
import Frostvault.Lib.Runs

/-!
The roots of the Vaults: adoption (`app/services/source_directories.py` and `create_vault` of
`app/services/vaults.py`), the folder of an empty Vault, and the reconnection of a Vault to
another folder (`app/services/vault_relocation.py`).

Every function that allocates or releases a root holds the allocation lock, so each is one step
here.  A function that raises is `none`, and nothing is written.  The filesystem is a tree with
links; a Source Volume is a directory right below the sources root, whose own path has no link.

* `canonicalizeRelativePath`, `pathsOverlap`: the source's functions on text;
* `resolveDirectory`, `occupiedVaultRoots`, `resolveAdoptionCandidate`: adoption;
* `relocationCandidate`, `rejectOverlap`, `reconnectVaultRoot`: reconnection;
* `rootStep`: one step of the system.
-/

namespace Frostvault

open LinkedTree

/-! ### Names -/

/-- A text that names an entry of a directory. -/
def NamesEntry (text : List Char) : Prop :=
  text ≠ [] ∧ '/' ∉ text ∧ text ≠ ['.'] ∧ text ≠ ['.', '.']

instance (text : List Char) : Decidable (NamesEntry text) :=
  inferInstanceAs (Decidable (_ ∧ _ ∧ _ ∧ _))

/-- The name of an entry of a directory. -/
structure EntryName where
  text : List Char
  names : NamesEntry text
deriving DecidableEq

/-- The name with a text, when it is one. -/
def EntryName.of? (text : List Char) : Option EntryName :=
  if h : NamesEntry text then some ⟨text, h⟩ else none

/-- A path of directories, from the root of the filesystem or of a Source Volume. -/
abbrev DirPath := List EntryName

/-- Paths are compared name by name. -/
instance lawfulBEq_dirPath : LawfulBEq DirPath := inferInstance

/-- `PurePosixPath.as_posix` of a relative path; that of no name stands for `""`. -/
def slashed (p : DirPath) : List Char := ['/'].intercalate (p.map EntryName.text)

/-! ### The filesystem -/

/-- `MANAGED_DIR_NAME`. -/
def managedDirName : EntryName := ⟨"managed".toList, by decide⟩

/-- The filesystem, with what is probed of it. -/
structure Filesystem where
  tree : LinkedTree.Tree EntryName
  /-- The number of links the system follows. -/
  maxLinks : ℕ
  /-- `get_sources_root`. -/
  sources : DirPath
  sources_real : LinkedTree.Real tree sources
  /-- `vault_local_access` and `discover_source_volumes` leave the volume usable. -/
  healthy : EntryName → Bool
  /-- `path_is_mount`. -/
  isMount : DirPath → Bool
  /-- `os.access(.., R_OK | X_OK)` and `path_is_writable`. -/
  accessible : DirPath → Bool

namespace Filesystem

/-- `Path.is_dir` with `Path.resolve`: the directory that a path leads to. -/
def resolve (fs : Filesystem) (p : DirPath) : Option DirPath :=
  LinkedTree.resolve fs.tree fs.maxLinks p

/-- `path_is_symlink`: the last entry of a path is a link. -/
def isSymlink (fs : Filesystem) (p : DirPath) : Bool :=
  match p.getLast? with
  | none => false
  | some n => (fs.resolve p.dropLast).any fun dir =>
      match fs.tree (dir ++ [n]) with
      | some (.link _ _) => true
      | _ => false

lemma isSymlink_concat (fs : Filesystem) (p : DirPath) (n : EntryName) :
    fs.isSymlink (p ++ [n]) = (fs.resolve p).any fun dir =>
      match fs.tree (dir ++ [n]) with
      | some (.link _ _) => true
      | _ => false := by
  simp only [isSymlink, List.getLast?_concat, List.dropLast_concat]

/-- `root_identity`: a directory that is reached without a link. -/
def hasIdentity (fs : Filesystem) (p : DirPath) : Bool := fs.resolve p = some p

/-- A Source Volume. -/
def volumePath (fs : Filesystem) (name : EntryName) : DirPath := fs.sources ++ [name]

/-- The healthy Source Volume of a name. -/
def volume? (fs : Filesystem) (volumeAlias : List Char) : Option EntryName := do
  let name ← EntryName.of? volumeAlias
  guard (name ≠ managedDirName ∧ fs.tree (fs.volumePath name) = some .directory ∧ fs.healthy name)
  some name

/-- No directory from the candidate up to below the volume is a mount. -/
def noNestedMount (fs : Filesystem) (volume target : DirPath) : Bool :=
  target.inits.all fun p => p.length ≤ volume.length || !fs.isMount p

/-- A new directory. -/
def makeDirectory (fs : Filesystem) (p : DirPath) (hfree : fs.tree p = none) : Filesystem :=
  { fs with
    tree := fun q => if q = p then some .directory else fs.tree q
    sources_real := fs.sources_real.mono fun q hq => by
      by_cases h : q = p
      · rw [h, hfree] at hq
        cases hq
      · rw [if_neg h]
        exact hq }

end Filesystem

/-! ### Vault rows -/

/-- The columns of a Vault row that are read here. -/
structure VaultRoot where
  id : VaultId
  sourceRoot : DirPath
  /-- `decommission_state = 'active'`. -/
  active : Bool
  /-- `root_released_at` is set. -/
  rootReleased : Bool

/-- The filesystem and the Vaults. -/
structure RootWorld where
  fs : Filesystem
  vaults : List VaultRoot

/-- The Vaults that hold their root. -/
def RootWorld.occupied (w : RootWorld) : List VaultRoot :=
  w.vaults.filter fun vault => !vault.rootReleased

/-! ### Adoption -/

/-- `paths_overlap`, on relative paths. -/
def pathsOverlap (left right : List Char) : Bool :=
  left = right || left = [] || right = [] || (right ++ ['/']).isPrefixOf left ||
    (left ++ ['/']).isPrefixOf right

/-- The parts of a path: empty ones and `.` are dropped, `..` is refused. -/
def canonicalParts : List (List Char) → Option DirPath
  | [] => some []
  | part :: parts =>
      if part = [] ∨ part = ['.'] then canonicalParts parts
      else do
        let name ← EntryName.of? part
        let names ← canonicalParts parts
        some (name :: names)

/-- `canonicalize_relative_path`. -/
def canonicalizeRelativePath (relativePath : List Char) : Option DirPath :=
  let raw := (Text.strip isSpace relativePath).map fun c => if c = '\\' then '/' else c
  if Char.ofNat 0 ∈ raw then none
  else if raw = [] ∨ raw = ['.'] then some []
  else if raw.head? = some '/' then none
  else canonicalParts (raw.splitOn '/')

/-- `_resolve_directory`: the last entry is no link, and the directory lies in the volume. -/
def resolveDirectory (fs : Filesystem) (volume relative : DirPath) : Option DirPath := do
  guard (fs.isSymlink (volume ++ relative) = false)
  let resolved ← fs.resolve (volume ++ relative)
  guard (volume <+: resolved)
  some resolved

/-- `_occupied_vault_roots`: the relative paths of the roots below the volume.  A root that is
gone resolves to itself. -/
def occupiedVaultRoots (w : RootWorld) (volume : DirPath) : List DirPath :=
  w.occupied.filterMap fun vault =>
    if volume <+: vault.sourceRoot then
      let root := (w.fs.resolve vault.sourceRoot).getD vault.sourceRoot
      if volume <+: root then some (root.drop volume.length) else none
    else none

/-- `_assert_no_vault_overlap`. -/
def noVaultOverlap (w : RootWorld) (volume canonical : DirPath) : Bool :=
  (occupiedVaultRoots w volume).all fun relative =>
    !pathsOverlap (slashed canonical) (slashed relative)

/-- `resolve_adoption_candidate`. -/
def resolveAdoptionCandidate (w : RootWorld) (volumeAlias relativePath : List Char) :
    Option DirPath := do
  let volume ← w.fs.volume? (Text.strip isSpace volumeAlias)
  let canonical ← canonicalizeRelativePath relativePath
  let target ← resolveDirectory w.fs (w.fs.volumePath volume) canonical
  guard (w.fs.noNestedMount (w.fs.volumePath volume) target ∧ w.fs.accessible target)
  guard (noVaultOverlap w (w.fs.volumePath volume) canonical)
  some target

/-- `INSERT INTO vaults`. -/
def RootWorld.insertVault (w : RootWorld) (root : DirPath) : RootWorld :=
  { w with vaults := w.vaults ++ [⟨Catalog.fresh (w.vaults.map VaultRoot.id), root, true, false⟩] }

/-- `create_vault` with `creation_mode='adopt'`. -/
def adoptVault (w : RootWorld) (volumeAlias relativePath : List Char) : Option RootWorld := do
  let root ← resolveAdoptionCandidate w volumeAlias relativePath
  guard (w.fs.hasIdentity root)
  some (w.insertVault root)

/-- A directory that is made when its path is free. -/
def mkdirFree (fs : Filesystem) (p : DirPath) : Option Filesystem :=
  if h : fs.tree p = none then some (fs.makeDirectory p h) else none

/-- `ensure_managed_directory`. -/
def ensureManagedDirectory (fs : Filesystem) : Filesystem :=
  (mkdirFree fs (fs.sources ++ [managedDirName])).getD fs

/-- `create_vault` with `creation_mode='empty'`. -/
def createEmptyVault (w : RootWorld) (uuid : EntryName) : Option RootWorld := do
  let fs := ensureManagedDirectory w.fs
  let root := fs.sources ++ [managedDirName, uuid]
  let fs' ← mkdirFree fs root
  guard (fs'.hasIdentity root)
  some ({ w with fs := fs' }.insertVault root)

/-! ### Reconnection -/

/-- `_candidate`: a directory whose path crosses no link. -/
def relocationCandidate (fs : Filesystem) (volume : DirPath) (relativePath : List Char) :
    Option DirPath := do
  let relative ← canonicalizeRelativePath relativePath
  let target := volume ++ relative
  guard (fs.resolve target = some target)
  guard (fs.noNestedMount volume target ∧ fs.accessible target)
  some target

/-- `_reject_overlap`; `false` is an error. -/
def rejectOverlap (w : RootWorld) (id : VaultId) (destination : DirPath) : Bool :=
  w.occupied.all fun vault => vault.id = id ||
    (let common := commonPath destination vault.sourceRoot
     common ≠ destination && common ≠ vault.sourceRoot)

/-- The root of a Vault. -/
def RootWorld.setRoot (w : RootWorld) (id : VaultId) (root : DirPath) : RootWorld :=
  { w with vaults := w.vaults.map fun vault =>
      if vault.id = id then { vault with sourceRoot := root } else vault }

/-- `_reconnect_vault_root`.  `busy`: a Job or a scan runs; `boundary`: the mount identities
agree. -/
def reconnectVaultRoot (w : RootWorld) (id : VaultId) (volumeAlias relativePath : List Char)
    (busy boundary : Bool) : Option RootWorld := do
  let vault ← w.vaults.find? fun vault => vault.id = id
  guard (vault.active = true ∧ vault.rootReleased = false ∧ busy = false)
  let volume ← w.fs.volume? volumeAlias
  let destination ← relocationCandidate w.fs (w.fs.volumePath volume) relativePath
  guard (rejectOverlap w id destination)
  guard (w.fs.hasIdentity destination ∧ boundary = true)
  some (w.setRoot id destination)

/-! ### The system -/

/-- One transaction under the allocation lock; the folder of an empty Vault needs none. -/
inductive RootAct
  | adopt (volumeAlias relativePath : List Char)
  | createEmpty (uuid : EntryName)
  | reconnect (id : VaultId) (volumeAlias relativePath : List Char) (busy boundary : Bool)
  /-- `reconcile_one` releases the root of a stopped Vault. -/
  | release (id : VaultId)

/-- `decommission_state='decommissioned'` with `root_released_at`. -/
def releaseRoot (w : RootWorld) (id : VaultId) : RootWorld :=
  { w with vaults := w.vaults.map fun vault =>
      if vault.id = id then
        { vault with
          active := false
          rootReleased := true }
      else vault }

/-- The world after the transaction; `none` when it raised. -/
def rootStep (w : RootWorld) : RootAct → Option RootWorld
  | .adopt volumeAlias relativePath => adoptVault w volumeAlias relativePath
  | .createEmpty uuid => createEmptyVault w uuid
  | .reconnect id volumeAlias relativePath busy boundary =>
      reconnectVaultRoot w id volumeAlias relativePath busy boundary
  | .release id => some (releaseRoot w id)

end Frostvault
