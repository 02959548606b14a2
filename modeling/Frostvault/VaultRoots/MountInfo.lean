import Frostvault.Aggregates.Rollup
import Frostvault.Lib.JsonVerbatim
import Frostvault.Lib.Lines

/-!
The identity of a mount (`app/services/source_identity.py`).

The mounts are read from `/proc/self/mountinfo`, which the kernel writes with a line for each
mount and a few characters of the names as octal escapes.  The fingerprint of a target is the
hash of the file system type, the source and the root of the one mount at it.

* `parseMountinfo`: the reader, `none` where it raises;
* `KernelMount`, `renderMounts`: what the kernel writes;
* `identityForMount`, `fingerprintForMount`: the identity and its hash.
-/

namespace Frostvault

/-! ### Reading -/

/-- `MountInfo`. -/
structure MountInfo where
  mountId : ℤ
  parentId : ℤ
  majorMinor : List Char
  root : List Char
  mountPoint : List Char
  mountOptions : List (List Char)
  optionalFields : List (List Char)
  filesystemType : List Char
  mountSource : List Char
  superOptions : List (List Char)
deriving DecidableEq, Repr

/-- An octal digit. -/
def isOctalDigit (c : Char) : Bool := '0' ≤ c && c ≤ '7'

/-- `chr(int(digits, 8))`. -/
def octalChar (a b c : Char) : Char :=
  Char.ofNat (64 * (a.toNat - 48) + 8 * (b.toNat - 48) + (c.toNat - 48))

/-- `_unescape_mountinfo`. -/
def unescapeMountinfo : List Char → Option (List Char)
  | [] => some []
  | '\\' :: a :: b :: c :: rest =>
      if isOctalDigit a ∧ isOctalDigit b ∧ isOctalDigit c then
        (unescapeMountinfo rest).map (octalChar a b c :: ·)
      else none
  | '\\' :: _ => none
  | c :: rest => (unescapeMountinfo rest).map (c :: ·)

/-- `int(text)`: white space around it, a sign, single underscores between its digits; of the
decimal digits the ASCII ones. -/
def pythonInt (text : List Char) : Option ℤ :=
  let (negative, body) := Json.sign (Text.strip isSpace text)
  let groups := body.splitOn '_'
  if groups.all (fun w => w ≠ [] && w.all Char.isDigit) then
    some (Json.signed negative groups.flatten)
  else none

/-- The loop of `parse_mountinfo` for one line. -/
def parseMountLine (line : List Char) : Option MountInfo :=
  let fields := line.splitOn ' '
  let field (i : ℕ) := fields.getD i []
  let separator := fields.idxOf ['-']
  if [] ∈ fields ∨ fields.count ['-'] ≠ 1 ∨ separator < 6 ∨ fields.length < separator + 4 ∨
      ':' ∉ field 2 then none
  else do
    let mountId ← pythonInt (field 0)
    let parentId ← pythonInt (field 1)
    let root ← unescapeMountinfo (field 3)
    let mountPoint ← unescapeMountinfo (field 4)
    let mountOptions ← ((field 5).splitOn ',').mapM unescapeMountinfo
    let optionalFields ← ((fields.take separator).drop 6).mapM unescapeMountinfo
    let filesystemType ← unescapeMountinfo (field (separator + 1))
    let mountSource ← unescapeMountinfo (field (separator + 2))
    let superOptions ← ((field (separator + 3)).splitOn ',').mapM unescapeMountinfo
    some
      { mountId := mountId
        parentId := parentId
        majorMinor := field 2
        root := root
        mountPoint := mountPoint
        mountOptions := mountOptions
        optionalFields := optionalFields
        filesystemType := filesystemType
        mountSource := mountSource
        superOptions := superOptions }

/-- `parse_mountinfo`. -/
def parseMountinfo (text : List Char) : Option (List MountInfo) :=
  ((Lines.lines text).filter fun line => !line.isEmpty).mapM parseMountLine

/-! ### What the kernel writes -/

/-- A propagation field. -/
inductive OptionalField
  | shared (group : ℕ)
  | master (group : ℕ)
  | propagateFrom (group : ℕ)
  | unbindable
deriving DecidableEq, Repr

/-- The text of an optional field. -/
def OptionalField.text : OptionalField → List Char
  | shared group => "shared:".toList ++ Nat.toDigits 10 group
  | master group => "master:".toList ++ Nat.toDigits 10 group
  | propagateFrom group => "propagate_from:".toList ++ Nat.toDigits 10 group
  | unbindable => "unbindable".toList

/-- A mount; its names are any texts. -/
structure KernelMount where
  mountId : ℕ
  parentId : ℕ
  major : ℕ
  minor : ℕ
  root : List Char
  mountPoint : List Char
  mountOptions : List (List Char)
  optionalFields : List OptionalField
  filesystemType : List Char
  mountSource : List Char
  superOptions : List (List Char)

/-- The octal escapes of space, tab, newline and backslash. -/
def mangleChar (c : Char) : List Char :=
  if c = ' ' then ['\\', '0', '4', '0']
  else if c = '\t' then ['\\', '0', '1', '1']
  else if c = '\n' then ['\\', '0', '1', '2']
  else if c = '\\' then ['\\', '1', '3', '4']
  else [c]

/-- A name as it is written. -/
def mangle (name : List Char) : List Char := name.flatMap mangleChar

namespace KernelMount

/-- The number of the device. -/
def majorMinor (m : KernelMount) : List Char :=
  Nat.toDigits 10 m.major ++ ':' :: Nat.toDigits 10 m.minor

/-- Options as they are written. -/
def mangledOptions (options : List (List Char)) : List Char :=
  mangle (List.intercalate [','] options)

/-- The fields of a line. -/
def fields (m : KernelMount) : List (List Char) :=
  [Nat.toDigits 10 m.mountId, Nat.toDigits 10 m.parentId, m.majorMinor, mangle m.root,
    mangle m.mountPoint, mangledOptions m.mountOptions] ++
  m.optionalFields.map OptionalField.text ++
  [['-'], mangle m.filesystemType, mangle m.mountSource, mangledOptions m.superOptions]

/-- The line of a mount, without its end. -/
def line (m : KernelMount) : List Char := List.intercalate [' '] m.fields

/-- The mount as the reader should give it. -/
def info (m : KernelMount) : MountInfo where
  mountId := m.mountId
  parentId := m.parentId
  majorMinor := m.majorMinor
  root := m.root
  mountPoint := m.mountPoint
  mountOptions := m.mountOptions
  optionalFields := m.optionalFields.map OptionalField.text
  filesystemType := m.filesystemType
  mountSource := m.mountSource
  superOptions := m.superOptions

end KernelMount

/-- The text of `/proc/self/mountinfo`. -/
def renderMounts (ms : List KernelMount) : List Char := ms.flatMap fun m => m.line ++ ['\n']

/-! ### Identities -/

/-- `_UNSUPPORTED_FILESYSTEMS`. -/
def unsupportedFilesystems : List (List Char) :=
  ["autofs", "cgroup", "cgroup2", "configfs", "debugfs", "devpts", "devtmpfs", "efivarfs",
    "fusectl", "hugetlbfs", "mqueue", "overlay", "proc", "pstore", "ramfs", "securityfs", "sysfs",
    "tmpfs", "tracefs"].map String.toList

/-- `_PLACEHOLDER_FIELDS`. -/
def placeholderFields : List (List Char) :=
  ["", "-", "?", "none", "unknown"].map String.toList

/-- What a fingerprint is made of; the type is normalised. -/
structure MountIdentity where
  filesystemType : List Char
  mountSource : List Char
  root : List Char
deriving DecidableEq, Repr

/-- What `fingerprint_for_mount` needs from outside: `normpath(abspath(..))` of a target,
`str.lower` and `sha256(..).hexdigest()`. -/
structure IdentityConfig (Digest : Type) where
  location : List Char → List Char
  lower : List Char → List Char
  hexdigest : ByteArray → Digest

variable {Digest : Type} (c : IdentityConfig Digest)

/-- The identity of the one mount at a target, `none` where `fingerprint_for_mount` raises. -/
def identityForMount (target text : List Char) : Option MountIdentity := do
  let entries ← parseMountinfo text
  match entries.filter fun entry => entry.mountPoint = c.location target with
  | [entry] => do
      let filesystemType := c.lower (Text.strip isSpace entry.filesystemType)
      guard (filesystemType ∉ unsupportedFilesystems)
      guard (filesystemType ∉ placeholderFields ∧
        c.lower (Text.strip isSpace entry.mountSource) ∉ placeholderFields ∧
        c.lower (Text.strip isSpace entry.root) ∉ placeholderFields)
      some ⟨filesystemType, entry.mountSource, entry.root⟩
  | _ => none

/-- The JSON text of an identity, with its keys in order. -/
def MountIdentity.payload (i : MountIdentity) : List Char :=
  "\x7b\"filesystem_type\":".toList ++ Json.verbatimString i.filesystemType ++
    (",\"mount_source\":".toList ++ Json.verbatimString i.mountSource ++
      (",\"root\":".toList ++ Json.verbatimString i.root ++
        ",\"version\":\"linux-mountinfo-v1\"\x7d".toList))

/-- `fingerprint_for_mount`. -/
def fingerprintForMount (target text : List Char) : Option Digest :=
  (identityForMount c target text).map fun i => c.hexdigest (String.ofList i.payload).toUTF8

end Frostvault
