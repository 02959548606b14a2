import Frostvault.Lib.Base64
import Frostvault.Lib.Json
import Frostvault.Lib.Parts
import Frostvault.Lib.PyNumber

/-!
Upload Snapshots as bytes and as text (`app/services/upload_snapshot.py`).

`prepare_upload_snapshot` hashes a file part by part, `as_json` writes what it found and
`from_json` reads it back.  `sha256` is a parameter, and so is the part size that s3transfer's
adjuster chooses.

* `prepareUploadSnapshot`: the checks and the two loops; `none` is a loop that has not ended with
  the given number of turns;
* `asJson`, `fromJson`, `partLength`: the codec;
* `Layout`: part lengths that are positive, at most the part size, and sum to the size.
-/

namespace Frostvault

namespace SnapshotLayout

/-! ### Constants -/

/-- `CHUNK_SIZE`. -/
def chunkSize : ℕ := 1024 * 1024

/-- `MULTIPART_THRESHOLD`. -/
def multipartThreshold : ℕ := 8 * chunkSize

/-- `DEFAULT_PART_SIZE`. -/
def defaultPartSize : ℕ := 8 * chunkSize

/-- `MAX_PART_SIZE`. -/
def maxPartSize : ℕ := 1024 * chunkSize

/-- `MAX_OBJECT_SIZE`. -/
def maxObjectSize : ℕ := 5 * 1024 ^ 4

/-- The fields of `UploadSnapshot`, with the numbers `from_json` lets through. -/
structure SnapshotData where
  size : PyNumber
  plaintextSha256 : List Char
  checksumType : List Char
  checksumSha256 : List Char
  partSize : PyNumber
  partChecksums : List (List Char)
  deriving DecidableEq

/-- The text of a literal. -/
def text (s : String) : List Char := s.toList

variable (sha256 : List UInt8 → List UInt8)

/-- `composite_checksum` of decoded digests. -/
def compositeChecksum (digests : List (List UInt8)) : List Char :=
  Base64.encode (sha256 digests.flatten) ++ '-' :: Nat.toDigits 10 digests.length

/-- `checksum_type`. -/
def checksumType (multipart : Bool) : List Char :=
  if multipart then text "COMPOSITE" else text "FULL_OBJECT"

/-! ### The codec -/

/-- A number as JSON. -/
def numberJson : PyNumber → Json
  | .int n => .int n
  | .float q => .float (.finite q)

/-- The object of `as_json`. -/
def fields (s : SnapshotData) : List (List Char × Json) := [
  (text "format", .int 1),
  (text "size", numberJson s.size),
  (text "plaintext_sha256", .str s.plaintextSha256),
  (text "algorithm", .str (text "SHA256")),
  (text "checksum_type", .str s.checksumType),
  (text "checksum_sha256", .str s.checksumSha256),
  (text "part_size", numberJson s.partSize),
  (text "part_checksums", .arr (s.partChecksums.map .str))]

/-- **`as_json`**; `repr` is how a binary64 number is written. -/
def asJson (repr : Binary64 → List Char) (s : SnapshotData) : List Char :=
  Json.dumps repr (.obj (fields s))

/-- `data[key]`: of several members with one key, the last one counts. -/
def member (ms : List (List Char × Json)) (key : String) : Option Json :=
  (ms.reverse.find? fun m => m.1 = text key).map Prod.snd

/-- A number that a range check can let through; `NaN` and the infinities are in no range, and
a value of another type has no order. -/
def readNumber : Json → Option PyNumber
  | .int n => some (.int n)
  | .bool b => some (.int (if b then 1 else 0))
  | .float (.finite q) => some (.float q)
  | _ => none

/-- A text. -/
def readText : Json → Option (List Char)
  | .str s => some s
  | _ => none

/-- `tuple(value)`: the elements of an array, the keys of an object, the characters of a text. -/
def readTuple : Json → Option (List Json)
  | .arr vs => some vs
  | .obj ms => some ((ms.map Prod.fst).eraseDups.map .str)
  | .str s => some (s.map fun c => .str [c])
  | _ => none

/-- The fields of the text; every error is `none`. -/
def readFields (ms : List (List Char × Json)) : Option SnapshotData := do
  let format ← (member ms "format").bind readNumber
  let algorithm ← (member ms "algorithm").bind readText
  guard (format.value = 1 ∧ algorithm = text "SHA256")
  let size ← (member ms "size").bind readNumber
  let plaintextSha256 ← (member ms "plaintext_sha256").bind readText
  let checksumType ← (member ms "checksum_type").bind readText
  let checksumSha256 ← (member ms "checksum_sha256").bind readText
  let partSize ← (member ms "part_size").bind readNumber
  let parts ← (member ms "part_checksums").bind readTuple
  let partChecksums ← parts.mapM readText
  pure ⟨size, plaintextSha256, checksumType, checksumSha256, partSize, partChecksums⟩

/-- `snapshot.size >= MULTIPART_THRESHOLD`. -/
def isMultipart (size : PyNumber) : Bool := (multipartThreshold : ℚ) ≤ size.value

/-- The number of parts that `from_json` expects. -/
def expectedCount (size partSize : PyNumber) : PyNumber :=
  if isMultipart size then
    PyNumber.max (.int 1) (((size.add partSize).sub (.int 1)).floordiv partSize)
  else .int 1

/-- The checks of `from_json`. -/
def validate (s : SnapshotData) : Option Unit := do
  guard (0 ≤ s.size.value ∧ s.size.value ≤ maxObjectSize ∧
    defaultPartSize ≤ s.partSize.value ∧ s.partSize.value ≤ maxPartSize)
  let digest ← Hex.decode s.plaintextSha256
  let parts ← s.partChecksums.mapM Base64.decode
  guard (digest.length = 32 ∧ parts ≠ [] ∧ ∀ p ∈ parts, p.length = 32)
  let expected :=
    if isMultipart s.size then compositeChecksum sha256 parts else Base64.encode digest
  guard ((parts.length : ℚ) = (expectedCount s.size s.partSize).value ∧
    (expectedCount s.size s.partSize).value ≤ 10000 ∧
    s.checksumType = checksumType (isMultipart s.size) ∧ s.checksumSha256 = expected ∧
    (isMultipart s.size = false → parts.head? = some digest))

/-- **`from_json`.** -/
def fromJson (raw : List Char) : Option SnapshotData :=
  match Json.loads raw with
  | some (.obj ms) => do
      let s ← readFields ms
      validate sha256 s
      pure s
  | _ => none

/-- `part_length`, of the parts from 1 on. -/
def partLength (s : SnapshotData) (number : ℕ) : Option PyNumber :=
  if 1 ≤ number ∧ number ≤ s.partChecksums.length then
    some (PyNumber.min s.partSize (s.size.sub ((PyNumber.int (number - 1)).mul s.partSize)))
  else none

/-! ### The file -/

/-- What `prepare_upload_snapshot` raises. -/
inductive SnapshotError
  /-- `check_active`, or a read that failed. -/
  | stopped
  | notRegular
  | tooLarge
  | partSizeTooLarge
  | changed
  deriving DecidableEq, Repr

/-- A file while it is read: what the first `stat` said, what the stream yields to its end, and
what the fingerprints compared later say.  `goesOn n` says whether `check_active` returns, and
the read after it, when `n` bytes have been read. -/
structure SourceFile where
  active : Bool
  regular : Bool
  size : ℕ
  opens : Bool
  sameAtOpen : Bool
  bytes : List UInt8
  goesOn : ℕ → Bool
  sameAtEnd : Bool
  sameAtPath : Bool

/-- What the loops keep: the bytes read and those left, which are also what the hash of the
plaintext was fed. -/
structure Reading where
  plaintext : List UInt8
  stream : List UInt8

/-- `while left`: fill one part. -/
def readPart (goesOn : ℕ → Bool) :
    ℕ → ℕ → Reading → List UInt8 → Option (Except SnapshotError (Reading × List UInt8))
  | 0, _, _, _ => none
  | turns + 1, left, r, part =>
      if left = 0 then some (.ok (r, part))
      else if !goesOn r.plaintext.length then some (.error .stopped)
      else
        let chunk := r.stream.take (min chunkSize left)
        if chunk = [] then some (.error .changed)
        else
          readPart goesOn turns (left - chunk.length)
            ⟨r.plaintext ++ chunk, r.stream.drop chunk.length⟩ (part ++ chunk)

/-- `while size < before.st_size or not parts`. -/
def readParts (goesOn : ℕ → Bool) (partSize size : ℕ) :
    ℕ → Reading → List (List Char) → Option (Except SnapshotError (Reading × List (List Char)))
  | 0, _, _ => none
  | turns + 1, r, parts =>
      if r.plaintext.length < size ∨ parts = [] then
        match readPart goesOn turns (min partSize (size - r.plaintext.length)) r [] with
        | none => none
        | some (.error e) => some (.error e)
        | some (.ok (r', part)) =>
            readParts goesOn partSize size turns r' (parts ++ [Base64.encode (sha256 part)])
      else some (.ok (r, parts))

/-- The snapshot of what was read. -/
def snapshotOf (partSize : ℕ) (plaintext : List UInt8) (parts : List (List Char)) :
    SnapshotData where
  size := .int plaintext.length
  plaintextSha256 := Hex.encode (sha256 plaintext)
  checksumType := checksumType (multipartThreshold ≤ plaintext.length)
  checksumSha256 :=
    if multipartThreshold ≤ plaintext.length then
      compositeChecksum sha256 (parts.filterMap Base64.decode)
    else Base64.encode (sha256 plaintext)
  partSize := .int partSize
  partChecksums := parts

/-- The checks before the first read. -/
def refuses (partSize : ℕ) (file : SourceFile) : Option SnapshotError :=
  if !file.active then some .stopped
  else if !file.regular then some .notRegular
  else if maxObjectSize < file.size then some .tooLarge
  else if maxPartSize < partSize then some .partSizeTooLarge
  else if !file.opens then some .stopped
  else if !file.sameAtOpen then some .changed
  else none

/-- The checks after the last part. -/
def finishSnapshot (partSize : ℕ) (file : SourceFile) (r : Reading) (parts : List (List Char)) :
    Except SnapshotError SnapshotData :=
  if !file.goesOn r.plaintext.length then .error .stopped
  else if r.stream ≠ [] ∨ !file.sameAtEnd ∨ !file.sameAtPath then .error .changed
  else .ok (snapshotOf sha256 partSize r.plaintext parts)

/-- **`prepare_upload_snapshot`**, with a number of turns for its loops. -/
def prepareUploadSnapshot (adjust : ℕ → ℕ → ℕ) (turns : ℕ) (file : SourceFile) :
    Option (Except SnapshotError SnapshotData) :=
  match refuses (adjust defaultPartSize file.size) file with
  | some e => some (.error e)
  | none =>
      match readParts sha256 file.goesOn (adjust defaultPartSize file.size) file.size turns
          ⟨[], file.bytes⟩ [] with
      | none => none
      | some (.error e) => some (.error e)
      | some (.ok (r, parts)) =>
          some (finishSnapshot sha256 (adjust defaultPartSize file.size) file r parts)

end SnapshotLayout

end Frostvault
