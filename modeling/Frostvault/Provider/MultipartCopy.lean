import Frostvault.Lib.Base64
import Frostvault.Lib.Parts
import Frostvault.Provider.Listing

/-!
Multipart copies of one exact version (`_multipart_source_checksum` and
`_multipart_copy_storage_class` of `app/services/s3_copy.py`).

The copy requests byte ranges of the source; the checksum loop reads the source once, in whatever
chunks the stream yields, and hashes part by part.  `sha256` is a parameter: nothing here depends
on what it computes.

* `multipartSourceChecksum`: the re-chunking loop and its two checks;
* `multipartCopyStorageClass`: the requests of a copy, and what it returns;
* `PartHash.Sound`: what the loop has hashed, against everything it has read;
* `sourceChecksum_eq_ok`, `sourceChecksum_returns`: when the checksum is returned, and which one;
* `copyRanges_tiling`: the requested ranges tile the object;
* `requestsOf_multipartCopy`: what a copy requests, whatever the client replies;
* `multipartCopy_of_serves`: a copy that is served returns;
* `multipart_proof`: **the proof matches the copied ranges**.
-/

namespace Frostvault

open List

/-! ### Sizes -/

/-- `S3_SINGLE_COPY_MAX_BYTES`. -/
def s3SingleCopyMaxBytes : ℕ := 5 * 1024 ^ 3

/-- `S3_MULTIPART_COPY_MIN_PART_BYTES`. -/
def s3MultipartCopyMinPartBytes : ℕ := 5 * 1024 ^ 2

/-- `S3_MULTIPART_COPY_PART_BYTES`. -/
def s3MultipartCopyPartBytes : ℕ := 128 * 1024 ^ 2

/-- `S3_MULTIPART_COPY_MAX_PARTS`. -/
def s3MultipartCopyMaxParts : ℕ := 10000

/-- The part size, which both functions compute. -/
def copyPartSize (size : ℕ) : ℕ :=
  max (max s3MultipartCopyMinPartBytes s3MultipartCopyPartBytes)
    ((size + s3MultipartCopyMaxParts - 1) / s3MultipartCopyMaxParts)

/-- What either function raises. -/
inductive CopyError
  | notOversized
  | partLimit
  | noUploadId
  | noETag (part : ℕ)
  /-- `check_active`. -/
  | stopped
  | sourceMismatch
  | abortFailed
  /-- An exception of the client. -/
  | client (e : ProviderError)
deriving DecidableEq, Repr

abbrev Bytes := List UInt8

/-! ### The checksum of the source -/

/-- The running hashes of a part and of the digests; a hash object is what it was fed. -/
structure PartHash where
  part : Bytes
  inPart : ℕ
  composite : Bytes
  count : ℕ

variable (sha256 : Bytes → Bytes)

/-- `while view`: feed a chunk to the current part, and close every part that is full.  Each turn
consumes at least one byte, so the length of the chunk is enough fuel. -/
def feedView (partSize : ℕ) : ℕ → PartHash → Bytes → PartHash
  | 0, h, _ => h
  | fuel + 1, h, view =>
      if view = [] then h
      else
        let length := min view.length (partSize - h.inPart)
        let part := h.part ++ view.take length
        let inPart := h.inPart + length
        let next := if inPart = partSize then
            ⟨[], 0, h.composite ++ sha256 part, h.count + 1⟩
          else { h with part := part, inPart := inPart }
        feedView partSize fuel next (view.drop length)

/-- What the loop keeps: the hash of everything, its length, and the parts. -/
structure SourceHash where
  full : Bytes
  total : ℕ
  parts : PartHash

/-- `while chunk := body.read(..)`: an empty chunk, or the end of the replies, is the end of the
body.  `active` is what `check_active` answers, call by call. -/
def readSource (partSize : ℕ) (active : ℕ → Bool) :
    ℕ → SourceHash → List (Except ProviderError Bytes) → Except CopyError SourceHash
  | _, h, [] => .ok h
  | _, _, .error e :: _ => .error (.client e)
  | call, h, .ok chunk :: rest =>
      if chunk = [] then .ok h
      else if active call then
        readSource partSize active (call + 1)
          ⟨h.full ++ chunk, h.total + chunk.length,
            feedView sha256 partSize chunk.length h.parts chunk⟩ rest
      else .error .stopped

/-- `_multipart_source_checksum`; the replies are those of `body.read`. -/
def multipartSourceChecksum (size : ℕ) (expectedSha256 : List Char) (active : ℕ → Bool)
    (replies : List (Except ProviderError Bytes)) : Except CopyError (List Char) :=
  match readSource sha256 (copyPartSize size) active 0 ⟨[], 0, ⟨[], 0, [], 0⟩⟩ replies with
  | .error e => .error e
  | .ok h =>
      let closed := if h.parts.inPart ≠ 0 then
          (h.parts.composite ++ sha256 h.parts.part, h.parts.count + 1)
        else (h.parts.composite, h.parts.count)
      if h.total ≠ size ∨ Base64.encode (sha256 h.full) ≠ expectedSha256 then
        .error .sourceMismatch
      else .ok (Base64.encode (sha256 closed.1) ++ '-' :: Nat.toDigits 10 closed.2)

/-! ### The copy -/

/-- `CopySourceRange`: both ends are included. -/
structure ByteRange where
  first : ℕ
  last : ℕ
deriving DecidableEq, Repr

/-- `f"bytes={start}-{end}"`. -/
def ByteRange.text (r : ByteRange) : List Char :=
  ['b', 'y', 't', 'e', 's', '='] ++ Nat.toDigits 10 r.first ++ '-' :: Nat.toDigits 10 r.last

/-- The bytes a range names. -/
def ByteRange.bytes (r : ByteRange) (content : Bytes) : Bytes :=
  (content.drop r.first).take (r.last + 1 - r.first)

/-- What a HEAD of the source shows that the copy carries over. -/
structure SourceHead where
  /-- The fields that are present, without the metadata. -/
  fields : List (String × String)
  metadata : Option (List (String × String))
deriving DecidableEq, Repr

/-- The arguments of `create_multipart_upload`. -/
structure CreateUpload where
  storageClass : StorageClass
  checksumAlgorithm : String
  checksumType : String
  metadata : Option (List (String × String))
  tagging : Option String
  fields : List (String × String)
deriving DecidableEq, Repr

/-- An entry of `MultipartUpload`. -/
structure CopiedPart where
  partNumber : ℕ
  etag : String
  checksums : List (String × String)
deriving DecidableEq, Repr

/-- A request of a copy. -/
inductive CopyRequest
  | create (args : CreateUpload)
  | partCopy (uploadId : String) (partNumber : ℕ) (range : ByteRange)
  | complete (uploadId : String) (parts : List CopiedPart) (checksumType : String)
  | abort (uploadId : String)
deriving DecidableEq, Repr

/-- The reply to one `upload_part_copy`: the ETags and the non-empty checksums. -/
structure PartReply where
  copyETag : Option String
  etag : Option String
  checksums : List (String × String)

/-- What the client replies in one run, and what `check_active` answers before each part and, under
the number after the last one, before the completion. -/
structure CopyReplies where
  tagging : Except ProviderError (Option String)
  create : Except ProviderError (Option String)
  partCopy : ℕ → Except ProviderError PartReply
  complete : Except ProviderError (Option ProviderVersionId)
  abort : Bool
  active : ℕ → Bool

/-- An empty text counts as none. -/
def truthy (text : Option String) : Option String := text.filter (· ≠ "")

/-- `{**metadata, "frostvault-move": intent_token}`. -/
def withMoveToken (metadata : List (String × String)) (token : String) : List (String × String) :=
  metadata.filter (fun entry => entry.1 ≠ "frostvault-move") ++ [("frostvault-move", token)]

/-- The arguments of the initiation. -/
def createUpload (targetClass : StorageClass) (head : SourceHead) (intentToken : Option String)
    (tagging : Option String) : CreateUpload where
  storageClass := targetClass
  checksumAlgorithm := "SHA256"
  checksumType := if (truthy intentToken).isSome then "COMPOSITE" else "FULL_OBJECT"
  metadata := match truthy intentToken with
    | some token => some (withMoveToken (head.metadata.getD []) token)
    | none => head.metadata
  tagging := truthy tagging
  fields := head.fields

/-- The range of a part, from 1. -/
def copyRange (size partSize partNumber : ℕ) : ByteRange :=
  let start := (partNumber - 1) * partSize
  ⟨start, min size (start + partSize) - 1⟩

/-- The loop over the part numbers: its requests, and the parts so far or what was raised. -/
def copyParts (c : CopyReplies) (uploadId : String) (size partSize : ℕ) :
    List ℕ → List CopiedPart → List CopyRequest × Except CopyError (List CopiedPart)
  | [], parts => ([], .ok parts)
  | k :: ks, parts =>
      if c.active k then
        let request := .partCopy uploadId k (copyRange size partSize k)
        match c.partCopy k with
        | .error e => ([request], .error (.client e))
        | .ok reply =>
            match (truthy reply.copyETag).or (truthy reply.etag) with
            | none => ([request], .error (.noETag k))
            | some etag =>
                let rest := copyParts c uploadId size partSize ks
                  (parts ++ [⟨k, etag, reply.checksums⟩])
                (request :: rest.1, rest.2)
      else ([], .error .stopped)

/-- The abort of an upload that was initiated: the exception goes on. -/
def abortUpload (c : CopyReplies) (uploadId : String) (requests : List CopyRequest)
    (e : CopyError) : List CopyRequest × Except CopyError (Option ProviderVersionId) :=
  (requests ++ [.abort uploadId], .error (if c.abort then e else .abortFailed))

/-- `_multipart_copy_storage_class`: the requests it makes, and what it returns. -/
def multipartCopyStorageClass (c : CopyReplies) (targetClass : StorageClass) (size : ℕ)
    (head : SourceHead) (intentToken : Option String) :
    List CopyRequest × Except CopyError (Option ProviderVersionId) :=
  if size ≤ s3SingleCopyMaxBytes then ([], .error .notOversized)
  else
    let partSize := copyPartSize size
    let partCount := (size + partSize - 1) / partSize
    if partCount > s3MultipartCopyMaxParts then ([], .error .partLimit)
    else
      match c.tagging with
      | .error e => ([], .error (.client e))
      | .ok tagging =>
          let args := createUpload targetClass head intentToken tagging
          match c.create with
          | .error e => ([.create args], .error (.client e))
          | .ok reply =>
              match truthy reply with
              | none => ([.create args], .error .noUploadId)
              | some uploadId =>
                  let copied := copyParts c uploadId size partSize (List.range' 1 partCount) []
                  let requests := .create args :: copied.1
                  match copied.2 with
                  | .error e => abortUpload c uploadId requests e
                  | .ok parts =>
                      if c.active (partCount + 1) then
                        let completed := requests ++ [.complete uploadId parts args.checksumType]
                        match c.complete with
                        | .error e => abortUpload c uploadId completed (.client e)
                        | .ok versionId => (completed, .ok versionId)
                      else abortUpload c uploadId requests .stopped

/-! ### What the checksum loop has hashed -/

variable {sha256}

/-- The running hashes after everything seen so far: the whole parts are in the composite, and the
rest is in the current part. -/
structure PartHash.Sound (sha256 : Bytes → Bytes) (n : ℕ) (seen : Bytes) (h : PartHash) :
    Prop where
  short : h.inPart < n
  length : seen.length = h.count * n + h.inPart
  part : h.part = seen.drop (h.count * n)
  composite : h.composite = ((List.range h.count).map (Parts.part n seen)).flatMap sha256

variable {active : ℕ → Bool} {content seen : Bytes} {h : PartHash} {n size : ℕ}
  {replies : List (Except ProviderError Bytes)}

lemma partHash_sound_start (hn : 0 < n) : PartHash.Sound sha256 n [] ⟨[], 0, [], 0⟩ :=
  ⟨hn, by simp, by simp, rfl⟩

section

variable (hs : h.Sound sha256 n seen)

include hs

lemma PartHash.Sound.append (view : Bytes) :
    (List.range h.count).map (Parts.part n (seen ++ view)) =
      (List.range h.count).map (Parts.part n seen) := by
  refine map_congr_left fun i hi => Parts.part_append view ?_
  have hle : (i + 1) * n ≤ h.count * n := Nat.mul_le_mul_right n (mem_range.mp hi)
  have hlength := hs.length
  omega

lemma PartHash.Sound.drop_append (view : Bytes) :
    (seen ++ view).drop (h.count * n) = h.part ++ view := by
  have hle : h.count * n ≤ seen.length := by
    have hlength := hs.length
    omega
  rw [drop_append_of_le_length hle, ← hs.part]

lemma PartHash.Sound.extend {view : Bytes} (hshort : h.inPart + view.length < n) :
    PartHash.Sound sha256 n (seen ++ view)
      { h with part := h.part ++ view, inPart := h.inPart + view.length } where
  short := hshort
  length := by
    rw [length_append, hs.length, Nat.add_assoc]
  part := (hs.drop_append view).symm
  composite := by
    rw [hs.append]
    exact hs.composite

/-- Bytes that fill the part close it. -/
lemma PartHash.Sound.close {view : Bytes} (hfull : h.inPart + view.length = n) :
    PartHash.Sound sha256 n (seen ++ view)
      ⟨[], 0, h.composite ++ sha256 (h.part ++ view), h.count + 1⟩ := by
  have hlength : (seen ++ view).length = (h.count + 1) * n := by
    rw [length_append, hs.length, Nat.succ_mul]
    omega
  have hlast : Parts.part n (seen ++ view) h.count = h.part ++ view := by
    rw [Parts.part_last (by rw [hlength, Nat.succ_mul]), hs.drop_append]
  refine ⟨Nat.lt_of_le_of_lt (Nat.zero_le _) hs.short, hlength, ?_, ?_⟩
  · exact (drop_of_length_le hlength.le).symm
  · rw [range_succ, map_append, flatMap_append, hs.append, ← hs.composite,
      map_singleton, flatMap_singleton, hlast]

/-- **A chunk is fed to the parts completely**, wherever the part boundaries fall. -/
lemma PartHash.Sound.feedView {fuel : ℕ} {view : Bytes} (hfuel : view.length ≤ fuel) :
    (feedView sha256 n fuel h view).Sound sha256 n (seen ++ view) := by
  induction fuel generalizing seen view h with
  | zero =>
      obtain rfl := length_eq_zero_iff.mp (Nat.le_zero.mp hfuel)
      rw [append_nil]
      exact hs
  | succ fuel ih =>
      rw [Frostvault.feedView]
      by_cases hview : view = []
      · rw [if_pos hview, hview, append_nil]
        exact hs
      · rw [if_neg hview]
        have hpos : 0 < view.length := length_pos_iff.mpr hview
        have hshort := hs.short
        have htake : (view.take (min view.length (n - h.inPart))).length =
            min view.length (n - h.inPart) := by
          rw [length_take]
          omega
        have hdrop : (view.drop (min view.length (n - h.inPart))).length ≤ fuel := by
          rw [length_drop]
          omega
        have hsplit : seen ++ view = seen ++ view.take (min view.length (n - h.inPart)) ++
            view.drop (min view.length (n - h.inPart)) := by
          rw [append_assoc, take_append_drop]
        rw [hsplit]
        refine ih ?_ hdrop
        split
        · rename_i hfull
          exact hs.close (by rw [htake]; exact hfull)
        · rename_i hnot
          have hbelow : h.inPart + (view.take (min view.length (n - h.inPart))).length < n := by
            rw [htake]
            omega
          have hextend := hs.extend hbelow
          rwa [htake] at hextend

end

/-- The bytes the body delivers, unless a read raises. -/
def delivered : List (Except ProviderError Bytes) → Option Bytes
  | [] => some []
  | .error _ :: _ => none
  | .ok chunk :: rest => if chunk = [] then some [] else (delivered rest).map (chunk ++ ·)

/-- **The loop over the body**: what it returns is about everything the body delivered. -/
lemma readSource_sound {call : ℕ} {h h' : SourceHash} (hs : h.parts.Sound sha256 n seen)
    (hfull : h.full = seen) (htotal : h.total = seen.length)
    (hread : readSource sha256 n active call h replies = .ok h') :
    ∃ content, delivered replies = some content ∧ h'.full = seen ++ content ∧
      h'.total = (seen ++ content).length ∧ h'.parts.Sound sha256 n (seen ++ content) := by
  induction replies generalizing call h seen with
  | nil =>
      cases hread
      exact ⟨[], rfl, by simpa using hfull, by simpa using htotal, by simpa using hs⟩
  | cons reply rest ih =>
      cases reply with
      | error e => cases hread
      | ok chunk =>
          rw [readSource] at hread
          rw [delivered]
          by_cases hend : chunk = []
          · rw [if_pos hend] at hread
            cases hread
            rw [if_pos hend]
            exact ⟨[], rfl, by simpa using hfull, by simpa using htotal, by simpa using hs⟩
          · rw [if_neg hend] at hread
            by_cases hactive : active call
            · rw [if_pos hactive] at hread
              obtain ⟨content, hcontent, hfull', htotal', hs'⟩ :=
                ih (hs.feedView le_rfl) (by rw [hfull]) (by rw [htotal, length_append]) hread
              refine ⟨chunk ++ content, ?_, ?_, ?_, ?_⟩
              · rw [if_neg hend, hcontent]
                rfl
              · rw [hfull', append_assoc]
              · rw [htotal', append_assoc]
              · rwa [append_assoc] at hs'
            · rw [if_neg hactive] at hread
              cases hread

/-- A body that is delivered is read, unless the caller stops. -/
lemma readSource_of_delivered (sha256 : Bytes → Bytes) (n call : ℕ) (h : SourceHash)
    (hactive : ∀ i, active i) (hdelivered : delivered replies = some content) :
    ∃ h', readSource sha256 n active call h replies = .ok h' := by
  induction replies generalizing call h content with
  | nil => exact ⟨h, rfl⟩
  | cons reply rest ih =>
      cases reply with
      | error e => cases hdelivered
      | ok chunk =>
          rw [delivered] at hdelivered
          rw [readSource]
          by_cases hend : chunk = []
          · exact ⟨h, if_pos hend⟩
          · rw [if_neg hend] at hdelivered
            obtain ⟨content', hcontent', -⟩ := Option.map_eq_some_iff.mp hdelivered
            rw [if_neg hend, if_pos (hactive call)]
            exact ih (call + 1) _ hcontent'

/-- The checksum of some parts: that of their digests, and how many they are. -/
def compositeOf (sha256 : Bytes → Bytes) (parts : List Bytes) : List Char :=
  Base64.encode (sha256 (parts.flatMap sha256)) ++ '-' :: Nat.toDigits 10 parts.length

/-- The last part is closed at the end of the body. -/
lemma PartHash.Sound.finish (hs : h.Sound sha256 n content) :
    (if h.inPart ≠ 0 then (h.composite ++ sha256 h.part, h.count + 1)
      else (h.composite, h.count)) =
      ((Parts.parts n content).flatMap sha256, (Parts.parts n content).length) := by
  rw [Parts.parts_eq hs.length hs.short]
  by_cases hrest : h.inPart = 0
  · simp [hrest, hs.composite]
  · rw [if_pos hrest, if_pos (Nat.pos_of_ne_zero hrest), flatMap_append, ← hs.composite,
      flatMap_singleton, ← hs.part]
    simp

/-- **The checksum of the source**: it is returned for a body of the expected size and digest, and
is that of the parts of this body, however it is cut into reads. -/
theorem sourceChecksum_eq_ok {expected out : List Char} (hn : 0 < copyPartSize size)
    (h : multipartSourceChecksum sha256 size expected active replies = .ok out) :
    ∃ content, delivered replies = some content ∧ content.length = size ∧
      Base64.encode (sha256 content) = expected ∧
      out = compositeOf sha256 (Parts.parts (copyPartSize size) content) := by
  rw [multipartSourceChecksum] at h
  cases hread : readSource sha256 (copyPartSize size) active 0 ⟨[], 0, ⟨[], 0, [], 0⟩⟩ replies with
  | error e =>
      rw [hread] at h
      cases h
  | ok r =>
      obtain ⟨content, hcontent, hfull, htotal, hs⟩ :=
        readSource_sound (partHash_sound_start hn) rfl rfl hread
      rw [nil_append] at hfull htotal hs
      rw [hread] at h
      dsimp only at h
      rw [hs.finish, hfull, htotal] at h
      split at h
      · cases h
      · rename_i hok
        push Not at hok
        exact ⟨content, hcontent, hok.1, hok.2, (Except.ok.inj h).symm⟩

/-- A body of the expected size and digest has a checksum, unless the caller stops. -/
theorem sourceChecksum_returns (hn : 0 < copyPartSize size) (hactive : ∀ i, active i)
    (hdelivered : delivered replies = some content) (hsize : content.length = size) :
    multipartSourceChecksum sha256 size (Base64.encode (sha256 content)) active replies =
      .ok (compositeOf sha256 (Parts.parts (copyPartSize size) content)) := by
  obtain ⟨r, hread⟩ := readSource_of_delivered sha256 (copyPartSize size) 0
    ⟨[], 0, ⟨[], 0, [], 0⟩⟩ hactive hdelivered
  obtain ⟨content', hcontent', hfull, htotal, hs⟩ :=
    readSource_sound (partHash_sound_start hn) rfl rfl hread
  cases hdelivered.symm.trans hcontent'
  rw [nil_append] at hfull htotal hs
  have hok : ¬(r.total ≠ size ∨ Base64.encode (sha256 r.full) ≠
      Base64.encode (sha256 content)) := by
    rw [hfull, htotal, hsize]
    simp
  rw [multipartSourceChecksum, hread]
  dsimp only
  rw [hs.finish, if_neg hok]
  rfl

/-! ### The requested ranges -/

/-- The ranges of all parts. -/
def copyRanges (size : ℕ) : List ByteRange :=
  (List.range (Parts.count (copyPartSize size) size)).map fun i =>
    copyRange size (copyPartSize size) (i + 1)

/-- The ranges of some requests. -/
def requestedRanges (requests : List CopyRequest) : List ByteRange :=
  requests.filterMap fun
    | .partCopy _ _ r => some r
    | _ => none

lemma copyPartSize_min (size : ℕ) : s3MultipartCopyMinPartBytes ≤ copyPartSize size :=
  (le_max_left _ _).trans (le_max_left _ _)

lemma copyPartSize_pos (size : ℕ) : 0 < copyPartSize size :=
  lt_of_lt_of_le (by decide) (copyPartSize_min size)

/-- **The part limit is never exceeded**: the part size grows with the object. -/
lemma count_le_maxParts (size : ℕ) :
    Parts.count (copyPartSize size) size ≤ s3MultipartCopyMaxParts := by
  by_contra hgt
  have hstart := (Parts.lt_count_iff (copyPartSize_pos size)).mp (not_le.mp hgt)
  have hlarge : (size + s3MultipartCopyMaxParts - 1) / s3MultipartCopyMaxParts ≤
      copyPartSize size := le_max_right _ _
  have hbound : size ≤ s3MultipartCopyMaxParts * copyPartSize size := by
    have hceil : size ≤ s3MultipartCopyMaxParts *
        ((size + s3MultipartCopyMaxParts - 1) / s3MultipartCopyMaxParts) := by
      rw [s3MultipartCopyMaxParts]
      omega
    exact hceil.trans (Nat.mul_le_mul_left _ hlarge)
  omega

lemma bytes_copyRange {i : ℕ} (hsize : content.length = size) (hi : i * n < size) (hn : 0 < n) :
    (copyRange size n (i + 1)).bytes content = Parts.part n content i := by
  have hlast : min size (i * n + n) - 1 + 1 - i * n = min (size - i * n) n := by omega
  have hdrop : (content.drop (i * n)).length = size - i * n := by
    rw [length_drop, hsize]
  simp only [ByteRange.bytes, copyRange, Nat.add_sub_cancel, hlast]
  rw [Parts.part, ← hdrop, Nat.min_comm, ← take_take, take_length]

lemma bytes_copyRanges (hsize : content.length = size) :
    (copyRanges size).map (fun r => r.bytes content) =
      Parts.parts (copyPartSize size) content := by
  rw [copyRanges, map_map, Parts.parts, hsize]
  refine map_congr_left fun i hi => ?_
  have hstart := (Parts.lt_count_iff (copyPartSize_pos size)).mp (mem_range.mp hi)
  exact bytes_copyRange hsize hstart (copyPartSize_pos size)

/-- Ranges that tile the bytes of an object, all of one size but the last. -/
structure Tiling (size partSize : ℕ) (ranges : List ByteRange) : Prop where
  starts : ∀ r ∈ ranges.head?, r.first = 0
  contiguous : ranges.IsChain fun r r' => r'.first = r.last + 1
  ends : ∀ r ∈ ranges.getLast?, r.last + 1 = size
  disjoint : ranges.Pairwise fun r r' => r.last < r'.first
  covers : ∀ b, b < size ↔ ∃ r ∈ ranges, r.first ≤ b ∧ b ≤ r.last
  equal : ∀ r ∈ ranges.dropLast, r.last + 1 - r.first = partSize

/-- **The requested ranges** tile the object. -/
lemma copyRanges_tiling (hsize : 0 < size) :
    Tiling size (copyPartSize size) (copyRanges size) := by
  have hn := copyPartSize_pos size
  have hstart {i : ℕ} : i < Parts.count (copyPartSize size) size ↔ i * copyPartSize size < size :=
    Parts.lt_count_iff hn
  generalize hcount : Parts.count (copyPartSize size) size = m at hstart
  have hranges : copyRanges size = (List.range m).map fun i =>
      (⟨i * copyPartSize size, min size (i * copyPartSize size + copyPartSize size) - 1⟩ :
        ByteRange) := by
    rw [copyRanges, hcount]
    rfl
  rw [hranges]
  generalize copyPartSize size = n at hn hstart
  have hm : 0 < m := hstart.mpr (by omega)
  obtain ⟨k, rfl⟩ : ∃ k, m = k + 1 := ⟨m - 1, by omega⟩
  have hsucc : ∀ i, (i + 1) * n = i * n + n := fun i => Nat.succ_mul i n
  -- the part after the last one would start behind the end
  have hend : size ≤ k * n + n := by
    have hlast := hstart (i := k + 1)
    rw [hsucc] at hlast
    omega
  have hbefore : ∀ i < k, i * n + n < size := by
    intro i hi
    rw [← hsucc]
    exact hstart.mp (by omega)
  refine ⟨?_, ?_, ?_, ?_, ?_, ?_⟩
  · intro r hr
    rw [range_succ_eq_map, map_cons, head?_cons, Option.mem_some_iff] at hr
    rw [← hr, Nat.zero_mul]
  · rw [isChain_map, isChain_range_succ]
    intro i hi
    have hfull := hbefore i hi
    have hnext := hsucc i
    simp only [Nat.succ_eq_add_one]
    omega
  · intro r hr
    rw [range_succ, map_append, map_singleton, getLast?_concat,
      Option.mem_some_iff] at hr
    rw [← hr]
    dsimp only
    omega
  · rw [pairwise_map]
    refine pairwise_lt_range.imp fun {i j} hij => ?_
    have hle : (i + 1) * n ≤ j * n := Nat.mul_le_mul_right n hij
    rw [hsucc] at hle
    dsimp only
    omega
  · intro b
    simp only [mem_map, mem_range, exists_exists_and_eq_and]
    constructor
    · intro hb
      have hdiv := Parts.div_add_rest n b
      have hrest := Nat.mod_lt b hn
      refine ⟨b / n, hstart.mpr (by omega), by omega, by omega⟩
    · rintro ⟨i, -, -, hb⟩
      omega
  · intro r hr
    rw [range_succ, map_append, map_singleton, dropLast_concat] at hr
    obtain ⟨i, hi, rfl⟩ := mem_map.mp hr
    have hfull := hbefore i (mem_range.mp hi)
    dsimp only
    omega

/-! ### The requests of a copy -/

/-- What a run may request of some ranges, and what it returns: a beginning of them, all of them
if it returns, and never the part limit. -/
structure RequestsOf {α : Type} (ranges : List ByteRange)
    (run : List CopyRequest × Except CopyError α) : Prop where
  inOrder : requestedRanges run.1 <+: ranges
  all : ∀ a, run.2 = .ok a → requestedRanges run.1 = ranges
  limit : run.2 ≠ .error .partLimit

lemma requestedRanges_append (requests requests' : List CopyRequest) :
    requestedRanges (requests ++ requests') =
      requestedRanges requests ++ requestedRanges requests' :=
  filterMap_append

lemma requestsOf_abort {c : CopyReplies} {uploadId : String} {requests : List CopyRequest}
    {e : CopyError} {ranges : List ByteRange} (h : requestedRanges requests <+: ranges)
    (he : e ≠ .partLimit) : RequestsOf ranges (abortUpload c uploadId requests e) where
  inOrder := by
    have hsame : requestedRanges (abortUpload c uploadId requests e).1 =
        requestedRanges requests := by
      rw [abortUpload, requestedRanges_append]
      exact append_nil _
    rwa [hsame]
  all := nofun
  limit := by
    rw [abortUpload]
    cases c.abort with
    | false => nofun
    | true => simpa using he

/-- The loop requests the ranges of its parts. -/
lemma requestsOf_copyParts (c : CopyReplies) (uploadId : String) (size n : ℕ) (ks : List ℕ)
    (parts : List CopiedPart) :
    RequestsOf (ks.map (copyRange size n)) (copyParts c uploadId size n ks parts) := by
  induction ks generalizing parts with
  | nil => exact ⟨List.nil_prefix, fun _ _ => rfl, nofun⟩
  | cons k ks ih =>
      have hone : requestedRanges [CopyRequest.partCopy uploadId k (copyRange size n k)] <+:
          (k :: ks).map (copyRange size n) := ⟨_, rfl⟩
      rw [copyParts]
      split
      · dsimp only
        split
        · exact ⟨hone, nofun, nofun⟩
        · rename_i reply _
          split
          · exact ⟨hone, nofun, nofun⟩
          · rename_i etag _
            have hrest := ih (parts ++ [⟨k, etag, reply.checksums⟩])
            refine ⟨cons_prefix_cons.mpr ⟨rfl, hrest.inOrder⟩, fun copied h => ?_, hrest.limit⟩
            exact congrArg (copyRange size n k :: ·) (hrest.all copied h)
      · exact ⟨List.nil_prefix, nofun, nofun⟩

lemma map_copyRange (size : ℕ) :
    (List.range' 1 ((size + copyPartSize size - 1) / copyPartSize size)).map
      (copyRange size (copyPartSize size)) = copyRanges size := by
  rw [copyRanges, List.range'_eq_map_range, map_map]
  refine map_congr_left fun i _ => ?_
  rw [Function.comp_apply, Nat.add_comm]

/-- **The requests of a copy** of an oversized object. -/
lemma requestsOf_multipartCopy (c : CopyReplies) (targetClass : StorageClass) (head : SourceHead)
    (intentToken : Option String) (hsize : s3SingleCopyMaxBytes < size) :
    RequestsOf (copyRanges size)
      (multipartCopyStorageClass c targetClass size head intentToken) := by
  have hcount : ¬(size + copyPartSize size - 1) / copyPartSize size > s3MultipartCopyMaxParts :=
    not_lt.mpr (count_le_maxParts size)
  rw [multipartCopyStorageClass, if_neg (not_le.mpr hsize)]
  dsimp only
  rw [if_neg hcount]
  split
  · exact ⟨List.nil_prefix, nofun, nofun⟩
  · rename_i tagging _
    split
    · exact ⟨List.nil_prefix, nofun, nofun⟩
    · split
      · exact ⟨List.nil_prefix, nofun, nofun⟩
      · rename_i uploadId _
        have hloop := requestsOf_copyParts c uploadId size (copyPartSize size)
          (List.range' 1 ((size + copyPartSize size - 1) / copyPartSize size)) []
        rw [map_copyRange] at hloop
        split
        · rename_i e he
          refine requestsOf_abort hloop.inOrder fun hlimit => hloop.limit ?_
          rw [he, hlimit]
        · rename_i parts hparts
          have hall := hloop.all parts hparts
          have hcompleted : requestedRanges (.create (createUpload targetClass head intentToken
              tagging) :: (copyParts c uploadId size (copyPartSize size)
                (List.range' 1 ((size + copyPartSize size - 1) / copyPartSize size)) []).1 ++
              [.complete uploadId parts (createUpload targetClass head intentToken
                tagging).checksumType]) = copyRanges size := by
            rw [requestedRanges_append]
            exact (append_nil _).trans hall
          split
          · split
            · exact requestsOf_abort (by rw [hcompleted]) nofun
            · exact ⟨by rw [hcompleted], fun _ _ => hcompleted, nofun⟩
          · exact requestsOf_abort hloop.inOrder nofun

/-- The client serves every request of the copy, and `check_active` lets it go on. -/
structure CopyReplies.Serves (c : CopyReplies) (versionId : Option ProviderVersionId) : Prop where
  tagging : ∃ text, c.tagging = .ok text
  create : ∃ uploadId, c.create = .ok (some uploadId) ∧ uploadId ≠ ""
  partCopy : ∀ k, ∃ reply, c.partCopy k = .ok reply ∧
    (truthy reply.copyETag).or (truthy reply.etag) ≠ none
  complete : c.complete = .ok versionId
  active : ∀ k, c.active k = true

/-- A served loop copies every part. -/
lemma copyParts_of_serves {c : CopyReplies} {versionId : Option ProviderVersionId}
    (h : c.Serves versionId) (uploadId : String) (size n : ℕ) (ks : List ℕ)
    (parts : List CopiedPart) :
    ∃ copied, (copyParts c uploadId size n ks parts).2 = .ok copied := by
  induction ks generalizing parts with
  | nil => exact ⟨parts, rfl⟩
  | cons k ks ih =>
      obtain ⟨reply, hreply, hetag⟩ := h.partCopy k
      obtain ⟨etag, hetag⟩ := Option.ne_none_iff_exists'.mp hetag
      obtain ⟨copied, hcopied⟩ := ih (parts ++ [⟨k, etag, reply.checksums⟩])
      refine ⟨copied, ?_⟩
      simp only [copyParts, h.active k, if_true, hreply, hetag]
      exact hcopied

/-- **A served copy returns** the new version. -/
lemma multipartCopy_of_serves {c : CopyReplies} {versionId : Option ProviderVersionId}
    (h : c.Serves versionId) (targetClass : StorageClass) (head : SourceHead)
    (intentToken : Option String) (hsize : s3SingleCopyMaxBytes < size) :
    (multipartCopyStorageClass c targetClass size head intentToken).2 = .ok versionId := by
  have hcount : ¬(size + copyPartSize size - 1) / copyPartSize size > s3MultipartCopyMaxParts :=
    not_lt.mpr (count_le_maxParts size)
  obtain ⟨tagging, htagging⟩ := h.tagging
  obtain ⟨uploadId, hcreate, hne⟩ := h.create
  obtain ⟨copied, hcopied⟩ := copyParts_of_serves h uploadId size (copyPartSize size)
    (List.range' 1 ((size + copyPartSize size - 1) / copyPartSize size)) []
  have htruthy : truthy (some uploadId) = some uploadId := by simp [truthy, hne]
  rw [multipartCopyStorageClass, if_neg (not_le.mpr hsize)]
  simp only [if_neg hcount, htagging, hcreate, htruthy, hcopied, h.active, if_true, h.complete]

/-! ### Proof and ranges -/

/-- **The proof of a multipart copy matches the copied ranges.**  For an object that is too large
for a single copy, whatever the client replies: the copy requests a beginning of `copyRanges`, all
of them if it returns, and never exceeds the part limit; where every request is served it returns
and has requested all of them; these ranges tile the object in parts of one size, at least the
minimum, but the last; and the checksum of the source is returned for a body of this size and
digest, however it is cut into reads, and is that of the digests of the bytes of these ranges. -/
theorem multipart_proof (sha256 : Bytes → Bytes) {size : ℕ} (hsize : s3SingleCopyMaxBytes < size) :
    (∀ (c : CopyReplies) (targetClass : StorageClass) (head : SourceHead)
      (intentToken : Option String), RequestsOf (copyRanges size)
        (multipartCopyStorageClass c targetClass size head intentToken)) ∧
    (∀ (c : CopyReplies) (versionId : Option ProviderVersionId), c.Serves versionId →
      ∀ (targetClass : StorageClass) (head : SourceHead) (intentToken : Option String),
        (multipartCopyStorageClass c targetClass size head intentToken).2 = .ok versionId ∧
        requestedRanges (multipartCopyStorageClass c targetClass size head intentToken).1 =
          copyRanges size) ∧
    Tiling size (copyPartSize size) (copyRanges size) ∧
    s3MultipartCopyMinPartBytes ≤ copyPartSize size ∧
    (copyRanges size).length ≤ s3MultipartCopyMaxParts ∧
    (∀ (expected out : List Char) (active : ℕ → Bool)
      (replies : List (Except ProviderError Bytes)),
      multipartSourceChecksum sha256 size expected active replies = .ok out →
        ∃ content, delivered replies = some content ∧ content.length = size ∧
          Base64.encode (sha256 content) = expected ∧
          out = Base64.encode (sha256 ((copyRanges size).flatMap fun r =>
              sha256 (r.bytes content))) ++
            '-' :: Nat.toDigits 10 (copyRanges size).length) ∧
    ∀ (content : Bytes) (active : ℕ → Bool) (replies : List (Except ProviderError Bytes)),
      (∀ i, active i = true) → delivered replies = some content → content.length = size →
        (multipartSourceChecksum sha256 size (Base64.encode (sha256 content)) active
          replies).isOk = true := by
  have hn := copyPartSize_pos size
  refine ⟨fun c targetClass head intentToken =>
    requestsOf_multipartCopy c targetClass head intentToken hsize, ?_,
    copyRanges_tiling (by omega), copyPartSize_min size, ?_, ?_, ?_⟩
  · intro c versionId hserves targetClass head intentToken
    have hreturns := multipartCopy_of_serves hserves targetClass head intentToken hsize
    exact ⟨hreturns,
      (requestsOf_multipartCopy c targetClass head intentToken hsize).all versionId hreturns⟩
  · rw [copyRanges, length_map, length_range]
    exact count_le_maxParts size
  · intro expected out active replies h
    obtain ⟨content, hcontent, hlength, hexpected, hout⟩ := sourceChecksum_eq_ok hn h
    refine ⟨content, hcontent, hlength, hexpected, ?_⟩
    rw [hout, compositeOf, ← bytes_copyRanges hlength, flatMap_map, length_map]
  · intro content active replies hactive hdelivered hlength
    rw [sourceChecksum_returns hn hactive hdelivered hlength]
    rfl

/-- A client that serves a copy. -/
def servingReplies : CopyReplies :=
  ⟨.ok none, .ok (some "u"), fun _ => .ok ⟨some "e", none, []⟩, .ok (some 2), true, fun _ => true⟩

/-- One byte more than a single copy may have. -/
theorem multipart_proof_oversized :
    s3SingleCopyMaxBytes < 5368709121 ∧
      (multipartCopyStorageClass servingReplies "DEEP_ARCHIVE" 5368709121 ⟨[], none⟩
        (some "t")).2 = .ok (some 2) ∧
      requestedRanges (multipartCopyStorageClass servingReplies "DEEP_ARCHIVE" 5368709121
        ⟨[], none⟩ (some "t")).1 = copyRanges 5368709121 ∧
      (copyRanges 5368709121).length ≤ s3MultipartCopyMaxParts := by
  have hsize : s3SingleCopyMaxBytes < 5368709121 := by decide
  obtain ⟨-, hreturns, -, -, hlimit, -⟩ := multipart_proof id hsize
  have hserves : servingReplies.Serves (some 2) :=
    ⟨⟨_, rfl⟩, ⟨_, rfl, by decide⟩, fun _ => ⟨_, rfl, by decide⟩, rfl, fun _ => rfl⟩
  obtain ⟨hok, hall⟩ := hreturns _ _ hserves "DEEP_ARCHIVE" ⟨[], none⟩ (some "t")
  exact ⟨hsize, hok, hall, hlimit⟩

end Frostvault
