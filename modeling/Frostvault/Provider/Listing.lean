import Frostvault.Upload.Provenance

/-!
Complete listings of one key (`_object_version_entries` of `app/services/s3_copy.py`,
`inventory` and `_guarded_listing` of `app/services/upload_provenance.py`).

A listing asks for one page after the other.  What the provider replies is a list, page by
page; between two pages its versions may change, so the pages need not fit together.  A
listing whose replies end before the last page ends with an exception.

* `ProviderError`, `listingBlockReason`: what a call raises, and how a listing classifies it;
* `objectVersionEntries`: the versions and delete markers of a key;
* `objectVersionEntries_nodup`: **an exact identity occurs once**;
* `inventory`: the guarded and sorted listing;
* `Head`, `checkS3Proof`: what a HEAD of an exact version shows, and what it proves.
-/

namespace Frostvault

/-! ### Errors -/

/-- What a provider call raises, as far as its callers tell the exceptions apart. -/
inductive ProviderError
  /-- `AccessDenied` or a 403; whether one of `_CREDENTIAL_CODES` is in the chain. -/
  | refused (credential : Bool)
  /-- `_is_provider_unreachable`: network, timeout, credential or 5xx. -/
  | unreachable
  /-- `_s3_version_already_gone`: 404. -/
  | notFound
  /-- `unsupported_checksum_api`, of a HEAD. -/
  | unsupportedChecksum
  | other
deriving DecidableEq, Repr

/-- `_listing_block_reason`; `ready` is the answer of the bucket probe.  Without a reason the
exception goes on. -/
def listingBlockReason (ready : Bool) : ProviderError → Option BlockReason
  | .refused credential =>
      if credential then none else if ready then some .listPermissionDenied else none
  | .unreachable => none
  | .notFound | .unsupportedChecksum | .other => some .inventoryChanged

/-! ### Pages -/

/-- An item of a page; an empty VersionId is none. -/
structure PageItem where
  key : ObjectKey
  versionId : Option ProviderVersionId
deriving DecidableEq, Repr

/-- A page of `list_object_versions`.  `isTruncated` is `none` when the reply does not say. -/
structure VersionPage where
  isTruncated : Option Bool
  versions : List PageItem
  deleteMarkers : List PageItem
  nextKeyMarker : Option ObjectKey
  nextVersionIdMarker : Option ProviderVersionId
deriving DecidableEq, Repr

/-- The items of one field of a page are added; `none` when an identity is ambiguous. -/
def addItems (key : ObjectKey) (other : List ProviderVersionId) :
    List ProviderVersionId → List PageItem → Option (List ProviderVersionId)
  | entries, [] => some entries
  | entries, item :: items =>
      if item.key ≠ key then addItems key other entries items
      else
        match item.versionId with
        | none => none
        | some v =>
            if v = nullVersionId ∨ v ∈ entries ∨ v ∈ other then none
            else addItems key other (entries ++ [v]) items

/-- The loop over the pages, with what they have shown so far. -/
def entriesFrom (key : ObjectKey) (versions markers : List ProviderVersionId)
    (continuations : List (ObjectKey × Option ProviderVersionId)) :
    List (Except ProviderError VersionPage) →
      Except ProviderError (List ProviderVersionId × List ProviderVersionId)
  | [] => .error .unreachable
  | .error e :: _ => .error e
  | .ok page :: pages =>
      match page.isTruncated, addItems key markers versions page.versions with
      | some truncated, some versions' =>
          match addItems key versions' markers page.deleteMarkers with
          | none => .error .other
          | some markers' =>
              if truncated then
                match page.nextKeyMarker with
                | none => .error .other
                | some next =>
                    if (next, page.nextVersionIdMarker) ∈ continuations then .error .other
                    else entriesFrom key versions' markers'
                      ((next, page.nextVersionIdMarker) :: continuations) pages
              else .ok (versions', markers')
      | _, _ => .error .other

/-- `_object_version_entries`. -/
def objectVersionEntries (key : ObjectKey) (pages : List (Except ProviderError VersionPage)) :
    Except ProviderError (List ProviderVersionId × List ProviderVersionId) :=
  entriesFrom key [] [] [] pages

variable {key : ObjectKey} {pages : List (Except ProviderError VersionPage)}

lemma addItems_nodup {other entries out : List ProviderVersionId}
    {items : List PageItem} (hnd : entries.Nodup) (hdis : ∀ v ∈ entries, v ∉ other)
    (h : addItems key other entries items = some out) :
    out.Nodup ∧ ∀ v ∈ out, v ∉ other := by
  induction items generalizing entries with
  | nil =>
      cases h
      exact ⟨hnd, hdis⟩
  | cons item items ih =>
      rw [addItems] at h
      split at h
      · exact ih hnd hdis h
      · split at h
        · cases h
        · rename_i v _
          split at h
          · cases h
          · rename_i hnew
            simp only [not_or] at hnew
            refine ih (List.nodup_append.mpr ⟨hnd, by simp, ?_⟩) ?_ h
            · intro a ha b hb
              rw [List.mem_singleton.mp hb]
              rintro rfl
              exact hnew.2.1 ha
            · intro a ha
              rcases List.mem_append.mp ha with ha | ha
              · exact hdis a ha
              · rw [List.mem_singleton.mp ha]
                exact hnew.2.2

lemma entriesFrom_nodup {versions markers : List ProviderVersionId}
    {continuations : List (ObjectKey × Option ProviderVersionId)}
    {out : List ProviderVersionId × List ProviderVersionId} (hv : versions.Nodup)
    (hm : markers.Nodup) (hdis : ∀ v ∈ versions, v ∉ markers)
    (h : entriesFrom key versions markers continuations pages = .ok out) :
    out.1.Nodup ∧ out.2.Nodup ∧ ∀ v ∈ out.1, v ∉ out.2 := by
  induction pages generalizing versions markers continuations with
  | nil => simp [entriesFrom] at h
  | cons page pages ih =>
      cases page with
      | error e => simp [entriesFrom] at h
      | ok page =>
          rw [entriesFrom] at h
          split at h
          · rename_i truncated versions' _ hvs
            obtain ⟨hv', hdis'⟩ := addItems_nodup hv hdis hvs
            split at h
            · cases h
            · rename_i markers' hms
              obtain ⟨hm', hdis''⟩ := addItems_nodup hm
                (fun v hv hv' => hdis' v hv' hv) hms
              have hsep : ∀ v ∈ versions', v ∉ markers' := fun v hv hv' => hdis'' v hv' hv
              split at h
              · split at h
                · cases h
                · split at h
                  · cases h
                  · exact ih hv' hm' hsep h
              · cases h
                exact ⟨hv', hm', hsep⟩
          · cases h

/-- **An exact identity occurs once**, as a version or as a marker. -/
lemma objectVersionEntries_nodup {out : List ProviderVersionId × List ProviderVersionId}
    (h : objectVersionEntries key pages = .ok out) :
    out.1.Nodup ∧ out.2.Nodup ∧ ∀ v ∈ out.1, v ∉ out.2 :=
  entriesFrom_nodup List.nodup_nil List.nodup_nil (by simp) h

/-! ### The guarded listing -/

/-- What a guarded provider call raises. -/
inductive ReadError
  | blocked (reason : BlockReason)
  /-- The exception of the provider goes on. -/
  | provider (e : ProviderError)
deriving DecidableEq, Repr

/-- `_guarded_listing`. -/
def guardedListing {α : Type} (ready : Bool) : Except ProviderError α → Except ReadError α
  | .ok a => .ok a
  | .error e =>
      match listingBlockReason ready e with
      | some reason => .error (.blocked reason)
      | none => .error (.provider e)

/-- `inventory`, of the replies to its pages. -/
def inventory (key : ObjectKey) (ready : Bool) (pages : List (Except ProviderError VersionPage)) :
    Except ReadError Inventory :=
  (guardedListing ready (objectVersionEntries key pages)).map fun (versions, markers) =>
    ⟨versions.insertionSort (· ≤ ·), markers.insertionSort (· ≤ ·)⟩

/-- The versions of an inventory are different from each other. -/
lemma inventory_nodup {ready : Bool} {inv : Inventory}
    (h : inventory key ready pages = .ok inv) : inv.versions.Nodup := by
  unfold inventory at h
  cases he : objectVersionEntries key pages with
  | error e =>
      rw [he] at h
      cases hr : listingBlockReason ready e <;> simp [guardedListing, hr, Except.map] at h
  | ok out =>
      rw [he] at h
      simp only [guardedListing, Except.map, Except.ok.injEq] at h
      rw [← h]
      exact ((List.perm_insertionSort _ _).nodup_iff).mpr (objectVersionEntries_nodup he).1

/-! ### Heads -/

/-- The reply to a HEAD: its response fields, and the tokens in its metadata. -/
structure Head where
  response : UploadResponse
  deleteMarker : Bool
  uploadToken : Option UploadToken
deriving DecidableEq, Repr

/-- `check_s3_proof` (`app/services/upload_snapshot.py`): whether a response proves the
snapshot, or `none` when it contradicts it. -/
def checkS3Proof (proof : UploadResponse) (deleteMarker : Bool) (version : ProviderVersionId)
    (snap : UploadSnapshot) (completion : Bool) : Option Bool :=
  if proof.versionId ≠ some version ∨ deleteMarker = true then none
  else if proof.contentLength.any (· ≠ snap.size) then none
  else if proof.checksumType.any (· ≠ snap.checksumType) then none
  else if proof.checksumSha256.any (· ≠ snap.checksumSha256) then none
  else
    some (proof.checksumSha256.isSome && (proof.checksumType = some snap.checksumType ||
      (completion && snap.checksumType = "FULL_OBJECT")))

/-- The reply to a HEAD of a version, as a proof of a snapshot. -/
def Head.proof (head : Head) (version : ProviderVersionId) (snap : UploadSnapshot) :
    Option Bool :=
  checkS3Proof head.response head.deleteMarker version snap false

/-- A saved receipt, as a proof of a snapshot. -/
def UploadResponse.proof (r : UploadResponse) (version : ProviderVersionId)
    (snap : UploadSnapshot) : Option Bool :=
  checkS3Proof r false version snap true

end Frostvault
