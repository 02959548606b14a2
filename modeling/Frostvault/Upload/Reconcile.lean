import Frostvault.Lib.Effects
import Frostvault.Provider.Listing

/-!
Reconciliation of an uncertain send (`reconcile`, `_own_write_arrived`, `_prove_absent` and
`_incomplete_uploads` of `app/services/upload_provenance.py`).

Each read sees the provider at another moment, and between two reads its versions, markers
and incomplete uploads may change in any way; a read may also fail.

* `ProviderView`: what the provider would answer at one moment;
* `reconcile`: the program;
* `Adopted`, `Absent`: what a returned version and a proven absence rest on;
* `reconcile_sound`: **they do**, and anything else is an exception of a read or a block;
* `absent_after_arrival`: a proven absence may follow a write that was seen.
-/

namespace Frostvault

open Effects

/-! ### The provider -/

/-- A page of `list_multipart_uploads`. -/
structure UploadPage where
  isTruncated : Option Bool
  uploads : List (ObjectKey × Option String)
  nextKeyMarker : Option ObjectKey
  nextUploadIdMarker : Option String
deriving DecidableEq, Repr

/-- What the provider and the Job's lease would answer to a read at one moment. -/
structure ProviderView where
  /-- `check_active` does not raise. -/
  active : Bool
  versionPages : ObjectKey → List (Except ProviderError VersionPage)
  /-- The answer to a HEAD, without and with `ChecksumMode`. -/
  head : ObjectKey → ProviderVersionId → Bool → Except ProviderError Head
  uploadPages : ObjectKey → List (Except ProviderError UploadPage)
  /-- `_bucket_still_ready`. -/
  bucketReady : Bool

/-- The client: `provider_identity`, and whether it has `list_multipart_uploads`. -/
structure ProviderClient where
  identity : String
  listsUploads : Bool

/-- What `reconcile` raises: `UploadBlocked`, its subclass `ProvenAbsent`, the exception of a
provider call, or that of `check_active`. -/
inductive ReconcileError
  | blocked (reason : BlockReason)
  | provenAbsent
  | provider (e : ProviderError)
  | stopped
deriving DecidableEq, Repr

/-- The exception of a guarded read. -/
def ReadError.raised : ReadError → ReconcileError
  | .blocked reason => .blocked reason
  | .provider e => .provider e

/-- A read with its answer. -/
inductive ReconcileRead
  | checked (r : Except ReconcileError Unit)
  | listed (r : Except ReconcileError Inventory)
  | headed (v : ProviderVersionId) (r : Except ReconcileError Head)
  | listedUploads (r : Except ReconcileError (List String))

/-- The exception a read ended with. -/
def ReconcileRead.error? : ReconcileRead → Option ReconcileError
  | .checked (.error e) | .listed (.error e) | .headed _ (.error e)
  | .listedUploads (.error e) => some e
  | _ => none

/-- The programs of this module. -/
abbrev Reading := Prog ProviderView ReconcileRead ReconcileError

/-! ### Reads -/

/-- The loop of `_incomplete_uploads` over its pages. -/
def incompleteUploadsFrom (key : ObjectKey) (ready : Bool) (found : List String)
    (seen : List (ObjectKey × Option String)) :
    List (Except ProviderError UploadPage) → Except ReconcileError (List String)
  | [] => .error (.provider .unreachable)
  | .error e :: _ =>
      match listingBlockReason ready e with
      | some reason => .error (.blocked reason)
      | none => .error (.provider e)
  | .ok page :: pages =>
      match page.isTruncated with
      | none => .error (.blocked .ambiguousSend)
      | some truncated =>
          let found' := found ++ (page.uploads.filter (·.1 = key)).map (·.2.getD "?")
          if truncated then
            match page.nextKeyMarker with
            | none => .error (.blocked .ambiguousSend)
            | some next =>
                if (next, page.nextUploadIdMarker) ∈ seen then .error (.blocked .ambiguousSend)
                else
                  incompleteUploadsFrom key ready found' ((next, page.nextUploadIdMarker) :: seen)
                    pages
          else .ok found'

/-- Pages prove no absence by themselves. -/
lemma incompleteUploadsFrom_ne_provenAbsent {key : ObjectKey} {ready : Bool} {found : List String}
    {seen : List (ObjectKey × Option String)} {pages : List (Except ProviderError UploadPage)} :
    incompleteUploadsFrom key ready found seen pages ≠ .error .provenAbsent := by
  induction pages generalizing found seen with
  | nil => simp [incompleteUploadsFrom]
  | cons page pages ih =>
      cases page with
      | error e =>
          rw [incompleteUploadsFrom]
          split <;> simp
      | ok page =>
          rw [incompleteUploadsFrom]
          split
          · simp
          · split
            · split
              · simp
              · split
                · simp
                · exact ih
            · simp

/-- `check_active`. -/
def checkActive : Reading Unit :=
  .ask .checked fun w => if w.active then .ok () else .error .stopped

/-- `inventory` of the pinned key. -/
def readInventory (i : UploadIntent) : Reading Inventory :=
  .ask .listed fun w =>
    (inventory i.target.key w.bucketReady (w.versionPages i.target.key)).mapError ReadError.raised

/-- `head_object` of an exact version of the pinned key. -/
def readHead (i : UploadIntent) (v : ProviderVersionId) (checksumMode : Bool) : Reading Head :=
  .ask (.headed v) fun w => (w.head i.target.key v checksumMode).mapError .provider

/-- `_incomplete_uploads`. -/
def incompleteUploads (client : ProviderClient) (i : UploadIntent) : Reading (List String) := do
  .require (client.listsUploads = true) (.blocked .ambiguousSend)
  .ask .listedUploads fun w =>
    incompleteUploadsFrom i.target.key w.bucketReady [] [] (w.uploadPages i.target.key)

/-! ### Reconciliation -/

/-- The same elements. -/
def SameSet {α : Type} (a b : List α) : Prop := (∀ x ∈ a, x ∈ b) ∧ ∀ x ∈ b, x ∈ a

instance {α : Type} [DecidableEq α] (a b : List α) : Decidable (SameSet a b) :=
  inferInstanceAs (Decidable ((∀ _ ∈ _, _) ∧ ∀ _ ∈ _, _))

/-- The HEADs of one listing; those that carry the token. -/
def readHeads (i : UploadIntent) :
    List ProviderVersionId → Reading (List (ProviderVersionId × Head))
  | [] => pure []
  | v :: vs => do
      checkActive
      let head ← readHead i v false
      .require (head.response.versionId = some v ∧ head.deleteMarker = false)
        (.blocked .ambiguousReceipt)
      let rest ← readHeads i vs
      pure (if head.uploadToken = some i.token then (v, head) :: rest else rest)

/-- `_own_write_arrived`. -/
def ownWriteArrived (i : UploadIntent) (saved : Option UploadResponse)
    (before first second : Inventory) : Reading Bool :=
  match (second.versions.filter (· ∉ first.versions)).dedup with
  | [v] =>
      if first = before ∧ second.markers = before.markers ∧
          SameSet second.versions (v :: before.versions) then do
        .require (saved.all fun r => r.versionId = some v) (.blocked .ambiguousReceipt)
        checkActive
        let head? ← (some <$> readHead i v true).handle fun e =>
          -- the absence of a capability attributes nothing
          if e = .provider .unsupportedChecksum then .ret none else .raise e
        match head? with
        | none => pure false
        | some head => do
            .require (head.response.versionId = some v ∧ head.deleteMarker = false)
              (.blocked .ambiguousReceipt)
            if head.uploadToken ≠ some i.token then pure false
            else
              match head.proof v i.snapshot with
              | none => .raise (.blocked .proofMismatch)
              | some proven => do
                  .require (saved.all fun r => (r.proof v i.snapshot).isSome)
                    (.blocked .proofMismatch)
                  pure proven
      else pure false
  | _ => pure false

/-- Two complete listings of the pinned key, and between them the HEADs of the first. -/
def observation (i : UploadIntent) :
    Reading (Inventory × List (ProviderVersionId × Head) × Inventory) := do
  let first ← readInventory i
  let found ← readHeads i first.versions
  let second ← readInventory i
  pure (first, found, second)

/-- The loop of `reconcile`: a stable listing with its carriers, after at most `n`
re-observations. -/
def observe (i : UploadIntent) (saved : Option UploadResponse) :
    ℕ → Reading (Inventory × List (ProviderVersionId × Head))
  | 0 => do
      let (first, found, second) ← observation i
      .require (first = second) (.blocked .inventoryChanged)
      pure (first, found)
  | n + 1 => do
      let (first, found, second) ← observation i
      if first = second then pure (first, found)
      else do
        let own ← ownWriteArrived i saved i.inventory first second
        .require (own = true) (.blocked .inventoryChanged)
        observe i saved n

/-- `_prove_absent`: it never returns. -/
def proveAbsent (client : ProviderClient) (i : UploadIntent) : Reading Unit := do
  checkActive
  let uploads ← incompleteUploads client i
  .require (uploads = []) (.blocked .ambiguousSend)
  checkActive
  let inv ← readInventory i
  .require (inv = i.inventory) (.blocked .inventoryChanged)
  .raise .provenAbsent

/-- `{**head, **(saved or {}), "VersionId": version}`. -/
def UploadResponse.over (saved : Option UploadResponse) (head : UploadResponse)
    (v : ProviderVersionId) : UploadResponse :=
  let s := saved.getD .empty
  { versionId := some v
    etag := s.etag <|> head.etag
    checksumSha256 := s.checksumSha256 <|> head.checksumSha256
    checksumType := s.checksumType <|> head.checksumType
    contentLength := s.contentLength <|> head.contentLength
    storageClass := s.storageClass <|> head.storageClass }

/-- `reconcile`. -/
def reconcile (client : ProviderClient) (i : UploadIntent) (saved : Option UploadResponse) :
    Reading UploadResponse := do
  .require (client.identity = i.target.provider) (.blocked .identityChanged)
  let (inv, found) ← observe i saved 1
  match found with
  | [] => do
      if saved = none ∧ inv = i.inventory then
        proveAbsent client i
      .raise (.blocked .ambiguousSend)
  | [(v, head)] => do
      .require (v ∉ i.inventory.versions ∧ inv.markers = i.inventory.markers ∧
        SameSet inv.versions (v :: i.inventory.versions)) (.blocked .inventoryChanged)
      .require (saved.all fun r => r.versionId = some v) (.blocked .ambiguousReceipt)
      .require ((head.proof v i.snapshot).isSome ∧
        saved.all fun r => (r.proof v i.snapshot).isSome) (.blocked .proofMismatch)
      pure (UploadResponse.over saved head.response v)
  | _ => .raise (.blocked .ambiguousReceipt)

/-! ### What the functions do -/

variable {α : Type} {i : UploadIntent} {saved : Option UploadResponse} {client : ProviderClient}
  {R : ReconcileError → List ReconcileRead → ProviderView → Prop} {h : List ReconcileRead}
  {w : ProviderView}

/-- A specification of exceptions that allows blocks, and the exception of the last read. -/
structure Fails (R : ReconcileError → List ReconcileRead → ProviderView → Prop) : Prop where
  blocked : ∀ reason h w, R (.blocked reason) h w
  read : ∀ e h w r, e ≠ .provenAbsent → r.error? = some e → R e (h ++ [r]) w

/-- `Wp` for reads that may see anything. -/
abbrev Reads (Q : α → List ReconcileRead → ProviderView → Prop)
    (R : ReconcileError → List ReconcileRead → ProviderView → Prop) (p : Reading α)
    (h : List ReconcileRead) (w : ProviderView) : Prop :=
  Wp (Anything _) (Unchecked _ _) Q R p h w

lemma reads_checkActive (hR : Fails R) {Q : Unit → List ReconcileRead → ProviderView → Prop}
    (hQ : ∀ w', Q () (h ++ [.checked (.ok ())]) w') : Reads Q R checkActive h w := by
  refine wp_ask.mpr fun w' _ => ⟨trivial, fun u hu => ?_, fun e he => ?_⟩
  · rw [hu]
    exact hQ w'
  · refine hR.read e h w' _ ?_ (by rw [he]; rfl)
    rintro rfl
    split at he <;> simp at he

lemma reads_inventory (hR : Fails R) {Q : Inventory → List ReconcileRead → ProviderView → Prop}
    (hQ : ∀ inv w', inv.versions.Nodup → Q inv (h ++ [.listed (.ok inv)]) w') :
    Reads Q R (readInventory i) h w := by
  refine wp_ask.mpr fun w' _ => ⟨trivial, fun inv hinv => ?_, fun e he => ?_⟩
  · rw [hinv]
    cases hread : inventory i.target.key w'.bucketReady (w'.versionPages i.target.key) with
    | error e => simp [hread, Except.mapError] at hinv
    | ok inv' =>
        obtain rfl : inv' = inv := by simpa [hread, Except.mapError] using hinv
        exact hQ inv' w' (inventory_nodup hread)
  · refine hR.read e h w' _ ?_ (by rw [he]; rfl)
    rintro rfl
    cases hread : inventory i.target.key w'.bucketReady (w'.versionPages i.target.key) with
    | error e' => cases e' <;> simp [hread, Except.mapError, ReadError.raised] at he
    | ok inv' => simp [hread, Except.mapError] at he

lemma reads_head {v : ProviderVersionId} {mode : Bool}
    {Q : Head → List ReconcileRead → ProviderView → Prop}
    (hQ : ∀ head w', Q head (h ++ [.headed v (.ok head)]) w')
    (hR : ∀ e w', R (.provider e) (h ++ [.headed v (.error (.provider e))]) w') :
    Reads Q R (readHead i v mode) h w := by
  refine wp_ask.mpr fun w' _ => ⟨trivial, fun head hhead => ?_, fun e he => ?_⟩
  · rw [hhead]
    exact hQ head w'
  · cases hread : w'.head i.target.key v mode with
    | error e' =>
        obtain rfl : ReconcileError.provider e' = e := by simpa [hread, Except.mapError] using he
        exact hR e' w'
    | ok head => simp [hread, Except.mapError] at he

/-- What the HEADs `hs` of a listing with the versions `vs` have shown; `found` are the
carriers of the token. -/
structure Headed (i : UploadIntent) (vs : List ProviderVersionId)
    (found : List (ProviderVersionId × Head)) (hs : List ReconcileRead) : Prop where
  each : ∀ v ∈ vs, ∃ head, .headed v (.ok head) ∈ hs
  only : ∀ v head, .headed v (.ok head) ∈ hs →
    v ∈ vs ∧ (head.uploadToken = some i.token → (v, head) ∈ found)
  one : ∀ v head head', .headed v (.ok head) ∈ hs → .headed v (.ok head') ∈ hs → head = head'
  found : ∀ v head, (v, head) ∈ found →
    .headed v (.ok head) ∈ hs ∧ head.uploadToken = some i.token

lemma Headed.cons {v : ProviderVersionId} {vs : List ProviderVersionId}
    {found : List (ProviderVersionId × Head)} {hs : List ReconcileRead} (head : Head)
    (hh : Headed i vs found hs) (hv : v ∉ vs) :
    Headed i (v :: vs) (if head.uploadToken = some i.token then (v, head) :: found else found)
      (.checked (.ok ()) :: .headed v (.ok head) :: hs) := by
  have hmem : ∀ u k, ReconcileRead.headed u (.ok k) ∈
      (.checked (.ok ()) :: .headed v (.ok head) :: hs : List ReconcileRead) ↔
        (u = v ∧ k = head) ∨ .headed u (.ok k) ∈ hs := by simp
  have hnot : ∀ k, .headed v (.ok k) ∉ hs := fun k hk => hv (hh.only v k hk).1
  constructor
  · intro u hu
    rcases List.mem_cons.mp hu with rfl | hu
    · exact ⟨head, by simp⟩
    · obtain ⟨k, hk⟩ := hh.each u hu
      exact ⟨k, by simp [hk]⟩
  · intro u k hk
    rcases (hmem u k).mp hk with ⟨rfl, rfl⟩ | hk
    · exact ⟨List.mem_cons_self, fun htok => by simp [htok]⟩
    · obtain ⟨hu, hfound⟩ := hh.only u k hk
      refine ⟨List.mem_cons_of_mem _ hu, fun htok => ?_⟩
      split
      · exact List.mem_cons_of_mem _ (hfound htok)
      · exact hfound htok
  · intro u k k' hk hk'
    rcases (hmem u k).mp hk with ⟨huv, hkh⟩ | hk₀
    · rcases (hmem u k').mp hk' with ⟨-, hkh'⟩ | hk₀'
      · exact hkh.trans hkh'.symm
      · exact absurd (huv ▸ hk₀') (hnot k')
    · rcases (hmem u k').mp hk' with ⟨huv, -⟩ | hk₀'
      · exact absurd (huv ▸ hk₀) (hnot k)
      · exact hh.one u k k' hk₀ hk₀'
  · intro u k hk
    rw [hmem]
    split at hk
    · rename_i htok
      rcases List.mem_cons.mp hk with heq | hk
      · cases heq
        exact ⟨Or.inl ⟨rfl, rfl⟩, htok⟩
      · exact ⟨Or.inr (hh.found u k hk).1, (hh.found u k hk).2⟩
    · exact ⟨Or.inr (hh.found u k hk).1, (hh.found u k hk).2⟩

lemma reads_heads (hR : Fails R) {vs : List ProviderVersionId} (hvs : vs.Nodup)
    {Q : List (ProviderVersionId × Head) → List ReconcileRead → ProviderView → Prop}
    (hQ : ∀ found hs w', Headed i vs found hs → Q found (h ++ hs) w') :
    Reads Q R (readHeads i vs) h w := by
  induction vs generalizing h w Q with
  | nil =>
      rw [show Q = fun found h w => Q found h w from rfl]
      have := hQ [] [] w ⟨by simp, by simp, by simp, by simp⟩
      rwa [List.append_nil] at this
  | cons v vs ih =>
      obtain ⟨hv, hvs⟩ := List.nodup_cons.mp hvs
      rw [readHeads]
      refine wp_bind.mpr (reads_checkActive hR fun w₁ => ?_)
      refine wp_bind.mpr (reads_head (fun head w₂ => ?_) fun e w₂ => ?_)
      · refine wp_bind.mpr (wp_require.mpr ⟨fun _ => ?_, fun _ => hR.blocked _ _ _⟩)
        refine wp_bind.mpr (ih hvs fun found hs w₃ hh => ?_)
        have := hQ _ _ w₃ (hh.cons head hv)
        simpa using this
      · exact hR.read _ _ _ _ (by simp) rfl

lemma reads_observation (hR : Fails R)
    {Q : Inventory × List (ProviderVersionId × Head) × Inventory →
      List ReconcileRead → ProviderView → Prop}
    (hQ : ∀ first found second hs w', Headed i first.versions found hs →
      Q (first, found, second) (h ++ .listed (.ok first) :: (hs ++ [.listed (.ok second)])) w') :
    Reads Q R (observation i) h w := by
  rw [observation]
  refine wp_bind.mpr (reads_inventory hR fun first w₁ hnd => ?_)
  refine wp_bind.mpr (reads_heads hR hnd fun found hs w₂ hh => ?_)
  refine wp_bind.mpr (reads_inventory hR fun second w₃ _ => ?_)
  have := hQ first found second hs w₃ hh
  simpa using this

/-- An own write that arrived is proven, and the listing before it was the pinned one. -/
lemma reads_ownWriteArrived (hR : Fails R) {before first second : Inventory}
    {Q : Bool → List ReconcileRead → ProviderView → Prop} (hfalse : ∀ h w, Q false h w)
    (htrue : ∀ v head w', first = before → (head.proof v i.snapshot).isSome →
      Q true (h ++ [.checked (.ok ()), .headed v (.ok head)]) w') :
    Reads Q R (ownWriteArrived i saved before first second) h w := by
  have hboth : ∀ proven v head w', first = before → head.proof v i.snapshot = some proven →
      Q proven (h ++ [.checked (.ok ()), .headed v (.ok head)]) w' := by
    intro proven v head w' hfirst hproof
    cases proven with
    | false => exact hfalse _ _
    | true => exact htrue v head w' hfirst (by rw [hproof]; rfl)
  unfold ownWriteArrived
  split
  · rename_i v _
    split
    · rename_i hcond
      refine wp_bind.mpr (wp_require.mpr ⟨fun _ => ?_, fun _ => hR.blocked _ _ _⟩)
      refine wp_bind.mpr (reads_checkActive hR fun w₁ => ?_)
      refine wp_bind.mpr (wp_handle.mpr (wp_bind.mpr ?_))
      refine reads_head (fun head w₂ => ?_) fun e w₂ => ?_
      · refine wp_bind.mpr (wp_require.mpr ⟨fun _ => ?_, fun _ => hR.blocked _ _ _⟩)
        split
        · exact hfalse _ _
        · split
          · exact hR.blocked _ _ _
          · rename_i proven hproof
            refine wp_bind.mpr (wp_require.mpr ⟨fun _ => ?_, fun _ => hR.blocked _ _ _⟩)
            have := hboth proven v head w₂ hcond.1 hproof
            simpa using this
      · split
        · exact hfalse _ _
        · exact hR.read _ _ _ _ (by simp) rfl
    · exact hfalse _ _
  · exact hfalse _ _

/-- **A stable listing.**  The history ends with two equal complete listings and the HEADs
between them; an earlier HEAD was of a pinned version, or proved the snapshot. -/
structure Stable (i : UploadIntent) (inv : Inventory) (found : List (ProviderVersionId × Head))
    (h₁ hs : List ReconcileRead) : Prop where
  headed : Headed i inv.versions found hs
  earlier : ∀ v head, .headed v (.ok head) ∈ h₁ →
    v ∈ i.inventory.versions ∨ (head.proof v i.snapshot).isSome = true

lemma reads_observe (hR : Fails R) (n : ℕ) (hh : ∀ v head, .headed v (.ok head) ∈ h →
      v ∈ i.inventory.versions ∨ (head.proof v i.snapshot).isSome)
    {Q : Inventory × List (ProviderVersionId × Head) → List ReconcileRead → ProviderView → Prop}
    (hQ : ∀ inv found h₁ hs w', Stable i inv found h₁ hs →
      Q (inv, found) (h₁ ++ .listed (.ok inv) :: (hs ++ [.listed (.ok inv)])) w') :
    Reads Q R (observe i saved n) h w := by
  induction n generalizing h w with
  | zero =>
      refine wp_bind.mpr (reads_observation hR fun first found second hs w₁ hheads => ?_)
      refine wp_bind.mpr (wp_require.mpr ⟨fun heq => ?_, fun _ => hR.blocked _ _ _⟩)
      subst heq
      exact hQ first found h hs w₁ ⟨hheads, hh⟩
  | succ n ih =>
      refine wp_bind.mpr (reads_observation hR fun first found second hs w₁ hheads => ?_)
      dsimp only
      split
      · rename_i heq
        subst heq
        exact hQ first found h hs w₁ ⟨hheads, hh⟩
      · refine wp_bind.mpr (reads_ownWriteArrived hR (fun h' w' => ?_) ?_)
        · exact wp_bind.mpr (wp_require.mpr ⟨by simp, fun _ => hR.blocked _ _ _⟩)
        · intro v head w' hfirst hproof
          refine wp_bind.mpr (wp_require.mpr ⟨fun _ => ih ?_, by simp⟩)
          intro u k hk
          simp only [List.mem_append, List.mem_cons, reduceCtorEq, ReconcileRead.headed.injEq,
            Except.ok.injEq, List.not_mem_nil, or_false, false_or] at hk
          rcases hk with (hk | hk) | ⟨rfl, rfl⟩
          · exact hh u k hk
          · -- the first listing was the pinned one
            exact Or.inl (hfirst ▸ (hheads.only u k hk).1)
          · exact Or.inr hproof

lemma reads_proveAbsent (hR : Fails R) {Q : Unit → List ReconcileRead → ProviderView → Prop}
    (habsent : ∀ w', R .provenAbsent (h ++ [.checked (.ok ()), .listedUploads (.ok []),
      .checked (.ok ()), .listed (.ok i.inventory)]) w') :
    Reads Q R (proveAbsent client i) h w := by
  refine wp_bind.mpr (reads_checkActive hR fun w₁ => ?_)
  refine wp_bind.mpr (wp_bind.mpr (wp_require.mpr ⟨fun _ => ?_, fun _ => hR.blocked _ _ _⟩))
  refine wp_ask.mpr fun w₂ _ => ⟨trivial, fun uploads hu => ?_, fun e he => ?_⟩
  · refine wp_bind.mpr (wp_require.mpr ⟨fun hnil => ?_, fun _ => hR.blocked _ _ _⟩)
    refine wp_bind.mpr (reads_checkActive hR fun w₃ => ?_)
    refine wp_bind.mpr (reads_inventory hR fun inv w₄ _ => ?_)
    refine wp_bind.mpr (wp_require.mpr ⟨fun hinv => ?_, fun _ => hR.blocked _ _ _⟩)
    rw [hu, hnil, hinv]
    have := habsent w₄
    simpa using this
  · refine hR.read e _ w₂ _ ?_ (by rw [he]; rfl)
    rintro rfl
    exact incompleteUploadsFrom_ne_provenAbsent he

/-! ### Soundness -/

/-- What a returned version rests on. -/
structure Adopted (i : UploadIntent) (saved : Option UploadResponse) (reads : List ReconcileRead)
    (v : ProviderVersionId) : Prop where
  /-- The last complete listing shows the pinned versions and markers, and `v`; among the
  HEADs since the listing before it, `v` alone carries the token. -/
  listing : ∃ inv h₁ hs, reads = h₁ ++ .listed (.ok inv) :: (hs ++ [.listed (.ok inv)]) ∧
    v ∉ i.inventory.versions ∧ (∀ u, u ∈ inv.versions ↔ u = v ∨ u ∈ i.inventory.versions) ∧
    inv.markers = i.inventory.markers ∧
    (∀ u ∈ inv.versions, ∃ head, .headed u (.ok head) ∈ hs) ∧
    ∀ u head, .headed u (.ok head) ∈ hs → (head.uploadToken = some i.token ↔ u = v)
  saved : ∀ r, saved = some r → r.versionId = some v ∧ (r.proof v i.snapshot).isSome = true
  heads : ∀ head, .headed v (.ok head) ∈ reads → (head.proof v i.snapshot).isSome = true

/-- What a proven absence rests on. -/
structure Absent (i : UploadIntent) (saved : Option UploadResponse) (reads : List ReconcileRead) :
    Prop where
  noReceipt : saved = none
  /-- Two complete listings were the pinned one, no version between them carried the token,
  then no upload of the key was incomplete, and then a listing was still the pinned one. -/
  listings : ∃ h₁ hs, reads = h₁ ++ .listed (.ok i.inventory) ::
      (hs ++ [.listed (.ok i.inventory), .checked (.ok ()), .listedUploads (.ok []),
        .checked (.ok ()), .listed (.ok i.inventory)]) ∧
    (∀ u ∈ i.inventory.versions, ∃ head, .headed u (.ok head) ∈ hs) ∧
    ∀ u head, .headed u (.ok head) ∈ hs → head.uploadToken ≠ some i.token

/-- What an exception of `reconcile` says. -/
def Raised (i : UploadIntent) (saved : Option UploadResponse) (e : ReconcileError)
    (reads : List ReconcileRead) : Prop :=
  match e with
  | .blocked _ => True
  | .provenAbsent => Absent i saved reads
  | .provider _ | .stopped => ∃ h₁ r, reads = h₁ ++ [r] ∧ r.error? = some e

lemma raised_fails (i : UploadIntent) (saved : Option UploadResponse) :
    Fails fun e h _ => Raised i saved e h where
  blocked _ _ _ := trivial
  read e h w r hne hr := by
    cases e with
    | blocked reason => exact trivial
    | provenAbsent => exact absurd rfl hne
    | provider e => exact ⟨h, r, rfl, hr⟩
    | stopped => exact ⟨h, r, rfl, hr⟩

variable (client i saved w) in
/-- **Soundness**, as a specification. -/
lemma reads_reconcile : Reads (fun r h _ => ∃ v, r.versionId = some v ∧ Adopted i saved h v)
    (fun e h _ => Raised i saved e h) (reconcile client i saved) [] w := by
  have hR := raised_fails i saved
  refine wp_bind.mpr (wp_require.mpr ⟨fun _ => ?_, fun _ => hR.blocked _ _ w⟩)
  refine wp_bind.mpr (reads_observe hR 1 (by simp) fun inv found h₁ hs w₁ hst => ?_)
  dsimp only
  split
  · split
    · rename_i hcond
      obtain ⟨rfl, rfl⟩ := hcond
      refine wp_bind.mpr (reads_proveAbsent hR fun w₂ => ⟨rfl, h₁, hs, by simp, hst.headed.each, ?_⟩)
      intro u head hu htok
      cases (hst.headed.only u head hu).2 htok
    · exact hR.blocked .ambiguousSend [] w₁
  · rename_i v head
    refine wp_bind.mpr (wp_require.mpr ⟨fun hinv => ?_, fun _ => hR.blocked _ _ w₁⟩)
    refine wp_bind.mpr (wp_require.mpr ⟨fun hsaved => ?_, fun _ => hR.blocked _ _ w₁⟩)
    refine wp_bind.mpr (wp_require.mpr ⟨fun hproof => ?_, fun _ => hR.blocked _ _ w₁⟩)
    obtain ⟨hnew, hmarkers, hsame⟩ := hinv
    obtain ⟨hseen, htok⟩ := hst.headed.found v head (by simp)
    refine ⟨v, rfl, ⟨inv, h₁, hs, rfl, hnew, fun u => ?_, hmarkers, hst.headed.each, ?_⟩, ?_, ?_⟩
    · exact ⟨fun hu => List.mem_cons.mp (hsame.1 u hu), fun hu => hsame.2 u (List.mem_cons.mpr hu)⟩
    · intro u k hk
      constructor
      · intro hktok
        exact (Prod.mk.inj (List.mem_singleton.mp ((hst.headed.only u k hk).2 hktok))).1
      · rintro rfl
        rw [hst.headed.one u k head hk hseen]
        exact htok
    · rintro r rfl
      exact ⟨by simpa using hsaved, by simpa using hproof.2⟩
    · intro k hk
      simp only [List.mem_append, List.mem_cons, reduceCtorEq, List.not_mem_nil, or_false,
        false_or] at hk
      rcases hk with hk | hk
      · exact (hst.earlier v k hk).resolve_left hnew
      · rw [hst.headed.one v k head hk hseen]
        exact hproof.1
  · exact hR.blocked .ambiguousReceipt [] w₁

/-- **Reconciliation is sound**, whatever the reads see: a version that is returned is the
one write of the intent, an absence that is raised is proven, and anything else is a block or
the exception of the last read. -/
theorem reconcile_sound (client : ProviderClient) (i : UploadIntent) (saved : Option UploadResponse)
    (w : ProviderView) (views : List ProviderView) :
    let run := (reconcile client i saved).play (fun v _ => v) w views
    (∀ r, run.ending = .returned r →
      ∃ v, r.versionId = some v ∧ Adopted i saved run.events v) ∧
    (run.ending = .raised .provenAbsent → Absent i saved run.events) ∧
    ∀ e, run.ending = .raised e → e ≠ .provenAbsent →
      (∃ reason, e = .blocked reason) ∨
        ∃ h₁ r, run.events = h₁ ++ [r] ∧ r.error? = some e := by
  intro run
  obtain ⟨hret, hraise, -⟩ := Wp.play (fun _ _ => trivial)
    (reads_reconcile i saved client w) views
  rw [List.nil_append] at hret hraise
  refine ⟨hret, fun hend => hraise _ hend, fun e hend hne => ?_⟩
  have hr := hraise e hend
  cases e with
  | blocked reason => exact Or.inl ⟨reason, rfl⟩
  | provenAbsent => exact absurd rfl hne
  | provider e => exact Or.inr hr
  | stopped => exact Or.inr hr

/-! ### Histories of one bucket -/

/-- What a bucket with these versions of key 0 answers at one moment. -/
def bucketView (objects : List (ProviderVersionId × Head)) : ProviderView where
  active := true
  versionPages := fun _ =>
    [.ok ⟨some false, objects.map fun o => ⟨0, some o.1⟩, [], none, none⟩]
  head := fun _ v _ => match objects.find? (·.1 = v) with
    | some o => .ok o.2
    | none => .error .notFound
  uploadPages := fun _ => [.ok ⟨some false, [], none, none⟩]
  bucketReady := true

/-- A send whose outcome is not known, into a key without versions. -/
def uncertainIntent : UploadIntent where
  id := 0
  token := 1
  vaultId := 0
  vaultFileId := 0
  originalJobId := 0
  target := ⟨0, 0, "b", "p", 0, "s3", ['a'], 0, "/v", none, none⟩
  snapshot := ⟨1, 7, "FULL_OBJECT", "c", 8, ["c"]⟩
  requested := .readBack
  inventory := ⟨[], []⟩
  sendStarted := true
  archiveVersionId := none
  settled := false
  createdAt := 0

/-- The object the send writes: the VersionId 5, with the token and its checksum. -/
def ownWrite : ProviderVersionId × Head :=
  (5, ⟨⟨some 5, none, some "c", some "FULL_OBJECT", some 1, none⟩, false, some 1⟩)

/-- The client of the Vault. -/
def vaultClient : ProviderClient := ⟨"s3", true⟩

/-- The write is found: the version is returned with what its HEAD shows. -/
example :
    ((reconcile vaultClient uncertainIntent none).play (fun v _ => v) (bucketView [])
      (List.replicate 4 (bucketView [ownWrite]))).ending = .returned ownWrite.2.response := by
  decide

/-- The stronger property: an absence is proven only when no HEAD has shown the token, and
anything that is not a version or a proof of absence is a block. -/
def Conclusive (i : UploadIntent)
    (run : Played ProviderView ReconcileRead ReconcileError UploadResponse) : Prop :=
  (run.ending = .raised .provenAbsent → ∀ u head, .headed u (.ok head) ∈ run.events →
    head.uploadToken ≠ some i.token) ∧
  ∀ e, run.ending = .raised e → e = .provenAbsent ∨ ∃ reason, e = .blocked reason

/-- The version is removed between its listing and its HEAD. -/
def removedBeforeHead : List ProviderView :=
  [bucketView [ownWrite], bucketView [ownWrite], bucketView []]

/-- The write arrives between the two listings, is proven to be the own one, and is removed
before the next listing. -/
def removedAfterArrival : List ProviderView :=
  [bucketView [], bucketView [ownWrite], bucketView [ownWrite], bucketView [ownWrite]] ++
    List.replicate 6 (bucketView [])

/-- **A proven absence may follow a write that was seen**, and a failed HEAD is not a block. -/
theorem absent_after_arrival :
    ¬Conclusive uncertainIntent ((reconcile vaultClient uncertainIntent none).play
      (fun v _ => v) (bucketView []) removedBeforeHead) ∧
    ¬Conclusive uncertainIntent ((reconcile vaultClient uncertainIntent none).play
      (fun v _ => v) (bucketView []) removedAfterArrival) := by
  constructor
  · rintro ⟨-, hblock⟩
    rcases hblock (.provider .notFound) (by decide) with h | ⟨reason, h⟩
    · cases h
    · cases h
  · rintro ⟨habsent, -⟩
    have hmem : ReconcileRead.headed 5 (.ok ownWrite.2) ∈
        ((reconcile vaultClient uncertainIntent none).play (fun v _ => v) (bucketView [])
          removedAfterArrival).events :=
      List.mem_of_getElem? (i := 3) rfl
    exact habsent (by decide) 5 ownWrite.2 hmem rfl

end Frostvault
