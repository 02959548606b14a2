import Frostvault.Lib.FieldMerge
import Frostvault.Lib.JsonEquality
import Frostvault.Upload.Provenance

/-!
The facts that are journaled about the outcome of an upload, and the receipt they make
(`append_receipt`, `record_no_write` and `receipt` of `app/services/upload_provenance.py`,
`upload_receipts` of `migrations/versions/0064_upload_provenance.py`).

Here a fact is the text that is stored for it, with any values; `Upload/Provenance` keeps the
fields of a response that an attempt looks at.  How a digest is computed and how a binary64 number
is written are parameters.  The database returns the rows in any order.

* `recorded`: the rows after some facts, each text once for its digest;
* `receipt`: the responses merged field by field;
* `appendReceipt_eq`, `recordNoWrite_rows`: what the two functions store is a fact;
* `exists_block_turned_receipt`: a response without a `VersionId` blocks until a later one has it;
* `receipt_merges`: **a receipt depends on the set of the facts, only grows with it, and no fact
  lifts a contradiction**.
-/

namespace Frostvault

namespace Receipts

open Checks FieldMerge

/-! ### Facts -/

/-- A response, or a value read back: a dictionary. -/
abbrev Response := Record (List Char) Json

/-- The facts of a response that are kept: never headers, cookies or credentials. -/
def allowedFields : List (List Char) :=
  ["VersionId", "ETag", "ChecksumSHA256", "ChecksumType", "ContentLength", "StorageClass"].map
    String.toList

/-- `allowed`. -/
def allowed (response : Response) : Response :=
  allowedFields.filterMap fun k => (get response k).map fun v => (k, v)

/-- `NO_WRITE_OPERATIONS`. -/
def noWriteOperations : List (List Char) :=
  ["PutObject", "CreateMultipartUpload", "UploadPart", "CompleteMultipartUpload",
    "ProvenAbsent"].map String.toList

/-- The key of an outcome without a write. -/
def noWriteKey : List Char := "NoWriteOperation".toList

/-- What is recorded: a response, or the outcome that nothing was written. -/
inductive ReceiptFact
  | response (r : Response)
  | noWrite (operation : List Char) (known : operation ∈ noWriteOperations)

/-- The value that is stored for a fact. -/
def ReceiptFact.json : ReceiptFact → Json
  | .response r => .obj (allowed r)
  | .noWrite operation _ => .obj [(noWriteKey, .str operation)]

section Table

variable {δ : Type} [DecidableEq δ] (sha256 : List Char → δ) (repr : Binary64 → List Char)

/-- `canonical`. -/
def canonicalText (v : Json) : List Char := Json.dumps repr v.sorted

/-- A row of `upload_receipts`. -/
structure ReceiptRow (δ : Type) where
  intentId : IntentId
  receiptHash : δ
  responseJson : List Char
deriving DecidableEq

/-- `INSERT INTO upload_receipts … ON CONFLICT DO NOTHING`. -/
def insertReceipt (rows : List (ReceiptRow δ)) (intent : IntentId) (text : List Char) :
    List (ReceiptRow δ) :=
  if rows.any fun row => row.intentId = intent && row.receiptHash = sha256 text then rows
  else rows ++ [⟨intent, sha256 text, text⟩]

/-- A fact is recorded. -/
def record (rows : List (ReceiptRow δ)) (f : IntentId × ReceiptFact) : List (ReceiptRow δ) :=
  insertReceipt sha256 rows f.1 (canonicalText repr f.2.json)

/-- The rows after some facts. -/
def recorded (facts : List (IntentId × ReceiptFact)) : List (ReceiptRow δ) :=
  facts.foldl (record sha256 repr) []

/-- `SELECT response_json FROM upload_receipts WHERE intent_id=%s`. -/
def fetch (rows : List (ReceiptRow δ)) (intent : IntentId) : List (List Char) :=
  (rows.filter fun row => row.intentId = intent).map ReceiptRow.responseJson

/-- `append_receipt`. -/
def appendReceipt (rows : List (ReceiptRow δ)) (intent : IntentId) (response : Response) :
    List (ReceiptRow δ) :=
  insertReceipt sha256 rows intent (canonicalText repr (.obj (allowed response)))

end Table

/-! ### The receipt -/

/-- What `receipt` raises: `UploadBlocked`, or the error of a text that is no dictionary. -/
inductive ReceiptError
  | blocked (reason : BlockReason)
  | malformed
deriving DecidableEq, Repr

/-- `json.loads` of a stored text. -/
def readFact (text : List Char) : Option Response :=
  match Json.loads text with
  | some (.obj ms) => some (ms.foldl (fun d e => set d e.1 e.2) [])
  | _ => none

/-- `set(r) == {'NoWriteOperation'} and r['NoWriteOperation'] in NO_WRITE_OPERATIONS`. -/
def isNoWrite : Response → Bool
  | [(k, .str operation)] => k = noWriteKey && noWriteOperations.contains operation
  | _ => false

/-- `"VersionId"`. -/
def versionKey : List Char := "VersionId".toList

/-- `"ETag"`. -/
def etagKey : List Char := "ETag".toList

/-- A `VersionId` that names a version. -/
def NamesVersion (v : Json) : Prop := v.truthy = true ∧ Json.same v (.str "null".toList) = false

instance (v : Json) : Decidable (NamesVersion v) := inferInstanceAs (Decidable (_ ∧ _))

/-- What the merged responses amount to. -/
def combine (responses : List Response) : Except ReceiptError (Option Response) :=
  match responses.foldlM (fun combined r => r.foldlM (mergeEntry Json.same) combined) [] with
  | none => .error (.blocked .ambiguousReceipt)
  | some combined =>
      match get combined versionKey with
      | some v =>
          if NamesVersion v then .ok (some combined) else .error (.blocked .ambiguousReceipt)
      | none => .error (.blocked .ambiguousReceipt)

/-- The stored responses; the outcomes without a write are history. -/
def responsesIn (texts : List (List Char)) : List Response :=
  (texts.filterMap readFact).filter fun r => !isNoWrite r

/-- **`receipt`**, of the texts in the order in which they were fetched. -/
def receipt (texts : List (List Char)) : Except ReceiptError (Option Response) :=
  if texts.any fun text => (readFact text).isNone then .error .malformed
  else if (responsesIn texts).isEmpty then .ok none
  else combine (responsesIn texts)

/-! ### The two functions on the database -/

/-- The columns of `upload_intents` that `record_no_write` looks at. -/
structure IntentState where
  id : IntentId
  sendStarted : Bool
  settled : Bool
  archiveVersionId : Option RowId
deriving DecidableEq, Repr

structure ReceiptDb (δ : Type) where
  intents : List IntentState
  rows : List (ReceiptRow δ)

variable {δ : Type} [DecidableEq δ] (sha256 : List Char → δ) (repr : Binary64 → List Char)

/-- `record_no_write`; `target` is the outcome of `require_target`. -/
def recordNoWrite (db : ReceiptDb δ) (intent : IntentId) (operation : List Char)
    (target : Except ReceiptError Unit) : Except ReceiptError (ReceiptDb δ) := do
  require (operation ∈ noWriteOperations) (.blocked .ambiguousSend)
  target
  let r ← receipt (fetch db.rows intent)
  require (r.isNone = true) (.blocked .ambiguousReceipt)
  require ((db.intents.any fun i =>
    i.id = intent && i.sendStarted && !i.settled && i.archiveVersionId.isNone) = true)
    (.blocked .ambiguousReceipt)
  pure {
    intents := db.intents.map fun i =>
      if i.id = intent then { i with sendStarted := false } else i
    rows := insertReceipt sha256 db.rows intent
      (canonicalText repr (.obj [(noWriteKey, .str operation)])) }

lemma recorded_concat (facts : List (IntentId × ReceiptFact)) (f : IntentId × ReceiptFact) :
    recorded sha256 repr (facts ++ [f]) = record sha256 repr (recorded sha256 repr facts) f := by
  rw [recorded, List.foldl_append]
  rfl

variable {sha256 repr}

lemma appendReceipt_eq (rows : List (ReceiptRow δ)) (i : IntentId) (r : Response) :
    appendReceipt sha256 repr rows i r = record sha256 repr rows (i, .response r) := rfl

lemma recordNoWrite_rows {db db' : ReceiptDb δ} {i : IntentId} {op : List Char}
    {target : Except ReceiptError Unit} (h : recordNoWrite sha256 repr db i op target = .ok db') :
    ∃ known, db'.rows = record sha256 repr db.rows (i, .noWrite op known) := by
  rw [recordNoWrite, require_bind_eq_ok_iff] at h
  obtain ⟨known, h⟩ := h
  simp only [bind_eq_ok_iff, require_eq_ok_iff, pure_eq_ok_iff] at h
  obtain ⟨-, -, -, -, -, -, -, -, rfl⟩ := h
  exact ⟨known, rfl⟩

/-! ### Stored rows -/

section

variable (facts : List (IntentId × ReceiptFact))

include facts

lemma recorded_append (more : List (IntentId × ReceiptFact)) :
    ∃ extra, recorded sha256 repr (facts ++ more) = recorded sha256 repr facts ++ extra := by
  induction more using List.reverseRecOn with
  | nil => exact ⟨[], by rw [List.append_nil, List.append_nil]⟩
  | append_singleton more f ih =>
      obtain ⟨extra, hextra⟩ := ih
      rw [← List.append_assoc, recorded_concat, hextra, record, insertReceipt]
      split
      · exact ⟨extra, rfl⟩
      · exact ⟨extra ++ [⟨f.1, sha256 (canonicalText repr f.2.json), canonicalText repr f.2.json⟩],
          by rw [List.append_assoc]⟩

lemma recorded_nodup :
    (recorded sha256 repr facts).Nodup := by
  induction facts using List.reverseRecOn with
  | nil => exact List.nodup_nil
  | append_singleton facts f ih =>
      rw [recorded_concat, record, insertReceipt]
      split
      · exact ih
      · rename_i hnew
        rw [List.nodup_append]
        refine ⟨ih, List.nodup_singleton _, ?_⟩
        rintro row hrow other hother rfl
        rw [List.mem_singleton] at hother
        refine hnew (List.any_eq_true.mpr ⟨row, hrow, ?_⟩)
        rw [hother]
        simp

/-- What is in the table comes from a fact, and every fact has its digest there. -/
lemma mem_recorded :
    (∀ row ∈ recorded sha256 repr facts, ∃ f ∈ facts,
      row = ⟨f.1, sha256 (canonicalText repr f.2.json), canonicalText repr f.2.json⟩) ∧
    ∀ f ∈ facts, ∃ row ∈ recorded sha256 repr facts, row.intentId = f.1 ∧
      row.receiptHash = sha256 (canonicalText repr f.2.json) := by
  induction facts using List.reverseRecOn with
  | nil => exact ⟨by simp [recorded], by simp⟩
  | append_singleton facts f ih =>
      obtain ⟨hfrom, hdigest⟩ := ih
      rw [recorded_concat, record, insertReceipt]
      split
      · rename_i hthere
        refine ⟨fun row hrow => ?_, fun g hg => ?_⟩
        · obtain ⟨g, hg, rfl⟩ := hfrom row hrow
          exact ⟨g, List.mem_append_left _ hg, rfl⟩
        · rcases List.mem_append.mp hg with hg | hg
          · exact hdigest g hg
          · rw [List.mem_singleton.mp hg]
            obtain ⟨row, hrow, heq⟩ := List.any_eq_true.mp hthere
            exact ⟨row, hrow, by simpa using heq⟩
      · refine ⟨fun row hrow => ?_, fun g hg => ?_⟩
        · rcases List.mem_append.mp hrow with hrow | hrow
          · obtain ⟨g, hg, rfl⟩ := hfrom row hrow
            exact ⟨g, List.mem_append_left _ hg, rfl⟩
          · exact ⟨f, List.mem_append_right _ (List.mem_singleton_self f),
              List.mem_singleton.mp hrow⟩
        · rcases List.mem_append.mp hg with hg | hg
          · obtain ⟨row, hrow, heq⟩ := hdigest g hg
            exact ⟨row, List.mem_append_left _ hrow, heq⟩
          · rw [List.mem_singleton.mp hg]
            exact ⟨_, List.mem_append_right _ (List.mem_singleton_self _), rfl, rfl⟩

end

/-- No two of the texts have one digest. -/
def CollisionFree (sha256 : List Char → δ) (repr : Binary64 → List Char)
    (facts : List (IntentId × ReceiptFact)) : Prop :=
  ∀ f ∈ facts, ∀ g ∈ facts,
    sha256 (canonicalText repr f.2.json) = sha256 (canonicalText repr g.2.json) →
    canonicalText repr f.2.json = canonicalText repr g.2.json

variable {facts : List (IntentId × ReceiptFact)} {r : Response} {texts texts' : List (List Char)}

lemma CollisionFree.mem_recorded_iff (h : CollisionFree sha256 repr facts) (row : ReceiptRow δ) :
    row ∈ recorded sha256 repr facts ↔ ∃ f ∈ facts,
      row = ⟨f.1, sha256 (canonicalText repr f.2.json), canonicalText repr f.2.json⟩ := by
  obtain ⟨hfrom, hdigest⟩ := @mem_recorded _ _ sha256 repr facts
  refine ⟨hfrom row, ?_⟩
  rintro ⟨f, hf, rfl⟩
  obtain ⟨row, hrow, hintent, hhash⟩ := hdigest f hf
  obtain ⟨g, hg, rfl⟩ := hfrom row hrow
  dsimp only at hintent
  rw [h g hg f hf hhash] at hrow
  rwa [hintent] at hrow

lemma recorded_again {f : IntentId × ReceiptFact} (h : f ∈ facts) :
    recorded sha256 repr (facts ++ [f]) = recorded sha256 repr facts := by
  obtain ⟨row, hrow, hintent, hhash⟩ := (@mem_recorded _ _ sha256 repr facts).2 f h
  rw [recorded_concat, record, insertReceipt, if_pos]
  exact List.any_eq_true.mpr ⟨row, hrow, by simp [hintent, hhash]⟩

/-! ### What the texts say -/

lemma readFact_text (k text : List Char) :
    readFact (canonicalText repr (.obj [(k, .str text)])) = some [(k, .str text)] := by
  have hplain : Json.Plain (.obj [(k, .str text)]) := by
    refine .obj fun m hm => ?_
    rw [List.mem_singleton.mp hm]
    exact .str _
  have hsorted : (Json.obj [(k, .str text)]).sorted = .obj [(k, .str text)] := by
    rw [Json.sorted, Json.sortedMembers, Json.sortedMembers, Json.sorted]
    · rfl
    · nofun
    · nofun
  rw [readFact, canonicalText, hsorted, Json.loads_dumps hplain]
  rfl

lemma isNoWrite_known {operation : List Char} (known : operation ∈ noWriteOperations) :
    isNoWrite [(noWriteKey, .str operation)] := by
  rw [isNoWrite, Bool.and_eq_true, decide_eq_true_eq, List.contains_iff_mem]
  exact ⟨rfl, known⟩

/-- The entries of the stored responses, one after the other. -/
def entries (texts : List (List Char)) : List (List Char × Json) := (responsesIn texts).flatten

lemma foldlM_responses (responses : List Response) (r : Response) :
    responses.foldlM (fun combined r => r.foldlM (mergeEntry Json.same) combined) r =
      responses.flatten.foldlM (mergeEntry Json.same) r := by
  induction responses generalizing r with
  | nil => rfl
  | cons x xs ih =>
      rw [List.foldlM_cons, List.flatten_cons, List.foldlM_append]
      congr 1
      funext r'
      exact ih r'

/-- What a receipt is made of. -/
structure ReceiptOf (texts : List (List Char)) (r : Response) : Prop where
  merged : mergeAll Json.same (entries texts) = some r
  version : ∃ v, get r versionKey = some v ∧ NamesVersion v

lemma combine_eq_some_iff :
    combine (responsesIn texts) = .ok (some r) ↔ ReceiptOf texts r := by
  rw [combine, foldlM_responses, ← entries, ← mergeAll]
  constructor
  · intro h
    split at h
    · cases h
    · rename_i combined hcombined
      split at h
      · rename_i v hv
        split at h
        · rename_i hnames
          cases Except.ok.inj h
          exact ⟨hcombined, v, hv, hnames⟩
        · cases h
      · cases h
  · rintro ⟨hmerged, v, hv, hnames⟩
    rw [hmerged]
    dsimp only
    rw [hv]
    dsimp only
    rw [if_pos hnames]

lemma combine_cases (responses : List Response) :
    (∃ r, combine responses = .ok (some r)) ∨
      combine responses = .error (.blocked .ambiguousReceipt) := by
  rw [combine]
  split
  · exact .inr rfl
  · split
    · split
      · exact .inl ⟨_, rfl⟩
      · exact .inr rfl
    · exact .inr rfl

/-- Every text is that of a dictionary. -/
def Readable (texts : List (List Char)) : Prop :=
  ∀ text ∈ texts, (readFact text).isNone = false

/-- What `receipt` returns or raises, by the reason. -/
inductive ReceiptCases (texts : List (List Char)) : Except ReceiptError (Option Response) → Prop
  | malformed (h : ¬ Readable texts) : ReceiptCases texts (.error .malformed)
  | none (h : Readable texts) (hnone : responsesIn texts = []) : ReceiptCases texts (.ok none)
  | some (h : Readable texts) (r : Response) (hr : ReceiptOf texts r) :
      ReceiptCases texts (.ok (some r))
  | blocked (h : Readable texts) (hsome : responsesIn texts ≠ [])
      (hno : ∀ r, ¬ ReceiptOf texts r) :
      ReceiptCases texts (.error (.blocked .ambiguousReceipt))

lemma receipt_cases (texts : List (List Char)) : ReceiptCases texts (receipt texts) := by
  rw [receipt]
  split
  · rename_i hbad
    obtain ⟨text, htext, hnone⟩ := List.any_eq_true.mp hbad
    exact .malformed fun h => absurd ((h text htext).symm.trans hnone) nofun
  · rename_i hgood
    have hread : Readable texts := fun text htext => by
      by_contra hbad
      exact hgood (List.any_eq_true.mpr ⟨text, htext, Bool.of_not_eq_false hbad⟩)
    split
    · rename_i hempty
      exact .none hread (List.isEmpty_iff.mp hempty)
    · rename_i hsome
      rcases combine_cases (responsesIn texts) with ⟨r, hr⟩ | hblocked
      · rw [hr]
        exact .some hread r (combine_eq_some_iff.mp hr)
      · rw [hblocked]
        refine .blocked hread (fun hnil => hsome (List.isEmpty_iff.mpr hnil)) fun r hr => ?_
        rw [combine_eq_some_iff.mpr hr] at hblocked
        cases hblocked

lemma receiptOf_of_eq (h : receipt texts = .ok (some r)) : ReceiptOf texts r := by
  have hcases := receipt_cases texts
  rw [h] at hcases
  cases hcases with
  | some _ _ hr => exact hr

lemma responsesIn_append (texts extra : List (List Char)) :
    responsesIn (texts ++ extra) = responsesIn texts ++ responsesIn extra := by
  rw [responsesIn, List.filterMap_append, List.filter_append, responsesIn, responsesIn]

lemma entries_append (texts extra : List (List Char)) :
    entries (texts ++ extra) = entries texts ++ entries extra := by
  rw [entries, responsesIn_append, List.flatten_append, entries, entries]

lemma entries_perm (h : texts.Perm texts') :
    (entries texts).Perm (entries texts') :=
  ((h.filterMap _).filter _).flatten

/-- Values that are the same name a version or not alike. -/
lemma namesVersion_of_near {v w : Json} (h : Near Json.same v w) (hw : NamesVersion w) :
    NamesVersion v := by
  rcases h with rfl | h
  · exact hw
  · refine ⟨(Json.truthy_of_same h).trans hw.1, ?_⟩
    by_contra hnull
    have hsame := Json.same_trans w v _ (Json.same_symm v w h) (Bool.of_not_eq_false hnull)
    rw [hw.2] at hsame
    cases hsame

lemma ReceiptOf.responses_ne (h : ReceiptOf texts r) :
    responsesIn texts ≠ [] := by
  intro hnil
  obtain ⟨hmerged, v, hv, -⟩ := h
  rw [entries, hnil] at hmerged
  cases hmerged
  cases hv

/-- A receipt of the same texts in another order. -/
lemma ReceiptOf.perm (h : texts.Perm texts') (hr : ReceiptOf texts r) :
    ∃ r', ReceiptOf texts' r' ∧ FieldMerge.Agrees Json.same r r' := by
  obtain ⟨hmerged, v, hv, hnames⟩ := hr
  have hrel := mergeAll_perm Json.same_symm Json.same_trans (entries_perm h)
  rw [hmerged] at hrel
  cases hmerged' : mergeAll Json.same (entries texts') with
  | none =>
      rw [hmerged'] at hrel
      cases hrel
  | some r' =>
      rw [hmerged'] at hrel
      cases hrel with
      | some hagrees =>
          obtain ⟨w, hw, hnear⟩ := hagrees.1 versionKey v hv
          exact ⟨r', ⟨hmerged', w, hw,
            namesVersion_of_near (hnear.symm Json.same_symm) hnames⟩, hagrees⟩

/-! ### Receipts merge -/

/-- Two results say the same: one error, no receipt, or two receipts with the same fields. -/
def SameReceipt : Except ReceiptError (Option Response) → Except ReceiptError (Option Response) →
    Prop
  | .ok (some r), .ok (some r') => FieldMerge.Agrees Json.same r r'
  | .ok none, .ok none => True
  | .error e, .error e' => e = e'
  | _, _ => False

/-- **The order of the texts does not matter.** -/
lemma receipt_perm (h : texts.Perm texts') :
    SameReceipt (receipt texts) (receipt texts') := by
  have hread : Readable texts ↔ Readable texts' :=
    ⟨fun hr text ht => hr text (h.mem_iff.mpr ht), fun hr text ht => hr text (h.mem_iff.mp ht)⟩
  have hresponses : (responsesIn texts).Perm (responsesIn texts') := (h.filterMap _).filter _
  have hnil : responsesIn texts = [] ↔ responsesIn texts' = [] :=
    ⟨fun hr => (hr ▸ hresponses).nil_eq.symm, fun hr => (hr ▸ hresponses).eq_nil⟩
  generalize hx : receipt texts = x
  generalize hy : receipt texts' = y
  have hcases := receipt_cases texts
  have hcases' := receipt_cases texts'
  rw [hx] at hcases
  rw [hy] at hcases'
  cases hcases with
  | malformed hbad =>
      cases hcases' with
      | malformed _ => rfl
      | none hr _ => exact absurd (hread.mpr hr) hbad
      | some hr _ _ => exact absurd (hread.mpr hr) hbad
      | blocked hr _ _ => exact absurd (hread.mpr hr) hbad
  | none hr hnone =>
      cases hcases' with
      | malformed hbad => exact absurd (hread.mp hr) hbad
      | none _ _ => trivial
      | some _ r hof => exact absurd (hnil.mp hnone) hof.responses_ne
      | blocked _ hsome _ => exact absurd (hnil.mp hnone) hsome
  | some hr r hof =>
      obtain ⟨r', hof', hagrees⟩ := hof.perm h
      cases hcases' with
      | malformed hbad => exact absurd (hread.mp hr) hbad
      | none _ hnone => exact absurd (hnil.mpr hnone) hof.responses_ne
      | some _ r'' hof'' =>
          cases hof'.merged.symm.trans hof''.merged
          exact hagrees
      | blocked _ _ hno => exact absurd hof' (hno r')
  | blocked hr hsome hno =>
      cases hcases' with
      | malformed hbad => exact absurd (hread.mp hr) hbad
      | none _ hnone => exact absurd (hnil.mpr hnone) hsome
      | some _ r' hof' =>
          obtain ⟨r, hof, -⟩ := hof'.perm h.symm
          exact absurd hof (hno r)
      | blocked _ _ _ => rfl

/-- Two stored responses differ in a field, or one has a `VersionId` that names no version. -/
def Contradicted (texts : List (List Char)) : Prop :=
  ¬ Agreeing Json.same (entries texts) ∨
    ∃ v, (versionKey, v) ∈ entries texts ∧ ¬ NamesVersion v

lemma ReceiptOf.not_contradicted (h : ReceiptOf texts r) : ¬ Contradicted texts := by
  obtain ⟨hagree, hof⟩ := mergeAll_spec Json.same_trans h.merged
  obtain ⟨w, hw, hnames⟩ := h.version
  rintro (hdiffer | ⟨v, hv, hbad⟩)
  · exact hdiffer hagree
  · obtain ⟨w', hw', hnear⟩ := hof.near _ hv
    cases hw.symm.trans hw'
    exact hbad (namesVersion_of_near hnear hnames)

lemma Contradicted.append (h : Contradicted texts) (extra : List (List Char)) :
    Contradicted (texts ++ extra) := by
  rw [Contradicted, entries_append]
  rcases h with hdiffer | ⟨v, hv, hbad⟩
  · exact .inl fun hagree => hdiffer (List.pairwise_append.mp hagree).1
  · exact .inr ⟨v, List.mem_append_left _ hv, hbad⟩

/-- Without a contradiction there is a receipt as soon as a response names the version. -/
lemma receiptOf_of_version (h : ¬ Contradicted texts) {v : Json}
    (hv : (versionKey, v) ∈ entries texts) : ∃ r, ReceiptOf texts r := by
  rw [Contradicted, not_or, not_not] at h
  obtain ⟨hagree, hnames⟩ := h
  obtain ⟨r, hr⟩ := hagree.mergeAll Json.same_trans
  obtain ⟨-, hof⟩ := mergeAll_spec Json.same_trans hr
  obtain ⟨w, hw, -⟩ := hof.near _ hv
  refine ⟨r, hr, w, hw, ?_⟩
  by_contra hbad
  exact hnames ⟨w, hof.mem _ _ hw, hbad⟩

/-- A receipt of more texts extends the one of fewer. -/
lemma ReceiptOf.extends {extra : List (List Char)} {r' : Response} (h : ReceiptOf texts r)
    (h' : ReceiptOf (texts ++ extra) r') :
    FieldMerge.Extends Json.same r r' := by
  have hmerged := h'.merged
  rw [entries_append] at hmerged
  obtain ⟨r'', hr'', hext⟩ := mergeAll_append Json.same_trans hmerged
  cases h.merged.symm.trans hr''
  exact hext

/-- The text of an outcome without a write. -/
def isNoWriteText (repr : Binary64 → List Char) (text : List Char) : Bool :=
  noWriteOperations.any fun operation =>
    text = canonicalText repr (.obj [(noWriteKey, .str operation)])

lemma receipt_filter (texts : List (List Char)) :
    receipt (texts.filter fun text => !isNoWriteText repr text) = receipt texts := by
  have hsame : responsesIn (texts.filter fun text => !isNoWriteText repr text) =
      responsesIn texts ∧
      ((texts.filter fun text => !isNoWriteText repr text).any fun text =>
        (readFact text).isNone) = texts.any fun text => (readFact text).isNone := by
    induction texts with
    | nil => exact ⟨rfl, rfl⟩
    | cons text texts ih =>
        rw [List.filter_cons]
        by_cases htext : isNoWriteText repr text
        · obtain ⟨operation, known, heq⟩ := List.any_eq_true.mp htext
          have hread : readFact text = some [(noWriteKey, .str operation)] := by
            rw [of_decide_eq_true heq]
            exact readFact_text noWriteKey operation
          rw [if_neg (by simp [htext]), ih.1, ih.2, responsesIn, responsesIn,
            List.filterMap_cons_some hread,
            List.filter_cons_of_neg (by rw [isNoWrite_known known]; simp), List.any_cons, hread]
          exact ⟨rfl, rfl⟩
        · rw [if_pos (by simpa using htext), List.any_cons, List.any_cons, ih.2,
            ← List.singleton_append, responsesIn_append, ih.1, ← responsesIn_append]
          exact ⟨rfl, rfl⟩
  rw [receipt, receipt, hsame.1, hsame.2]

lemma exists_extra {more : List (IntentId × ReceiptFact)} {intent : IntentId}
    (h : texts.Perm (fetch (recorded sha256 repr facts) intent))
    (h' : texts'.Perm (fetch (recorded sha256 repr (facts ++ more)) intent)) :
    ∃ extra, texts'.Perm (texts ++ extra) := by
  obtain ⟨extra, hextra⟩ := @recorded_append _ _ sha256 repr facts more
  rw [hextra, fetch, List.filter_append, List.map_append, ← fetch, ← fetch] at h'
  exact ⟨_, h'.trans (h.symm.append_right _)⟩

/-- **How the receipts of an intent depend on the facts.**  The rows are fetched in any order. -/
structure MergesReceipts (sha256 : List Char → δ) (repr : Binary64 → List Char) (intent : IntentId)
    (facts : List (IntentId × ReceiptFact)) : Prop where
  /-- The receipt depends on the rows that are stored only. -/
  stored : ∀ facts', (∀ row, row ∈ recorded sha256 repr facts ↔ row ∈ recorded sha256 repr facts') →
    ∀ texts texts', texts.Perm (fetch (recorded sha256 repr facts) intent) →
      texts'.Perm (fetch (recorded sha256 repr facts') intent) →
      SameReceipt (receipt texts) (receipt texts')
  /-- Neither the order of the facts nor their number matters to what is stored. -/
  order : CollisionFree sha256 repr facts → ∀ facts', (∀ f, f ∈ facts ↔ f ∈ facts') →
    ∀ row, row ∈ recorded sha256 repr facts ↔ row ∈ recorded sha256 repr facts'
  /-- A fact that is recorded again changes nothing. -/
  again : ∀ f ∈ facts, recorded sha256 repr (facts ++ [f]) = recorded sha256 repr facts
  /-- More facts block the receipt, or leave its fields and add others. -/
  grows : ∀ more texts texts', texts.Perm (fetch (recorded sha256 repr facts) intent) →
    texts'.Perm (fetch (recorded sha256 repr (facts ++ more)) intent) →
    ∀ r, receipt texts = .ok (some r) → ∀ result, receipt texts' = .ok result →
      ∃ r', result = some r' ∧ FieldMerge.Extends Json.same r r'
  /-- No fact lifts a contradiction. -/
  contradicted : Contradicted (fetch (recorded sha256 repr facts) intent) → ∀ more texts',
    texts'.Perm (fetch (recorded sha256 repr (facts ++ more)) intent) →
    ∀ result, receipt texts' ≠ .ok result
  /-- Any other block is there because no response has named a version yet. -/
  unnamed : ∀ texts, texts.Perm (fetch (recorded sha256 repr facts) intent) →
    receipt texts = .error (.blocked .ambiguousReceipt) →
    Contradicted texts ∨ ∀ v, (versionKey, v) ∉ entries texts
  /-- Outcomes without a write neither hide a receipt nor make one. -/
  noWrite : ∀ texts, texts.Perm (fetch (recorded sha256 repr facts) intent) →
    receipt texts = receipt (texts.filter fun text => !isNoWriteText repr text)

/-- **Receipts merge.** -/
theorem receipt_merges (sha256 : List Char → δ) (repr : Binary64 → List Char) (intent : IntentId)
    (facts : List (IntentId × ReceiptFact)) : MergesReceipts sha256 repr intent facts where
  stored := by
    intro facts' hrows texts texts' htexts htexts'
    have hperm : (recorded sha256 repr facts).Perm (recorded sha256 repr facts') :=
      (List.perm_ext_iff_of_nodup (recorded_nodup facts) (recorded_nodup facts')).mpr hrows
    exact receipt_perm (htexts.trans (((hperm.filter _).map _).trans htexts'.symm))
  order := by
    intro hfree facts' hfacts row
    have hfree' : CollisionFree sha256 repr facts' := fun f hf g hg =>
      hfree f ((hfacts f).mpr hf) g ((hfacts g).mpr hg)
    rw [hfree.mem_recorded_iff, hfree'.mem_recorded_iff]
    exact exists_congr fun f => and_congr_left fun _ => hfacts f
  again := fun _ hf => recorded_again hf
  grows := by
    intro more texts texts' htexts htexts' r hr result hresult
    obtain ⟨extra, hperm⟩ := exists_extra htexts htexts'
    have hof := receiptOf_of_eq hr
    have hcases := receipt_cases texts'
    rw [hresult] at hcases
    cases hcases with
    | none _ hnone =>
        have hnil := (((hperm.filterMap _).filter _).symm.trans (.of_eq hnone)).eq_nil
        rw [← responsesIn, responsesIn_append, List.append_eq_nil_iff] at hnil
        exact absurd hnil.1 hof.responses_ne
    | some _ r' hof' =>
        obtain ⟨r'', hof'', hagrees⟩ := hof'.perm hperm
        refine ⟨r', rfl, fun k v hv => ?_⟩
        obtain ⟨w, hw, hnear⟩ := hof.extends hof'' k v hv
        obtain ⟨u, hu, hnear'⟩ := hagrees.2 k w hw
        exact ⟨u, hu, hnear.trans Json.same_trans hnear'⟩
  contradicted := by
    intro hcontra more texts' htexts' result hresult
    obtain ⟨extra, hperm⟩ := exists_extra (.refl _) htexts'
    have hcontra' := hcontra.append extra
    have hcases := receipt_cases texts'
    rw [hresult] at hcases
    cases hcases with
    | none _ hnone =>
        have hnil := (((hperm.filterMap _).filter _).symm.trans (.of_eq hnone)).eq_nil
        rw [← responsesIn] at hnil
        rcases hcontra' with hdiffer | ⟨v, hv, -⟩
        · refine hdiffer ?_
          rw [entries, hnil]
          exact List.Pairwise.nil
        · rw [entries, hnil] at hv
          cases hv
    | some _ r' hof' =>
        obtain ⟨r'', hof'', -⟩ := hof'.perm hperm
        exact hof''.not_contradicted hcontra'
  unnamed := by
    intro texts _ hblocked
    by_contra hnot
    obtain ⟨hcontra, hnamed⟩ := not_or.mp hnot
    obtain ⟨v, hv⟩ := not_forall.mp hnamed
    obtain ⟨r, hr⟩ := receiptOf_of_version hcontra (not_not.mp hv)
    have hcases := receipt_cases texts
    rw [hblocked] at hcases
    cases hcases with
    | blocked _ _ hno => exact hno r hr
  noWrite := fun texts _ => (receipt_filter texts).symm

/-- A response without a `VersionId` blocks; the next one has it, and there is a receipt. -/
theorem exists_block_turned_receipt :
    receipt (fetch (recorded id (fun _ => [])
      [(0, .response [(etagKey, .str ['e'])])]) 0) = .error (.blocked .ambiguousReceipt) ∧
    receipt (fetch (recorded id (fun _ => [])
      [(0, .response [(etagKey, .str ['e'])]), (0, .response [(versionKey, .str ['v'])])]) 0) =
      .ok (some [(etagKey, .str ['e']), (versionKey, .str ['v'])]) := by
  have hetag := @readFact_text (fun _ => []) etagKey ['e']
  have hversion := @readFact_text (fun _ => []) versionKey ['v']
  generalize ht : canonicalText (fun _ => []) (.obj [(etagKey, .str ['e'])]) = t at hetag
  generalize hu : canonicalText (fun _ => []) (.obj [(versionKey, .str ['v'])]) = u at hversion
  have hne : t ≠ u := by
    rintro rfl
    rw [hetag] at hversion
    have hkeys := (Prod.ext_iff.mp (List.cons.inj (Option.some.inj hversion)).1).1
    cases hkeys
  have hfirst : (ReceiptFact.response [(etagKey, .str ['e'])]).json =
      .obj [(etagKey, .str ['e'])] := rfl
  have hsecond : (ReceiptFact.response [(versionKey, .str ['v'])]).json =
      .obj [(versionKey, .str ['v'])] := rfl
  have hone : fetch (recorded id (fun _ => []) [(0, .response [(etagKey, .str ['e'])])]) 0 =
      [t] := by
    simp [recorded, record, insertReceipt, hfirst, ht, fetch]
  have htwo : fetch (recorded id (fun _ => []) [(0, .response [(etagKey, .str ['e'])]),
      (0, .response [(versionKey, .str ['v'])])]) 0 = [t, u] := by
    simp [recorded, record, insertReceipt, hfirst, hsecond, ht, hu, hne, fetch]
  rw [hone, htwo]
  constructor
  · simp [receipt, responsesIn, hetag]
    rfl
  · simp [receipt, responsesIn, hetag, hversion]
    rfl

end Receipts

end Frostvault
