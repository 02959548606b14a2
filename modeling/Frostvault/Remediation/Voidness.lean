import Frostvault.Lib.Json
import Frostvault.Remediation.Ledger

/-!
The two ways the ledger tells that an episode is void: `_void` asks the receipts for a canonical
text and the intents for a row, `VOID_SQL` does both in one expression with the text written out
(`app/services/upload_remediation.py`, `app/services/upload_provenance.py`).

* `UploadFact.json`: what `append_receipt` and `record_no_write` store;
* `responseJson_eq_literal_iff`: only a proven absence has the text of `VOID_SQL`;
* `voidSql_eq_void`: **the two agree on every row of every database.**
-/

namespace Frostvault

/-! ### Stored texts -/

/-- The name of an operation, as `NoWriteOperation.ofName` reads it. -/
def NoWriteOperation.name : NoWriteOperation → String
  | .putObject => "PutObject"
  | .createMultipartUpload => "CreateMultipartUpload"
  | .uploadPart => "UploadPart"
  | .completeMultipartUpload => "CompleteMultipartUpload"
  | .provenAbsent => "ProvenAbsent"

/-- The members of a response that are there, in the order of their keys.  A `VersionId` is
written by its number. -/
def UploadResponse.members (r : UploadResponse) : List (List Char × Json) :=
  (r.checksumSha256.map fun s => ("ChecksumSHA256".toList, Json.str s.toList)).toList ++
  (r.checksumType.map fun s => ("ChecksumType".toList, Json.str s.toList)).toList ++
  (r.contentLength.map fun n => ("ContentLength".toList, Json.int n)).toList ++
  (r.etag.map fun s => ("ETag".toList, Json.str s.toList)).toList ++
  (r.storageClass.map fun s => ("StorageClass".toList, Json.str s.toList)).toList ++
  (r.versionId.map fun n => ("VersionId".toList, Json.str (Nat.toDigits 10 n))).toList

/-- The value of `upload_receipts.response_json`. -/
def UploadFact.json : UploadFact → Json
  | .noWrite op => .obj [("NoWriteOperation".toList, .str op.name.toList)]
  | .response r => .obj r.members

/-- `canonical`: no stored value has a number that is not whole. -/
def canonical (v : Json) : List Char := Json.dumps (fun _ => []) v

/-- The text `VOID_SQL` compares with. -/
def provenAbsentLiteral : List Char := "\x7b\"NoWriteOperation\":\"ProvenAbsent\"\x7d".toList

/-- `VOID_SQL`. -/
def Ledger.voidSql (L : Ledger) (e : Episode) : Bool :=
  e.intentId.isSome &&
  (L.db.receipts.any fun p => some p.1 = e.intentId && canonical p.2.json = provenAbsentLiteral) &&
  L.db.intents.any fun u => some u.id = e.intentId && !u.sendStarted && u.archiveVersionId.isNone

/-! ### The texts tell the facts apart -/

/-- The stored values are objects of texts and whole numbers. -/
lemma UploadFact.plain_json (f : UploadFact) : Json.Plain f.json := by
  cases f with
  | noWrite op =>
      refine .obj fun m hm => ?_
      rw [List.mem_singleton.mp hm]
      exact .str _
  | response r =>
      refine .obj fun m hm => ?_
      simp only [UploadResponse.members, List.mem_append, Option.mem_toList,
        Option.map_eq_some_iff] at hm
      rcases hm with ((((⟨s, -, rfl⟩ | ⟨s, -, rfl⟩) | ⟨n, -, rfl⟩) | ⟨s, -, rfl⟩) | ⟨s, -, rfl⟩) |
        ⟨n, -, rfl⟩
      · exact .str _
      · exact .str _
      · exact .int _
      · exact .str _
      · exact .str _
      · exact .str _

lemma json_eq_of_canonical {f g : UploadFact} (h : canonical f.json = canonical g.json) :
    f.json = g.json := by
  have hf : Json.loads (canonical f.json) = some f.json := Json.loads_dumps f.plain_json
  have hg : Json.loads (canonical g.json) = some g.json := Json.loads_dumps g.plain_json
  rw [h, hg] at hf
  exact (Option.some.inj hf).symm

/-- No response has the key of an outcome without a write. -/
lemma UploadResponse.members_ne (r : UploadResponse) (v : Json) :
    r.members ≠ [("NoWriteOperation".toList, v)] := by
  intro h
  have hmem : ("NoWriteOperation".toList, v) ∈ r.members := by
    rw [h]
    exact List.mem_singleton_self _
  simp only [UploadResponse.members, List.mem_append, Option.mem_toList,
    Option.map_eq_some_iff, Prod.mk.injEq] at hmem
  rcases hmem with ((((⟨s, -, hk, -⟩ | ⟨s, -, hk, -⟩) | ⟨n, -, hk, -⟩) | ⟨s, -, hk, -⟩) |
    ⟨s, -, hk, -⟩) | ⟨n, -, hk, -⟩ <;> cases hk

lemma NoWriteOperation.name_eq_provenAbsent {op : NoWriteOperation}
    (h : op.name.toList = "ProvenAbsent".toList) : op = .provenAbsent := by
  cases op with
  | provenAbsent => rfl
  | putObject => cases h
  | createMultipartUpload => cases h
  | uploadPart => cases h
  | completeMultipartUpload => cases h

/-- `VOID_SQL` spells the canonical text of a proven absence. -/
lemma canonical_provenAbsent :
    canonical (UploadFact.noWrite .provenAbsent).json = provenAbsentLiteral := by
  decide

/-- **Only a proven absence has the text of `VOID_SQL`.** -/
lemma responseJson_eq_literal_iff (f : UploadFact) :
    canonical f.json = provenAbsentLiteral ↔ f = .noWrite .provenAbsent := by
  constructor
  · intro h
    have hjson := json_eq_of_canonical (h.trans canonical_provenAbsent.symm)
    cases f with
    | response r =>
        simp only [UploadFact.json, Json.obj.injEq] at hjson
        exact absurd hjson (r.members_ne _)
    | noWrite op =>
        simp only [UploadFact.json, Json.obj.injEq, List.cons.injEq, Prod.mk.injEq, Json.str.injEq,
          true_and, and_true] at hjson
        rw [NoWriteOperation.name_eq_provenAbsent hjson]
  · rintro rfl
    exact canonical_provenAbsent

/-- The two predicates agree on every row of every database. -/
lemma Ledger.voidSql_eq (L : Ledger) (e : Episode) : L.voidSql e = L.void e := by
  cases hid : e.intentId with
  | none => simp [Ledger.voidSql, Ledger.void, provenAbsent, unsent, hid]
  | some i =>
      have hreceipts : (L.db.receipts.any fun p =>
          some p.1 = some i && canonical p.2.json = provenAbsentLiteral) =
          L.db.receipts.contains (i, .noWrite .provenAbsent) := by
        rw [Bool.eq_iff_iff]
        simp only [List.any_eq_true, Bool.and_eq_true, decide_eq_true_eq, Option.some.injEq,
          responseJson_eq_literal_iff, List.contains_iff_mem]
        constructor
        · rintro ⟨⟨i', f⟩, hmem, rfl, rfl⟩
          exact hmem
        · intro hmem
          exact ⟨_, hmem, rfl, rfl⟩
      simp only [Ledger.voidSql, Ledger.void, provenAbsent, unsent, hid, Option.isSome_some,
        Bool.true_and, Option.any_some]
      rw [hreceipts]
      simp

end Frostvault
