import Frostvault.LocalFiles.Publication

/-!
A path that occurs several times in one batch (`observe_local_copies_batch` of `app/catalog.py`).

The batch keeps the last occurrence of a path and writes its upsert once.  One observation at a
time writes an upsert for every occurrence, and each reads the row the one before it left.

* `find?_lastByPath`: the entry a batch keeps for a path;
* `bind_rowAfter_of_drops`, `hold_rowAfter`, `clock_rowAfter`: the row after all occurrences;
* `rowAfter_last_iff`: when the last entry alone leaves it;
* `copyAt_observeEach`, `copyAt_observeLocalCopiesBatch`: the row of the path either way;
* `repeated_path_iff`: **when the two rows are the same**.
-/

namespace Frostvault

open Option List

variable {vaults : VaultTable} {cat cat' : Catalog} {v : VaultId} {p : Path}

/-! ### The occurrences of a path -/

/-- The entries of a batch about one path, in order. -/
def occurrences (p : Path) (entries : List LocalEntry) : List LocalEntry :=
  entries.filter fun e => e.path = p

lemma path_of_mem_occurrences {entries : List LocalEntry} {e : LocalEntry}
    (h : e ∈ occurrences p entries) : e.path = p := by
  simpa using of_mem_filter h

lemma occurrences_concat (p : Path) (entries : List LocalEntry) (e : LocalEntry) :
    occurrences p (entries ++ [e]) =
      if e.path = p then occurrences p entries ++ [e] else occurrences p entries := by
  rw [occurrences, filter_append]
  split
  · rename_i h
    rw [filter_cons_of_pos (by simpa using h)]
    rfl
  · rename_i h
    rw [filter_cons_of_neg (by simpa using h), filter_nil, append_nil]
    rfl

/-- **The last occurrence wins**: the entry a batch keeps for a path. -/
lemma find?_lastByPath (p : Path) (entries : List LocalEntry) :
    ((lastByPath entries).find? fun o => o.path = p) = (occurrences p entries).getLast? := by
  induction entries using List.reverseRecOn with
  | nil => rfl
  | append_singleton es e ih =>
      rw [lastByPath_concat, occurrences_concat]
      by_cases hp : e.path = p
      · subst hp
        rw [if_pos rfl, getLast?_concat]
        split
        · rename_i hany
          have hsome : ((lastByPath es).find? fun o => o.path = e.path).isSome := by
            simpa using hany
          obtain ⟨o, ho⟩ := isSome_iff_exists.mp hsome
          have hpath : o.path = e.path := by simpa using find?_some ho
          have hfun : ((fun o : LocalEntry => decide (o.path = e.path)) ∘
              fun o : LocalEntry => if o.path = e.path then e else o) =
              fun o : LocalEntry => decide (o.path = e.path) := by
            funext o
            by_cases h : o.path = e.path <;> simp [h]
          rw [find?_map, hfun, ho, map_some, if_pos hpath]
        · rename_i hany
          have hnone : ((lastByPath es).find? fun o => o.path = e.path) = none := by
            simpa using hany
          rw [find?_append, hnone, none_or]
          simp
      · rw [if_neg hp, ← ih]
        split
        · have hfun : ((fun o : LocalEntry => decide (o.path = p)) ∘
              fun o : LocalEntry => if o.path = e.path then e else o) =
              fun o : LocalEntry => decide (o.path = p) := by
            funext o
            by_cases h : o.path = e.path <;> simp [h, hp]
          rw [find?_map, hfun]
          cases hfind : (lastByPath es).find? fun o => decide (o.path = p) with
          | none => rfl
          | some o =>
              have hpath : o.path = p := by simpa using find?_some hfind
              rw [map_some, if_neg (hpath ▸ fun h => hp h.symm)]
        · rw [find?_append, find?_cons_of_neg (by simpa using hp), find?_nil,
            or_none]

/-! ### One upsert after the other -/

/-- What a row says about the content of its path. -/
structure Sight where
  presence : Presence
  fileType : FileType
  size : Option ℕ
  mtimeNs : Option ℤ
deriving DecidableEq

def LocalCopy.sight (lc : LocalCopy) : Sight := ⟨lc.presence, lc.fileType, lc.size, lc.mtimeNs⟩

def LocalEntry.sight (e : LocalEntry) : Sight :=
  ⟨presenceOf e.fileType, e.fileType, e.size, e.mtimeNs⟩

/-- Since when the row says what it says. -/
def LocalCopy.clock (lc : LocalCopy) : Stamp := lc.contentObservedAt.getD lc.observedAt

/-- Some entry finds content where there was none before it. -/
def Reappears : Option Sight → List LocalEntry → Prop
  | _, [] => False
  | s, e :: es =>
      e.fileType = .regular ∧ s.map Sight.presence ≠ some .present ∨ Reappears (some e.sight) es

/-- The last entry that says something else than the row before it. -/
def lastTurn : Option Sight → List LocalEntry → Option LocalEntry
  | _, [] => none
  | s, e :: es =>
      (lastTurn (some e.sight) es).or (if s = some e.sight then none else some e)

/-- The row after the upserts of some entries. -/
def rowAfter (old : Option LocalCopy) (only : Option RowId) (seenAt : Option Stamp)
    (es : List LocalEntry) : Option LocalCopy :=
  es.foldl (fun lc e => some (observedCopy lc only e seenAt)) old

section
variable (old : Option LocalCopy) (only : Option RowId) (seenAt : Option Stamp) (e : LocalEntry)

lemma sight_observedCopy : (observedCopy old only e seenAt).sight = e.sight := by
  cases old <;> rfl

lemma hold_observedCopy : (observedCopy old only e seenAt).cloudOnlyVersionId =
    if e.fileType = .regular ∧ (old.map LocalCopy.sight).map Sight.presence ≠ some .present then only
    else old.bind LocalCopy.cloudOnlyVersionId := by
  have hpresent : presenceOf e.fileType = .present ↔ e.fileType = .regular := by
    cases e.fileType <;> simp [presenceOf]
  cases old with
  | none => simp [observedCopy, hpresent]
  | some lc =>
      simp only [observedCopy, hpresent, map_some, LocalCopy.sight, ne_eq,
        Option.some.injEq, bind_some]
      split <;> rename_i h
      · rw [if_pos h.1]
      · rfl

lemma clock_observedCopy : (observedCopy old only e seenAt).contentObservedAt =
    if old.map LocalCopy.sight = some e.sight then old.map LocalCopy.clock
    else some e.observedAt := by
  cases old with
  | none => rfl
  | some lc =>
      have hiff : (lc.presence = presenceOf e.fileType ∧ lc.unchangedBy e) ↔
          lc.sight = e.sight := by
        simp [LocalCopy.unchangedBy, LocalCopy.sight, LocalEntry.sight, and_assoc]
      simp only [observedCopy, hiff, map_some, Option.some.injEq]
      rfl

end

lemma unchangedBy_observedCopy {lc : LocalCopy} {only : Option RowId} {seenAt : Option Stamp}
    {e : LocalEntry} (h : lc.unchangedBy e) (o : LocalEntry) :
    (observedCopy (some lc) only e seenAt).unchangedBy o = lc.unchangedBy o := by
  simp only [LocalCopy.unchangedBy, Bool.and_eq_true, decide_eq_true_eq] at h
  obtain ⟨⟨htype, hsize⟩, hmtime⟩ := h
  simp only [LocalCopy.unchangedBy, observedCopy, htype, hsize, hmtime]

/-- All entries find what the row says. -/
def Steady (old : Option LocalCopy) (es : List LocalEntry) : Prop :=
  ∀ lc ∈ old, ∀ e ∈ es, lc.unchangedBy e = true

instance (old : Option LocalCopy) (es : List LocalEntry) : Decidable (Steady old es) := by
  unfold Steady
  infer_instance

instance instDecidableReappears : ∀ s es, Decidable (Reappears s es)
  | _, [] => isFalse not_false
  | _, e :: es =>
      haveI := instDecidableReappears (some e.sight) es
      inferInstanceAs (Decidable (_ ∨ _))

/-- A column that an upsert keeps only if its entry finds what the row says. -/
structure DropsOnChange {α : Type} (column : LocalCopy → Option α) : Prop where
  insert : ∀ only e seenAt, column (observedCopy none only e seenAt) = none
  update : ∀ lc only e seenAt, column (observedCopy (some lc) only e seenAt) =
    if lc.unchangedBy e then column lc else none

lemma dropsOnChange_plaintextSha256 : DropsOnChange LocalCopy.plaintextSha256 :=
  ⟨fun _ _ _ => rfl, fun _ _ _ _ => rfl⟩

lemma dropsOnChange_matched : DropsOnChange LocalCopy.matchedArchiveVersionId :=
  ⟨fun _ _ _ => rfl, fun _ _ _ _ => rfl⟩

section
variable {only : Option RowId} {seenAt : Option Stamp}

lemma rowAfter_cons (old : Option LocalCopy) (e : LocalEntry) (es : List LocalEntry) :
    rowAfter old only seenAt (e :: es) =
      rowAfter (some (observedCopy old only e seenAt)) only seenAt es :=
  rfl

lemma rowAfter_concat (old : Option LocalCopy) (es : List LocalEntry) (e : LocalEntry) :
    rowAfter old only seenAt (es ++ [e]) =
      some (observedCopy (rowAfter old only seenAt es) only e seenAt) := by
  rw [rowAfter, foldl_append]
  rfl

/-- Digest and match survive if every entry finds what the row says. -/
lemma bind_rowAfter_of_drops {α : Type} {column : LocalCopy → Option α}
    (hdrops : DropsOnChange column) (es : List LocalEntry) (old : Option LocalCopy) :
    (rowAfter old only seenAt es).bind column =
      if Steady old es then old.bind column else none := by
  induction es generalizing old with
  | nil =>
      have hsteady : Steady old [] := fun _ _ _ h => (not_mem_nil h).elim
      rw [if_pos hsteady]
      rfl
  | cons e es ih =>
      rw [rowAfter_cons, ih]
      cases old with
      | none => simp [hdrops.insert]
      | some lc =>
          rw [bind_some, bind_some, hdrops.update]
          by_cases hsame : lc.unchangedBy e
          · have hsteady : Steady (some (observedCopy (some lc) only e seenAt)) es ↔
                Steady (some lc) (e :: es) := by
              simp [Steady, hsame, unchangedBy_observedCopy hsame]
            rw [if_pos hsame, if_congr hsteady rfl rfl]
          · have hnot : ¬Steady (some lc) (e :: es) := fun h =>
              hsame (h lc rfl e mem_cons_self)
            rw [if_neg hsame, if_neg hnot, ite_self]

/-- The hold is raised when the content reappears. -/
lemma hold_rowAfter (es : List LocalEntry) (old : Option LocalCopy) :
    (rowAfter old only seenAt es).bind LocalCopy.cloudOnlyVersionId =
      if Reappears (old.map LocalCopy.sight) es then only
      else old.bind LocalCopy.cloudOnlyVersionId := by
  induction es generalizing old with
  | nil => rfl
  | cons e es ih =>
      rw [rowAfter_cons, ih, map_some, sight_observedCopy, bind_some,
        hold_observedCopy]
      by_cases hlater : Reappears (some e.sight) es
      · rw [if_pos hlater, if_pos (.inr hlater)]
      · rw [if_neg hlater]
        exact if_congr (or_iff_left hlater).symm rfl rfl

/-- The clock stands at the last turn. -/
lemma clock_rowAfter (es : List LocalEntry) (old : Option LocalCopy) :
    (rowAfter old only seenAt es).map LocalCopy.clock =
      ((lastTurn (old.map LocalCopy.sight) es).map LocalEntry.observedAt).or
        (old.map LocalCopy.clock) := by
  induction es generalizing old with
  | nil => rfl
  | cons e es ih =>
      have hone : (observedCopy old only e seenAt).clock =
          ((observedCopy old only e seenAt).contentObservedAt).getD
            (observedCopy old only e seenAt).observedAt := rfl
      have hsome : some (observedCopy old only e seenAt).clock =
          if old.map LocalCopy.sight = some e.sight then old.map LocalCopy.clock
          else some e.observedAt := by
        rw [hone, clock_observedCopy]
        split
        · rename_i hsame
          obtain ⟨lc, rfl, -⟩ := map_eq_some_iff.mp hsame
          rfl
        · rfl
      rw [rowAfter_cons, ih, map_some, map_some, sight_observedCopy, hsome, lastTurn]
      cases lastTurn (some e.sight) es with
      | some turn => rfl
      | none =>
          by_cases hsame : old.map LocalCopy.sight = some e.sight
          · rw [if_pos hsame, if_pos hsame]
            rfl
          · rw [if_neg hsame, if_neg hsame]
            rfl

lemma recoveredAt_rowAfter (es : List LocalEntry) (old : Option LocalCopy) :
    (rowAfter old only seenAt es).bind LocalCopy.recoveredAt =
      old.bind LocalCopy.recoveredAt := by
  induction es generalizing old with
  | nil => rfl
  | cons e es ih =>
      rw [rowAfter_cons, ih]
      cases old <;> rfl

/-- Two upserts of one entry differ in what they take from the rows they update. -/
lemma observedCopy_eq_iff {old old' : Option LocalCopy} {e : LocalEntry}
    (hrec : old.bind LocalCopy.recoveredAt = old'.bind LocalCopy.recoveredAt) :
    observedCopy old only e seenAt = observedCopy old' only e seenAt ↔
      (observedCopy old only e seenAt).plaintextSha256 =
          (observedCopy old' only e seenAt).plaintextSha256 ∧
        (observedCopy old only e seenAt).matchedArchiveVersionId =
          (observedCopy old' only e seenAt).matchedArchiveVersionId ∧
        (observedCopy old only e seenAt).cloudOnlyVersionId =
          (observedCopy old' only e seenAt).cloudOnlyVersionId ∧
        (observedCopy old only e seenAt).clock = (observedCopy old' only e seenAt).clock := by
  have hrow : ∀ row : Option LocalCopy, observedCopy row only e seenAt =
      ⟨presenceOf e.fileType, e.fileType, e.size, e.mtimeNs,
        (observedCopy row only e seenAt).plaintextSha256,
        (observedCopy row only e seenAt).matchedArchiveVersionId,
        (observedCopy row only e seenAt).cloudOnlyVersionId, some (seenAt.getD e.observedAt),
        e.observedAt, some (observedCopy row only e seenAt).clock,
        row.bind LocalCopy.recoveredAt⟩ := by
    intro row
    cases row with
    | none => rfl
    | some lc =>
        by_cases hsame : lc.presence = presenceOf e.fileType ∧ lc.unchangedBy e = true <;>
          simp [observedCopy, LocalCopy.clock, hsame]
  refine ⟨fun h => by rw [h]; exact ⟨rfl, rfl, rfl, rfl⟩, ?_⟩
  rintro ⟨hdigest, hmatched, hhold, hclock⟩
  rw [hrow old, hrow old', hdigest, hmatched, hhold, hclock, hrec]

end

/-! ### The last occurrence alone -/

/-- When the last of some entries leaves, on its own, the row that all of them leave: the digest
is not dropped on the way, the hold not raised on the way, and the clock not restarted before
the last entry. -/
structure Settled (old : Option LocalCopy) (only : Option RowId) (es : List LocalEntry)
    (last : LocalEntry) : Prop where
  content : (old.bind LocalCopy.plaintextSha256).isSome ∨
    (old.bind LocalCopy.matchedArchiveVersionId).isSome → Steady old [last] → Steady old es
  hold : Reappears (old.map LocalCopy.sight) es → ¬Reappears (old.map LocalCopy.sight) [last] →
    only = old.bind LocalCopy.cloudOnlyVersionId
  clock : ∀ turn ∈ lastTurn (old.map LocalCopy.sight) es,
    if old.map LocalCopy.sight = some last.sight then
      old.map LocalCopy.clock = some turn.observedAt
    else turn.observedAt = last.observedAt

/-- Content that is found after there was none has reappeared. -/
lemma reappears_of_mem {s : Option Sight} {es : List LocalEntry} {e : LocalEntry} (he : e ∈ es)
    (hregular : e.fileType = .regular) (hs : s.map Sight.presence ≠ some .present) :
    Reappears s es := by
  induction es generalizing s with
  | nil => exact (not_mem_nil he).elim
  | cons o es ih =>
      by_cases ho : o.fileType = .regular
      · exact .inl ⟨ho, hs⟩
      · rcases mem_cons.mp he with rfl | he
        · exact (ho hregular).elim
        · refine .inr (ih he ?_)
          have habsent : presenceOf o.fileType ≠ .present := by
            simpa [presenceOf] using ho
          exact fun h => habsent (Option.some.inj h)

/-- Without a turn every entry says what the row says. -/
lemma sight_of_lastTurn_none {s : Option Sight} {es : List LocalEntry}
    (h : lastTurn s es = none) : ∀ e ∈ es, s = some e.sight := by
  induction es generalizing s with
  | nil => simp
  | cons o es ih =>
      obtain ⟨hlater, hhere⟩ := or_eq_none_iff.mp h
      have hs : s = some o.sight := by
        by_contra hne
        rw [if_neg hne] at hhere
        exact some_ne_none o hhere
      intro e he
      rcases mem_cons.mp he with rfl | he
      · exact hs
      · exact hs.trans (ih hlater e he)

section
variable (old : Option LocalCopy) (only : Option RowId) (seenAt : Option Stamp)
variable {es : List LocalEntry} {last : LocalEntry}

/-- The last entry alone: digest and match. -/
lemma content_last_iff {α : Type} {column : LocalCopy → Option α} (hdrops : DropsOnChange column)
    (hmem : last ∈ es) :
    (rowAfter old only seenAt es).bind column = (rowAfter old only seenAt [last]).bind column ↔
      ((old.bind column).isSome → Steady old [last] → Steady old es) := by
  have hsub : Steady old es → Steady old [last] := by
    intro h lc hlc e he
    obtain rfl := mem_singleton.mp he
    exact h lc hlc e hmem
  rw [bind_rowAfter_of_drops hdrops, bind_rowAfter_of_drops hdrops]
  by_cases hlong : Steady old es
  · simp [hlong, hsub hlong]
  · by_cases hshort : Steady old [last]
    · rw [if_neg hlong, if_pos hshort, eq_comm, ← not_isSome_iff_eq_none]
      exact ⟨fun h hsome => (h hsome).elim, fun h hsome => hlong (h hsome hshort)⟩
    · simp [hlong, hshort]

lemma hold_last_iff (hmem : last ∈ es) :
    (rowAfter old only seenAt es).bind LocalCopy.cloudOnlyVersionId =
        (rowAfter old only seenAt [last]).bind LocalCopy.cloudOnlyVersionId ↔
      (Reappears (old.map LocalCopy.sight) es → ¬Reappears (old.map LocalCopy.sight) [last] →
        only = old.bind LocalCopy.cloudOnlyVersionId) := by
  have hsup : Reappears (old.map LocalCopy.sight) [last] →
      Reappears (old.map LocalCopy.sight) es := by
    rintro (⟨hregular, hs⟩ | hnone)
    · exact reappears_of_mem hmem hregular hs
    · exact hnone.elim
  rw [hold_rowAfter, hold_rowAfter]
  by_cases hshort : Reappears (old.map LocalCopy.sight) [last]
  · simp [hshort, hsup hshort]
  · by_cases hlong : Reappears (old.map LocalCopy.sight) es <;> simp [hshort, hlong]

/-- The last entry alone: the clock. -/
lemma clock_last_iff (hmem : last ∈ es) :
    (rowAfter old only seenAt es).map LocalCopy.clock =
        (rowAfter old only seenAt [last]).map LocalCopy.clock ↔
      ∀ turn ∈ lastTurn (old.map LocalCopy.sight) es,
        if old.map LocalCopy.sight = some last.sight then
          old.map LocalCopy.clock = some turn.observedAt
        else turn.observedAt = last.observedAt := by
  rw [clock_rowAfter, clock_rowAfter, lastTurn, lastTurn, none_or]
  cases hturn : lastTurn (old.map LocalCopy.sight) es with
  | none => simp [sight_of_lastTurn_none hturn last hmem]
  | some turn =>
      by_cases hsame : old.map LocalCopy.sight = some last.sight
      · simp [hsame, eq_comm]
      · simp [hsame]

/-- **The last entry alone, or all of them**: the same row. -/
lemma rowAfter_last_iff (hlast : es.getLast? = some last) :
    rowAfter old only seenAt es = rowAfter old only seenAt [last] ↔ Settled old only es last := by
  have hmem : last ∈ es := mem_of_getLast? hlast
  have hdigest := content_last_iff old only seenAt dropsOnChange_plaintextSha256 hmem
  have hmatched := content_last_iff old only seenAt dropsOnChange_matched hmem
  have hhold := hold_last_iff old only seenAt hmem
  have hclock := clock_last_iff old only seenAt hmem
  obtain ⟨init, rfl⟩ := getLast?_eq_some_iff.mp hlast
  have hrow : rowAfter old only seenAt [last] = some (observedCopy old only last seenAt) := rfl
  simp only [rowAfter_concat, hrow, bind_some, map_some, Option.some.injEq]
    at hdigest hmatched hhold hclock ⊢
  rw [observedCopy_eq_iff (recoveredAt_rowAfter init old), hdigest, hmatched, hhold, hclock]
  constructor
  · rintro ⟨hkept, hkept', hheld, hturns⟩
    exact ⟨fun h => h.elim hkept hkept', hheld, hturns⟩
  · rintro ⟨hkept, hheld, hturns⟩
    exact ⟨fun h => hkept (.inl h), fun h => hkept (.inr h), hheld, hturns⟩

end

/-! ### The row of the path -/

/-- The version a copy that reappears at the path must respect. -/
def cloudCopyAt (cat : Catalog) (v : VaultId) (p : Path) : Option RowId :=
  (cat.fileAt? v p).bind VaultFile.onlyCloudCopy

/-- The file of a path, found or minted, has the versions the path had. -/
lemma getOrCreateFile_onlyCloudCopy {f : VaultFile} {at_ : Stamp}
    (h : (getOrCreateFile cat v p at_).1.fileAt? v p = some f) :
    f.onlyCloudCopy = cloudCopyAt cat v p := by
  rw [cloudCopyAt]
  cases hold : cat.fileAt? v p with
  | some g =>
      rw [getOrCreateFile_of_held hold] at h
      cases hold.symm.trans h
      rfl
  | none =>
      obtain ⟨hf, hv, hp⟩ := Catalog.mem_of_fileAt? h
      rw [getOrCreateFile_files cat v p at_ (fun _ => cat.freshId) rfl] at hf
      rcases mem_append.mp hf with hf | hf
      · have := Catalog.fileAt?_eq_some_iff.mpr ⟨hf, hv, hp⟩
        exact (some_ne_none f (this.symm.trans hold)).elim
      · obtain ⟨q, -, rfl⟩ := mem_map.mp hf
        rfl

/-- **One observation**, at its path. -/
lemma copyAt_observeLocalCopy {e : LocalEntry} {seenAt : Option Stamp} {mid : Catalog}
    (h : observeLocalCopy vaults cat v e seenAt none = some mid) :
    copyAt mid v e.path =
        some (observedCopy (copyAt cat v e.path) (cloudCopyAt cat v e.path) e seenAt) ∧
      cloudCopyAt mid v e.path = cloudCopyAt cat v e.path ∧ Revocable vaults mid v e.path := by
  rw [observeLocalCopy_eq] at h
  obtain ⟨-, hfiles, hrev⟩ := cancelReappearedDeletions_iff.mp h
  obtain ⟨⟨f, hf, hid, hcopy⟩, -⟩ := getOrCreateFile_fileAt cat v e.path e.observedAt
  have honly := getOrCreateFile_onlyCloudCopy hf
  have hwritten := fileAt?_mapLocalCopies (getOrCreateFile cat v e.path e.observedAt).1 (fun f =>
    if f.id = (getOrCreateFile cat v e.path e.observedAt).2 then
      some (observedCopy f.localCopy f.onlyCloudCopy e seenAt) else f.localCopy) hf
  rw [if_pos hid, hcopy, honly] at hwritten
  have hmid : mid.fileAt? v e.path = some (f.withCopy
      (some (observedCopy (copyAt cat v e.path) (cloudCopyAt cat v e.path) e seenAt))) :=
    (fileAt?_of_files hfiles).trans hwritten
  refine ⟨?_, ?_, ?_⟩
  · rw [copyAt, hmid]
    rfl
  · rw [cloudCopyAt, hmid]
    exact honly
  · -- the groups of the file are revoked, so none of them is open
    have hheld : heldIds mid v [e.path] = [(getOrCreateFile cat v e.path e.observedAt).2] := by
      simp [heldIds, hmid, VaultFile.withCopy, hid]
    intro g hg
    rw [hheld] at hg
    obtain ⟨hopen, hnot⟩ := (openGroups_revoked hrev).mp hg
    exact (hnot hopen).elim

/-- **One observation at a time** of a path whose deletions may be cancelled. -/
lemma copyAt_observeEach (seenAt : Option Stamp) (es : List LocalEntry)
    (hpath : ∀ e ∈ es, e.path = p) (cat : Catalog) (hrev : Revocable vaults cat v p) :
    ∃ cat', observeEach vaults v seenAt cat es = some cat' ∧
      copyAt cat' v p = rowAfter (copyAt cat v p) (cloudCopyAt cat v p) seenAt es := by
  induction es generalizing cat with
  | nil => exact ⟨cat, rfl, rfl⟩
  | cons e es ih =>
      obtain ⟨hp, hrest⟩ := forall_mem_cons.mp hpath
      subst hp
      have hsome : (observeLocalCopy vaults cat v e seenAt none).isSome :=
        isSome_observeLocalCopy.mpr hrev
      obtain ⟨mid, hmid⟩ := isSome_iff_exists.mp hsome
      obtain ⟨hcopy, honly, hrev'⟩ := copyAt_observeLocalCopy hmid
      obtain ⟨cat', hcat', hrow⟩ := ih hrest mid hrev'
      refine ⟨cat', ?_, ?_⟩
      · rw [observeEach, foldlM_cons, hmid]
        exact hcat'
      · rw [hrow, hcopy, honly, rowAfter_cons]

lemma openGroups_mono {jobs : List Job} {ids ids' : List FileId} (h : ids ⊆ ids')
    {g : Option GroupId} (hg : g ∈ openGroups jobs v ids) : g ∈ openGroups jobs v ids' := by
  obtain ⟨j, hj, hv, hfile, hrest⟩ := mem_openGroups.mp hg
  exact mem_openGroups.mpr ⟨j, hj, hv, h hfile, hrest⟩

/-- The file of a path after blank files were added: the file the path had, or a blank one. -/
lemma Extended.fileAt {paths : List Path} {mid : Catalog} {created : List VaultFile}
    {f : VaultFile} (hext : Extended v paths cat mid created) (hf : mid.fileAt? v p = some f) :
    f.localCopy = copyAt cat v p ∧ f.onlyCloudCopy = cloudCopyAt cat v p := by
  obtain ⟨hmem, hv, hp⟩ := Catalog.mem_of_fileAt? hf
  rw [copyAt, cloudCopyAt]
  rw [hext.files] at hmem
  rcases mem_append.mp hmem with hold | hnew
  · rw [Catalog.fileAt?_eq_some_iff.mpr ⟨hold, hv, hp⟩]
    exact ⟨rfl, rfl⟩
  · obtain ⟨q, -, hnone, hblank⟩ := hext.blank f hnew
    cases hblank.currentPath.symm.trans hp
    rw [hnone, hblank.localCopy, VaultFile.onlyCloudCopy, hblank.versions]
    exact ⟨rfl, rfl⟩

lemma Extended.id_of_mem_heldIds {paths : List Path} {mid : Catalog} {created : List VaultFile}
    {f : VaultFile} (hext : Extended v paths cat mid created) (hf : mid.fileAt? v p = some f)
    {n : FileId} (hn : n ∈ heldIds cat v [p]) : n = f.id := by
  obtain ⟨q, hq, hid⟩ := mem_filterMap.mp hn
  obtain rfl := mem_singleton.mp hq
  obtain ⟨g, hg, rfl⟩ := map_eq_some_iff.mp hid
  obtain ⟨hmem, hv, hp⟩ := Catalog.mem_of_fileAt? hg
  have hgmid : mid.fileAt? v q = some g := Catalog.fileAt?_eq_some_iff.mpr
    ⟨hext.files ▸ mem_append_left _ hmem, hv, hp⟩
  rw [Option.some.inj (hgmid.symm.trans hf)]

/-- **A batch**, at one of its paths: one upsert, of the last occurrence. -/
lemma copyAt_observeLocalCopiesBatch {entries : List LocalEntry} {seenAt : Option Stamp}
    {last : LocalEntry} (h : observeLocalCopiesBatch vaults cat v entries seenAt = some cat')
    (hlast : (occurrences p entries).getLast? = some last) :
    copyAt cat' v p = rowAfter (copyAt cat v p) (cloudCopyAt cat v p) seenAt [last] ∧
      Revocable vaults cat v p := by
  have hfind : (lastByPath entries).find? (fun o => decide (o.path = p)) = some last :=
    (find?_lastByPath p entries).trans hlast
  have hmem : last ∈ lastByPath entries := mem_of_find?_eq_some hfind
  have hpath : last.path = p := by simpa using find?_some hfind
  unfold observeLocalCopiesBatch at h
  split at h
  · rename_i hes
    rw [hes] at hmem
    exact (not_mem_nil hmem).elim
  · rename_i e es hes
    obtain ⟨created, hext, hres, hids⟩ :=
      resolveOrCreateFiles_spec cat v ((e :: es).map LocalEntry.path) e.observedAt
    dsimp only at h
    generalize resolveOrCreateFiles cat v ((e :: es).map LocalEntry.path) e.observedAt = res
      at h hext hres hids
    obtain ⟨mid, fileIds⟩ := res
    dsimp only at h hext hres hids
    obtain ⟨hcan, hfiles, -⟩ := cancelReappearedDeletions_iff.mp h
    have hall : ∀ o ∈ lastByPath entries, o.path ∈ fileIds.map Prod.fst := by
      intro o ho
      rw [hids, mem_dedup, ← hes]
      exact mem_map_of_mem ho
    -- the file the path was resolved to
    obtain ⟨pid, hpid, hfst⟩ := mem_map.mp (hall last hmem)
    obtain ⟨f, hf, hfid, hfv, hfp⟩ := hres pid hpid
    have hfp' : f.currentPath = some p := by rw [hfp, hfst, hpath]
    have hentry : (e :: es).find? (fun o => fileIds.any fun pid =>
        decide (pid.1 = o.path) && decide (pid.2 = f.id)) = some last := by
      rw [← hes, find?_fileIds hf hres hall, entryFor, if_pos hfv, hfp', ← hfind]
      refine find?_congr fun o _ => ?_
      simp [eq_comm]
    have hmid : mid.fileAt? v p = some f := Catalog.fileAt?_eq_some_iff.mpr ⟨hf, hfv, hfp'⟩
    have hrow := (fileAt?_of_files hfiles).trans (fileAt?_mapLocalCopies mid _ hmid)
    have hfrom := hext.fileAt hmid
    refine ⟨?_, ?_⟩
    · rw [copyAt, hrow, bind_some, ← hfrom.1, ← hfrom.2]
      simp only [VaultFile.withCopy, hentry]
      rfl
    · -- the batch revokes the deletions of all its files
      intro g hg
      have hsub : heldIds cat v [p] ⊆ fileIds.map Prod.snd := fun n hn =>
        mem_map.mpr ⟨pid, hpid, hfid.symm.trans (hext.id_of_mem_heldIds hmid hn).symm⟩
      have hjobs : mid.jobs = cat.jobs := hext.jobs
      rw [← hjobs] at hg ⊢
      exact hcan g (openGroups_mono hsub hg)

/-- **A repeated path**: a batch leaves the row that its occurrences leave one after another
exactly when the last of them alone would settle it. -/
theorem repeated_path_iff (entries : List LocalEntry) (seenAt : Option Stamp) {last : LocalEntry}
    (h : observeLocalCopiesBatchRows vaults cat v entries seenAt = some cat')
    (hlast : (occurrences p entries).getLast? = some last) :
    (∃ cat'', (occurrences p entries).foldlM
        (fun cat e => observeLocalCopyRows vaults cat v e seenAt none) cat = some cat'' ∧
        copyAt cat'' v p = copyAt cat' v p) ↔
      Settled (copyAt cat v p) (cloudCopyAt cat v p) (occurrences p entries) last := by
  rw [observeLocalCopiesBatchRows_eq] at h
  obtain ⟨hbatch, hrev⟩ := copyAt_observeLocalCopiesBatch h hlast
  obtain ⟨each, heach, hrow⟩ := copyAt_observeEach seenAt (occurrences p entries)
    (fun e he => path_of_mem_occurrences he) cat hrev
  simp only [observeLocalCopyRows_eq]
  rw [← rowAfter_last_iff _ _ seenAt hlast, ← hbatch, ← hrow]
  constructor
  · rintro ⟨cat'', hcat'', hsame⟩
    cases heach.symm.trans hcat''
    exact hsame
  · exact fun hsame => ⟨each, heach, hsame⟩

/-- The content changes and changes back within one batch. -/
def changedBack : List LocalEntry :=
  [⟨['a', '/', 'b'], .regular, some 4, some 8, 9⟩, ⟨['a', '/', 'b'], .regular, some 3, some 7, 9⟩]

/-- The batch keeps digest and match of a row that both observations together clear. -/
theorem repeated_path_changed_back :
    ((observeLocalCopiesBatchRows (fun _ => none) freedDb.catalog 0 changedBack none).map fun cat =>
        copyAt cat 0 ['a', '/', 'b']) =
      some (some ⟨.present, .regular, some 3, some 7, some 5, some 1, some 1, some 9, 9, some 9,
        none⟩) ∧
    ((changedBack.foldlM (fun cat e => observeLocalCopyRows (fun _ => none) cat 0 e none none)
        freedDb.catalog).map fun cat => copyAt cat 0 ['a', '/', 'b']) =
      some (some ⟨.present, .regular, some 3, some 7, none, none, some 1, some 9, 9, some 9,
        none⟩) := by
  decide

/-- Observed twice as it was. -/
def observedTwice : List LocalEntry :=
  [⟨['a', '/', 'b'], .regular, some 3, some 7, 9⟩, ⟨['a', '/', 'b'], .regular, some 3, some 7, 9⟩]

/-- Two observations of the same content. -/
theorem repeated_path_observed_twice :
    ∃ cat' : Catalog,
      observeLocalCopiesBatchRows (fun _ => none) freedDb.catalog 0 observedTwice none = some cat' ∧
      ((∃ cat'', (occurrences ['a', '/', 'b'] observedTwice).foldlM
        (fun cat e => observeLocalCopyRows (fun _ => none) cat 0 e none none) freedDb.catalog =
          some cat'' ∧ copyAt cat'' 0 ['a', '/', 'b'] = copyAt cat' 0 ['a', '/', 'b']) ↔
      Settled (copyAt freedDb.catalog 0 ['a', '/', 'b'])
        (cloudCopyAt freedDb.catalog 0 ['a', '/', 'b']) (occurrences ['a', '/', 'b'] observedTwice)
        ⟨['a', '/', 'b'], .regular, some 3, some 7, 9⟩) := by
  have hsome : (observeLocalCopiesBatchRows (fun _ => none) freedDb.catalog 0 observedTwice
      none).isSome = true := by decide
  obtain ⟨cat', h⟩ := isSome_iff_exists.mp hsome
  exact ⟨cat', h, repeated_path_iff observedTwice none h rfl⟩

end Frostvault
