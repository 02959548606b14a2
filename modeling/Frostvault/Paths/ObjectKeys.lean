import Frostvault.Observation.DirectoryNames
import Frostvault.VaultRoots.Adoption

/-!
The keys of logical paths in the bucket (`app/services/vault_paths.py`): `expected_cloud_key` puts
the Vault prefix before a path, and `object_key_to_path` takes it away again.

A scan stores the names of the entries as they are, joined with slashes (`_scan_tree` of
`app/storage.py`).  A name may contain a backslash, and both functions read a backslash as a
slash.

* `expectedCloudKey`, `objectKeyToPath`: the functions;
* `objectKeyToPath_expectedCloudKey`: the key of a path leads back to its normal form;
* `joinedParts_slashed`: the normal form of a stored path without a backslash is itself;
* `cloud_key_codec_iff`: **the codec is faithful exactly on the paths without a backslash**.
-/

namespace Frostvault

open List

/-! ### The functions -/

/-- `str.strip("/")`. -/
def stripSlashes (text : List Char) : List Char := Text.strip (· = '/') text

/-- `PurePosixPath.as_posix`. -/
def joinedParts (parts : List (List Char)) : List Char := ['/'].intercalate parts

/-- `expected_cloud_key`, if the path is accepted. -/
def expectedCloudKey (logicalPath prefixValue : List Char) : Option (List Char) :=
  (safeRelativePath logicalPath).map fun parts =>
    if stripSlashes prefixValue ≠ [] then stripSlashes prefixValue ++ '/' :: joinedParts parts
    else joinedParts parts

/-- The prefix of the keys of a Vault. -/
def keyPrefix (prefixValue : List Char) : List Char :=
  if stripSlashes prefixValue ≠ [] then stripSlashes prefixValue ++ ['/'] else []

/-- `_cloud_relative_key`. -/
def cloudRelativeKey (key prefixValue : List Char) : Option (List Char) :=
  if keyPrefix prefixValue ≠ [] ∧ ¬keyPrefix prefixValue <+: key then none
  else
    let relative := key.drop (keyPrefix prefixValue).length
    if relative = [] ∨ relative.getLast? = some '/' then none else some relative

/-- `object_key_to_path`; a path that is not accepted is no path. -/
def objectKeyToPath (key prefixValue : List Char) : Option (List Char) :=
  (cloudRelativeKey key prefixValue).bind fun relative =>
    if relative = [] ∨ relative.getLast? = some '/' then none
    else (safeRelativePath relative).map joinedParts

variable {value text prefixValue key : List Char} {parts : List (List Char)} {p q : DirPath}

/-! ### Parts -/

lemma map_backslash_eq_self (h : '\\' ∉ value) :
    value.map (fun c => if c = '\\' then '/' else c) = value := by
  refine (map_congr_left fun c hc => ?_).trans (map_id value)
  refine if_neg ?_
  rintro rfl
  exact h hc

/-- The letters of the parts of a text. -/
lemma mem_of_mem_splitOn {w : List Char} {sep c : Char} (hw : w ∈ text.splitOn sep)
    (hc : c ∈ w) : c ∈ text ∧ c ≠ sep := by
  induction text generalizing w with
  | nil =>
      rw [splitOn_nil, mem_singleton] at hw
      cases hw ▸ hc
  | cons d ds ih =>
      rw [splitOn_cons_eq_if_modifyHead] at hw
      by_cases hd : d = sep
      · rw [if_pos (beq_iff_eq.mpr hd), mem_cons] at hw
        rcases hw with rfl | hw
        · cases hc
        · exact ⟨mem_cons_of_mem _ (ih hw hc).1, (ih hw hc).2⟩
      · obtain ⟨u, us, hu⟩ := exists_cons_of_ne_nil (splitOn_ne_nil sep ds)
        rw [if_neg (fun h => hd (beq_iff_eq.mp h)), hu, modifyHead_cons,
          mem_cons] at hw
        rw [hu] at ih
        rcases hw with rfl | hw
        · rcases mem_cons.mp hc with rfl | hc
          · exact ⟨mem_cons_self, hd⟩
          · have hrest := ih mem_cons_self hc
            exact ⟨mem_cons_of_mem _ hrest.1, hrest.2⟩
        · have hrest := ih (mem_cons_of_mem _ hw) hc
          exact ⟨mem_cons_of_mem _ hrest.1, hrest.2⟩

lemma mem_joinedParts {c : Char} (h : c ∈ joinedParts parts) :
    c = '/' ∨ ∃ w ∈ parts, c ∈ w := by
  induction parts with
  | nil => cases h
  | cons w ws ih =>
      cases ws with
      | nil =>
          refine .inr ⟨w, mem_cons_self, ?_⟩
          simpa [joinedParts, List.intercalate] using h
      | cons u us =>
          have h : c ∈ w ++ '/' :: joinedParts (u :: us) := by
            simpa [joinedParts, List.intercalate] using h
          rcases mem_append.mp h with h | h
          · exact .inr ⟨w, mem_cons_self, h⟩
          · rcases mem_cons.mp h with rfl | h
            · exact .inl rfl
            · exact (ih h).imp_right fun ⟨x, hx, hcx⟩ => ⟨x, mem_cons_of_mem _ hx, hcx⟩

/-- What an accepted path has. -/
structure AcceptedParts (parts : List (List Char)) : Prop where
  ne_nil : parts ≠ []
  part : ∀ w ∈ parts, w ≠ [] ∧ '/' ∉ w ∧ '\\' ∉ w

lemma acceptedParts (h : safeRelativePath value = some parts) : AcceptedParts parts := by
  unfold safeRelativePath at h
  split at h
  · cases h
  · dsimp only at h
    split at h
    · cases h
    · split at h
      · cases h
      · rename_i hok
        cases h
        refine ⟨fun hnil => hok (.inr (.inl hnil)), fun w hw => ?_⟩
        obtain ⟨hsplit, hkeep⟩ := mem_filter.mp hw
        rw [Bool.and_eq_true, decide_eq_true_eq] at hkeep
        refine ⟨hkeep.1, fun hc => (mem_of_mem_splitOn hsplit hc).2 rfl, fun hc => ?_⟩
        -- the letters of the text have been mapped
        obtain ⟨d, -, hd⟩ := mem_map.mp (mem_of_mem_splitOn hsplit hc).1
        split at hd
        · cases hd
        · rename_i hne
          exact hne hd

lemma AcceptedParts.no_backslash (h : AcceptedParts parts) : '\\' ∉ joinedParts parts := by
  intro hc
  rcases mem_joinedParts hc with hc | ⟨w, hw, hc⟩
  · cases hc
  · exact (h.part w hw).2.2 hc

/-- A normal form is not empty and ends with a letter of its last part. -/
lemma AcceptedParts.is_file (h : AcceptedParts parts) :
    ¬(joinedParts parts = [] ∨ (joinedParts parts).getLast? = some '/') := by
  obtain ⟨hne, hpart⟩ := h
  induction parts with
  | nil => exact absurd rfl hne
  | cons w ws ih =>
      obtain ⟨hw, hslash, -⟩ := hpart w mem_cons_self
      cases ws with
      | nil =>
          have hjoin : joinedParts [w] = w := by simp [joinedParts, List.intercalate]
          rw [hjoin]
          rintro (h | h)
          · exact hw h
          · exact hslash (mem_of_getLast? h)
      | cons u us =>
          have hjoin : joinedParts (w :: u :: us) = (w ++ ['/']) ++ joinedParts (u :: us) := by
            simp [joinedParts, List.intercalate]
          have hrest := ih (cons_ne_nil _ _) fun x hx => hpart x (mem_cons_of_mem _ hx)
          rw [hjoin]
          rintro (h | h)
          · exact hrest (.inl (append_eq_nil_iff.mp h).2)
          · rw [getLast?_append_of_ne_nil _ fun hnil => hrest (.inl hnil)] at h
            exact hrest (.inr h)

/-! ### Keys -/

lemma expectedCloudKey_eq_some :
    expectedCloudKey value prefixValue = some key ↔
      ∃ parts, safeRelativePath value = some parts ∧
        key = keyPrefix prefixValue ++ joinedParts parts := by
  rw [expectedCloudKey, Option.map_eq_some_iff]
  refine exists_congr fun parts => and_congr_right fun _ => ?_
  rw [keyPrefix]
  split
  · rw [append_assoc, singleton_append, eq_comm]
  · rw [nil_append, eq_comm]

/-- **The key of a path** leads back to its normal form, if that is accepted. -/
theorem objectKeyToPath_expectedCloudKey (h : safeRelativePath value = some parts)
    (hkey : expectedCloudKey value prefixValue = some key) :
    objectKeyToPath key prefixValue =
      (safeRelativePath (joinedParts parts)).map joinedParts := by
  obtain ⟨parts', hparts, rfl⟩ := expectedCloudKey_eq_some.mp hkey
  cases h.symm.trans hparts
  have hfile := (acceptedParts h).is_file
  have hrelative : cloudRelativeKey (keyPrefix prefixValue ++ joinedParts parts) prefixValue =
      some (joinedParts parts) := by
    rw [cloudRelativeKey, if_neg fun hbad => hbad.2 (prefix_append _ _)]
    dsimp only
    rw [drop_left, if_neg hfile]
  rw [objectKeyToPath, hrelative, Option.bind_some, if_neg hfile]

/-- **A stored path without a backslash** is its own normal form. -/
lemma joinedParts_slashed (hp : '\\' ∉ slashed p)
    (h : safeRelativePath (slashed p) = some parts) : joinedParts parts = slashed p := by
  have hne : p ≠ [] := by
    rintro rfl
    have hnone : safeRelativePath (slashed []) = none := by decide
    cases hnone.symm.trans h
  have hsplit : (slashed p).splitOn '/' = p.map EntryName.text := by
    refine splitOn_intercalate '/' (fun w hw => ?_) (by simpa using hne)
    obtain ⟨n, -, rfl⟩ := mem_map.mp hw
    exact n.names.2.1
  have hfilter : ((slashed p).splitOn '/').filter (fun w => w ≠ [] && w ≠ ['.']) =
      p.map EntryName.text := by
    rw [hsplit]
    refine filter_eq_self.mpr fun w hw => ?_
    obtain ⟨n, -, rfl⟩ := mem_map.mp hw
    rw [Bool.and_eq_true, decide_eq_true_eq, decide_eq_true_eq]
    exact ⟨n.names.1, n.names.2.2.1⟩
  unfold safeRelativePath at h
  rw [map_backslash_eq_self hp] at h
  dsimp only at h
  rw [hfilter] at h
  split at h
  · cases h
  · split at h
    · cases h
    · split at h
      · cases h
      · cases h
        rfl

lemma objectKeyToPath_eq_some_iff (hkey : expectedCloudKey (slashed p) prefixValue = some key) :
    objectKeyToPath key prefixValue = some (slashed p) ↔ '\\' ∉ slashed p := by
  obtain ⟨parts, hparts, -⟩ := expectedCloudKey_eq_some.mp hkey
  rw [objectKeyToPath_expectedCloudKey hparts hkey]
  constructor
  · intro h
    obtain ⟨parts', hparts', hjoin⟩ := Option.map_eq_some_iff.mp h
    rw [← hjoin]
    exact (acceptedParts hparts').no_backslash
  · intro h
    have hjoin := joinedParts_slashed h hparts
    rw [hjoin, hparts, Option.map_some, hjoin]

/-- **The codec is faithful** for two paths that a scan stores and the functions accept, exactly
if neither of them contains a backslash: the key of each leads back to it, and the keys are
different unless the paths are equal. -/
theorem cloud_key_codec_iff {kp kq : List Char}
    (hp : expectedCloudKey (slashed p) prefixValue = some kp)
    (hq : expectedCloudKey (slashed q) prefixValue = some kq) :
    (objectKeyToPath kp prefixValue = some (slashed p) ∧
      objectKeyToPath kq prefixValue = some (slashed q) ∧
      (kp = kq → slashed p = slashed q)) ↔
    '\\' ∉ slashed p ∧ '\\' ∉ slashed q := by
  constructor
  · rintro ⟨hpp, hqq, -⟩
    exact ⟨(objectKeyToPath_eq_some_iff hp).mp hpp, (objectKeyToPath_eq_some_iff hq).mp hqq⟩
  · rintro ⟨hpb, hqb⟩
    have hpp := (objectKeyToPath_eq_some_iff hp).mpr hpb
    have hqq := (objectKeyToPath_eq_some_iff hq).mpr hqb
    refine ⟨hpp, hqq, ?_⟩
    rintro rfl
    exact Option.some.inj (hpp.symm.trans hqq)

/-- The paths `a/b` and `c`, below a prefix that ends with a slash. -/
theorem cloud_key_codec_iff_two_paths :
    objectKeyToPath "vault/a/b".toList "vault/".toList = some "a/b".toList ∧
      objectKeyToPath "vault/c".toList "vault/".toList = some "c".toList ∧
      ("vault/a/b".toList = "vault/c".toList → "a/b".toList = "c".toList) :=
  (cloud_key_codec_iff (p := [⟨['a'], by decide⟩, ⟨['b'], by decide⟩]) (q := [⟨['c'], by decide⟩])
    (by decide) (by decide)).mpr ⟨by decide, by decide⟩

/-- A file whose name is `a`, a backslash and `b`, and the file `b` of the folder `a`, have one
key; it leads to the second one. -/
theorem exists_shared_cloud_key :
    ∃ (prefixValue : List Char) (p q : DirPath) (key : List Char),
      expectedCloudKey (slashed p) prefixValue = some key ∧
      expectedCloudKey (slashed q) prefixValue = some key ∧ slashed p ≠ slashed q ∧
      objectKeyToPath key prefixValue ≠ some (slashed p) :=
  ⟨"vault/".toList, [⟨['a', '\\', 'b'], by decide⟩], [⟨['a'], by decide⟩, ⟨['b'], by decide⟩],
    "vault/a/b".toList, by decide, by decide, by decide, by decide⟩

end Frostvault
