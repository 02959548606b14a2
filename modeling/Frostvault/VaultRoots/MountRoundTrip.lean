import Frostvault.VaultRoots.MountEscapes

/-!
Which mounts are read back (`parse_mountinfo`), and what a fingerprint tells apart
(`fingerprint_for_mount`).

Python cuts lines at ten characters, of which the kernel escapes one; a name that has one of the
others breaks its line.  A field that is empty is lost between two spaces, and one that is a dash
looks like the separator.  Nothing else is lost.

* `KernelMount.Clean`: none of this is the case;
* `parseMountLine_line`: a clean line is read back;
* `clean_of_parse`: what is read back was clean;
* `parse_render_iff`: **exactly when a list of mounts is read back**;
* `mountinfo_law`: with what equal fingerprints mean.
-/

namespace Frostvault

open List

variable {m : KernelMount} {ms : List KernelMount} {line name : List Char} {info : MountInfo}

/-! ### Clean mounts -/

namespace KernelMount

/-- The names of a mount. -/
def texts (m : KernelMount) : List (List Char) :=
  [m.root, m.mountPoint, m.filesystemType, m.mountSource] ++ m.mountOptions ++ m.superOptions

/-- The names that make a field each. -/
def names (m : KernelMount) : List (List Char) :=
  [m.root, m.mountPoint, List.intercalate [','] m.mountOptions, m.filesystemType, m.mountSource,
    List.intercalate [','] m.superOptions]

/-- **What the reader can take**: no character but the newline ends a line, no field is empty or
a dash, no option has a comma. -/
structure Clean (m : KernelMount) : Prop where
  unbroken : ∀ t ∈ m.texts, ∀ c ∈ t, Lines.isBreak c = true → c = '\n'
  solid : ∀ t ∈ m.names, t ≠ [] ∧ t ≠ ['-']
  options : ∀ o ∈ m.mountOptions ++ m.superOptions, ',' ∉ o

end KernelMount

/-- The names of an entry. -/
def MountInfo.texts (info : MountInfo) : List (List Char) :=
  [info.root, info.mountPoint, info.filesystemType, info.mountSource] ++ info.mountOptions ++
    info.superOptions

/-! ### Fields -/

/-- The first fields of a line, to the separator. -/
def KernelMount.front (m : KernelMount) : List (List Char) :=
  [Nat.toDigits 10 m.mountId, Nat.toDigits 10 m.parentId, m.majorMinor, mangle m.root,
    mangle m.mountPoint, KernelMount.mangledOptions m.mountOptions] ++
  m.optionalFields.map OptionalField.text

/-- Those behind it. -/
def KernelMount.back (m : KernelMount) : List (List Char) :=
  [mangle m.filesystemType, mangle m.mountSource, KernelMount.mangledOptions m.superOptions]

lemma fields_eq (m : KernelMount) : m.fields = m.front ++ ['-'] :: m.back := rfl

lemma mem_mangle {c : Char} (h : c ∈ mangle name) :
    c ∈ name ∧ c ∉ mangledChars ∨ c ∈ ['\\', '0', '1', '2', '3', '4'] := by
  obtain ⟨d, hd, hc⟩ := mem_flatMap.mp h
  rw [mangleChar] at hc
  split_ifs at hc with h1 h2 h3 h4
  · exact .inr (by revert hc; simp; tauto)
  · exact .inr (by revert hc; simp; tauto)
  · exact .inr (by revert hc; simp; tauto)
  · exact .inr (by revert hc; simp; tauto)
  · obtain rfl := mem_singleton.mp hc
    exact .inl ⟨hd, by simp [mangledChars, h1, h2, h3, h4]⟩

lemma mangle_eq_nil_iff : mangle name = [] ↔ name = [] := by
  cases name with
  | nil => simp [mangle]
  | cons c name =>
      have hne : mangleChar c ≠ [] := by
        rw [mangleChar]
        split_ifs <;> simp
      simp [mangle, hne]

lemma mangle_eq_dash_iff : mangle name = ['-'] ↔ name = ['-'] := by
  constructor
  · intro h
    have hread := unescapeMountinfo_mangle name
    rw [h] at hread
    exact (Option.some_inj.mp hread).symm
  · rintro rfl
    rfl

/-- A character that neither ends a field or a line nor starts an escape. -/
def PlainChar (c : Char) : Prop := c ≠ ' ' ∧ c ≠ '\\' ∧ Lines.isBreak c = false

instance (c : Char) : Decidable (PlainChar c) := by
  unfold PlainChar
  infer_instance

/-- What holds of the characters of a text is decided along the text. -/
instance decidableForallMemText (p : Char → Prop) [DecidablePred p] (text : List Char) :
    Decidable (∀ c ∈ text, p c) :=
  List.decidableBAll p text

/-- The plain fields of a line: numbers and propagation fields. -/
structure PlainField (w : List Char) : Prop where
  nonempty : w ≠ []
  notDash : w ≠ ['-']
  chars : ∀ c ∈ w, PlainChar c

lemma digit_plain {n : ℕ} {c : Char} (h : c ∈ Nat.toDigits 10 n) : PlainChar c ∧ c ≠ '-' := by
  have hdigit : c.isDigit := Nat.isDigit_of_mem_toDigits (by decide) (by decide) h
  refine ⟨⟨?_, ?_, Lines.isBreak_eq_false (by decide) hdigit⟩, ?_⟩ <;> rintro rfl <;>
    cases hdigit

lemma plainField_toDigits (n : ℕ) : PlainField (Nat.toDigits 10 n) where
  nonempty := Nat.toDigits_ne_nil
  notDash h := (digit_plain (n := n) (h ▸ mem_singleton_self '-')).2 rfl
  chars _ hc := (digit_plain hc).1

variable {w : List Char}

lemma plainField_append (hne : w ≠ []) (hw : ∀ c ∈ w, PlainChar c ∧ c ≠ '-') (n : ℕ) :
    PlainField (w ++ Nat.toDigits 10 n) where
  nonempty h := hne (append_eq_nil_iff.mp h).1
  notDash h := by
    have hdash : '-' ∈ w ++ Nat.toDigits 10 n := h ▸ mem_singleton_self '-'
    rcases mem_append.mp hdash with hmem | hmem
    · exact (hw _ hmem).2 rfl
    · exact (digit_plain hmem).2 rfl
  chars c hc := by
    rcases mem_append.mp hc with hmem | hmem
    · exact (hw _ hmem).1
    · exact (digit_plain hmem).1

lemma plainField_majorMinor (m : KernelMount) : PlainField m.majorMinor := by
  rw [KernelMount.majorMinor, ← singleton_append, ← append_assoc]
  refine plainField_append (by simp) (fun c hc => ?_) m.minor
  rcases mem_append.mp hc with hmem | hmem
  · exact digit_plain hmem
  · obtain rfl := mem_singleton.mp hmem
    decide

lemma plainField_text (f : OptionalField) : PlainField f.text := by
  cases f with
  | shared group => exact plainField_append (by decide) (by decide) group
  | master group => exact plainField_append (by decide) (by decide) group
  | propagateFrom group => exact plainField_append (by decide) (by decide) group
  | unbindable => exact ⟨by decide, by decide, by decide⟩

/-! ### A line -/

lemma mangle_append (a b : List Char) : mangle (a ++ b) = mangle a ++ mangle b :=
  flatMap_append

lemma mangledOptions_eq (options : List (List Char)) :
    KernelMount.mangledOptions options = List.intercalate [','] (options.map mangle) := by
  rw [KernelMount.mangledOptions]
  induction options with
  | nil => rfl
  | cons o options ih =>
      cases options with
      | nil => simp
      | cons o' options =>
          rw [intercalate_cons_cons, mangle_append, mangle_append, ih, map_cons,
            map_cons, map_cons, intercalate_cons_cons]
          rfl

lemma not_mem_mangle {c : Char} (hc : c ∉ name) (hescape : c ∉ ['\\', '0', '1', '2', '3', '4']) :
    c ∉ mangle name := by
  intro h
  rcases mem_mangle h with ⟨hname, -⟩ | h
  · exact hc hname
  · exact hescape h

lemma space_not_mem_mangle (name : List Char) : ' ' ∉ mangle name := by
  intro h
  rcases mem_mangle h with ⟨-, h⟩ | h
  · exact h (by decide)
  · exact absurd h (by decide)

/-- What stands before the separator. -/
lemma mem_front (h : w ∈ m.front) :
    PlainField w ∨ ∃ t ∈ m.names, w = mangle t := by
  rcases mem_append.mp h with h | h
  · simp only [mem_cons, not_mem_nil, or_false] at h
    rcases h with rfl | rfl | rfl | rfl | rfl | rfl
    · exact .inl (plainField_toDigits _)
    · exact .inl (plainField_toDigits _)
    · exact .inl (plainField_majorMinor m)
    · exact .inr ⟨m.root, by simp [KernelMount.names], rfl⟩
    · exact .inr ⟨m.mountPoint, by simp [KernelMount.names], rfl⟩
    · exact .inr ⟨List.intercalate [','] m.mountOptions, by simp [KernelMount.names], rfl⟩
  · obtain ⟨f, -, rfl⟩ := mem_map.mp h
    exact .inl (plainField_text f)

lemma mem_back (h : w ∈ m.back) : ∃ t ∈ m.names, w = mangle t := by
  simp only [KernelMount.back, mem_cons, not_mem_nil, or_false] at h
  rcases h with rfl | rfl | rfl
  · exact ⟨m.filesystemType, by simp [KernelMount.names], rfl⟩
  · exact ⟨m.mountSource, by simp [KernelMount.names], rfl⟩
  · exact ⟨List.intercalate [','] m.superOptions, by simp [KernelMount.names], rfl⟩

lemma mangle_mem {t : List Char} (h : t ∈ m.names) : mangle t ∈ m.front ∨ mangle t ∈ m.back := by
  simp only [KernelMount.names, mem_cons, not_mem_nil, or_false] at h
  rcases h with rfl | rfl | rfl | rfl | rfl | rfl
  · exact .inl (by simp [KernelMount.front])
  · exact .inl (by simp [KernelMount.front])
  · exact .inl (by simp [KernelMount.front, KernelMount.mangledOptions])
  · exact .inr (by simp [KernelMount.back])
  · exact .inr (by simp [KernelMount.back])
  · exact .inr (by simp [KernelMount.back, KernelMount.mangledOptions])

lemma mem_fields (h : w ∈ m.fields) :
    PlainField w ∨ w = ['-'] ∨ ∃ t ∈ m.names, w = mangle t := by
  rw [fields_eq, mem_append, mem_cons] at h
  rcases h with h | h | h
  · exact (mem_front h).imp_right .inr
  · exact .inr (.inl h)
  · exact .inr (.inr (mem_back h))

lemma splitOn_line (m : KernelMount) : m.line.splitOn ' ' = m.fields := by
  refine splitOn_intercalate ' ' (fun w hw hspace => ?_) (by simp [KernelMount.fields])
  rcases mem_fields hw with hplain | rfl | ⟨t, -, rfl⟩
  · exact (hplain.chars _ hspace).1 rfl
  · exact absurd hspace (by decide)
  · exact space_not_mem_mangle t hspace

lemma pythonInt_toDigits (n : ℕ) : pythonInt (Nat.toDigits 10 n) = some (n : ℤ) := by
  have hdigit : ∀ c ∈ Nat.toDigits 10 n, c.isDigit :=
    fun c hc => Nat.isDigit_of_mem_toDigits (by decide) (by decide) hc
  have hspace : ∀ c : Char, c.isDigit → isSpace c = false := by
    intro c hc
    simp only [Char.isDigit, Bool.and_eq_true, decide_eq_true_eq] at hc
    have hlow : 48 ≤ c.toNat := hc.1
    have hhigh : c.toNat ≤ 57 := hc.2
    simp only [isSpace, mem_cons, not_mem_nil, or_false, Bool.or_eq_false_iff,
      decide_eq_false_iff_not, Bool.and_eq_false_imp, decide_eq_true_eq]
    omega
  have hstrip : Text.strip isSpace (Nat.toDigits 10 n) = Nat.toDigits 10 n := by
    refine Text.strip_eq_self _ _ (fun c cs h => ?_) (fun cs c h => ?_)
    · exact hspace c (hdigit c (h ▸ mem_cons_self))
    · exact hspace c (hdigit c (h ▸ by simp))
  have hsign : Json.sign (Nat.toDigits 10 n) = (false, Nat.toDigits 10 n) := by
    rw [Json.sign]
    · rintro rest hrest
      cases hdigit '-' (hrest ▸ mem_cons_self)
    · rintro rest hrest
      cases hdigit '+' (hrest ▸ mem_cons_self)
  have hgroup : (Nat.toDigits 10 n).splitOn '_' = [Nat.toDigits 10 n] :=
    splitOn_eq_singleton fun h => absurd (hdigit _ h) (by decide)
  have hall : (Nat.toDigits 10 n).all Char.isDigit := all_eq_true.mpr hdigit
  simp [pythonInt, hstrip, hsign, hgroup, hall, Nat.toDigits_ne_nil, Json.signed]

/-- The separator is the only dash exactly if no name is one. -/
lemma dash_not_mem (m : KernelMount) :
    (['-'] ∉ m.front ∧ ['-'] ∉ m.back) ↔ ∀ t ∈ m.names, t ≠ ['-'] := by
  constructor
  · rintro ⟨hfront, hback⟩ t ht rfl
    exact (mangle_mem ht).elim hfront hback
  · intro h
    have hname : ¬∃ t ∈ m.names, ['-'] = mangle t := by
      rintro ⟨t, ht, heq⟩
      exact h t ht (mangle_eq_dash_iff.mp heq.symm)
    refine ⟨fun hmem => ?_, fun hmem => hname (mem_back hmem)⟩
    rcases mem_front hmem with hplain | ht
    · exact hplain.notDash rfl
    · exact hname ht

/-- A field is empty exactly if a name is. -/
lemma nil_not_mem (m : KernelMount) : [] ∉ m.fields ↔ ∀ t ∈ m.names, t ≠ [] := by
  constructor
  · rintro h t ht rfl
    refine h ?_
    rw [fields_eq, mem_append, mem_cons]
    exact (mangle_mem ht).imp_right .inr
  · intro h hmem
    rcases mem_fields hmem with hplain | hdash | ⟨t, ht, heq⟩
    · exact hplain.nonempty rfl
    · cases hdash
    · exact h t ht (mangle_eq_nil_iff.mp heq.symm)

lemma count_dash (m : KernelMount) : m.fields.count ['-'] = 1 ↔ ∀ t ∈ m.names, t ≠ ['-'] := by
  rw [← dash_not_mem, fields_eq, count_append, count_cons_self, ← count_eq_zero,
    ← count_eq_zero]
  omega

lemma length_front (m : KernelMount) : m.front.length = 6 + m.optionalFields.length := by
  simp only [KernelMount.front, length_append, length_map, length_cons,
    length_nil]

lemma idxOf_dash (h : ∀ t ∈ m.names, t ≠ ['-']) : m.fields.idxOf ['-'] = m.front.length := by
  rw [fields_eq, idxOf_append_of_notMem ((dash_not_mem m).mpr h).1, idxOf_cons_self,
    Nat.add_zero]

lemma mapM_splitOn_options {options : List (List Char)} (hne : options ≠ [])
    (h : ∀ o ∈ options, ',' ∉ o) :
    ((KernelMount.mangledOptions options).splitOn ',').mapM unescapeMountinfo = some options := by
  have hcomma : ∀ o ∈ options.map mangle, ',' ∉ o := by
    intro o ho
    obtain ⟨o', ho', rfl⟩ := mem_map.mp ho
    exact not_mem_mangle (h o' ho') (by decide)
  rw [mangledOptions_eq, splitOn_intercalate ',' hcomma (by simpa using hne),
    mapM_unescape_mangle]

lemma getD_back (m : KernelMount) (i : ℕ) :
    m.fields.getD (m.front.length + (i + 1)) [] = m.back.getD i [] := by
  rw [fields_eq, getD_eq_getElem?_getD, getElem?_append_right (by omega),
    Nat.add_sub_cancel_left, getElem?_cons_succ, getD_eq_getElem?_getD]

/-- **A clean line is read back.** -/
lemma parseMountLine_line (hm : m.Clean) : parseMountLine m.line = some m.info := by
  have hdash : ∀ t ∈ m.names, t ≠ ['-'] := fun t ht => (hm.solid t ht).2
  have hoptions : m.mountOptions ≠ [] ∧ m.superOptions ≠ [] := by
    constructor <;> intro hempty
    · exact (hm.solid [] (by simp [KernelMount.names, hempty])).1 rfl
    · exact (hm.solid [] (by simp [KernelMount.names, hempty])).1 rfl
  -- the line has the shape the reader asks for
  have hshape : ¬([] ∈ m.fields ∨ m.fields.count ['-'] ≠ 1 ∨ m.fields.idxOf ['-'] < 6 ∨
      m.fields.length < m.fields.idxOf ['-'] + 4 ∨ ':' ∉ m.fields.getD 2 []) := by
    have hcount : m.fields.count ['-'] = 1 := (count_dash m).mpr hdash
    have hlength : m.fields.length = m.front.length + 4 := by simp [fields_eq, KernelMount.back]
    have hcolon : ':' ∈ m.fields.getD 2 [] := by
      change ':' ∈ m.majorMinor
      simp [KernelMount.majorMinor]
    rw [idxOf_dash hdash, hcount, hlength, length_front]
    rintro (h | h | h | h | h)
    · exact (nil_not_mem m).mpr (fun t ht => (hm.solid t ht).1) h
    · exact h rfl
    · omega
    · omega
    · exact h hcolon
  have hoptional : ((m.fields.take (m.front.length)).drop 6).mapM unescapeMountinfo =
      some (m.optionalFields.map OptionalField.text) := by
    rw [fields_eq, take_left]
    refine mapM_unescape_of_not_mem fun n hn hbackslash => ?_
    obtain ⟨f, -, rfl⟩ := mem_map.mp hn
    exact ((plainField_text f).chars _ hbackslash).2.1 rfl
  have hmount := mapM_splitOn_options hoptions.1 fun o ho =>
    hm.options o (mem_append_left _ ho)
  have hsuper := mapM_splitOn_options hoptions.2 fun o ho =>
    hm.options o (mem_append_right _ ho)
  simp only [parseMountLine, splitOn_line]
  rw [if_neg hshape, idxOf_dash hdash, hoptional, getD_back, getD_back, getD_back]
  change (pythonInt (Nat.toDigits 10 m.mountId)).bind _ = _
  rw [pythonInt_toDigits, Option.bind_some]
  change (pythonInt (Nat.toDigits 10 m.parentId)).bind _ = _
  rw [pythonInt_toDigits, Option.bind_some]
  change (unescapeMountinfo (mangle m.root)).bind _ = _
  rw [unescapeMountinfo_mangle, Option.bind_some]
  change (unescapeMountinfo (mangle m.mountPoint)).bind _ = _
  rw [unescapeMountinfo_mangle, Option.bind_some]
  change (((KernelMount.mangledOptions m.mountOptions).splitOn ',').mapM unescapeMountinfo).bind _ =
    _
  rw [hmount, Option.bind_some, Option.bind_eq_bind, Option.bind_some]
  change (unescapeMountinfo (mangle m.filesystemType)).bind _ = _
  rw [unescapeMountinfo_mangle, Option.bind_some]
  change (unescapeMountinfo (mangle m.mountSource)).bind _ = _
  rw [unescapeMountinfo_mangle, Option.bind_some]
  change (((KernelMount.mangledOptions m.superOptions).splitOn ',').mapM unescapeMountinfo).bind _ =
    _
  rw [hsuper, Option.bind_some]
  rfl

/-! ### What a line gives -/

/-- A result of a map comes from an element. -/
lemma exists_of_mem_mapM {α β : Type} {f : α → Option β} {l : List α} {l' : List β} {b : β}
    (h : l.mapM f = some l') (hb : b ∈ l') : ∃ a ∈ l, f a = some b := by
  induction l generalizing l' with
  | nil =>
      cases h
      cases hb
  | cons a l ih =>
      rw [mapM_cons, Option.bind_eq_bind, Option.bind_eq_some_iff] at h
      obtain ⟨b', hb', h⟩ := h
      obtain ⟨l'', hl'', h⟩ := Option.bind_eq_some_iff.mp h
      cases h
      rcases mem_cons.mp hb with rfl | hb
      · exact ⟨a, mem_cons_self, hb'⟩
      · obtain ⟨a', ha', hf⟩ := ih hl'' hb
        exact ⟨a', mem_cons_of_mem _ ha', hf⟩

/-- The shape the reader asks for, and where its names come from. -/
structure ParsedLine (line : List Char) (info : MountInfo) : Prop where
  solid : [] ∉ line.splitOn ' '
  separator : (line.splitOn ' ').count ['-'] = 1
  texts : ∀ t ∈ info.texts, ∃ w ∈ line.splitOn ' ',
    unescapeMountinfo w = some t ∨ ∃ raw ∈ w.splitOn ',', unescapeMountinfo raw = some t
  options : ∀ t ∈ info.mountOptions ++ info.superOptions, ∃ w ∈ line.splitOn ' ',
    ∃ raw ∈ w.splitOn ',', unescapeMountinfo raw = some t

lemma parseMountLine_cases (h : parseMountLine line = some info) : ParsedLine line info := by
  simp only [parseMountLine] at h
  split at h
  · cases h
  rename_i hshape
  simp only [not_or, not_not, not_lt] at hshape
  obtain ⟨hnil, hcount, hseparator, hlength, -⟩ := hshape
  simp only [Option.bind_eq_bind, Option.bind_eq_some_iff, Option.some.injEq] at h
  obtain ⟨mountId, -, parentId, -, root, hroot, mountPoint, hpoint, mountOptions, hoptions, -, -,
    filesystemType, htype, mountSource, hsource, superOptions, hsuper, rfl⟩ := h
  have hfield (i : ℕ) (hi : i < (line.splitOn ' ').length) :
      (line.splitOn ' ').getD i [] ∈ line.splitOn ' ' := by
    rw [getD_eq_getElem?_getD, getElem?_eq_getElem hi, Option.getD_some]
    exact getElem_mem hi
  have hoption : ∀ t ∈ mountOptions ++ superOptions, ∃ w ∈ line.splitOn ' ',
      ∃ raw ∈ w.splitOn ',', unescapeMountinfo raw = some t := by
    intro t ht
    rcases mem_append.mp ht with ht | ht
    · exact ⟨_, hfield 5 (by omega), exists_of_mem_mapM hoptions ht⟩
    · exact ⟨_, hfield _ (by omega), exists_of_mem_mapM hsuper ht⟩
  refine ⟨hnil, hcount, fun t ht => ?_, hoption⟩
  simp only [MountInfo.texts, append_assoc] at ht
  rcases mem_append.mp ht with ht | ht
  · simp only [mem_cons, not_mem_nil, or_false] at ht
    rcases ht with rfl | rfl | rfl | rfl
    · exact ⟨_, hfield 3 (by omega), .inl hroot⟩
    · exact ⟨_, hfield 4 (by omega), .inl hpoint⟩
    · exact ⟨_, hfield _ (by omega), .inl htype⟩
    · exact ⟨_, hfield _ (by omega), .inl hsource⟩
  · obtain ⟨w, hw, hraw⟩ := hoption t ht
    exact ⟨w, hw, .inr hraw⟩

/-- What is cut at a character is cut outside the escapes. -/
lemma sparing_eq {d : Char} (hd : d ∉ ['\\', '0', '1', '2', '3', '4', '5', '6', '7']) :
    Sparing (· == d) where
  backslash := by
    refine beq_eq_false_iff_ne.mpr ?_
    rintro rfl
    exact hd (by decide)
  digit e he := by
    refine beq_eq_false_iff_ne.mpr ?_
    rintro rfl
    exact hd (mem_cons_of_mem _ he)

lemma sparing_isBreak : Sparing Lines.isBreak := ⟨by decide, by decide⟩

/-- **A name that was read** has the characters of its line and those that are escaped. -/
lemma ParsedLine.mem_of_mem (h : ParsedLine line info) (hline : Mangled line) {t : List Char}
    (ht : t ∈ info.texts) {c : Char} (hc : c ∈ t) : c ∈ line ∨ c ∈ mangledChars := by
  obtain ⟨w, hw, hraw⟩ := h.texts t ht
  have hmangled : Mangled w := hline.of_mem_splitOnP (sparing_eq (d := ' ') (by decide)) hw
  have hmem {d : Char} (hd : d ∈ w) : d ∈ line := Lines.mem_of_mem_splitOnP hw hd
  rcases hraw with hraw | ⟨raw, hsplit, hraw⟩
  · exact (hmangled.mem_of_unescape hraw hc).imp_left hmem
  · have hpiece : Mangled raw :=
      hmangled.of_mem_splitOnP (sparing_eq (d := ',') (by decide)) hsplit
    exact (hpiece.mem_of_unescape hraw hc).imp_left fun hd =>
      hmem (Lines.mem_of_mem_splitOnP hsplit hd)

/-- An option that was read has no comma. -/
lemma ParsedLine.comma_not_mem (h : ParsedLine line info) (hline : Mangled line) {o : List Char}
    (ho : o ∈ info.mountOptions ++ info.superOptions) : ',' ∉ o := by
  intro hcomma
  obtain ⟨w, hw, raw, hsplit, hraw⟩ := h.options o ho
  have hmangled : Mangled w := hline.of_mem_splitOnP (sparing_eq (d := ' ') (by decide)) hw
  have hpiece : Mangled raw := hmangled.of_mem_splitOnP (sparing_eq (d := ',') (by decide)) hsplit
  rcases hpiece.mem_of_unescape hraw hcomma with hmem | hmem
  · have hnot := Lines.not_of_mem_splitOnP hsplit hmem
    cases hnot
  · exact absurd hmem (by decide)

/-! ### The whole text -/

/-- No character of a mount's names but the newline ends a line. -/
def KernelMount.Unbroken (m : KernelMount) : Prop :=
  ∀ t ∈ m.texts, ∀ c ∈ t, Lines.isBreak c = true → c = '\n'

/-- A character of a field's name is a comma or in one of the names. -/
lemma mem_texts_of_mem_names {t : List Char} (ht : t ∈ m.names) {c : Char} (hc : c ∈ t) :
    c = ',' ∨ ∃ n ∈ m.texts, c ∈ n := by
  simp only [KernelMount.names, mem_cons, not_mem_nil, or_false] at ht
  rcases ht with rfl | rfl | rfl | rfl | rfl | rfl
  · exact .inr ⟨m.root, by simp [KernelMount.texts], hc⟩
  · exact .inr ⟨m.mountPoint, by simp [KernelMount.texts], hc⟩
  · exact (Text.mem_intercalate hc).imp_right fun ⟨o, ho, hco⟩ =>
      ⟨o, by simp [KernelMount.texts, ho], hco⟩
  · exact .inr ⟨m.filesystemType, by simp [KernelMount.texts], hc⟩
  · exact .inr ⟨m.mountSource, by simp [KernelMount.texts], hc⟩
  · exact (Text.mem_intercalate hc).imp_right fun ⟨o, ho, hco⟩ =>
      ⟨o, by simp [KernelMount.texts, ho], hco⟩

/-- The line of an unbroken mount is one line. -/
lemma line_unbroken (hm : m.Unbroken) : ∀ c ∈ m.line, Lines.isBreak c = false := by
  intro c hc
  rcases Text.mem_intercalate hc with rfl | ⟨w, hw, hc⟩
  · decide
  rcases mem_fields hw with hplain | rfl | ⟨t, ht, rfl⟩
  · exact (hplain.chars c hc).2.2
  · obtain rfl := mem_singleton.mp hc
    decide
  · rcases mem_mangle hc with ⟨hname, hplain⟩ | hescape
    · rcases mem_texts_of_mem_names ht hname with rfl | ⟨n, hn, hcn⟩
      · decide
      · refine Bool.eq_false_iff.mpr fun hbreak => hplain ?_
        rw [hm n hn c hcn hbreak]
        decide
    · have hplain : ∀ d ∈ ['\\', '0', '1', '2', '3', '4'], Lines.isBreak d = false := by decide
      exact hplain c hescape

lemma line_ne_nil (m : KernelMount) : m.line ≠ [] := by
  intro h
  have hsplit := splitOn_line m
  rw [h] at hsplit
  exact absurd (congrArg List.length hsplit) (by simp [KernelMount.fields])

lemma lines_render (h : ∀ m ∈ ms, m.Unbroken) :
    (Lines.lines (renderMounts ms)).filter (fun line => !line.isEmpty) =
      ms.map KernelMount.line := by
  have hrender : renderMounts ms =
      (ms.map KernelMount.line).flatMap fun l => l ++ ['\n'] := by
    rw [flatMap_map]
    rfl
  rw [Lines.filter_lines, hrender, Lines.pieces_flatMap (by decide)]
  intro l hl
  obtain ⟨m, hm, rfl⟩ := mem_map.mp hl
  exact ⟨line_ne_nil m, line_unbroken (h m hm)⟩

lemma mapM_map_eq_some_iff {α β γ : Type} {f : α → β} {g : β → Option γ} {k : α → γ} {l : List α} :
    (l.map f).mapM g = some (l.map k) ↔ ∀ a ∈ l, g (f a) = some (k a) := by
  induction l with
  | nil => simp
  | cons a l ih =>
      rw [map_cons, mapM_cons, map_cons, forall_mem_cons, ← ih]
      cases g (f a) <;> cases (l.map f).mapM g <;> simp

lemma mangled_intercalate {sep : Char} (hsep : sep ≠ '\\') {ws : List (List Char)}
    (h : ∀ w ∈ ws, Mangled w) : Mangled (List.intercalate [sep] ws) := by
  induction ws with
  | nil => exact .nil
  | cons w ws ih =>
      rw [forall_mem_cons] at h
      cases ws with
      | nil =>
          rw [intercalate_singleton]
          exact h.1
      | cons w' ws =>
          rw [intercalate_cons_cons, append_assoc]
          exact h.1.append (.cons sep _ hsep (ih h.2))

/-- What the kernel writes has its escapes only. -/
lemma mangled_render (ms : List KernelMount) : Mangled (renderMounts ms) := by
  have hline (m : KernelMount) : Mangled m.line := by
    refine mangled_intercalate (by decide) fun w hw => ?_
    rcases mem_fields hw with hplain | rfl | ⟨t, -, rfl⟩
    · exact mangled_of_not_mem fun h => (hplain.chars _ h).2.1 rfl
    · exact mangled_of_not_mem (by decide)
    · exact mangled_mangle t
  induction ms with
  | nil => exact .nil
  | cons m ms ih =>
      rw [renderMounts, flatMap_cons, append_assoc]
      exact (hline m).append (.cons '\n' _ (by decide) ih)

section

variable (h : parseMountinfo (renderMounts ms) = some (ms.map KernelMount.info))

include h

/-- **What is read back was unbroken**: no name that was read has another end of a line. -/
lemma unbroken_of_parse :
    ∀ m ∈ ms, m.Unbroken := by
  intro m hm t ht c hc hbreak
  rw [parseMountinfo] at h
  obtain ⟨line, hline, hread⟩ := exists_of_mem_mapM h (mem_map_of_mem hm)
  rw [Lines.filter_lines, Lines.pieces] at hline
  have hpiece := mem_of_mem_filter hline
  have hmangled : Mangled line := (mangled_render ms).of_mem_splitOnP sparing_isBreak hpiece
  rcases (parseMountLine_cases hread).mem_of_mem hmangled (t := t) ht hc with hmem | hmem
  · rw [Lines.not_of_mem_splitOnP hpiece hmem] at hbreak
    cases hbreak
  · -- of the escaped characters only the newline ends a line
    simp only [mangledChars, mem_cons, not_mem_nil, or_false] at hmem
    rcases hmem with rfl | rfl | rfl | rfl
    · cases hbreak
    · cases hbreak
    · rfl
    · cases hbreak

/-- **What is read back was clean.** -/
lemma clean_of_parse :
    ∀ m ∈ ms, m.Clean := by
  have hunbroken := unbroken_of_parse h
  rw [parseMountinfo, lines_render hunbroken, mapM_map_eq_some_iff] at h
  intro m hm
  have hparsed := parseMountLine_cases (h m hm)
  have hsolid := hparsed.solid
  have hseparator := hparsed.separator
  rw [splitOn_line] at hsolid hseparator
  have hline : Mangled m.line := by
    have hmem : m.line ∈ (Lines.lines (renderMounts ms)).filter fun line => !line.isEmpty := by
      rw [lines_render hunbroken]
      exact mem_map_of_mem hm
    rw [Lines.filter_lines, Lines.pieces] at hmem
    exact (mangled_render ms).of_mem_splitOnP sparing_isBreak (mem_of_mem_filter hmem)
  exact ⟨hunbroken m hm, fun t ht =>
    ⟨(nil_not_mem m).mp hsolid t ht, (count_dash m).mp hseparator t ht⟩,
    fun o ho => hparsed.comma_not_mem hline ho⟩

end

/-- **Exactly when a list of mounts is read back.** -/
lemma parse_render_iff (ms : List KernelMount) :
    parseMountinfo (renderMounts ms) = some (ms.map KernelMount.info) ↔ ∀ m ∈ ms, m.Clean := by
  refine ⟨clean_of_parse, fun h => ?_⟩
  rw [parseMountinfo, lines_render fun m hm => (h m hm).unbroken, mapM_map_eq_some_iff]
  exact fun m hm => parseMountLine_line (h m hm)

/-! ### Fingerprints -/

/-- Three strings between fixed texts can be told. -/
lemma verbatimStrings_inj {k₁ k₂ k₃ tail a b c a' b' c' : List Char}
    (h : k₁ ++ Json.verbatimString a ++ (k₂ ++ Json.verbatimString b ++
      (k₃ ++ Json.verbatimString c ++ tail)) =
      k₁ ++ Json.verbatimString a' ++ (k₂ ++ Json.verbatimString b' ++
      (k₃ ++ Json.verbatimString c' ++ tail))) : a = a' ∧ b = b' ∧ c = c' := by
  simp only [append_assoc] at h
  obtain ⟨ha, h⟩ := Json.verbatimString_append_inj (append_cancel_left h)
  obtain ⟨hb, h⟩ := Json.verbatimString_append_inj (append_cancel_left h)
  exact ⟨ha, hb, (Json.verbatimString_append_inj (append_cancel_left h)).1⟩

/-- An identity can be told from its text. -/
lemma payload_injective {i j : MountIdentity} (h : i.payload = j.payload) : i = j := by
  obtain ⟨htype, hsource, hroot⟩ := verbatimStrings_inj h
  cases i
  cases j
  cases htype
  cases hsource
  cases hroot
  rfl

/-- The bytes that are hashed. -/
def MountIdentity.bytes (i : MountIdentity) : ByteArray := (String.ofList i.payload).toUTF8

lemma bytes_injective {i j : MountIdentity} (h : i.bytes = j.bytes) : i = j :=
  payload_injective (String.ofList_injective (String.toByteArray_inj.mp h))

variable {Digest : Type} {c : IdentityConfig Digest}

/-- **What a mount is read back as, and what its fingerprint tells.**  The mounts of a text are
read back exactly if each is clean; two fingerprints are equal exactly if the identities are. -/
theorem mountinfo_law (hsha : ∀ i j : MountIdentity,
      c.hexdigest i.bytes = c.hexdigest j.bytes → i.bytes = j.bytes) :
    (∀ ms, parseMountinfo (renderMounts ms) = some (ms.map KernelMount.info) ↔
      ∀ m ∈ ms, m.Clean) ∧
    (∀ target text target' text' a b, fingerprintForMount c target text = some a →
      fingerprintForMount c target' text' = some b →
        (a = b ↔ identityForMount c target text = identityForMount c target' text')) := by
  refine ⟨parse_render_iff, fun target text target' text' a b ha hb => ?_⟩
  obtain ⟨i, hi, rfl⟩ := Option.map_eq_some_iff.mp ha
  obtain ⟨j, hj, rfl⟩ := Option.map_eq_some_iff.mp hb
  rw [hi, hj, Option.some_inj]
  constructor
  · exact fun h => bytes_injective (hsha i j h)
  · rintro rfl
    rfl

/-- A mount at the given place. -/
def someMount (mountPoint mountSource : List Char) : KernelMount where
  mountId := 41
  parentId := 1
  major := 8
  minor := 1
  root := "/host/photos".toList
  mountPoint := mountPoint
  mountOptions := ["rw".toList, "relatime".toList]
  optionalFields := [.shared 7]
  filesystemType := "ext4".toList
  mountSource := mountSource
  superOptions := ["rw".toList]

/-- Names with a space, a newline and a backslash are read back. -/
theorem mountinfo_law_escapes :
    let m := someMount "/sources/my photos\n\\".toList "/dev/sda1".toList
    parseMountinfo (renderMounts [m, m]) = some [m.info, m.info] := by
  intro m
  have hclean : m.Clean := ⟨by decide, by decide, by decide⟩
  have hlaw := (mountinfo_law (c := ⟨fun t => t, fun t => t, fun bytes => bytes⟩)
    fun _ _ h => h).1 [m, m]
  refine hlaw.mpr fun m' hm' => ?_
  rcases mem_pair.mp hm' with rfl | rfl <;> exact hclean

/-- A directory with a carriage return in its name, and a source that is a dash, as of
`mount -t tmpfs - /mnt`: the text of the mounts is not read. -/
theorem parseMountinfo_of_unclean :
    parseMountinfo (renderMounts [someMount "/sources/a\rb".toList "/dev/sda1".toList]) ≠
        some [(someMount "/sources/a\rb".toList "/dev/sda1".toList).info] ∧
      parseMountinfo (renderMounts [someMount "/mnt".toList "-".toList]) ≠
        some [(someMount "/mnt".toList "-".toList).info] := by
  constructor <;> intro h
  · have hclean := (parse_render_iff _).mp h _ (mem_singleton_self _)
    exact absurd (hclean.unbroken "/sources/a\rb".toList (by decide) '\r' (by decide) (by decide))
      (by decide)
  · have hclean := (parse_render_iff _).mp h _ (mem_singleton_self _)
    exact (hclean.solid "-".toList (by decide)).2 rfl

end Frostvault
