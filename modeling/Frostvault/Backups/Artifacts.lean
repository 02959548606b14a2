import Frostvault.Lib.FixedWidth
import Frostvault.Lib.Text

/-!
The names of metadata backups (`create_metadata_backup`, `list_local_backup_files` of
`app/services/metadata_backups.py`).

An artifact is named by the second of its creation, the backend and the reason.  The names are
compared as texts, and the fields of the time are written with a fixed number of digits, so the
names are in the order of the seconds, and within a second in that of the reasons.

* `Second`, `isoformat`: a time in UTC without microseconds;
* `filename`, `sidecarName`: the two files of a backup;
* `filename_lt_iff`: **the order of the names**;
* `filename_inj`: two backups have one name in one second with one reason only.
-/

namespace Frostvault

namespace Backups

/-! ### Times -/

/-- `datetime.now(timezone.utc).replace(microsecond=0)`. -/
structure Second where
  year : ℕ
  month : ℕ
  day : ℕ
  hour : ℕ
  minute : ℕ
  second : ℕ
  hyear : 1 ≤ year ∧ year ≤ 9999
  hmonth : 1 ≤ month ∧ month ≤ 12
  hday : 1 ≤ day ∧ day ≤ 31
  hhour : hour < 24
  hminute : minute < 60
  hsecond : second < 60
deriving DecidableEq, Repr

namespace Second

/-- One time is before the other: the first field that differs decides. -/
def Before (s t : Second) : Prop :=
  s.year < t.year ∨ s.year = t.year ∧ (s.month < t.month ∨ s.month = t.month ∧
    (s.day < t.day ∨ s.day = t.day ∧ (s.hour < t.hour ∨ s.hour = t.hour ∧
      (s.minute < t.minute ∨ s.minute = t.minute ∧ s.second < t.second))))

instance (s t : Second) : Decidable (s.Before t) := by unfold Before; infer_instance

lemma ext_iff {s t : Second} : s = t ↔ s.year = t.year ∧ s.month = t.month ∧ s.day = t.day ∧
    s.hour = t.hour ∧ s.minute = t.minute ∧ s.second = t.second := by
  cases s
  cases t
  simp

/-- `isoformat()`. -/
def isoformat (s : Second) : List Char :=
  FixedWidth.pad 4 s.year ++ '-' :: (FixedWidth.pad 2 s.month ++ '-' ::
    (FixedWidth.pad 2 s.day ++ 'T' :: (FixedWidth.pad 2 s.hour ++ ':' ::
      (FixedWidth.pad 2 s.minute ++ ':' :: (FixedWidth.pad 2 s.second ++ "+00:00".toList)))))

end Second

/-! ### Names -/

/-- `created_at.replace("+00:00", "Z").replace(":", "")`. -/
def stampText (createdAt : List Char) : List Char :=
  Text.replaceChar ':' [] (Text.replaceAll "+00:00".toList ['Z'] createdAt)

/-- `backend`. -/
def backend : List Char := "postgresql".toList

/-- What an artifact ends with. -/
def artifactSuffix : List Char := ".bak.enc".toList

/-- `f"{stamp}-{backend}-{reason}.bak.enc"`. -/
def filename (createdAt : Second) (reason : List Char) : List Char :=
  stampText createdAt.isoformat ++ '-' :: (backend ++ '-' :: (reason ++ artifactSuffix))

/-- `f"{filename}.sha256"`. -/
def sidecarName (name : List Char) : List Char := name ++ ".sha256".toList

/-- `glob("*.bak.enc")`. -/
def isArtifactName (name : List Char) : Bool := artifactSuffix.isSuffixOf name

lemma isArtifactName_filename (createdAt : Second) (reason : List Char) :
    isArtifactName (filename createdAt reason) := by
  rw [isArtifactName, List.isSuffixOf_iff_suffix]
  refine ⟨stampText createdAt.isoformat ++ '-' :: (backend ++ '-' :: reason), ?_⟩
  rw [filename]
  generalize stampText createdAt.isoformat = stamp
  simp only [List.append_assoc, List.cons_append]

/-- The last character of a sidecar's name is not that of an artifact's. -/
lemma not_isArtifactName_sidecarName (name : List Char) :
    isArtifactName (sidecarName name) = false := by
  have hartifact : ∀ t : List Char, (t ++ artifactSuffix).getLast? = some 'c' := by
    intro t
    rw [List.getLast?_append]
    rfl
  have hsidecar : (sidecarName name).getLast? = some '6' := by
    rw [sidecarName, List.getLast?_append]
    rfl
  rw [Bool.eq_false_iff]
  intro h
  obtain ⟨t, ht⟩ := List.isSuffixOf_iff_suffix.mp h
  rw [← ht, hartifact t] at hsidecar
  cases hsidecar

/-! ### The stamp -/

/-- The characters of a number are digits, so none of these. -/
lemma notMem_pad {width n : ℕ} {c : Char} (h : ∀ d < 10, c ≠ FixedWidth.digit d) :
    c ∉ FixedWidth.pad width n := by
  intro hc
  obtain ⟨d, hd, hcd⟩ := FixedWidth.mem_pad hc
  exact h d hd hcd

lemma replaceChar_cons (c x : Char) (r a : List Char) : Text.replaceChar c r (x :: a) =
    (if x = c then r else [x]) ++ Text.replaceChar c r a := by
  simp [Text.replaceChar]

lemma replaceChar_append (c : Char) (r a b : List Char) :
    Text.replaceChar c r (a ++ b) = Text.replaceChar c r a ++ Text.replaceChar c r b := by
  simp [Text.replaceChar]

lemma replaceChar_of_notMem {c : Char} {r a : List Char} (h : c ∉ a) :
    Text.replaceChar c r a = a := by
  induction a with
  | nil => rfl
  | cons x a ih =>
      obtain ⟨hx, ha⟩ := not_or.mp (mt List.mem_cons.mpr h)
      have htail := ih ha
      rw [Text.replaceChar] at htail ⊢
      rw [List.flatMap_cons, if_neg (Ne.symm hx), htail]
      rfl

/-- The stamp of a time: its fields, the colons gone. -/
lemma stampText_isoformat (s : Second) : stampText s.isoformat =
    FixedWidth.pad 4 s.year ++ '-' :: (FixedWidth.pad 2 s.month ++ '-' ::
      (FixedWidth.pad 2 s.day ++ 'T' :: (FixedWidth.pad 2 s.hour ++
        (FixedWidth.pad 2 s.minute ++ (FixedWidth.pad 2 s.second ++ ['Z']))))) := by
  have hplus : ∀ width n : ℕ, '+' ∉ FixedWidth.pad width n :=
    fun _ _ => notMem_pad (by decide)
  have hcolon : ∀ width n : ℕ, Text.replaceChar ':' [] (FixedWidth.pad width n) =
      FixedWidth.pad width n := fun _ _ => replaceChar_of_notMem (notMem_pad (by decide))
  have hzone : Text.replaceAll "+00:00".toList ['Z'] s.isoformat =
      FixedWidth.pad 4 s.year ++ '-' :: (FixedWidth.pad 2 s.month ++ '-' ::
        (FixedWidth.pad 2 s.day ++ 'T' :: (FixedWidth.pad 2 s.hour ++ ':' ::
          (FixedWidth.pad 2 s.minute ++ ':' :: (FixedWidth.pad 2 s.second ++ ['Z']))))) := by
    have hbody : '+' ∉ FixedWidth.pad 4 s.year ++ '-' :: (FixedWidth.pad 2 s.month ++ '-' ::
        (FixedWidth.pad 2 s.day ++ 'T' :: (FixedWidth.pad 2 s.hour ++ ':' ::
          (FixedWidth.pad 2 s.minute ++ ':' :: FixedWidth.pad 2 s.second)))) := by
      simp [hplus]
    have hreplaced : Text.replaceAll ('+' :: "00:00".toList) ['Z'] _ = _ :=
      Text.replaceAll_append (b := "+00:00".toList) hbody
    have hoffset : Text.replaceAll "+00:00".toList ['Z'] "+00:00".toList = ['Z'] := by decide
    rw [show '+' :: "00:00".toList = "+00:00".toList from rfl, hoffset] at hreplaced
    simpa [Second.isoformat] using hreplaced
  rw [stampText, hzone]
  simp only [replaceChar_append, replaceChar_cons, hcolon]
  rfl

/-! ### The order of the names -/

/-- The stamps are in the order of the times, then of what follows them. -/
lemma stampText_append_lt_iff (s t : Second) (a b : List Char) :
    stampText s.isoformat ++ a < stampText t.isoformat ++ b ↔ s.Before t ∨ s = t ∧ a < b := by
  have hyear : ∀ s : Second, s.year < 10 ^ 4 := fun s => by have := s.hyear; omega
  have hmonth : ∀ s : Second, s.month < 10 ^ 2 := fun s => by have := s.hmonth; omega
  have hday : ∀ s : Second, s.day < 10 ^ 2 := fun s => by have := s.hday; omega
  have hhour : ∀ s : Second, s.hour < 10 ^ 2 := fun s => by have := s.hhour; omega
  have hminute : ∀ s : Second, s.minute < 10 ^ 2 := fun s => by have := s.hminute; omega
  have hsecond : ∀ s : Second, s.second < 10 ^ 2 := fun s => by have := s.hsecond; omega
  simp only [stampText_isoformat, List.append_assoc, List.cons_append, List.nil_append,
    FixedWidth.pad_append_lt_iff, hyear, hmonth, hday, hhour, hminute, hsecond,
    List.cons_lt_cons_iff, lt_self_iff_false, false_or, true_and, Second.Before, Second.ext_iff]
  tauto

/-- **The order of the names**: by the second, and within a second by the reason with the
suffix. -/
theorem filename_lt_iff (s t : Second) (a b : List Char) : filename s a < filename t b ↔
    s.Before t ∨ s = t ∧ a ++ artifactSuffix < b ++ artifactSuffix := by
  rw [filename, filename, stampText_append_lt_iff, List.cons_lt_cons_iff,
    FixedWidth.append_left_lt_iff, List.cons_lt_cons_iff]
  simp

/-- One time is before another, or it is that time, or the other is before it. -/
lemma Second.before_trichotomy (s t : Second) : s.Before t ∨ s = t ∨ t.Before s := by
  rw [Second.ext_iff, Second.Before, Second.Before]
  omega

lemma Second.not_before_self (s : Second) : ¬s.Before s := by
  simp [Second.Before]

/-- **Two backups with one name** were made in one second with one reason. -/
theorem filename_inj {s t : Second} {a b : List Char} :
    filename s a = filename t b ↔ s = t ∧ a = b := by
  constructor
  · intro h
    have hirrefl : ¬filename s a < filename t b := h ▸ lt_irrefl _
    have hirrefl' : ¬filename t b < filename s a := h ▸ lt_irrefl _
    rw [filename_lt_iff, not_or] at hirrefl hirrefl'
    obtain rfl : s = t := by
      rcases s.before_trichotomy t with hlt | heq | hlt
      · exact absurd hlt hirrefl.1
      · exact heq
      · exact absurd hlt hirrefl'.1
    refine ⟨rfl, ?_⟩
    rw [filename, filename] at h
    simpa using h
  · rintro ⟨rfl, rfl⟩
    rfl

end Backups

end Frostvault
