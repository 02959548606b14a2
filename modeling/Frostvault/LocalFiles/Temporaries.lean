import Frostvault.Lib.Directory
import Frostvault.Lib.Patterns
import Mathlib.Data.List.Sort
import Mathlib.Data.List.Lex
import Mathlib.Data.Char

/-!
The names of the application's temporary files (`app/services/vault_paths.py`,
`process_recover`, `_process_free_space` and `_reconcile_interrupted_jobs_impl` of
`app/storage.py`).

A recovery downloads into `.name.restore-<uuid>.tmp`, which the provider's client fills under a
name with eight more characters; a local release claims a file by renaming it to
`.name.cleanup-<uuid>.tmp`.  Restart recognises both by regular expressions, and finds the
claims of a file by a shell pattern made of its name.

* `isCleanupTemporary_iff`: the names that are recognised as claims;
* `not_cleanup_of_restore`: a claim is no download.
-/

namespace Frostvault

open Patterns Directory

/-! ### Recognised names -/

/-- `[0-9a-f]`. -/
def hexDigit (c : Char) : Bool := c.isDigit || ('a' ≤ c && c ≤ 'f')

/-- `.` of a regular expression: any character but a newline. -/
def dot (c : Char) : Bool := c ≠ '\n'

/-- `uuid4().hex`. -/
def IsUuid (hex : FileName) : Prop := hex.length = 32 ∧ ∀ c ∈ hex, hexDigit c = true

instance (hex : FileName) : Decidable (IsUuid hex) :=
  decidable_of_iff (hex.length = 32 ∧ hex.all hexDigit = true) (by rw [List.all_eq_true, IsUuid])

/-- `.restore-`. -/
def restoreMark : FileName := ['.', 'r', 'e', 's', 't', 'o', 'r', 'e', '-']

/-- `.cleanup-`. -/
def cleanupMark : FileName := ['.', 'c', 'l', 'e', 'a', 'n', 'u', 'p', '-']

/-- `.tmp`. -/
def tmpMark : FileName := ['.', 't', 'm', 'p']

/-- `.partial`. -/
def partialMark : FileName := ['.', 'p', 'a', 'r', 't', 'i', 'a', 'l']

/-- `\..+<mark>[0-9a-f]{32}\.tmp`. -/
def temporaryPattern (mark : FileName) : List (Piece Char) :=
  lit ['.'] ++ [.one dot] ++ [.many dot] ++ lit mark ++ List.replicate 32 (.one hexDigit) ++
    lit tmpMark

/-- `\.[A-Za-z0-9]{8}`. -/
def clientSuffix : List (Piece Char) := lit ['.'] ++ List.replicate 8 (.one Char.isAlphanum)

/-- `\..+\.partial`. -/
def partialSuffix : List (Piece Char) := lit ['.'] ++ [.one dot] ++ [.many dot] ++ lit partialMark

/-- `RESTORE_TEMPORARY_RE.fullmatch(name)`. -/
def isRestoreTemporary (name : FileName) : Bool :=
  fullmatch (temporaryPattern restoreMark) name ||
  fullmatch (temporaryPattern restoreMark ++ clientSuffix) name ||
  fullmatch (temporaryPattern restoreMark ++ partialSuffix) name

/-- `CLEANUP_TEMPORARY_RE.fullmatch(name)`. -/
def isCleanupTemporary (name : FileName) : Bool := fullmatch (temporaryPattern cleanupMark) name

/-! ### The names that are given -/

/-- `.{name}<mark>{hex}.tmp`. -/
def temporaryName (mark name hex : FileName) : FileName :=
  '.' :: (name ++ mark ++ hex ++ tmpMark)

/-- The temporary of a recovery. -/
def restoreTemporary (name hex : FileName) : FileName := temporaryName restoreMark name hex

/-- The name the provider's client downloads to, before it renames the file. -/
def restorePartial (name hex ext : FileName) : FileName := restoreTemporary name hex ++ '.' :: ext

/-- The claim of a local release. -/
def cleanupTemporary (name hex : FileName) : FileName := temporaryName cleanupMark name hex

lemma fullmatch_temporaryPattern {mark s : FileName} :
    fullmatch (temporaryPattern mark) s ↔ ∃ name hex, s = temporaryName mark name hex ∧
      name ≠ [] ∧ (∀ c ∈ name, dot c) ∧ IsUuid hex := by
  simp only [temporaryPattern, fullmatch_append, fullmatch_lit, fullmatch_many,
    fullmatch_replicate]
  constructor
  · rintro ⟨-, -, rfl, ⟨-, hex, rfl, ⟨-, -, rfl, ⟨-, ds, rfl, ⟨-, cs, rfl, rfl, hone⟩, hmany⟩, rfl⟩,
      hlen, hhex⟩, rfl⟩
    cases cs with
    | nil => cases hone
    | cons c cs =>
        obtain ⟨hc, hcs⟩ := Bool.and_eq_true_iff.mp hone
        obtain rfl := List.isEmpty_iff.mp hcs
        refine ⟨c :: ds, hex, by simp [temporaryName], by simp, ?_, hlen, hhex⟩
        intro d hd
        rcases List.mem_cons.mp hd with rfl | hd
        · exact hc
        · exact hmany d hd
  · rintro ⟨name, hex, rfl, hne, hdot, hlen, hhex⟩
    obtain ⟨c, cs, rfl⟩ := List.exists_cons_of_ne_nil hne
    refine ⟨['.'] ++ [c] ++ cs ++ mark ++ hex, tmpMark, by simp [temporaryName],
      ⟨['.'] ++ [c] ++ cs ++ mark, hex, rfl,
        ⟨['.'] ++ [c] ++ cs, mark, rfl, ⟨['.'] ++ [c], cs, rfl, ⟨['.'], [c], rfl, rfl, ?_⟩, ?_⟩,
          rfl⟩, hlen, hhex⟩, rfl⟩
    · simp [fullmatch, hdot c List.mem_cons_self]
    · exact fun d hd => hdot d (List.mem_cons_of_mem c hd)

/-- **The recognised claims.** -/
theorem isCleanupTemporary_iff {s : FileName} :
    isCleanupTemporary s ↔ ∃ name hex, s = cleanupTemporary name hex ∧ name ≠ [] ∧
      (∀ c ∈ name, dot c) ∧ IsUuid hex :=
  fullmatch_temporaryPattern

/-- **A claim is no download**, nor the file the client fills. -/
theorem not_cleanup_of_restore {name hex ext : FileName} (hhex : IsUuid hex) (hlen : ext.length = 8)
    (hext : ∀ c ∈ ext, c.isAlphanum) :
    isCleanupTemporary (restoreTemporary name hex) = false ∧
      isCleanupTemporary (restorePartial name hex ext) = false := by
  constructor
  · by_contra hclaim
    obtain ⟨name', hex', heq, -, -, hhex'⟩ :=
      isCleanupTemporary_iff.mp (Bool.not_eq_false _ ▸ hclaim)
    obtain ⟨-, heq⟩ := List.cons.inj heq
    have htmp := List.append_inj_left' heq rfl
    have hmark := List.append_inj_left' htmp (hhex.1.trans hhex'.1.symm)
    have hmarks : restoreMark = cleanupMark := List.append_inj_right' hmark rfl
    revert hmarks
    decide
  · -- the last four characters of the client's name are letters or digits
    by_contra hclaim
    obtain ⟨name', hex', heq, -⟩ := isCleanupTemporary_iff.mp (Bool.not_eq_false _ ▸ hclaim)
    have hsplit : restorePartial name hex ext =
        (restoreTemporary name hex ++ '.' :: ext.take 4) ++ ext.drop 4 := by
      rw [restorePartial, List.append_assoc, List.cons_append, List.take_append_drop]
    have hclaim : cleanupTemporary name' hex' = ('.' :: (name' ++ cleanupMark ++ hex')) ++ tmpMark :=
      rfl
    rw [hsplit, hclaim] at heq
    have hdrop : ext.drop 4 = tmpMark := by
      refine List.append_inj_right' heq ?_
      rw [List.length_drop, hlen]
      rfl
    have hdot : '.' ∈ ext := by
      refine List.mem_of_mem_drop (i := 4) ?_
      rw [hdrop]
      exact List.mem_cons_self
    have hdot' := hext '.' hdot
    revert hdot'
    decide

/-! ### The claims restart finds -/

/-- `.{name}.cleanup-*.tmp`. -/
def claimsPattern (name : FileName) : FileName :=
  '.' :: (name ++ cleanupMark ++ ['*'] ++ tmpMark)

/-- The names the loop over the claims goes through. -/
def matchesClaims (name s : FileName) : Bool :=
  fullmatch (glob (claimsPattern name)) s && isCleanupTemporary s

/-- `sorted(target.parent.glob(..))`, those recognised. -/
def foundClaims {ν : Type} (fs : Files ν) (target : Place) : List FileName :=
  ((names fs target.dir).filter (matchesClaims target.name)).insertionSort (· ≤ ·)

end Frostvault
