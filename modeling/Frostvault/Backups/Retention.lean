import Mathlib.Data.List.AList
import Frostvault.Lib.Hex
import Frostvault.Lib.Newest
import Frostvault.Lib.Runs
import Frostvault.Backups.Artifacts

/-!
Writing, rotating and opening metadata backups (`run_metadata_backup`,
`create_metadata_backup`, `rotate_local_retention`, `open_backup_artifact` of
`app/services/metadata_backups.py`).

A call writes an artifact and its sidecar under names built from the second and the reason,
deletes all artifacts but the first `keep` in the order of the names, greatest first, and records
the run.  What the rotation keeps are therefore the last calls only if the names are in the order
of the calls.

* `BackupWorld`, `runMetadataBackup`: the backup volume, the table of runs, and a call;
* `openBackupArtifact`: the download of a recorded run;
* `Remain`, `Retrievable`: the artifacts there are those of the last `keep` calls, and the last
  one can be opened;
* `InOrder`: what the seconds and the reasons of the calls have to meet;
* `backups_kept`: **the artifacts are kept if the calls are in order, and only then**.
-/

namespace Frostvault

open Runs List

namespace Backups

/-! ### The volume and the table -/

/-- The files of the backup volume. -/
abbrev BackupVolume := AList fun _ : List Char => List UInt8

/-- `status` of a run. -/
inductive RunStatus
  | succeeded | verified | failed
deriving DecidableEq, Repr

/-- A row of `metadata_backup_runs`; `localPath` is the name on the backup volume. -/
structure BackupRun where
  id : ℕ
  reason : List Char
  status : RunStatus
  digest : Option (List Char)
  localPath : Option (List Char)
deriving DecidableEq, Repr

/-- The backup volume and the recorded runs. -/
structure BackupWorld where
  volume : BackupVolume
  runs : List BackupRun
  nextId : ℕ

/-- What a call of `run_metadata_backup` is given by the clock, its caller and the encryption. -/
structure BackupCall where
  createdAt : Second
  reason : List Char
  ciphertext : List UInt8
deriving DecidableEq, Repr

/-- The name of the artifact. -/
def BackupCall.name (c : BackupCall) : List Char := filename c.createdAt c.reason

/-- `list_local_backup_files`: newest first by name. -/
def listLocalBackupFiles (v : BackupVolume) : List (List Char) :=
  Newest.descending (v.keys.filter isArtifactName)

/-- Both files of an artifact are removed. -/
def unlinkArtifact (v : BackupVolume) (name : List Char) : BackupVolume :=
  (v.erase name).erase (sidecarName name)

/-- `rotate_local_retention`. -/
def rotateLocalRetention (v : BackupVolume) (keep : ℕ) : BackupVolume :=
  ((listLocalBackupFiles v).drop keep).foldl unlinkArtifact v

section Digest

variable (sha256 : List UInt8 → List Char)

/-- `f"{digest}\\n"` in UTF-8; a digest is hexadecimal. -/
def sidecarText (digest : List Char) : List UInt8 :=
  (digest ++ ['\n']).map fun c => c.toNat.toUInt8

/-- The two writes of `create_metadata_backup`.  A reason with a separator names a directory
that does not exist, and one with a null character no file. -/
def createMetadataBackup (v : BackupVolume) (c : BackupCall) : Option BackupVolume := do
  guard ('/' ∉ c.reason ∧ Char.ofNat 0 ∉ c.reason)
  return (v.insert c.name c.ciphertext).insert (sidecarName c.name)
    (sidecarText (sha256 c.ciphertext))

/-- The row `record_backup_run` inserts. -/
def recordedRun (id : ℕ) (c : BackupCall) : BackupRun where
  id := id
  reason := c.reason
  status := .succeeded
  digest := some (sha256 c.ciphertext)
  localPath := some c.name

/-- `run_metadata_backup`: create, rotate, record. -/
def runMetadataBackup (keep : ℕ) (w : BackupWorld) (c : BackupCall) : Option BackupWorld := do
  let v ← createMetadataBackup sha256 w.volume c
  return { volume := rotateLocalRetention v keep
           runs := w.runs ++ [recordedRun sha256 w.nextId c]
           nextId := w.nextId + 1 }

/-! ### The download -/

/-- The errors of `open_backup_artifact`. -/
inductive BackupError
  | runNotFound | notAvailable | digestMismatch | fileMissing
deriving DecidableEq, Repr

/-- What `open_backup_artifact` returns. -/
structure Download where
  filename : List Char
  body : List UInt8
  digest : List Char
  run : BackupRun
deriving DecidableEq, Repr

/-- The first artifact with the digest, if one is recorded. -/
def foundByDigest (v : BackupVolume) (digest : Option (List Char)) : Option (List Char) :=
  match digest with
  | some (c :: rest) => (v.keys.filter isArtifactName).find? fun name =>
      (v.lookup name).any fun body => sha256 body == c :: rest
  | _ => none

/-- The candidate that exists first is read and its digest compared. -/
def openCandidate (v : BackupVolume) (row : BackupRun) :
    List (List Char) → Except BackupError Download
  | [] => .error .fileMissing
  | path :: rest =>
      match v.lookup path with
      | none => openCandidate v row rest
      | some body =>
          match row.digest with
          | some (c :: recorded) =>
              if sha256 body = c :: recorded then .ok ⟨path, body, sha256 body, row⟩
              else .error .digestMismatch
          | _ => .ok ⟨path, body, sha256 body, row⟩

/-- `open_backup_artifact`. -/
def openBackupArtifact (w : BackupWorld) (runId : ℕ) : Except BackupError Download :=
  match w.runs.find? fun row => row.id == runId with
  | none => .error .runNotFound
  | some row =>
      match row.status with
      | .failed => .error .notAvailable
      | _ => openCandidate sha256 w.volume row
          ((row.localPath.filter fun path => !path.isEmpty).toList ++
            (foundByDigest sha256 w.volume row.digest).toList)

end Digest

/-! ### What the calls promise -/

/-- **Exactly the artifacts of the last `keep` calls** are on the volume. -/
def Remain (keep : ℕ) (w : BackupWorld) (calls : List BackupCall) : Prop :=
  ∀ name body, isArtifactName name → (w.volume.lookup name = some body ↔
    ∃ c ∈ calls.rtake keep, c.name = name ∧ c.ciphertext = body)

/-- The artifact of the call is on the volume with its digest, and its run, recorded last, is
opened to it. -/
def Retrievable (sha256 : List UInt8 → List Char) (w : BackupWorld) (c : BackupCall) : Prop :=
  w.volume.lookup c.name = some c.ciphertext ∧
    ∃ run, w.runs.getLast? = some run ∧ run.localPath = some c.name ∧
      run.digest = some (sha256 c.ciphertext) ∧ openBackupArtifact sha256 w run.id =
        .ok ⟨c.name, c.ciphertext, sha256 c.ciphertext, run⟩

/-- One second and one reason. -/
def SameName (x y : BackupCall) : Prop := x.createdAt = y.createdAt ∧ x.reason = y.reason

/-- An earlier second, or the same one and a reason that stands first in the order of texts, both
followed by the suffix. -/
def NameBefore (x y : BackupCall) : Prop :=
  x.createdAt.Before y.createdAt ∨ x.createdAt = y.createdAt ∧
    x.reason ++ artifactSuffix < y.reason ++ artifactSuffix

/-- **A call after others is in order**: none of the last `keep - 1` calls has its second and
reason, and the oldest of `keep` calls that are kept has them, or stands before all that stay. -/
def Fits (keep : ℕ) (earlier : List BackupCall) (c : BackupCall) : Prop :=
  (∀ x ∈ earlier.rtake (keep - 1), ¬SameName x c) ∧
    ∀ o, earlier.rtake keep = o :: earlier.rtake (keep - 1) →
      SameName o c ∨ ∀ x ∈ earlier.rtake (keep - 1) ++ [c], NameBefore o x

/-- All calls are in order. -/
def InOrder (keep : ℕ) (calls : List BackupCall) : Prop :=
  ∀ bs c cs, calls = bs ++ c :: cs → Fits keep bs c

lemma sameName_iff {x y : BackupCall} : SameName x y ↔ x.name = y.name := filename_inj.symm

lemma nameBefore_iff {x y : BackupCall} : NameBefore x y ↔ x.name < y.name :=
  (filename_lt_iff _ _ _ _).symm

/-! ### What is on the volume -/

variable {name : List Char}

section Volume

variable {sha256 : List UInt8 → List Char} {keep : ℕ} {v : BackupVolume} {c : BackupCall}

lemma ne_sidecarName {other : List Char} (h : isArtifactName name) :
    name ≠ sidecarName other := by
  rintro rfl
  rw [not_isArtifactName_sidecarName] at h
  cases h

/-- Creating a backup leaves the other artifacts. -/
lemma lookup_createMetadataBackup {v' : BackupVolume}
    (h : createMetadataBackup sha256 v c = some v') (hname : isArtifactName name) :
    v'.lookup name = if name = c.name then some c.ciphertext else v.lookup name := by
  obtain ⟨-, rfl⟩ := checked_eq_some.mp h
  rw [AList.lookup_insert_ne (ne_sidecarName hname)]
  split
  · subst name
    rw [AList.lookup_insert]
  · rename_i hne
    rw [AList.lookup_insert_ne hne]

/-- Removing artifacts leaves the other ones. -/
lemma lookup_foldl_unlinkArtifact (hname : isArtifactName name) (names : List (List Char))
    (v : BackupVolume) :
    (names.foldl unlinkArtifact v).lookup name = if name ∈ names then none else v.lookup name := by
  induction names generalizing v with
  | nil => rfl
  | cons x names ih =>
      rw [foldl_cons, ih, unlinkArtifact, AList.lookup_erase_ne (ne_sidecarName hname)]
      by_cases hx : name = x
      · subst hx
        simp
      · rw [AList.lookup_erase_ne hx]
        simp [hx]

lemma lookup_rotateLocalRetention (hname : isArtifactName name) :
    (rotateLocalRetention v keep).lookup name =
      if name ∈ (listLocalBackupFiles v).drop keep then none else v.lookup name :=
  lookup_foldl_unlinkArtifact hname _ v

lemma mem_artifactNames :
    name ∈ v.keys.filter isArtifactName ↔ isArtifactName name ∧ (v.lookup name).isSome := by
  rw [mem_filter, ← AList.mem_keys, AList.lookup_isSome]
  tauto

lemma nodup_artifactNames (v : BackupVolume) : (v.keys.filter isArtifactName).Nodup :=
  v.keys_nodup.filter _

lemma isArtifactName_name (c : BackupCall) : isArtifactName c.name :=
  isArtifactName_filename c.createdAt c.reason

end Volume

/-! ### The last calls -/

section Last

variable {α : Type*}

lemma rtake_of_length_le {l : List α} {n : ℕ} (h : l.length ≤ n) : l.rtake n = l := by
  rw [List.rtake, Nat.sub_eq_zero_of_le h, drop_zero]

lemma length_rtake (l : List α) (n : ℕ) : (l.rtake n).length = min n l.length := by
  rw [List.rtake, length_drop]
  omega

/-- One more of the last: all of them were taken, or there is an older one. -/
lemma rtake_succ_cases (l : List α) (n : ℕ) :
    l.rtake (n + 1) = l.rtake n ∨ ∃ o, l.rtake (n + 1) = o :: l.rtake n := by
  rcases Nat.lt_or_ge n l.length with hlt | hge
  · right
    have hplace : l.length - (n + 1) < l.length := by omega
    refine ⟨l[l.length - (n + 1)], ?_⟩
    rw [List.rtake, drop_eq_getElem_cons hplace, List.rtake]
    congr 2
    omega
  · exact .inl (by rw [rtake_of_length_le hge, rtake_of_length_le (by omega)])

end Last

/-! ### One call -/

section Call

variable {sha256 : List UInt8 → List Char} {k : ℕ} {w w' : BackupWorld}
  {earlier : List BackupCall} {c : BackupCall} {v : BackupVolume}

/-- A call creates, rotates and records. -/
lemma exists_of_runMetadataBackup {keep : ℕ} (h : runMetadataBackup sha256 keep w c = some w') :
    ∃ v, createMetadataBackup sha256 w.volume c = some v ∧
      w'.volume = rotateLocalRetention v keep ∧
      w'.runs = w.runs ++ [recordedRun sha256 w.nextId c] ∧ w'.nextId = w.nextId + 1 := by
  obtain ⟨v, hv, hw'⟩ := Option.bind_eq_some_iff.mp h
  cases hw'
  exact ⟨v, hv, rfl, rfl, rfl⟩

section

variable (hR : Remain (k + 1) w earlier)

include hR

section

variable (hv : createMetadataBackup sha256 w.volume c = some v)

include hv

/-- The artifacts before the rotation: those that were kept, and the new one. -/
lemma mem_createdNames :
    name ∈ v.keys.filter isArtifactName ↔
      name = c.name ∨ ∃ x ∈ earlier.rtake (k + 1), x.name = name := by
  rw [mem_artifactNames]
  constructor
  · rintro ⟨hname, hsome⟩
    rw [lookup_createMetadataBackup hv hname] at hsome
    by_cases hc : name = c.name
    · exact .inl hc
    · rw [if_neg hc] at hsome
      obtain ⟨body, hbody⟩ := Option.isSome_iff_exists.mp hsome
      obtain ⟨x, hx, hxname, -⟩ := (hR name body hname).mp hbody
      exact .inr ⟨x, hx, hxname⟩
  · rintro (rfl | ⟨x, hx, rfl⟩)
    · refine ⟨isArtifactName_name c, ?_⟩
      rw [lookup_createMetadataBackup hv (isArtifactName_name c), if_pos rfl]
      rfl
    · refine ⟨isArtifactName_name x, ?_⟩
      rw [lookup_createMetadataBackup hv (isArtifactName_name x)]
      split
      · rfl
      · rw [(hR x.name x.ciphertext (isArtifactName_name x)).mpr ⟨x, hx, rfl, rfl⟩]
        rfl

/-- Nothing is rotated away when the kept names and the new one are no more than `keep`. -/
lemma drop_eq_nil_of_subset
    (h : ∀ x ∈ earlier.rtake (k + 1), x ∈ earlier.rtake k ∨ x.name = c.name) :
    (listLocalBackupFiles v).drop (k + 1) = [] := by
  refine Newest.drop_descending_of_length_le ?_
  have hsub : v.keys.filter isArtifactName ⊆ (earlier.rtake k ++ [c]).map (·.name) := by
    intro name hname
    rcases (mem_createdNames hR hv).mp hname with rfl | ⟨x, hx, rfl⟩
    · exact mem_map.mpr ⟨c, by simp, rfl⟩
    · rcases h x hx with hlast | hc
      · exact mem_map.mpr ⟨x, mem_append_left _ hlast, rfl⟩
      · exact mem_map.mpr ⟨c, by simp, hc.symm⟩
  have hle := (subperm_of_subset (nodup_artifactNames v) hsub).length_le
  have hlength := length_rtake earlier k
  simp only [length_map, length_append, length_singleton] at hle
  omega

/-- The names before the rotation when `keep` of them and a new one are there. -/
lemma createdNames_perm {o : BackupCall} (ho : earlier.rtake (k + 1) = o :: earlier.rtake k)
    (hnodup : ((earlier.rtake (k + 1) ++ [c]).map (·.name)).Nodup) :
    (v.keys.filter isArtifactName).Perm ((earlier.rtake (k + 1) ++ [c]).map (·.name)) ∧
      (v.keys.filter isArtifactName).length = k + 1 + 1 := by
  have hperm : (v.keys.filter isArtifactName).Perm
      ((earlier.rtake (k + 1) ++ [c]).map (·.name)) := by
    refine (perm_ext_iff_of_nodup (nodup_artifactNames v) hnodup).mpr fun name => ?_
    rw [mem_createdNames hR hv, map_append, mem_append, mem_map]
    simp only [map_cons, map_nil, mem_singleton]
    exact or_comm
  have hlength := congrArg List.length ho
  have hk := length_rtake earlier k
  have hk' := length_rtake earlier (k + 1)
  rw [length_cons] at hlength
  refine ⟨hperm, ?_⟩
  rw [hperm.length_eq, length_map, length_append, length_singleton]
  omega

/-- **What is left** when the rotation takes none of the last calls and every older one. -/
lemma remain_of_drop (hw' : w'.volume = rotateLocalRetention v (k + 1))
    (hnew : ∀ x ∈ earlier.rtake k, x.name ≠ c.name)
    (hlast : ∀ x ∈ earlier.rtake k ++ [c], x.name ∉ (listLocalBackupFiles v).drop (k + 1))
    (hold : ∀ x ∈ earlier.rtake (k + 1), x ∈ earlier.rtake k ∨ x.name = c.name ∨
      x.name ∈ (listLocalBackupFiles v).drop (k + 1))
    (hsub : earlier.rtake k ⊆ earlier.rtake (k + 1)) :
    Remain (k + 1) w' (earlier ++ [c]) := by
  intro name body hname
  rw [rtake_concat_succ, hw', lookup_rotateLocalRetention hname,
    lookup_createMetadataBackup hv hname]
  constructor
  · intro h
    split at h
    · cases h
    · rename_i hdrop
      split at h
      · rename_i hc
        exact ⟨c, by simp, hc.symm, Option.some.inj h⟩
      · rename_i hc
        obtain ⟨x, hx, rfl, hbody⟩ := (hR name body hname).mp h
        rcases hold x hx with hmem | hxc | hxdrop
        · exact ⟨x, mem_append_left _ hmem, rfl, hbody⟩
        · exact absurd hxc hc
        · exact absurd hxdrop hdrop
  · rintro ⟨x, hx, rfl, rfl⟩
    rw [if_neg (hlast x hx)]
    rcases mem_append.mp hx with hmem | hmem
    · rw [if_neg (hnew x hmem)]
      exact (hR x.name x.ciphertext hname).mpr ⟨x, hsub hmem, rfl, rfl⟩
    · obtain rfl := mem_singleton.mp hmem
      rw [if_pos rfl]

end

end

lemma rtake_subset_rtake_succ {α : Type*} (l : List α) (n : ℕ) : l.rtake n ⊆ l.rtake (n + 1) := by
  rcases rtake_succ_cases l n with h | ⟨o, h⟩
  · rw [h]
    exact List.Subset.refl _
  · rw [h]
    exact subset_cons_self o _

/-- The names of a call in order and of the kept ones it does not replace. -/
lemma nodup_names (hN : ((earlier.rtake (k + 1)).map (·.name)).Nodup)
    (hnew : ∀ x ∈ earlier.rtake (k + 1), x.name ≠ c.name) :
    ((earlier.rtake (k + 1) ++ [c]).map (·.name)).Nodup := by
  rw [map_append, nodup_append]
  refine ⟨hN, nodup_singleton _, ?_⟩
  rintro name hname other hother rfl
  obtain ⟨x, hx, rfl⟩ := mem_map.mp hname
  exact hnew x hx (by simpa using hother)

/-- The names of the last calls stay distinct. -/
lemma nodup_step (hN : ((earlier.rtake (k + 1)).map (·.name)).Nodup)
    (hnew : ∀ x ∈ earlier.rtake k, x.name ≠ c.name) :
    (((earlier ++ [c]).rtake (k + 1)).map (·.name)).Nodup := by
  have hlast : ((earlier.rtake k).map (·.name)).Nodup := by
    rcases rtake_succ_cases earlier k with h | ⟨o, h⟩
    · rwa [h] at hN
    · rw [h, map_cons, nodup_cons] at hN
      exact hN.2
  rw [rtake_concat_succ, map_append, nodup_append]
  refine ⟨hlast, nodup_singleton _, ?_⟩
  rintro name hname other hother rfl
  obtain ⟨x, hx, rfl⟩ := mem_map.mp hname
  exact hnew x hx (by simpa using hother)

/-- **A call in order** keeps exactly the last artifacts. -/
lemma remain_step (hR : Remain (k + 1) w earlier)
    (hN : ((earlier.rtake (k + 1)).map (·.name)).Nodup)
    (h : runMetadataBackup sha256 (k + 1) w c = some w') (hfits : Fits (k + 1) earlier c) :
    Remain (k + 1) w' (earlier ++ [c]) := by
  obtain ⟨v, hv, hw', -, -⟩ := exists_of_runMetadataBackup h
  obtain ⟨hnew, hoverflow⟩ := hfits
  rw [Nat.add_sub_cancel] at hnew hoverflow
  have hnames : ∀ x ∈ earlier.rtake k, x.name ≠ c.name := fun x hx heq =>
    hnew x hx (sameName_iff.mpr heq)
  have hsub := rtake_subset_rtake_succ earlier k
  rcases rtake_succ_cases earlier k with hall | ⟨o, ho⟩
  · -- fewer than `keep` calls so far: nothing is rotated
    have hdrop := drop_eq_nil_of_subset hR hv fun x hx => .inl (hall ▸ hx)
    refine remain_of_drop hR hv hw' hnames ?_ (fun x hx => .inl (hall ▸ hx)) hsub
    simp [hdrop]
  · rcases hoverflow o ho with hsame | hbefore
    · -- the new artifact is written over the oldest one
      have hkept : ∀ x ∈ earlier.rtake (k + 1), x ∈ earlier.rtake k ∨ x.name = c.name := by
        intro x hx
        rw [ho] at hx
        rcases mem_cons.mp hx with rfl | hx
        · exact .inr (sameName_iff.mp hsame)
        · exact .inl hx
      have hdrop := drop_eq_nil_of_subset hR hv hkept
      refine remain_of_drop hR hv hw' hnames ?_ (fun x hx => ?_) hsub
      · simp [hdrop]
      · exact (hkept x hx).imp_right .inl
    · -- the oldest name is the least of all: it goes
      have hleast : ∀ x ∈ earlier.rtake k ++ [c], o.name < x.name := fun x hx =>
        nameBefore_iff.mp (hbefore x hx)
      have hkeptnew : ∀ x ∈ earlier.rtake (k + 1), x.name ≠ c.name := by
        intro x hx
        rw [ho] at hx
        rcases mem_cons.mp hx with rfl | hx
        · exact ne_of_lt (hleast c (by simp))
        · exact hnames x hx
      obtain ⟨hperm, hlength⟩ := createdNames_perm hR hv ho (nodup_names hN hkeptnew)
      have hdrop : (listLocalBackupFiles v).drop (k + 1) = [o.name] := by
        refine Newest.drop_descending_of_least hlength
          ((mem_createdNames hR hv).mpr (.inr ⟨o, by simp [ho], rfl⟩)) fun name hname hne => ?_
        obtain ⟨x, hx, rfl⟩ := mem_map.mp (hperm.mem_iff.mp hname)
        rw [ho, cons_append] at hx
        rcases mem_cons.mp hx with rfl | hx
        · exact absurd rfl hne
        · exact hleast x hx
      refine remain_of_drop hR hv hw' hnames ?_ (fun x hx => ?_) hsub
      · intro x hx
        rw [hdrop, mem_singleton]
        exact ne_of_gt (hleast x hx)
      · rw [ho] at hx
        rcases mem_cons.mp hx with rfl | hx
        · exact .inr (.inr (by simp [hdrop]))
        · exact .inl hx

/-- **Only a call in order** keeps exactly the last artifacts, when its content is new. -/
lemma fits_of_remain (hR : Remain (k + 1) w earlier)
    (hN : ((earlier.rtake (k + 1)).map (·.name)).Nodup)
    (h : runMetadataBackup sha256 (k + 1) w c = some w')
    (hfresh : ∀ x ∈ earlier.rtake (k + 1), x.ciphertext ≠ c.ciphertext)
    (hR' : Remain (k + 1) w' (earlier ++ [c])) : Fits (k + 1) earlier c := by
  obtain ⟨v, hv, hw', -, -⟩ := exists_of_runMetadataBackup h
  have hsub := rtake_subset_rtake_succ earlier k
  have hlast : ∀ x ∈ earlier.rtake k ++ [c], w'.volume.lookup x.name = some x.ciphertext := by
    intro x hx
    refine (hR' x.name x.ciphertext (isArtifactName_name x)).mpr ⟨x, ?_, rfl, rfl⟩
    rwa [rtake_concat_succ]
  have hnames : ∀ x ∈ earlier.rtake k, x.name ≠ c.name := by
    intro x hx heq
    have hx' := hlast x (mem_append_left _ hx)
    rw [heq, hlast c (by simp)] at hx'
    exact hfresh x (hsub hx) (Option.some.inj hx').symm
  refine ⟨fun x hx hsame => hnames x hx (sameName_iff.mp hsame), fun o ho => ?_⟩
  rw [Nat.add_sub_cancel] at ho ⊢
  by_cases hsame : o.name = c.name
  · exact .inl (sameName_iff.mpr hsame)
  · refine .inr fun x hx => nameBefore_iff.mpr ?_
    have hkeptnew : ∀ x ∈ earlier.rtake (k + 1), x.name ≠ c.name := by
      intro x hx
      rw [ho] at hx
      rcases mem_cons.mp hx with rfl | hx
      · exact hsame
      · exact hnames x hx
    have hnodup := nodup_names hN hkeptnew
    obtain ⟨hperm, hlength⟩ := createdNames_perm hR hv ho hnodup
    obtain ⟨z, -, hdrop, hleast⟩ := Newest.exists_least hlength
    rw [ho, cons_append, map_cons, nodup_cons] at hnodup
    -- the oldest artifact is gone, so it is the one that was rotated away
    have hz : o.name = z := by
      by_contra hne
      have hlookup : w'.volume.lookup o.name = some o.ciphertext := by
        rw [hw', lookup_rotateLocalRetention (isArtifactName_name o), listLocalBackupFiles, hdrop,
          if_neg (by simpa using hne), lookup_createMetadataBackup hv (isArtifactName_name o),
          if_neg hsame]
        exact (hR o.name o.ciphertext (isArtifactName_name o)).mpr ⟨o, by simp [ho], rfl, rfl⟩
      obtain ⟨y, hy, hyname, -⟩ := (hR' o.name o.ciphertext (isArtifactName_name o)).mp hlookup
      rw [rtake_concat_succ] at hy
      exact hnodup.1 (mem_map.mpr ⟨y, hy, hyname⟩)
    have hmem : x.name ∈ v.keys.filter isArtifactName := by
      refine hperm.mem_iff.mpr (mem_map.mpr ⟨x, ?_, rfl⟩)
      rw [ho, cons_append]
      exact mem_cons_of_mem _ hx
    rw [hz]
    refine hleast x.name hmem fun heq => ?_
    exact hnodup.1 (mem_map.mpr ⟨x, hx, heq.trans hz.symm⟩)

/-! ### The recorded run -/

/-- The ids given are below the next one. -/
def IdsBelow (w : BackupWorld) : Prop := ∀ row ∈ w.runs, row.id < w.nextId

/-- A call keeps the ids below the next one. -/
lemma IdsBelow.step {keep : ℕ} (hw : IdsBelow w) (h : runMetadataBackup sha256 keep w c = some w') :
    IdsBelow w' := by
  obtain ⟨v, -, -, hruns, hnext⟩ := exists_of_runMetadataBackup h
  intro row hrow
  rw [hruns] at hrow
  rw [hnext]
  rcases mem_append.mp hrow with hrow | hrow
  · exact (hw row hrow).trans (Nat.lt_succ_self _)
  · obtain rfl := mem_singleton.mp hrow
    exact Nat.lt_succ_self _

/-- The artifact of a run that is where it was recorded is the one that is opened. -/
lemma openCandidate_recorded {id : ℕ} {rest : List (List Char)}
    (h : v.lookup c.name = some c.ciphertext) :
    openCandidate sha256 v (recordedRun sha256 id c) (c.name :: rest) =
      .ok ⟨c.name, c.ciphertext, sha256 c.ciphertext, recordedRun sha256 id c⟩ := by
  simp only [openCandidate, h, recordedRun]
  cases hdigest : sha256 c.ciphertext with
  | nil => rfl
  | cons x rest => exact if_pos rfl

lemma name_ne_nil (c : BackupCall) : c.name ≠ [] := by
  intro hnil
  have hname := isArtifactName_name c
  rw [hnil] at hname
  cases hname

/-- **A call whose artifact is left can be opened.** -/
lemma retrievable_of_lookup {keep : ℕ} (hw : IdsBelow w)
    (h : runMetadataBackup sha256 keep w c = some w')
    (hlookup : w'.volume.lookup c.name = some c.ciphertext) : Retrievable sha256 w' c := by
  obtain ⟨v, -, -, hruns, -⟩ := exists_of_runMetadataBackup h
  refine ⟨hlookup, recordedRun sha256 w.nextId c, by simp [hruns], rfl, rfl, ?_⟩
  have hother : w.runs.find? (fun row => row.id == w.nextId) = none := by
    rw [find?_eq_none]
    intro row hrow
    simpa using (hw row hrow).ne
  have hfind : w'.runs.find? (fun row => row.id == w.nextId) =
      some (recordedRun sha256 w.nextId c) := by
    rw [hruns, find?_append, hother]
    simp [recordedRun]
  have hpath : ((recordedRun sha256 w.nextId c).localPath.filter
      fun path => !path.isEmpty).toList = [c.name] := by
    simp [recordedRun, Option.filter, name_ne_nil]
  rw [openBackupArtifact, show (recordedRun sha256 w.nextId c).id = w.nextId from rfl, hfind]
  dsimp only
  rw [hpath]
  exact openCandidate_recorded hlookup

end Call

/-! ### All calls -/

/-- Calls in seconds of their own, one after the other, are in order. -/
lemma inOrder_of_pairwise_before {keep : ℕ} {calls : List BackupCall}
    (h : calls.Pairwise fun x y => x.createdAt.Before y.createdAt) : InOrder keep calls := by
  rintro bs c cs rfl
  have hpair := (pairwise_append.mp h).1
  have hlast : ∀ x ∈ bs, x.createdAt.Before c.createdAt := fun x hx =>
    (pairwise_append.mp h).2.2 x hx c (by simp)
  refine ⟨fun x hx hsame => ?_, fun o ho => .inr fun x hx => .inl ?_⟩
  · have hbefore := hlast x (mem_of_mem_drop hx)
    rw [hsame.1] at hbefore
    exact c.createdAt.not_before_self hbefore
  · have hsub : List.Sublist (o :: bs.rtake (keep - 1)) bs := by
      rw [← ho]
      exact drop_sublist _ _
    rcases mem_append.mp hx with hx | hx
    · exact (pairwise_cons.mp (hpair.sublist hsub)).1 x hx
    · obtain rfl := mem_singleton.mp hx
      exact hlast o (hsub.subset mem_cons_self)

section Calls

variable {sha256 : List UInt8 → List Char} {keep : ℕ} {w₀ w : BackupWorld}
  {calls : List BackupCall} {c : BackupCall}

/-- No artifact is on the volume. -/
def NoArtifacts (w : BackupWorld) : Prop := ∀ name ∈ w.volume.keys, isArtifactName name = false

/-- **What the calls promise**: after each of them its artifact can be opened, and exactly those
of the last `keep` calls are there. -/
def Kept (sha256 : List UInt8 → List Char) (keep : ℕ) (w₀ : BackupWorld)
    (calls : List BackupCall) : Prop :=
  ∀ bs, bs <+: calls → ∀ u, run (runMetadataBackup sha256 keep) w₀ bs = some u →
    Remain keep u bs ∧ ∀ c, bs.getLast? = some c → Retrievable sha256 u c

/-- Calls are in order when those before the last are, and the last one after them. -/
lemma inOrder_concat : InOrder keep (calls ++ [c]) ↔ InOrder keep calls ∧ Fits keep calls c := by
  constructor
  · intro h
    refine ⟨fun bs x cs hsplit => h bs x (cs ++ [c]) (by simp [hsplit]), h calls c [] rfl⟩
  · rintro ⟨h, hfits⟩ bs x cs hsplit
    rcases eq_nil_or_concat cs with rfl | ⟨ds, y, rfl⟩
    · obtain ⟨rfl, hlast⟩ := append_inj' hsplit rfl
      obtain rfl := singleton_inj.mp hlast
      exact hfits
    · have hsplit' : calls ++ [c] = (bs ++ x :: ds) ++ [y] := by simpa using hsplit
      exact h bs x ds (append_inj' hsplit' rfl).1

lemma InOrder.of_prefix {bs : List BackupCall} (h : InOrder keep calls) (hbs : bs <+: calls) :
    InOrder keep bs := by
  obtain ⟨ds, rfl⟩ := hbs
  exact fun as x cs hsplit => h as x (cs ++ ds) (by simp [hsplit])

/-- Before any call the promise is empty. -/
lemma remain_nil (h₀ : NoArtifacts w₀) : Remain keep w₀ [] := by
  intro name body hname
  rw [rtake_nil]
  constructor
  · intro h
    have hkey : name ∈ w₀.volume.keys :=
      AList.mem_keys.mp (AList.lookup_isSome.mp (by rw [h]; rfl))
    rw [h₀ name hkey] at hname
    cases hname
  · rintro ⟨c, hc, -⟩
    cases hc

lemma mem_rtake_concat (hkeep : 1 ≤ keep) : c ∈ (calls ++ [c]).rtake keep := by
  obtain ⟨k, rfl⟩ := Nat.exists_eq_add_of_le' hkeep
  rw [rtake_concat_succ]
  exact mem_append_right _ (mem_singleton.mpr rfl)

lemma run_concat {t : BackupWorld}
    (h : run (runMetadataBackup sha256 keep) w₀ (calls ++ [c]) = some t) :
    ∃ u, run (runMetadataBackup sha256 keep) w₀ calls = some u ∧
      runMetadataBackup sha256 keep u c = some t := by
  obtain ⟨u, hu, ht⟩ := run_append.mp h
  obtain ⟨t', ht', hnil⟩ := run_cons_eq_some.mp ht
  cases hnil
  exact ⟨u, hu, ht'⟩

lemma idsBelow_of_run (hids : IdsBelow w₀)
    (h : run (runMetadataBackup sha256 keep) w₀ calls = some w) : IdsBelow w :=
  run_induction (fun _ _ _ hs hstep => hs.step hstep) hids h

/-- After calls in order exactly the last artifacts are there, under distinct names. -/
lemma remain_of_inOrder (hkeep : 1 ≤ keep) (h₀ : NoArtifacts w₀)
    (h : run (runMetadataBackup sha256 keep) w₀ calls = some w) (horder : InOrder keep calls) :
    Remain keep w calls ∧ ((calls.rtake keep).map (·.name)).Nodup := by
  obtain ⟨k, rfl⟩ := Nat.exists_eq_add_of_le' hkeep
  induction calls using List.reverseRecOn generalizing w with
  | nil =>
      cases h
      exact ⟨remain_nil h₀, by simp⟩
  | append_singleton calls c ih =>
      obtain ⟨u, hu, hstep⟩ := run_concat h
      obtain ⟨hearlier, hfits⟩ := inOrder_concat.mp horder
      obtain ⟨hR, hN⟩ := ih hu hearlier
      refine ⟨remain_step hR hN hstep hfits, nodup_step hN fun x hx heq => ?_⟩
      exact hfits.1 x hx (sameName_iff.mpr heq)

/-- The promise is kept by calls in order. -/
lemma kept_of_inOrder (hkeep : 1 ≤ keep) (h₀ : NoArtifacts w₀) (hids : IdsBelow w₀)
    (horder : InOrder keep calls) : Kept sha256 keep w₀ calls := by
  intro bs hbs u hu
  have hR := (remain_of_inOrder hkeep h₀ hu (horder.of_prefix hbs)).1
  refine ⟨hR, fun c hc => ?_⟩
  obtain ⟨as, rfl⟩ : ∃ as, bs = as ++ [c] := by
    obtain ⟨as, hlast⟩ := getLast?_eq_some_iff.mp hc
    exact ⟨as, hlast⟩
  obtain ⟨t, ht, hstep⟩ := run_concat hu
  refine retrievable_of_lookup (idsBelow_of_run hids ht) hstep ?_
  exact (hR c.name c.ciphertext (isArtifactName_name c)).mpr
    ⟨c, mem_rtake_concat hkeep, rfl, rfl⟩

/-- Calls that keep the promise, each with a content of its own, are in order. -/
lemma inOrder_of_kept (hkeep : 1 ≤ keep) (h₀ : NoArtifacts w₀)
    (h : run (runMetadataBackup sha256 keep) w₀ calls = some w)
    (hfresh : (calls.map (·.ciphertext)).Nodup) (hkept : Kept sha256 keep w₀ calls) :
    InOrder keep calls := by
  induction calls using List.reverseRecOn generalizing w with
  | nil =>
      intro bs c cs hsplit
      simp at hsplit
  | append_singleton calls c ih =>
      obtain ⟨u, hu, hstep⟩ := run_concat h
      rw [map_append, nodup_append] at hfresh
      have hearlier : Kept sha256 keep w₀ calls := fun bs hbs =>
        hkept bs (hbs.trans (prefix_append calls [c]))
      have horder := ih hu hfresh.1 hearlier
      obtain ⟨hR, hN⟩ := remain_of_inOrder hkeep h₀ hu horder
      have hR' := (hkept (calls ++ [c]) (prefix_refl _) w h).1
      obtain ⟨k, rfl⟩ := Nat.exists_eq_add_of_le' hkeep
      refine inOrder_concat.mpr ⟨horder, fits_of_remain hR hN hstep (fun x hx => ?_) hR'⟩
      have hmem : x ∈ calls := mem_of_mem_drop hx
      exact hfresh.2.2 x.ciphertext (mem_map_of_mem hmem) c.ciphertext (by simp)

/-- **The artifacts of the last calls are kept if the calls are in order, and only then.**  The
second half is about contents that differ, as those of two encryptions do. -/
theorem backups_kept (hkeep : 1 ≤ keep) (h₀ : NoArtifacts w₀) (hids : IdsBelow w₀)
    (h : run (runMetadataBackup sha256 keep) w₀ calls = some w) :
    (InOrder keep calls → Kept sha256 keep w₀ calls) ∧
      ((calls.map (·.ciphertext)).Nodup → Kept sha256 keep w₀ calls → InOrder keep calls) :=
  ⟨kept_of_inOrder hkeep h₀ hids, inOrder_of_kept hkeep h₀ h⟩

end Calls

/-! ### Two runs -/

/-- A second. -/
def noon : Second := ⟨2026, 1, 2, 12, 0, 0, by decide, by decide, by decide, by decide,
  by decide, by decide⟩

/-- The next second. -/
def noonPlusOne : Second := ⟨2026, 1, 2, 12, 0, 1, by decide, by decide, by decide, by decide,
  by decide, by decide⟩

/-- The empty backup volume. -/
def emptyWorld : BackupWorld := ⟨∅, [], 1⟩

lemma noArtifacts_emptyWorld : NoArtifacts emptyWorld := fun _ h => absurd h not_mem_nil

lemma idsBelow_emptyWorld : IdsBelow emptyWorld := fun _ h => absurd h not_mem_nil

/-- A scheduled backup at noon and one by hand a second later. -/
def secondsApart : List BackupCall :=
  [⟨noon, "scheduled".toList, [1]⟩, ⟨noonPlusOne, "manual".toList, [2]⟩]

/-- Backups in two seconds: the second one is kept. -/
theorem backups_kept_secondsApart : Kept Hex.encode 1 emptyWorld secondsApart :=
  (backups_kept (le_refl 1) noArtifacts_emptyWorld idsBelow_emptyWorld rfl).1
    (inOrder_of_pairwise_before (by decide))

/-- A scheduled backup at noon and one by hand in the same second. -/
def sameSecond : List BackupCall :=
  [⟨noon, "scheduled".toList, [1]⟩, ⟨noon, "manual".toList, [2]⟩]

/-- The later one has the smaller name: it is deleted as soon as it is written. -/
theorem not_kept_sameSecond : ¬∀ (keep : ℕ) (w₀ w : BackupWorld) (calls : List BackupCall),
    1 ≤ keep → NoArtifacts w₀ → IdsBelow w₀ →
    (calls.Pairwise fun x y => ¬y.createdAt.Before x.createdAt) →
    run (runMetadataBackup Hex.encode keep) w₀ calls = some w →
    Kept Hex.encode keep w₀ calls := by
  intro hall
  have hkept := hall 1 emptyWorld _ sameSecond (le_refl 1) noArtifacts_emptyWorld
    idsBelow_emptyWorld (by decide) rfl
  have horder := inOrder_of_kept (le_refl 1) noArtifacts_emptyWorld rfl (by decide) hkept
  rcases (horder [⟨noon, "scheduled".toList, [1]⟩] ⟨noon, "manual".toList, [2]⟩ [] rfl).2
    ⟨noon, "scheduled".toList, [1]⟩ rfl with hsame | hbefore
  · exact absurd hsame.2 (by decide)
  · rcases hbefore _ (mem_append_right _ (mem_singleton.mpr rfl)) with hlt | hlt
    · exact noon.not_before_self hlt
    · exact absurd hlt.2 (by decide)

end Backups

end Frostvault
