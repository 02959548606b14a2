import Frostvault.LocalFiles.Sweep

/-!
A recovery among reconciliations (`process_recover` and `_remove_abandoned_restore_files` of
`app/storage.py`).

While a recovery runs others write entries, everything outside the files may change, and the
reconciliation of stale Jobs clears directories.  The recovery is compared with its run among the
same moves without the clearings.

* `Disturbance`, `disturb`, `alone`: the moves;
* `LeavesDownload`: the moves take none of the entries of the recovery;
* `Agrees`: the relation between the two runs, and `follows_processRecover`: every action keeps it;
* `reconciliation_spares_live_iff`: **the reconciliation keeps the files of live recoveries**
  exactly when it clears no directory that holds one, and then the recovery succeeds as it does
  alone;
* `sweep_takes_live_download`: a download that is cleared away.
-/

namespace Frostvault

open Effects Directory

/-! ### The moves -/

/-- What happens between two actions of a recovery. -/
inductive Disturbance
  /-- Somebody writes or removes an entry. -/
  | entry (p : Place) (n : Option FileNode)
  /-- Everything but the files changes, the database included. -/
  | rest (w : LocalWorld)
  /-- The reconciliation of a stale Job clears a directory. -/
  | sweep (dir : ℕ)

/-- One of them. -/
def Disturbance.apply : Disturbance → LocalWorld → LocalWorld
  | .entry p (some n), w => { w with files := w.files.insert p n }
  | .entry p none, w => { w with files := w.files.erase p }
  | .rest u, w => { u with files := w.files }
  | .sweep dir, w => w.sweep dir

/-- One after the other. -/
def disturb : List Disturbance → LocalWorld → LocalWorld
  | [], w => w
  | x :: xs, w => disturb xs (x.apply w)

/-- The moves without the clearings. -/
def alone (xs : List Disturbance) : List Disturbance :=
  xs.filter fun
    | .sweep _ => false
    | _ => true

/-- The entries of a recovery: its destination and its download. -/
def Download.entries (d : Download) : List Place := d.destination :: d.files

/-- A move takes no entry of the recovery: a directory is cleared where none of them is recognised,
unless it cannot be removed, and the path still leads to the destination. -/
def Disturbance.Leaves (job : LocalJob) (d : Download) : Disturbance → LocalWorld → Prop
  | .entry _ _, _ => True
  | .rest u, _ => u.entryPath job.vaultId job.path = some d.destination
  | .sweep dir, w => ∀ p ∈ d.entries, p.dir = dir → isRestoreTemporary p.name = true →
      ∀ n, w.files.lookup p = some n → w.refuses p = true ∨ n.kind = .directory

/-- No move takes one. -/
def LeavesDownload (job : LocalJob) (d : Download) : List Disturbance → LocalWorld → Prop
  | [], _ => True
  | x :: xs, w => x.Leaves job d w ∧ LeavesDownload job d xs (x.apply w)

/-! ### The two runs -/

/-- The worlds differ in the files of others only. -/
structure Agrees (job : LocalJob) (d : Download) (w w' : LocalWorld) : Prop where
  rest : ∃ fs, w' = { w with files := fs }
  path : w.entryPath job.vaultId job.path = some d.destination
  files : ∀ p ∈ d.entries, w'.files.lookup p = w.files.lookup p

variable {vaults : VaultTable} {job : LocalJob} {d : Download} {w w' : LocalWorld} {α : Type}
  {p : Place} {t : RecoverTarget}

lemma agrees_refl (hpath : w.entryPath job.vaultId job.path = some d.destination) :
    Agrees job d w w :=
  ⟨⟨w.files, rfl⟩, hpath, fun _ _ => rfl⟩

/-- A clearing that takes no entry of the recovery. -/
lemma lookup_sweep_of_leaves {dir : ℕ} (h : (Disturbance.sweep dir).Leaves job d w)
    (hp : p ∈ d.entries) : (w.sweep dir).files.lookup p = w.files.lookup p := by
  rw [lookup_sweep]
  cases hn : w.files.lookup p with
  | none => exact ite_self _
  | some n =>
      refine if_neg fun hmem => ?_
      obtain ⟨hdir, hname, hrefuses, hkind⟩ := (mem_abandoned hn).mp hmem
      rcases h p hp hdir hname n hn with hrefused | hdirectory
      · cases hrefused.symm.trans hrefuses
      · exact hkind hdirectory

/-- **The moves keep the relation**, with the clearings on one side only. -/
lemma Agrees.disturb {xs : List Disturbance} (h : Agrees job d w w')
    (hleaves : LeavesDownload job d xs w') :
    Agrees job d (disturb (alone xs) w) (disturb xs w') := by
  induction xs generalizing w w' with
  | nil => exact h
  | cons x xs ih =>
      obtain ⟨hx, hxs⟩ := hleaves
      cases x with
      | entry p n =>
          refine ih ?_ hxs
          obtain ⟨⟨fs, rfl⟩, hpath, hfiles⟩ := h
          cases n with
          | none => exact ⟨⟨_, rfl⟩, hpath, fun q hq => lookup_erase_congr (hfiles q hq) p⟩
          | some n => exact ⟨⟨_, rfl⟩, hpath, fun q hq => lookup_insert_congr (hfiles q hq) p⟩
      | rest u =>
          refine ih ?_ hxs
          exact ⟨⟨_, rfl⟩, hx, h.files⟩
      | sweep dir =>
          refine ih ⟨?_, h.path, fun q hq => ?_⟩ hxs
          · obtain ⟨fs, rfl⟩ := h.rest
            exact ⟨_, rfl⟩
          · exact (lookup_sweep_of_leaves hx hq).trans (h.files q hq)

/-! ### The actions -/

section

variable (h : Agrees job d w w')

include h

/-- What does not depend on the files is the same. -/
lemma follows_of_rest {event : Except LocalError α → LocalEvent}
    {f : LocalWorld → Except LocalError α} (hf : ∀ v fs, f { v with files := fs } = f v) :
    Follows (Agrees job d) Eq (.ask event f) (.ask event f) w w' := by
  refine follows_ask h fun v v' hv a ha => ?_
  obtain ⟨fs, rfl⟩ := hv.rest
  exact ⟨a, (hf v fs).trans ha, rfl⟩

lemma follows_transaction {event : LocalWorld → LocalEvent}
    {f : LocalWorld → Except LocalError (α × LocalWorld)}
    (hf : ∀ v a u, f v = .ok (a, u) → (∃ cat, u = { v with cat := cat }) ∧
      ∀ fs, f { v with files := fs } = .ok (a, { u with files := fs })) :
    Follows (Agrees job d) Eq (.commit event f) (.commit event f) w w' := by
  refine follows_commit h fun v v' hv a u hu => ?_
  obtain ⟨⟨cat, rfl⟩, hfiles⟩ := hf v a u hu
  obtain ⟨⟨fs, rfl⟩, hpath, hsame⟩ := hv
  exact ⟨a, _, hfiles fs, rfl, ⟨fs, rfl⟩, hpath, hsame⟩

lemma follows_ensureJobActive :
    Follows (Agrees job d) Eq (ensureJobActive job) (ensureJobActive job) w w' := by
  refine follows_transaction h fun v a u hu => ?_
  obtain ⟨cat, hcat, hpair⟩ := map_eq_ok.mp hu
  cases hpair
  refine ⟨⟨cat, rfl⟩, fun fs => ?_⟩
  have hsame : renewedClaim { v with files := fs } job = .ok cat := hcat
  rw [hsame]
  rfl

lemma follows_setJob {status : JobStatus} :
    Follows (Agrees job d) Eq (setJob job status) (setJob job status) w w' := by
  refine follows_transaction h fun v a u hu => ?_
  by_cases hinterrupted : v.interrupted = some .leaseLost
  · rw [if_pos hinterrupted] at hu
    cases hu
    exact ⟨⟨v.cat, rfl⟩, fun fs => if_pos hinterrupted⟩
  · rw [if_neg hinterrupted] at hu
    cases hu
    exact ⟨⟨_, rfl⟩, fun fs => if_neg hinterrupted⟩

/-- What is read of an entry of the recovery is the same. -/
lemma follows_entry {f : LocalWorld → Except LocalError α}
    (hf : ∀ v fs, (∀ p ∈ d.entries, fs.lookup p = v.files.lookup p) →
      f { v with files := fs } = f v) :
    Follows (Agrees job d) Eq (look f) (look f) w w' := by
  refine follows_ask h fun v v' hv a ha => ?_
  obtain ⟨⟨fs, rfl⟩, -, hfiles⟩ := hv
  exact ⟨a, (hf v fs hfiles).trans ha, rfl⟩

end

section

variable (hp : p ∈ d.entries)

include hp

section

variable (h : Agrees job d w w')

include h

lemma follows_lexists :
    Follows (Agrees job d) Eq (lexists p) (lexists p) w w' :=
  follows_entry h fun v fs hfs => by rw [hfs p hp]

lemma follows_lstat :
    Follows (Agrees job d) Eq (lstat p) (lstat p) w w' :=
  follows_entry h fun v fs hfs => by rw [hfs p hp]

lemma follows_statUnchanged {previous : FileStat} :
    Follows (Agrees job d) Eq (statUnchanged p previous) (statUnchanged p previous) w w' :=
  follows_entry h fun v fs hfs => by rw [hfs p hp]

lemma follows_hash :
    Follows (Agrees job d) Eq (hashStableRegularFile p) (hashStableRegularFile p) w w' := by
  refine follows_act h fun v v' hv => ?_
  obtain ⟨fs, rfl⟩ := hv.rest
  have hsame : hashStableRegularFile.read p { v with files := fs } =
      hashStableRegularFile.read p v := by
    rw [hashStableRegularFile.read, hashStableRegularFile.read, hv.files p hp]
  rw [hsame]
  cases hashStableRegularFile.read p v with
  | error e => exact trivial
  | ok r => exact ⟨hv, r, rfl, rfl⟩

end

end

lemma follows_require {c : Prop} [Decidable c] {e : LocalError} (h : Agrees job d w w') :
    Follows (Agrees job d) Eq (.require c e : Working Unit) (.require c e) w w' := by
  rw [Prog.require]
  split
  · exact ⟨h, (), rfl, rfl⟩
  · exact trivial

/-- The removal of an entry comes to the same. -/
lemma Agrees.unlinked (h : Agrees job d w w') (hp : p ∈ d.entries) :
    (∀ u, w.unlinked p = .ok u → ∃ u', w'.unlinked p = .ok u' ∧ Agrees job d u u') ∧
      ∀ e, w.unlinked p = .error e → w'.unlinked p = .error e := by
  obtain ⟨⟨fs, rfl⟩, hpath, hfiles⟩ := h
  have hsame : fs.lookup p = w.files.lookup p := hfiles p hp
  rw [LocalWorld.unlinked, LocalWorld.unlinked, hsame]
  cases w.files.lookup p with
  | none =>
      refine ⟨fun _ hu => ?_, fun _ he => he⟩
      cases hu
  | some n =>
      by_cases hno : w.refuses p ∨ n.kind = .directory
      · simp only [if_pos hno]
        refine ⟨fun _ hu => ?_, fun _ he => he⟩
        cases hu
      · simp only [if_neg hno]
        constructor
        · intro u hu
          cases hu
          exact ⟨_, rfl, ⟨_, rfl⟩, hpath, fun q hq => lookup_erase_congr (hfiles q hq) p⟩
        · intro _ he
          cases he

lemma follows_unlinkMissingOk (hp : p ∈ d.entries) (h : Agrees job d w w') :
    Follows (Agrees job d) Eq (unlinkMissingOk p) (unlinkMissingOk p) w w' := by
  refine follows_commit h fun v v' hv a u hu => ?_
  obtain ⟨hok, herror⟩ := hv.unlinked hp
  cases hunlinked : v.unlinked p with
  | ok v₁ =>
      obtain ⟨v₁', hv₁', hagrees⟩ := hok v₁ hunlinked
      rw [hunlinked] at hu
      cases hu
      exact ⟨(), v₁', by rw [hv₁'], rfl, hagrees⟩
  | error e =>
      rw [hunlinked] at hu
      cases e with
      | notFound =>
          cases hu
          exact ⟨(), v', by rw [herror _ hunlinked], rfl, hv⟩
      | cancelled | leaseLost | refused _ | occupied | os | provider => cases hu

/-- A rename between entries of the recovery. -/
lemma follows_rename {s q : Place} (hs : s ∈ d.entries) (hq : q ∈ d.entries)
    (h : Agrees job d w w') : Follows (Agrees job d) Eq (rename s q) (rename s q) w w' := by
  refine follows_commit h fun v v' hv a u hu => ?_
  obtain ⟨⟨fs, rfl⟩, hpath, hfiles⟩ := hv
  have hsource : fs.lookup s = v.files.lookup s := hfiles s hs
  have htarget : fs.lookup q = v.files.lookup q := hfiles q hq
  obtain ⟨v₁, hrenamed, hv₁⟩ := map_eq_ok.mp hu
  cases hv₁
  obtain ⟨n, hn, hrefuses, hkind, -, -⟩ := lookup_renamed hrenamed
  have hno : ¬(v.refuses q ∨ (v.files.lookup q).any (fun n => n.kind = .directory)) := by
    rw [hrefuses, hkind]
    simp
  have hfirst : u = { v with files := move v.files s q } := by
    rw [LocalWorld.renamed, hn] at hrenamed
    dsimp only at hrenamed
    rw [if_neg hno] at hrenamed
    exact (Except.ok.inj hrenamed).symm
  have hsecond : LocalWorld.renamed { v with files := fs } s q =
      .ok { v with files := move fs s q } := by
    rw [LocalWorld.renamed]
    dsimp only
    rw [hsource, hn, htarget]
    dsimp only
    rw [if_neg hno]
  rw [hsecond, hfirst]
  refine ⟨(), _, rfl, rfl, ⟨_, rfl⟩, hpath, fun r hr => ?_⟩
  rw [lookup_move (hsource.trans hn), lookup_move hn]
  split
  · rfl
  · split
    · rfl
    · exact hfiles r hr

lemma follows_startDownload (h : Agrees job d w w') :
    Follows (Agrees job d) Eq (startDownload d) (startDownload d) w w' := by
  refine follows_commit h fun v v' hv a u hu => ?_
  obtain ⟨⟨fs, rfl⟩, hpath, hfiles⟩ := hv
  cases hfetched : v.fetched with
  | error e =>
      rw [hfetched] at hu
      cases hu
  | ok n =>
      rw [hfetched] at hu
      cases hu
      exact ⟨(), _, rfl, rfl, ⟨_, rfl⟩, hpath, fun q hq => lookup_insert_congr (hfiles q hq) _⟩

lemma follows_publish {st : FileStat} (h : Agrees job d w w') :
    Follows (Agrees job d) Eq (publish vaults job st t) (publish vaults job st t) w w' := by
  refine follows_transaction h fun v a u hu => ?_
  obtain ⟨cat, hcat, hpair⟩ := map_eq_ok.mp hu
  cases hpair
  refine ⟨⟨cat, rfl⟩, fun fs => ?_⟩
  have hsame : publish.published vaults job st t { v with files := fs } = .ok cat := hcat
  rw [hsame]
  rfl

/-! ### The recovery -/

lemma Download.destination_mem (d : Download) : d.destination ∈ d.entries := List.mem_cons_self

lemma Download.temporary_mem (d : Download) : d.temporary ∈ d.entries :=
  List.mem_cons_of_mem _ List.mem_cons_self

lemma Download.filling_mem (d : Download) : d.filling ∈ d.entries :=
  List.mem_cons_of_mem _ (List.mem_cons_of_mem _ List.mem_cons_self)

lemma follows_download (h : Agrees job d w w') :
    Follows (Agrees job d) Eq (download job d) (download job d) w w' := by
  refine follows_bind (follows_ensureJobActive h) fun _ _ _ w w' h => ?_
  refine follows_bind (P := Eq) (follows_handle (follows_bind (follows_startDownload h)
    fun _ _ _ w w' h => follows_rename d.filling_mem d.temporary_mem h) fun e =>
      Prog.Fails.bind fun _ => trivial) fun _ _ _ w w' h => ?_
  refine follows_bind (follows_ensureJobActive h) fun _ _ _ w w' h => ?_
  refine follows_bind (follows_lstat d.temporary_mem h) fun n n' hn w w' h => ?_
  obtain rfl := hn
  exact follows_require h

lemma follows_publishTemporary {st : FileStat} (h : Agrees job d w w') :
    Follows (Agrees job d) Eq (publishTemporary vaults job d st t)
      (publishTemporary vaults job d st t) w w' := by
  refine follows_bind (follows_ensureJobActive h) fun _ _ _ w w' h => ?_
  refine follows_bind (follows_statUnchanged d.temporary_mem h) fun u u' hu w w' h => ?_
  obtain rfl := hu
  refine follows_bind (follows_require h) fun _ _ _ w w' h => ?_
  refine follows_bind (follows_lexists d.destination_mem h) fun o o' ho w w' h => ?_
  obtain rfl := ho
  refine follows_bind (follows_require h) fun _ _ _ w w' h => ?_
  refine follows_bind (follows_rename d.temporary_mem d.destination_mem h) fun _ _ _ w w' h => ?_
  refine follows_bind (follows_lstat d.destination_mem h) fun _ _ _ w w' h => ?_
  exact follows_publish h

lemma follows_recoverInto (h : Agrees job d w w') :
    Follows (Agrees job d) Eq (recoverInto vaults job d t) (recoverInto vaults job d t) w w' := by
  refine follows_bind (follows_download h) fun _ _ _ w w' h => ?_
  refine follows_bind (follows_ensureJobActive h) fun _ _ _ w w' h => ?_
  refine follows_bind (follows_setJob h) fun _ _ _ w w' h => ?_
  refine follows_bind (follows_hash d.temporary_mem h) fun r r' hr w w' h => ?_
  obtain rfl := hr
  refine follows_bind (follows_require h) fun _ _ _ w w' h => ?_
  exact follows_publishTemporary h

/-- **The two runs of a recovery** go the same way where the first one succeeds. -/
theorem follows_processRecover (vaults : VaultTable) (n : Naming)
    (h : Agrees job (n.download job p) w w') :
    Follows (Agrees job (n.download job p)) Eq (processRecover vaults job n)
      (processRecover vaults job n) w w' := by
  refine follows_bind (follows_ensureJobActive h) fun _ _ _ w w' h => ?_
  refine follows_bind (follows_of_rest h fun _ _ => rfl) fun t t' ht w w' h => ?_
  obtain rfl := ht
  refine follows_bind (P := Eq) (follows_of_rest h fun _ _ => rfl) fun o o' ho w w' h => ?_
  obtain rfl := ho
  cases o with
  | some wait =>
      refine follows_bind (follows_setJob h) fun _ _ _ w w' h => ?_
      exact ⟨h, (), rfl, rfl⟩
  | none =>
      have hlocate : Follows (Agrees job (n.download job p)) (fun q q' => q = p ∧ q' = p)
          (locate job.vaultId job.path) (locate job.vaultId job.path) w w' := by
        refine follows_ask h fun v v' hv q hq => ?_
        obtain ⟨fs, rfl⟩ := hv.rest
        have hp : v.entryPath job.vaultId job.path = some p := hv.path
        rw [hp] at hq ⊢
        exact ⟨p, rfl, (Except.ok.inj hq).symm, rfl⟩
      refine follows_bind hlocate fun q q' hq w w' h => ?_
      obtain ⟨rfl, rfl⟩ := hq
      refine follows_bind (follows_setJob h) fun _ _ _ w w' h => ?_
      refine follows_bind (follows_ensuring (follows_recoverInto h) fun w w' h => ?_)
        fun _ _ _ w w' h => ?_
      · exact (follows_unlinkMissingOk (Download.temporary_mem _) h).mono fun _ _ _ => trivial
      · refine follows_bind (follows_setJob h) fun _ _ _ w w' h => ?_
        exact ⟨h, (), rfl, rfl⟩

/-- **Reconciliation and live recoveries.**  In a run of the reconciliation, whatever the others do,
every file of a live recovery stays, exactly when no directory that is cleared holds one that is
recognised and can be removed; and a recovery whose entries no clearing takes succeeds where it does
without the clearings. -/
theorem reconciliation_spares_live_iff (vaults : VaultTable) (answers : Postconditions) :
    (∀ (χ : Type) (env : χ → LocalWorld → LocalWorld) (w : LocalWorld) (xs : List χ),
      SparesLive ((reconcileInterruptedJobs vaults answers).steps env w xs) ↔
        ClearOfLive ((reconcileInterruptedJobs vaults answers).steps env w xs)) ∧
    ∀ (job : LocalJob) (n : Naming) (w : LocalWorld) (p : Place) (xs : List (List Disturbance)),
      w.entryPath job.vaultId job.path = some p →
      (processRecover vaults job n).MovesMeet disturb (LeavesDownload job (n.download job p)) w xs →
      ((processRecover vaults job n).play disturb w (xs.map alone)).ending = .returned () →
      ((processRecover vaults job n).play disturb w xs).ending = .returned () := by
  refine ⟨fun _ env w xs => sparesLive_iff env w xs, fun job n w p xs hpath hmoves halone => ?_⟩
  have hagrees : Agrees job (n.download job p) w w := agrees_refl hpath
  rw [Prog.play_map] at halone
  obtain ⟨_, hreturned, -⟩ := (follows_processRecover vaults n hagrees).play
    (fun x v v' hv hleaves => hv.disturb hleaves) hmoves halone
  exact hreturned

/-! ### A download that is cleared away -/

/-- The live recovery of `a`, and a stale one of `b`. -/
def twoRecoveries : Catalog :=
  { recoverableCatalog with
    jobs := [{ claimedRecovery 1 ['a'] with status := .downloading },
      { claimedRecovery 2 ['b'] with
        status := .downloading
        claimExpiresAt := some 0 }]
    jobIds_nodup := by decide }

/-- The download of the live recovery. -/
def liveDownload : Download := zeros.download ⟨1, 0, 1, ['a'], 7⟩ ⟨0, ['a']⟩

/-- Its temporary is there. -/
def downloading : LocalWorld :=
  { emptyVolume twoRecoveries with
    files := AList.insert liveDownload.temporary archivedBytes ∅
    downloads := [liveDownload] }

/-- Nobody moves before the first ten actions; then a stale Job in the same directory is
reconciled. -/
def clearedMeanwhile : List (List Disturbance) :=
  List.replicate 10 [] ++ [.sweep 0] :: List.replicate 12 []

/-- **The reconciliation of a stale recovery takes the download of a live one**, and that recovery
fails where it succeeds alone. -/
theorem sweep_takes_live_download :
    ¬SparesLive ((reconcileInterruptedJobs openVault ⟨fun _ => none, fun _ => .failed⟩).steps
        (fun (_ : Unit) w => w) downloading (List.replicate 8 ())) ∧
      ((processRecover openVault ⟨1, 0, 1, ['a'], 7⟩ zeros).play disturb
        (emptyVolume twoRecoveries) (clearedMeanwhile.map alone)).ending = .returned () ∧
      ((processRecover openVault ⟨1, 0, 1, ['a'], 7⟩ zeros).play disturb
        (emptyVolume twoRecoveries) clearedMeanwhile).ending = .raised .notFound := by
  refine ⟨fun hspares => ?_, by decide, by decide⟩
  have hswept : ((reconcileInterruptedJobs openVault ⟨fun _ => none, fun _ => .failed⟩).steps
      (fun (_ : Unit) w => w) downloading (List.replicate 8 ()))[4]? =
        some ⟨.swept 0, downloading, downloading.sweep 0⟩ := rfl
  have hlive : LiveRecovery downloading 1 := ⟨_, rfl, rfl, rfl, rfl, 100, rfl, by decide⟩
  have hkept := hspares _ (List.mem_of_getElem? hswept) liveDownload.temporary
    ⟨liveDownload, List.mem_cons_self, hlive, List.mem_cons_self⟩ archivedBytes (by decide)
  revert hkept
  decide

end Frostvault
