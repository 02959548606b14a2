import Frostvault.LocalFiles.Publication

/-!
A recovery overwrites nothing, and reports what it recovered (`process_recover` and
`_reconcile_recover_job` of `app/storage.py`).

Anybody may create, replace or remove entries at the destination between two actions of the
worker, or of the restart that follows it; a run may end after any of its actions.  What an action
may do is said once (`RecoveryLaw`), as an equivalence with a condition on the world before it.

* `OverwritesNothing`, `ReportsRecovered`: the property of a run;
* `SparesForeign`, `Unheld`: its condition;
* `meets_processRecover`, `meets_reconcileRecover`: every action of the two programs is lawful;
* `recovery_safe_iff`: **the property holds of a run and of the restart after it** exactly when the
  condition does;
* `rename_replaces_foreign_entry`: an entry created after the check is replaced.
-/

namespace Frostvault

open List Effects Directory

/-! ### The property and its condition -/

/-- An action of a worker in a run. -/
abbrev LocalStep := Step LocalWorld LocalEvent

/-- The version an action records. -/
def LocalEvent.records : LocalEvent → Option RecoverTarget
  | .recorded t | .adopted _ t _ => some t
  | _ => none

/-- The action completes the Job. -/
def LocalEvent.completes (id : JobId) : LocalEvent → Bool
  | .statusSet j .completed | .reconciled j .completed _ | .adopted j _ _ => j = id
  | _ => false

/-- What somebody else put at the place stays there. -/
def LeavesForeign (p : Place) (w w' : LocalWorld) : Prop :=
  ∀ n, w.files.lookup p = some n → n.author = .other → w'.files.lookup p = some n

/-- The action finds nothing at the place that it would replace or remove: at a rename onto it
there is no entry of somebody else, or the rename fails, and a restart removes no such entry
because of its name. -/
def Spared (p : Place) (ev : LocalEvent) (w : LocalWorld) : Prop :=
  ∀ n, w.files.lookup p = some n → n.author = .other → match ev with
    | .moved s q => q = p → w.files.lookup s = none ∨ w.refuses p = true ∨ n.kind = .directory ∨
        w.files.lookup s = some n
    | .swept dir => dir = p.dir → isRestoreTemporary p.name = true →
        w.refuses p = true ∨ n.kind = .directory
    | _ => True

/-- The action finds the catalog such that what it records is matched to its version. -/
def Recordable (vaults : VaultTable) (job : LocalJob) (at_ : Stamp) (ev : LocalEvent)
    (w : LocalWorld) : Prop :=
  match ev with
  | .recorded t => ¬HeldForTwin w.cat job.vaultId job.path t
  | .adopted _ t st => Adoptable vaults (reconcileJobTransition w.cat job.id .completed at_)
      job.vaultId job.path st t
  | _ => True

/-- The digest is that of the Archive Version. -/
def RecoverTarget.Pinned (t : RecoverTarget) (cat : Catalog) : Prop :=
  ∃ v, cat.version? t.versionId = some v ∧ v.plaintextSha256 = some t.sha256

/-- The bytes that were hashed are those of the destination, or of the file renamed to it. -/
def HashedFor (h : List LocalEvent) (sha : Digest) : Prop :=
  ∃ p q, .hashed p sha ∈ h ∧ .located q ∈ h ∧ (p = q ∨ .moved p q ∈ h)

/-- In a run: no entry of somebody else at the destination is replaced or removed. -/
def OverwritesNothing (ss : List LocalStep) : Prop :=
  ∀ before s after, ss = before ++ s :: after → ∀ p, .located p ∈ before.map Step.event →
    LeavesForeign p s.before s.after

/-- In a run: when the Job is completed its version was read, the bytes that were hashed are the
version's, and the Local Copy was recorded present and matched to the version in one transaction. -/
def ReportsRecovered (job : LocalJob) (ss : List LocalStep) : Prop :=
  ∀ before s after, ss = before ++ s :: after → s.event.completes job.id = true →
    (∃ r ∈ before ++ [s], r.event.records.isSome) ∧
    ∀ r ∈ before ++ [s], ∀ t, r.event.records = some t →
      (∃ q ∈ before, q.event = .targeted t ∧ t.Pinned q.before.cat) ∧
      HashedFor (before.map Step.event) t.sha256 ∧
      RecordedAs r.after.cat job.vaultId job.path t.versionId

/-- In a run: every action spares the destination. -/
def SparesForeign (ss : List LocalStep) : Prop :=
  ∀ before s after, ss = before ++ s :: after → ∀ p, .located p ∈ before.map Step.event →
    Spared p s.event s.before

/-- In a run: what a completed Job recorded was not held back. -/
def Unheld (vaults : VaultTable) (job : LocalJob) (at_ : Stamp) (ss : List LocalStep) : Prop :=
  ∀ before s after, ss = before ++ s :: after → s.event.completes job.id = true →
    ∀ r ∈ before ++ [s], Recordable vaults job at_ r.event r.before

/-! ### The law of an action -/

/-- **What an action does**, after the history `h`. -/
structure RecoveryLaw (vaults : VaultTable) (job : LocalJob) (at_ : Stamp) (h : List LocalEvent)
    (ev : LocalEvent) (w w' : LocalWorld) : Prop where
  leaves : ∀ p, .located p ∈ h → (LeavesForeign p w w' ↔ Spared p ev w)
  targeted : ∀ t, ev = .targeted t → t.Pinned w.cat
  records : ∀ t, ev.records = some t → .targeted t ∈ h ∧ HashedFor h t.sha256 ∧
    (RecordedAs w'.cat job.vaultId job.path t.versionId ↔ Recordable vaults job at_ ev w)
  completes : ev.completes job.id = true → ev.records.isSome ∨ ∃ e ∈ h, e.records.isSome

variable {vaults : VaultTable} {job : LocalJob} {at_ : Stamp} {h : List LocalEvent}
  {ev : LocalEvent} {w w' : LocalWorld}

lemma HashedFor.mono {h' : List LocalEvent} {sha : Digest} (hh : HashedFor h sha) (hsub : h ⊆ h') :
    HashedFor h' sha := by
  obtain ⟨p, q, hp, hq, hpq⟩ := hh
  exact ⟨p, q, hsub hp, hsub hq, hpq.imp_right fun hm => hsub hm⟩

lemma recordable_of_not_records (hev : ev.records = none) : Recordable vaults job at_ ev w := by
  cases ev <;> first | exact trivial | cases hev

/-- **A run of lawful actions** has the property exactly when it meets the condition. -/
theorem safe_iff_of_law {ss : List LocalStep}
    (hlaw : ∀ before s after, ss = before ++ s :: after →
      RecoveryLaw vaults job at_ (before.map Step.event) s.event s.before s.after) :
    OverwritesNothing ss ∧ ReportsRecovered job ss ↔
      SparesForeign ss ∧ Unheld vaults job at_ ss := by
  refine and_congr ?_ ?_
  · refine forall_congr' fun before => forall_congr' fun s => forall_congr' fun after => ?_
    exact forall_congr' fun hss => forall₂_congr fun p hp => (hlaw before s after hss).leaves p hp
  refine forall_congr' fun before => forall_congr' fun s => forall_congr' fun after => ?_
  refine forall_congr' fun hss => forall_congr' fun hcompletes => ?_
  -- the law of an action up to the one that completes
  have hup : ∀ r ∈ before ++ [s], ∃ b c, before ++ [s] = b ++ r :: c ∧ b ⊆ before ∧
      RecoveryLaw vaults job at_ (b.map Step.event) r.event r.before r.after := by
    intro r hr
    obtain ⟨b, c, hbc⟩ := append_of_mem hr
    have hss' : ss = b ++ r :: (c ++ after) := by
      rw [hss, ← singleton_append, ← append_assoc, hbc]
      simp
    refine ⟨b, c, hbc, ?_, hlaw b r _ hss'⟩
    rcases eq_nil_or_concat c with rfl | ⟨c', x, rfl⟩
    · exact (append_inj_left' hbc rfl) ▸ List.Subset.refl _
    · have hbefore : before = b ++ r :: c' := by
        have hbc' : before ++ [s] = (b ++ r :: c') ++ [x] := by simpa using hbc
        exact append_inj_left' hbc' rfl
      rw [hbefore]
      exact subset_append_left _ _
  constructor
  · rintro ⟨-, hall⟩ r hr
    obtain ⟨b, c, -, -, hr'⟩ := hup r hr
    cases hrec : r.event.records with
    | none => exact recordable_of_not_records hrec
    | some t => exact (hr'.records t hrec).2.2.mp (hall r hr t hrec).2.2
  · intro hunheld
    constructor
    · rcases (hlaw before s after hss).completes hcompletes with hs | ⟨e, he, hsome⟩
      · exact ⟨s, mem_append_right _ mem_cons_self, hs⟩
      · obtain ⟨r, hr, rfl⟩ := mem_map.mp he
        exact ⟨r, mem_append_left _ hr, hsome⟩
    · intro r hr t hrec
      obtain ⟨b, c, hbc, hsub, hr'⟩ := hup r hr
      obtain ⟨htarget, hhashed, hiff⟩ := hr'.records t hrec
      obtain ⟨q, hq, hqt⟩ := mem_map.mp htarget
      obtain ⟨b', c', -, -, hq'⟩ := hup q (mem_append_left _ (hsub hq))
      exact ⟨⟨q, hsub hq, hqt, hq'.targeted t hqt⟩,
        hhashed.mono (map_subset _ hsub), hiff.mpr (hunheld r hr)⟩

/-! ### Actions that leave the destination -/

/-- An action that leaves the located entries, reads no version and records nothing is lawful. -/
lemma law_of_left (hfiles : ∀ p, .located p ∈ h → w'.files.lookup p = w.files.lookup p)
    (hspared : ∀ p, .located p ∈ h → Spared p ev w) (htargeted : ∀ t, ev ≠ .targeted t)
    (hrecords : ev.records = none) (hcompletes : ev.completes job.id →
      ∃ e ∈ h, e.records.isSome) : RecoveryLaw vaults job at_ h ev w w' where
  leaves p hp := ⟨fun _ => hspared p hp, fun _ _ hn _ => (hfiles p hp).trans hn⟩
  targeted t ht := (htargeted t ht).elim
  records _ ht := nomatch hrecords.symm.trans ht
  completes hc := .inr (hcompletes hc)

lemma law_checked (hfiles : w'.files = w.files) : RecoveryLaw vaults job at_ h .checked w w' :=
  law_of_left (fun _ _ => by rw [hfiles]) (fun _ _ _ _ _ => trivial) (fun _ h => nomatch h) rfl
    fun h => nomatch h

lemma law_statusSet {status : JobStatus} (hfiles : w'.files = w.files)
    (hdone : status = .completed → ∃ e ∈ h, e.records.isSome) :
    RecoveryLaw vaults job at_ h (.statusSet job.id status) w w' := by
  refine law_of_left (fun _ _ => by rw [hfiles]) (fun _ _ _ _ _ => trivial) (fun _ h => nomatch h)
    rfl fun hc => hdone ?_
  cases status <;> first | rfl | cases hc

variable {Q : Unit → List LocalEvent → Prop} {R : LocalError → List LocalEvent → Prop}

lemma meets_look {α : Type} {Q : α → List LocalEvent → Prop} {f : LocalWorld → Except LocalError α}
    (hQ : ∀ a, Q a (h ++ [.checked])) (hR : ∀ e, R e (h ++ [.checked])) :
    Meets (RecoveryLaw vaults job at_) Q R (look f) h :=
  meets_ask (fun _ => law_checked rfl) (fun _ a _ => hQ a) fun _ e _ => hR e

lemma meets_ensureJobActive (hQ : Q () (h ++ [.checked])) (hR : ∀ e, R e (h ++ [.checked])) :
    Meets (RecoveryLaw vaults job at_) Q R (ensureJobActive job) h := by
  refine meets_commit (fun w a w' hw => ?_) fun w e _ => ⟨law_checked rfl, hR e⟩
  obtain ⟨cat, -, hcat⟩ := map_eq_ok.mp hw
  cases hcat
  exact ⟨law_checked rfl, hQ⟩

lemma meets_setJob {Q : Bool → List LocalEvent → Prop} {status : JobStatus}
    (hdone : status = .completed → ∃ e ∈ h, e.records.isSome)
    (hQ : ∀ b, Q b (h ++ [.statusSet job.id status])) :
    Meets (RecoveryLaw vaults job at_) Q R (setJob job status) h := by
  refine meets_commit (fun w a w' hw => ⟨law_statusSet ?_ hdone, hQ a⟩) fun w e hw => ?_
  · split at hw <;> cases hw <;> rfl
  · split at hw <;> cases hw

lemma meets_hash {Q : Digest × FileStat → List LocalEvent → Prop} {p : Place}
    (hQ : ∀ r, Q r (h ++ [.hashed p r.1])) (hR : ∀ e, R e (h ++ [.checked])) :
    Meets (RecoveryLaw vaults job at_) Q R (hashStableRegularFile p) h := by
  refine meets_act fun w => ?_
  cases hread : hashStableRegularFile.read p w with
  | error e => exact ⟨law_checked rfl, meets_raise (hR e)⟩
  | ok r =>
      have hlaw : RecoveryLaw vaults job at_ h (.hashed p r.1) w w :=
        law_of_left (fun _ _ => rfl) (fun _ _ _ _ _ => trivial) (fun _ h => nomatch h) rfl
          fun h => nomatch h
      exact ⟨hlaw, meets_ret (hQ r)⟩

/-! ### The download -/

/-- What the history of a recovery says: the destination, and the version. -/
structure Recovering (p : Place) (t : RecoverTarget) (h : List LocalEvent) : Prop where
  located : ∀ q, .located q ∈ h ↔ q = p
  targeted : .targeted t ∈ h

variable {t : RecoverTarget} {p : Place} {d : Download}

lemma Recovering.snoc (hr : Recovering p t h) (hev : ∀ q, ev ≠ .located q) :
    Recovering p t (h ++ [ev]) where
  located q := by
    rw [mem_append, mem_singleton, hr.located, or_iff_left fun hq => hev q hq.symm]
  targeted := mem_append_left _ hr.targeted

lemma Recovering.checked (hr : Recovering p t h) : Recovering p t (h ++ [.checked]) :=
  hr.snoc fun _ h => nomatch h

variable {cat : Catalog} {s : Place} {st : FileStat}

lemma law_moved {q : Place} (hr : Recovering p t h) (hs : p ≠ s) (hq : p ≠ q)
    (hfiles : ∀ r, r ≠ s → r ≠ q → w'.files.lookup r = w.files.lookup r) :
    RecoveryLaw vaults job at_ h (.moved s q) w w' := by
  refine law_of_left (fun r hloc => ?_) (fun r hloc _ _ _ => ?_) (fun _ h => nomatch h) rfl
    fun h => nomatch h
  · obtain rfl := (hr.located r).mp hloc
    exact hfiles r hs hq
  · obtain rfl := (hr.located r).mp hloc
    exact fun heq => (hq heq.symm).elim

lemma lookup_renamed {q : Place} (hw : w.renamed s q = .ok w') :
    ∃ n, w.files.lookup s = some n ∧ w.refuses q = false ∧
      (w.files.lookup q).any (fun n => n.kind = .directory) = false ∧ w'.cat = w.cat ∧
      ∀ r, w'.files.lookup r = if r = q then some n else if r = s then none
        else w.files.lookup r := by
  rw [LocalWorld.renamed] at hw
  split at hw
  · cases hw
  · rename_i n hn
    split at hw
    · cases hw
    · rename_i hno
      cases hw
      push Not at hno
      exact ⟨n, hn, by simpa using hno.1, by simpa using hno.2, rfl, lookup_move hn⟩

lemma meets_rename_aside {q : Place} (hr : Recovering p t h) (hs : p ≠ s) (hq : p ≠ q)
    (hQ : Q () (h ++ [.moved s q])) (hR : ∀ e, R e (h ++ [.moved s q])) :
    Meets (RecoveryLaw vaults job at_) Q R (rename s q) h := by
  refine meets_commit (fun w a w' hw => ⟨law_moved hr hs hq fun r hrs hrq => ?_, hQ⟩)
    fun w e _ => ⟨law_moved hr hs hq fun _ _ _ => rfl, hR e⟩
  obtain ⟨w'', hrename, hw''⟩ := map_eq_ok.mp hw
  cases hw''
  obtain ⟨n, -, -, -, -, hlookup⟩ := lookup_renamed hrename
  rw [hlookup, if_neg hrq, if_neg hrs]

lemma meets_unlinkMissingOk {q : Place} (hr : Recovering p t h) (hq : p ≠ q)
    (hQ : Q () (h ++ [.removed q])) (hR : ∀ e, R e (h ++ [.removed q])) :
    Meets (RecoveryLaw vaults job at_) Q R (unlinkMissingOk q) h := by
  have hlaw {w w' : LocalWorld} (hfiles : ∀ r, r ≠ q → w'.files.lookup r = w.files.lookup r) :
      RecoveryLaw vaults job at_ h (.removed q) w w' := by
    refine law_of_left (fun r hloc => hfiles r ?_) (fun _ _ _ _ _ => trivial)
      (fun _ h => nomatch h) rfl fun h => nomatch h
    exact (hr.located r).mp hloc ▸ hq
  refine meets_commit (fun w a w' hw => ⟨hlaw fun r hrq => ?_, hQ⟩)
    fun w e _ => ⟨hlaw fun _ _ => rfl, hR e⟩
  rw [LocalWorld.unlinked] at hw
  split at hw
  · rename_i w'' hunlinked
    cases hw
    split at hunlinked
    · cases hunlinked
    · split at hunlinked
      · cases hunlinked
      · cases hunlinked
        exact AList.lookup_erase_ne hrq
  · cases hw
    rfl
  · cases hw

lemma meets_startDownload (hr : Recovering d.destination t h)
    (hQ : Q () (h ++ [.created d.filling])) (hR : ∀ e, R e (h ++ [.created d.filling])) :
    Meets (RecoveryLaw vaults job at_) Q R (startDownload d) h := by
  have hlaw {w w' : LocalWorld}
      (hfiles : ∀ r, r ≠ d.filling → w'.files.lookup r = w.files.lookup r) :
      RecoveryLaw vaults job at_ h (.created d.filling) w w' := by
    refine law_of_left (fun r hloc => hfiles r ?_) (fun _ _ _ _ _ => trivial)
      (fun _ h => nomatch h) rfl fun h => nomatch h
    exact (hr.located r).mp hloc ▸ d.filling_ne
  refine meets_commit (fun w a w' hw => ⟨hlaw fun r hrq => ?_, hQ⟩)
    fun w e _ => ⟨hlaw fun _ _ => rfl, hR e⟩
  split at hw
  · cases hw
  · cases hw
    exact AList.lookup_insert_ne hrq

/-- **A download** touches its own files. -/
lemma meets_download (hr : Recovering d.destination t h) :
    Meets (RecoveryLaw vaults job at_) (fun _ h => Recovering d.destination t h)
      (fun _ h => Recovering d.destination t h) (download job d) h := by
  have hmoved {h : List LocalEvent} (hr : Recovering d.destination t h) (s q : Place) :
      Recovering d.destination t (h ++ [.moved s q]) := hr.snoc fun _ h => nomatch h
  have hremoved {h : List LocalEvent} (hr : Recovering d.destination t h) (q : Place) :
      Recovering d.destination t (h ++ [.removed q]) := hr.snoc fun _ h => nomatch h
  have hcreated : Recovering d.destination t (h ++ [.checked] ++ [.created d.filling]) :=
    hr.checked.snoc fun _ h => nomatch h
  have hfile : Meets (RecoveryLaw vaults job at_) (fun _ h => Recovering d.destination t h)
      (fun _ h => Recovering d.destination t h) (downloadFile d) (h ++ [.checked]) := by
    refine Meets.bind (meets_startDownload hr.checked (Q := fun _ h => Recovering d.destination t h)
      hcreated fun _ => hcreated) fun _ h₂ h₂r => ?_
    exact meets_rename_aside h₂r d.filling_ne d.temporary_ne (hmoved h₂r _ _)
      fun _ => hmoved h₂r _ _
  refine Meets.bind (meets_ensureJobActive (Q := fun _ h' => h' = h ++ [.checked]) rfl
    fun _ => hr.checked) fun _ h₁ h₁eq => ?_
  subst h₁eq
  refine Meets.bind (Q := fun _ h => Recovering d.destination t h) (hfile.handle
    fun e h₂ h₂r => ?_) fun _ h₂ h₂r => ?_
  · refine Meets.bind (meets_unlinkMissingOk (Q := fun _ h => Recovering d.destination t h) h₂r
      d.temporary_ne (hremoved h₂r _) fun _ => hremoved h₂r _) fun _ _ h₃r => ?_
    exact meets_raise h₃r
  refine Meets.bind (meets_ensureJobActive (Q := fun _ h => Recovering d.destination t h)
    h₂r.checked fun _ => h₂r.checked) fun _ h₃ h₃r => ?_
  refine Meets.bind (meets_look (Q := fun _ h => Recovering d.destination t h)
    (fun _ => h₃r.checked) fun _ => h₃r.checked) fun n h₄ h₄r => ?_
  exact meets_require (fun _ => h₄r) fun _ => h₄r

/-! ### The publication -/

lemma renewedClaim_files (hcat : renewedClaim w job = .ok cat) :
    cat.files = w.cat.files := by
  rw [renewedClaim] at hcat
  split at hcat
  · cases hcat
  · split at hcat
    · cases hcat
      rfl
    · cases hcat

lemma published_spec (hcat : publish.published vaults job st t w = .ok cat) :
    RecordedAs cat job.vaultId job.path t.versionId ↔
      ¬HeldForTwin w.cat job.vaultId job.path t := by
  rw [publish.published] at hcat
  cases hrenewed : renewedClaim w job with
  | error e =>
      rw [hrenewed] at hcat
      cases hcat
  | ok cat₁ =>
      rw [hrenewed] at hcat
      dsimp only [bind, Except.bind] at hcat
      cases hrecord : recordRecovered vaults cat₁ job.vaultId job.path st t w.now none with
      | none =>
          rw [hrecord] at hcat
          cases hcat
      | some cat₂ =>
          rw [hrecord] at hcat
          cases hcat
          rw [recordedAs_recordRecovered hrecord,
            heldForTwin_of_files (renewedClaim_files hrenewed)]

/-- **A publication** records the version that was read and hashed. -/
lemma meets_publish (htarget : .targeted t ∈ h) (hhashed : HashedFor h t.sha256)
    (hQ : Q () (h ++ [.recorded t])) (hR : ∀ e, R e (h ++ [.checked])) :
    Meets (RecoveryLaw vaults job at_) Q R (publish vaults job st t) h := by
  refine meets_commit (fun w a w' hw => ?_) fun w e he => ?_
  · obtain ⟨cat, hcat, hw'⟩ := map_eq_ok.mp hw
    cases hw'
    have hok : (publish.published vaults job st t w).isOk := by rw [hcat]; rfl
    rw [if_pos hok]
    refine ⟨⟨fun p _ => ⟨fun _ _ _ _ => trivial, fun _ _ hn _ => hn⟩, (fun _ h => nomatch h),
      fun t' ht' => ?_, (fun h => nomatch h)⟩, hQ⟩
    cases ht'
    exact ⟨htarget, hhashed, published_spec hcat⟩
  · have hno : ¬(publish.published vaults job st t w).isOk := by
      cases hcat : publish.published vaults job st t w with
      | error e' => exact fun h => nomatch h
      | ok cat =>
          rw [hcat] at he
          cases he
    rw [if_neg hno]
    exact ⟨law_checked rfl, hR e⟩

/-- **The rename onto the destination** replaces what it finds there. -/
lemma law_rename_onto (hr : Recovering p t h)
    (hw : (w.renamed s p = .ok w') ∨ (∃ e, w.renamed s p = .error e) ∧ w' = w) :
    RecoveryLaw vaults job at_ h (.moved s p) w w' := by
  refine ⟨fun q hloc => ?_, (fun _ h => nomatch h), (fun _ h => nomatch h), (fun h => nomatch h)⟩
  obtain rfl := (hr.located q).mp hloc
  rcases hw with hw | ⟨⟨e, he⟩, rfl⟩
  · obtain ⟨n, hn, hrefuses, hdir, -, hlookup⟩ := lookup_renamed hw
    constructor
    · intro hleaves m hm hother _
      have hkept := hleaves m hm hother
      rw [hlookup, if_pos rfl, Option.some.injEq] at hkept
      exact .inr (.inr (.inr (hkept ▸ hn)))
    · intro hspared m hm hother
      rcases hspared m hm hother rfl with hnone | hrefused | hdirectory | hsame
      · cases hnone.symm.trans hn
      · cases hrefused.symm.trans hrefuses
      · rw [hm] at hdir
        simp [hdirectory] at hdir
      · rw [hlookup, if_pos rfl, ← hn, hsame]
  · constructor
    · intro _ m hm _ _
      rw [LocalWorld.renamed] at he
      split at he
      · rename_i hnone
        exact .inl hnone
      · split at he
        · rename_i hcase
          rw [hm] at hcase
          exact hcase.elim (fun h => .inr (.inl h)) fun h => .inr (.inr (.inl (by simpa using h)))
        · cases he
    · exact fun _ m hm _ => hm

/-- The bytes of the download are those of the version. -/
structure Verified (d : Download) (t : RecoverTarget) (h : List LocalEvent) : Prop extends
    Recovering d.destination t h where
  hashed : .hashed d.temporary t.sha256 ∈ h

lemma Verified.snoc (hv : Verified d t h) (hev : ∀ q, ev ≠ .located q) : Verified d t (h ++ [ev]) :=
  ⟨hv.toRecovering.snoc hev, mem_append_left _ hv.hashed⟩

lemma Verified.checked (hv : Verified d t h) : Verified d t (h ++ [.checked]) :=
  hv.snoc fun _ h => nomatch h

/-- Anybody may have created an entry since the check. -/
lemma meets_rename_onto (hr : Recovering p t h) (hQ : Q () (h ++ [.moved s p]))
    (hR : ∀ e, R e (h ++ [.moved s p])) :
    Meets (RecoveryLaw vaults job at_) Q R (rename s p) h := by
  refine meets_commit (fun w a w' hw => ?_) fun w e he => ?_
  · obtain ⟨w'', hrename, hw''⟩ := map_eq_ok.mp hw
    cases hw''
    exact ⟨law_rename_onto hr (.inl hrename), hQ⟩
  · refine ⟨law_rename_onto hr (.inr ⟨?_, rfl⟩), hR e⟩
    cases hrename : w.renamed s p with
    | error e' => exact ⟨e', rfl⟩
    | ok w'' =>
        rw [hrename] at he
        cases he

/-- The temporary of a download is renamed and recorded once its bytes are hashed. -/
lemma meets_publishTemporary (hv : Verified d t h) :
    Meets (RecoveryLaw vaults job at_)
      (fun _ h => Recovering d.destination t h ∧ ∃ e ∈ h, e.records.isSome)
      (fun _ h => Recovering d.destination t h) (publishTemporary vaults job d st t) h := by
  refine Meets.bind (meets_ensureJobActive (Q := fun _ h => Verified d t h) hv.checked
    fun _ => hv.toRecovering.checked) fun _ h₁ hv => ?_
  refine Meets.bind (meets_look (Q := fun _ h => Verified d t h) (fun _ => hv.checked)
    fun _ => hv.toRecovering.checked) fun unchanged h₂ hv => ?_
  refine Meets.bind (meets_require (Q := fun _ h => Verified d t h) (fun _ => hv)
    fun _ => hv.toRecovering) fun _ h₃ hv => ?_
  refine Meets.bind (meets_look (Q := fun _ h => Verified d t h) (fun _ => hv.checked)
    fun _ => hv.toRecovering.checked) fun occupied h₄ hv => ?_
  refine Meets.bind (meets_require (Q := fun _ h => Verified d t h) (fun _ => hv)
    fun _ => hv.toRecovering) fun _ h₅ hv => ?_
  have hmoved : Verified d t (h₅ ++ [.moved d.temporary d.destination]) :=
    hv.snoc fun _ h => nomatch h
  refine Meets.bind (meets_rename_onto (Q := fun _ h => Verified d t h ∧
    .moved d.temporary d.destination ∈ h) hv.toRecovering
    ⟨hmoved, mem_append_right _ mem_cons_self⟩ fun _ => hmoved.toRecovering)
    fun _ h₆ ⟨hv, hm⟩ => ?_
  refine Meets.bind (meets_look (Q := fun _ h => Verified d t h ∧
    .moved d.temporary d.destination ∈ h) (fun _ => ⟨hv.checked, mem_append_left _ hm⟩)
    fun _ => hv.toRecovering.checked) fun _ h₇ ⟨hv, hm⟩ => ?_
  have hrecorded : Recovering d.destination t (h₇ ++ [.recorded t]) :=
    hv.toRecovering.snoc fun _ h => nomatch h
  have hfor : HashedFor h₇ t.sha256 :=
    ⟨d.temporary, d.destination, hv.hashed, (hv.located _).mpr rfl, .inr hm⟩
  exact meets_publish hv.targeted hfor
    ⟨hrecorded, .recorded t, mem_append_right _ mem_cons_self, rfl⟩
    fun _ => hv.toRecovering.checked

/-- The body of the `try`. -/
lemma meets_recoverInto (hr : Recovering d.destination t h) :
    Meets (RecoveryLaw vaults job at_)
      (fun _ h => Recovering d.destination t h ∧ ∃ e ∈ h, e.records.isSome)
      (fun _ h => Recovering d.destination t h) (recoverInto vaults job d t) h := by
  have hstatus {h : List LocalEvent} (hr : Recovering d.destination t h) :
      Recovering d.destination t (h ++ [.statusSet job.id .verifying]) :=
    hr.snoc fun _ h => nomatch h
  have hhash {h : List LocalEvent} (hr : Recovering d.destination t h) (sha : Digest) :
      Recovering d.destination t (h ++ [.hashed d.temporary sha]) := hr.snoc fun _ h => nomatch h
  refine Meets.bind (meets_download hr) fun _ h₁ hr => ?_
  refine Meets.bind (meets_ensureJobActive (Q := fun _ h => Recovering d.destination t h)
    hr.checked fun _ => hr.checked) fun _ h₂ hr => ?_
  refine Meets.bind (meets_setJob (Q := fun _ h => Recovering d.destination t h)
    (fun h => nomatch h) fun _ => hstatus hr) fun _ h₃ hr => ?_
  refine Meets.bind (meets_hash (Q := fun r h => Recovering d.destination t h ∧
    .hashed d.temporary r.1 ∈ h) (fun r => ⟨hhash hr _, mem_append_right _
      mem_cons_self⟩) fun _ => hr.checked) fun r h₄ ⟨hr, hhashed⟩ => ?_
  refine Meets.bind (meets_require (Q := fun _ h => Verified d t h)
    (fun heq => ⟨hr, heq ▸ hhashed⟩) fun _ => hr) fun _ h₅ hv => ?_
  exact meets_publishTemporary hv

/-! ### The two programs -/

lemma jobVersion_pinned {row : Job} {v : ArchiveVersion} {sha : Digest}
    (hv : row.archiveVersionId.bind cat.version? = some v) (hsha : v.plaintextSha256 = some sha) :
    RecoverTarget.Pinned ⟨v.id, sha⟩ cat := by
  obtain ⟨id, -, hid⟩ := Option.bind_eq_some_iff.mp hv
  obtain ⟨rfl, -⟩ := Catalog.version?_eq_some_iff.mp hid
  exact ⟨v, hid, hsha⟩

lemma recoverTarget_pinned {id : JobId} (ht : recoverTarget cat id = .ok t) :
    t.Pinned cat := by
  rw [recoverTarget] at ht
  split at ht
  · cases ht
  · rename_i v lc hv
    split at ht
    · rename_i sha _ hsha
      split at ht
      · cases ht
      · split at ht
        · cases ht
        · cases ht
          obtain ⟨row, -, hrow⟩ := Option.bind_eq_some_iff.mp hv
          obtain ⟨u, hu, huv⟩ := Option.bind_eq_some_iff.mp hrow
          cases huv
          exact jobVersion_pinned hu hsha
    · cases ht

lemma restartTarget_pinned {id : JobId} (ht : restartTarget cat id = some t) :
    t.Pinned cat := by
  obtain ⟨⟨u, lc⟩, hu, hrest⟩ := Option.bind_eq_some_iff.mp ht
  obtain ⟨sha, hsha, heq⟩ := Option.bind_eq_some_iff.mp hrest
  obtain ⟨row, -, hrow⟩ := Option.bind_eq_some_iff.mp hu
  obtain ⟨x, hx, hxu⟩ := Option.bind_eq_some_iff.mp hrow
  obtain rfl : x = u := congrArg Prod.fst (Option.some.inj hxu)
  cases heq
  exact jobVersion_pinned hx hsha

lemma law_unlocated (hnone : ∀ q, .located q ∉ h) (htargeted : ∀ t, ev = .targeted t → t.Pinned w.cat)
    (hrecords : ev.records = none) (hcompletes : ev.completes job.id = false) :
    RecoveryLaw vaults job at_ h ev w w' where
  leaves p hp := (hnone p hp).elim
  targeted := htargeted
  records _ ht := nomatch hrecords.symm.trans ht
  completes hc := nomatch hcompletes.symm.trans hc

/-- **The worker is lawful.** -/
theorem meets_processRecover (vaults : VaultTable) (job : LocalJob) (at_ : Stamp) (n : Naming) :
    Meets (RecoveryLaw vaults job at_) (fun _ _ => True) (fun _ _ => True)
      (processRecover vaults job n) [] := by
  refine Meets.bind (meets_ensureJobActive (Q := fun _ h => ∀ q, .located q ∉ h) (by simp)
    fun _ => trivial) fun _ h₁ hnone => ?_
  refine Meets.bind (Q := fun t h => (∀ q, .located q ∉ h) ∧ .targeted t ∈ h) (meets_ask
    (fun w => ?_) (fun w t _ => ⟨by simpa using hnone, by simp⟩) fun _ _ _ => trivial)
    fun t h₂ ⟨hnone, htargeted⟩ => ?_
  · cases ht : recoverTarget w.cat job.id with
    | error e => exact law_checked rfl
    | ok t =>
        refine law_unlocated hnone (fun t' ht' => ?_) rfl rfl
        cases ht'
        exact recoverTarget_pinned ht
  refine Meets.bind (meets_look (Q := fun _ h => (∀ q, .located q ∉ h) ∧ .targeted t ∈ h)
    (fun _ => ⟨by simpa using hnone, by simp [htargeted]⟩) fun _ => trivial)
    fun waits h₃ ⟨hnone, htargeted⟩ => ?_
  cases waits with
  | some wait =>
      refine Meets.bind (meets_setJob (Q := fun _ _ => True) ?_ fun _ => trivial)
        fun _ _ _ => meets_pure trivial
      cases wait <;> exact fun h => nomatch h
  | none =>
      refine Meets.bind (Q := fun p h => Recovering p t h) (meets_ask (fun w => ?_)
        (fun w p _ => ⟨fun q => ?_, by simp [htargeted]⟩) fun _ _ _ => trivial) fun p h₄ hr => ?_
      · cases w.entryPath job.vaultId job.path with
        | none => exact law_checked rfl
        | some p => exact law_unlocated hnone (fun _ h => nomatch h) rfl rfl
      · simp [hnone]
      have hstatus : Recovering p t (h₄ ++ [.statusSet job.id .downloading]) :=
        hr.snoc fun _ h => nomatch h
      refine Meets.bind (meets_setJob (Q := fun _ h => Recovering p t h) (fun h => nomatch h)
        fun _ => hstatus) fun _ h₅ hr => ?_
      have hremoved {h : List LocalEvent} (hr : Recovering p t h) (q : Place) :
          Recovering p t (h ++ [.removed q]) := hr.snoc fun _ h => nomatch h
      refine Meets.bind (Q := fun _ h => Recovering p t h ∧ ∃ e ∈ h, e.records.isSome)
        (Meets.ensuring (meets_recoverInto (d := n.download job p) hr) (fun _ h ⟨hr, e, he, hsome⟩ =>
          meets_unlinkMissingOk hr (n.download job p).temporary_ne
            ⟨hremoved hr _, e, mem_append_left _ he, hsome⟩ fun _ => trivial) fun _ h hr =>
          meets_unlinkMissingOk hr (n.download job p).temporary_ne trivial fun _ => trivial)
        fun _ h₆ ⟨hr, hrec⟩ => ?_
      exact Meets.bind (meets_setJob (Q := fun _ _ => True) (fun _ => hrec) fun _ => trivial)
        fun _ _ _ => meets_pure trivial

/-! ### The restart -/

lemma mem_abandoned {dir : ℕ} {n : FileNode} (hn : w.files.lookup p = some n) :
    p ∈ abandoned w dir ↔ p.dir = dir ∧ isRestoreTemporary p.name ∧
      w.refuses p = false ∧ n.kind ≠ .directory := by
  have hisOk : (w.unlinked p).isOk ↔ w.refuses p = false ∧ n.kind ≠ .directory := by
    rw [LocalWorld.unlinked, hn]
    dsimp only
    split
    · rename_i hcase
      refine ⟨(fun h => nomatch h), fun hno => ?_⟩
      rcases hcase with hrefuses | hdirectory
      · cases hrefuses.symm.trans hno.1
      · exact (hno.2 hdirectory).elim
    · rename_i hcase
      push Not at hcase
      have hrefuses : w.refuses p = false := by simpa using hcase.1
      exact ⟨fun _ => ⟨hrefuses, hcase.2⟩, fun _ => rfl⟩
  rw [abandoned, mem_filter, mem_map, hisOk]
  constructor
  · rintro ⟨⟨name, hname, rfl⟩, hkeep⟩
    exact ⟨rfl, (mem_filter.mp hname).2, hkeep⟩
  · rintro ⟨rfl, hrestore, hkeep⟩
    refine ⟨⟨p.name, mem_filter.mpr ⟨mem_names.mpr ?_, hrestore⟩, rfl⟩, hkeep⟩
    rw [hn]
    rfl

lemma lookup_sweep (w : LocalWorld) (dir : ℕ) (p : Place) :
    (w.sweep dir).files.lookup p = if p ∈ abandoned w dir then none else w.files.lookup p :=
  lookup_removeAll _ _

/-- **A sweep** removes the destination only by its name. -/
lemma law_swept (dir : ℕ) : RecoveryLaw vaults job at_ h (.swept dir) w (w.sweep dir) := by
  refine ⟨fun p _ => ?_, (fun _ h => nomatch h), (fun _ h => nomatch h), (fun h => nomatch h)⟩
  constructor
  · intro hleaves n hn hother hdir hname
    by_contra hno
    push Not at hno
    have hkept := hleaves n hn hother
    rw [lookup_sweep, if_pos ((mem_abandoned hn).mpr ⟨hdir.symm, hname, by simpa using hno.1,
      hno.2⟩)] at hkept
    cases hkept
  · intro hspared n hn hother
    rw [lookup_sweep, if_neg, hn]
    intro hmem
    obtain ⟨hdir, hname, hrefuses, hkind⟩ := (mem_abandoned hn).mp hmem
    rcases hspared n hn hother hdir.symm hname with hrefused | hdirectory
    · cases hrefused.symm.trans hrefuses
    · exact hkind hdirectory

lemma meets_transition {Q : Bool → List LocalEvent → Prop} {status : JobStatus} {named : Option Place}
    (hstatus : status ≠ .completed) (hQ : ∀ b h, Q b h) :
    Meets (RecoveryLaw vaults job at_) Q R (transition job.id status named at_) h := by
  refine meets_commit (fun w a w' hw => ⟨?_, hQ _ _⟩) fun w e hw => nomatch hw
  cases hw
  split
  · refine law_of_left (fun _ _ => rfl) (fun _ _ _ _ _ => trivial) (fun _ h => nomatch h) rfl
      fun hc => ?_
    cases status <;> first | cases hc | exact (hstatus rfl).elim
  · exact law_checked rfl

lemma adopted_files (st : FileStat) (t : RecoverTarget) :
    (adopt.adopted vaults job st t at_ w).2.files = w.files := by
  rw [adopt.adopted]
  split
  · dsimp only
    split <;> rfl
  · rfl

/-- **An adoption** completes the Job with the version that was read and hashed. -/
lemma meets_adopt (htarget : .targeted t ∈ h) (hhashed : HashedFor h t.sha256) :
    Meets (RecoveryLaw vaults job at_) (fun _ _ => True) (fun _ _ => True)
      (adopt vaults job st t at_) h := by
  refine meets_act fun w => ⟨?_, ?_⟩
  · by_cases hstale : w.stale job.id at_
    · rw [if_pos hstale]
      refine ⟨fun p _ => ⟨fun _ _ _ _ => trivial,
          fun _ _ hn _ => (congrArg _ (adopted_files st t)).trans hn⟩,
        (fun _ h => nomatch h), fun t' ht' => ?_, fun _ => .inl rfl⟩
      cases ht'
      exact ⟨htarget, hhashed, recordedAs_adopted hstale⟩
    · rw [if_neg hstale, adopt.adopted, if_neg hstale]
      exact law_checked rfl
  · cases (adopt.adopted vaults job st t at_ w).1 with
    | error e => exact meets_raise trivial
    | ok u => exact meets_ret trivial

lemma meets_failed :
    Meets (RecoveryLaw vaults job at_) (fun _ _ => True) (fun _ _ => True)
      (reconcileRecoverJob.failed job at_) h :=
  Meets.bind (meets_transition (Q := fun _ _ => True) (fun h => nomatch h) fun _ _ => trivial)
    fun _ _ _ => meets_pure trivial

/-- **The decision of a restart is lawful.** -/
lemma meets_reconcileRecoverJob (hloc : ∀ q, .located q ∈ h ↔ q = p) :
    Meets (RecoveryLaw vaults job at_) (fun _ _ => True) (fun _ _ => True)
      (reconcileRecoverJob vaults job p at_) h := by
  refine Meets.bind (Q := fun o h => .located p ∈ h ∧ ∀ t, o = some t → .targeted t ∈ h)
    (meets_act fun w => ?_) fun target h₁ ⟨hp, htarget⟩ => ?_
  · have hleft {ev : LocalEvent} (htargeted : ∀ t, ev = .targeted t → t.Pinned w.cat)
        (hrecords : ev.records = none) (hcompletes : ev.completes job.id = false)
        (hspared : ∀ q, Spared q ev w) : RecoveryLaw vaults job at_ h ev w w :=
      ⟨fun q _ => ⟨fun _ => hspared q, fun _ _ hn _ => hn⟩, htargeted,
        (fun _ ht => nomatch hrecords.symm.trans ht), fun hc => nomatch hcompletes.symm.trans hc⟩
    cases ht : restartTarget w.cat job.id with
    | none => exact ⟨law_checked rfl, meets_pure ⟨by simp [hloc], fun _ h => nomatch h⟩⟩
    | some t =>
        refine ⟨hleft (fun t' ht' => ?_) rfl rfl fun _ _ _ _ => trivial, meets_pure ⟨?_, ?_⟩⟩
        · cases ht'
          exact restartTarget_pinned ht
        · simp [hloc]
        · intro t' ht'
          cases ht'
          simp
  refine Meets.bind (meets_look (Q := fun _ h => .located p ∈ h ∧
    ∀ t, target = some t → .targeted t ∈ h)
    (fun _ => ⟨by simp [hp], fun t ht => mem_append_left _ (htarget t ht)⟩) fun _ => trivial)
    fun there h₂ ⟨hp, htarget⟩ => ?_
  cases there with
  | false =>
      exact Meets.bind (meets_transition (Q := fun _ _ => True) (fun h => nomatch h)
        fun _ _ => trivial) fun _ _ _ => meets_pure trivial
  | true =>
      refine Meets.bind (meets_look (Q := fun _ h => .located p ∈ h ∧
        ∀ t, target = some t → .targeted t ∈ h)
        (fun _ => ⟨by simp [hp], fun t ht => mem_append_left _ (htarget t ht)⟩)
        fun _ => trivial) fun regular h₃ ⟨hp, htarget⟩ => ?_
      cases regular with
      | false => exact meets_failed
      | true =>
          cases target with
          | none => exact meets_failed
          | some t =>
              have hhash : Meets (RecoveryLaw vaults job at_)
                  (fun r h => .located p ∈ h ∧ .targeted t ∈ h ∧ .hashed p r.1 ∈ h)
                  (fun _ _ => True) (hashStableRegularFile p) h₃ :=
                meets_hash (fun r => ⟨by simp [hp], by simp [htarget t rfl], by simp⟩)
                  fun _ => trivial
              refine Meets.bind (hhash.outcome (S := fun o h => ∀ r, o = .ok r →
                .located p ∈ h ∧ .targeted t ∈ h ∧ .hashed p r.1 ∈ h)
                (fun r h hr r' hr' => Except.ok.inj hr' ▸ hr) fun _ _ _ _ h => nomatch h)
                fun o h₄ ho => ?_
              cases o with
              | error e => exact meets_failed
              | ok r =>
                  obtain ⟨digest, st⟩ := r
                  obtain ⟨hp, htarget, hhashed⟩ := ho _ rfl
                  dsimp only
                  split
                  · rename_i heq
                    exact meets_adopt htarget ⟨p, p, heq ▸ hhashed, hp, .inl rfl⟩
                  · exact meets_failed

/-- **The restart is lawful.** -/
theorem meets_reconcileRecover (vaults : VaultTable) (job : LocalJob) (at_ : Stamp) :
    Meets (RecoveryLaw vaults job at_) (fun _ _ => True) (fun _ _ => True)
      (reconcileRecover vaults job at_) [] := by
  refine Meets.bind (meets_look (Q := fun _ h => ∀ q, .located q ∉ h) (fun _ => by simp)
    fun _ => trivial) fun allowed h₁ hnone => ?_
  cases allowed with
  | false => exact meets_pure trivial
  | true =>
      refine Meets.handle (S := fun _ _ => True) ?_ fun e h _ => Meets.bind
        (meets_transition (Q := fun _ _ => True) (fun h => nomatch h) fun _ _ => trivial)
        fun _ _ _ => meets_pure trivial
      refine Meets.bind (meets_look (Q := fun _ h => ∀ q, .located q ∉ h)
        (fun _ => by simpa using hnone) fun _ => trivial) fun isDir h₂ hnone => ?_
      refine Meets.bind (meets_require (Q := fun _ h => ∀ q, .located q ∉ h) (fun _ => hnone)
        fun _ => trivial) fun _ h₃ hnone => ?_
      refine Meets.bind (Q := fun p h => ∀ q, .located q ∈ h ↔ q = p) (meets_ask (fun w => ?_)
        (fun w p _ q => by simp [hnone]) fun _ _ _ => trivial) fun p h₄ hloc => ?_
      · cases w.entryPath job.vaultId job.path with
        | none => exact law_checked rfl
        | some p => exact law_unlocated hnone (fun _ h => nomatch h) rfl rfl
      refine Meets.bind (Q := fun _ h => ∀ q, .located q ∈ h ↔ q = p)
        (meets_commit (fun w a w' hw => ⟨?_, ?_⟩) fun w e hw => nomatch hw) fun _ h₅ hloc => ?_
      · cases hw
        exact law_swept p.dir
      · simpa using hloc
      exact meets_reconcileRecoverJob hloc

/-- **Recovery overwrites nothing and reports what it recovered**, up to any crash and through the
restart after it, whatever the others do in between: exactly when no entry of somebody else is at
the destination at a rename onto it, the restart does not take the destination itself for an
abandoned download, and the version is not held back where the Local Copy is recorded. -/
theorem recovery_safe_iff {χ : Type} (vaults : VaultTable) (job : LocalJob) (n : Naming)
    (env : χ → LocalWorld → LocalWorld) (w w' : LocalWorld) (xs ys : List χ) (at_ : Stamp) :
    (OverwritesNothing ((processRecover vaults job n).steps env w xs) ∧
        ReportsRecovered job ((processRecover vaults job n).steps env w xs)) ∧
      (OverwritesNothing ((reconcileRecover vaults job at_).steps env w' ys) ∧
        ReportsRecovered job ((reconcileRecover vaults job at_).steps env w' ys)) ↔
    (SparesForeign ((processRecover vaults job n).steps env w xs) ∧
        Unheld vaults job at_ ((processRecover vaults job n).steps env w xs)) ∧
      (SparesForeign ((reconcileRecover vaults job at_).steps env w' ys) ∧
        Unheld vaults job at_ ((reconcileRecover vaults job at_).steps env w' ys)) := by
  refine and_congr (safe_iff_of_law fun before s after hs => ?_)
    (safe_iff_of_law fun before s after hs => ?_)
  · exact (meets_processRecover vaults job at_ n).steps env w hs
  · exact (meets_reconcileRecover vaults job at_).steps env w' hs

/-! ### An entry created after the check -/

/-- The bytes of the version, as the provider sends them. -/
def archivedBytes : FileNode := ⟨⟨1, 9, 0, 0⟩, .regular, 3, .application⟩

/-- Somebody else's file. -/
def someoneElses : FileNode := ⟨⟨2, 4, 0, 0⟩, .regular, 8, .other⟩

/-- A claimed recovery of the version `1` of the file `1`. -/
def claimedRecovery (id : JobId) (path : Path) : Job where
  id := id
  vaultId := 0
  vaultFileId := 1
  path := path
  action := .recover
  status := .queued
  origin := .manual
  groupId := none
  requestedAt := 0
  pendingUntil := none
  claimToken := some 7
  claimExpiresAt := some 100
  archiveVersionId := some 1

/-- One file in the cloud only, and its recovery. -/
def recoverableCatalog : Catalog where
  files := cloudOnlyCatalog.files
  jobs := [claimedRecovery 1 ['a']]
  items := []
  ids_nodup := cloudOnlyCatalog.ids_nodup
  paths_unique := cloudOnlyCatalog.paths_unique
  versions_unique := cloudOnlyCatalog.versions_unique
  jobIds_nodup := by simp

/-- An empty Source Volume, where every call succeeds. -/
def emptyVolume (cat : Catalog) : LocalWorld where
  files := ∅
  cat := cat
  now := 0
  downloads := []
  interrupted := none
  entryPath := fun _ path => some ⟨0, path⟩
  access := fun _ => true
  rootIsDir := fun _ => true
  unreadable := fun _ => false
  refuses := fun _ => false
  resolves := fun _ => false
  fetched := .ok archivedBytes
  waits := none
  head := fun _ v => .ok ⟨false, some v, some 9⟩
  releaseAllowed := .ok ()
  sourceUnchanged := true

/-- Names for a download. -/
def zeros : Naming where
  hex := List.replicate 32 '0'
  ext := List.replicate 8 '0'
  hex_uuid := by decide
  ext_length := by decide
  ext_alphanum := all_eq_true.mp rfl

/-- Somebody creates a file. -/
def creates (p : Place) (n : FileNode) (w : LocalWorld) : LocalWorld :=
  { w with files := w.files.insert p n }

/-- Nobody moves before the first sixteen actions; then somebody creates the destination. -/
def createdBeforeRename : List (LocalWorld → LocalWorld) :=
  List.replicate 16 id ++ [creates ⟨0, ['a']⟩ someoneElses]

/-- The place an action located. -/
def LocalEvent.locatedAt : LocalEvent → Option Place
  | .located p => some p
  | _ => none

/-- **The rename replaces an entry** that somebody else created after the check for absence. -/
theorem rename_replaces_foreign_entry :
    ¬OverwritesNothing ((processRecover openVault ⟨1, 0, 1, ['a'], 7⟩ zeros).steps
      (fun f w => f w) (emptyVolume recoverableCatalog) createdBeforeRename) := by
  intro hsafe
  have hrun : ((processRecover openVault ⟨1, 0, 1, ['a'], 7⟩ zeros).steps
      (fun f w => f w) (emptyVolume recoverableCatalog) createdBeforeRename).map
        (fun s => (s.event.locatedAt, s.before.files.lookup ⟨0, ['a']⟩,
          s.after.files.lookup ⟨0, ['a']⟩)) =
      List.replicate 3 (none, none, none) ++ (some ⟨0, ['a']⟩, none, none) ::
        List.replicate 12 (none, none, none) ++ [(none, some someoneElses, some archivedBytes)] := by
    decide
  obtain ⟨before, last, hsteps, hbefore, hlast⟩ := map_eq_append_iff.mp hrun
  obtain ⟨s, hs, hvalues⟩ := map_eq_singleton_iff.mp hlast
  obtain ⟨q, hq, hqvalues⟩ : ∃ q ∈ before, (q.event.locatedAt, q.before.files.lookup ⟨0, ['a']⟩,
      q.after.files.lookup ⟨0, ['a']⟩) = (some ⟨0, ['a']⟩, none, none) :=
    mem_map.mp (hbefore ▸ by simp)
  have hlocated : LocalEvent.located ⟨0, ['a']⟩ ∈ before.map Step.event := by
    have hevent : q.event = .located ⟨0, ['a']⟩ := by
      have hat := congrArg Prod.fst hqvalues
      cases hev : q.event <;> simp [hev, LocalEvent.locatedAt] at hat
      rw [hat]
    exact hevent ▸ mem_map_of_mem hq
  have hkept := hsafe before s [] (hs ▸ hsteps) _ hlocated someoneElses
    (congrArg (fun v => v.2.1) hvalues) rfl
  have hreplaced : s.after.files.lookup ⟨0, ['a']⟩ = some archivedBytes :=
    congrArg (fun v => v.2.2) hvalues
  cases hkept.symm.trans hreplaced

end Frostvault
