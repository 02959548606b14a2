import Frostvault.LocalFiles.Conflicts
import Frostvault.LocalFiles.Release

/-!
A local release unlinks confirmed claims only, and restores each to its own name
(`_process_free_space` of `app/storage.py` and `restore_claimed_local_copy` of
`app/services/local_files.py`).

* `RemovesConfirmed`, `RestoresOwn`: the property of a run;
* `ReleaseLaw`: what an action may do after its history;
* `releaseTarget_spec`, `released_spec`: what the two checks of the catalog say;
* `releases_restoreClaimed`, `releases_releaseClaim`: the two ways a claim is unlinked;
* `meets_processFreeSpace`: **the worker has the property** however others interfere.
-/

namespace Frostvault

open Effects Directory

/-! ### The property -/

/-- The digest that was hashed is that of the latest version of the Job's file, verified and
available, and the provider has just confirmed that exact version. -/
def Confirmed (h : List LocalEvent) (claimed : Place) (cat : Catalog) (job : JobId) : Prop :=
  ∃ row f u sha n size, cat.job? job = some row ∧ cat.file? row.vaultFileId = some f ∧
    f.latestVersion = some u ∧ u.integrity = .verified ∧ u.availability = .available ∧
    u.providerVersionId = some n ∧ u.plaintextSha256 = some sha ∧ .hashed claimed sha ∈ h ∧
    .headed u.objectKey n (.ok ⟨false, some n, some size⟩) ∈ h

/-- The claim was taken from the entry. -/
def OwnClaim (target claimed : Place) : Prop := ∃ hex, IsUuid hex ∧ claimed = claimOf target hex

/-- In a run: a claim is unlinked when its bytes are confirmed, or once it is linked back. -/
def RemovesConfirmed (job : JobId) (ss : List LocalStep) : Prop :=
  ∀ before s after, ss = before ++ s :: after → ∀ p, s.event = .removed p →
    Confirmed (before.map Step.event) p s.before.cat job ∨
      ∃ q, .linked p q ∈ before.map Step.event

/-- In a run: a claim is restored to the name it was taken from. -/
def RestoresOwn (h : List LocalEvent) : Prop := ∀ p q, .linked p q ∈ h → OwnClaim q p

/-! ### The worker -/

/-- **What an action of a release does**, after the history `h`, where the links are in `L`. -/
structure ReleaseLaw (L : Place → Place → Prop) (job : JobId) (h : List LocalEvent)
    (ev : LocalEvent) (w w' : LocalWorld) : Prop where
  removed : ∀ p, ev = .removed p → Confirmed h p w.cat job ∨ ∃ q, .linked p q ∈ h
  linked : ∀ p q, ev = .linked p q → L p q

variable {vaults : VaultTable} {job : LocalJob} {at_ : Stamp} {h : List LocalEvent}
  {ev : LocalEvent} {w w' : LocalWorld} {t : ReleaseTarget} {p : Place} {L : Place → Place → Prop}
  {id : JobId} {Q : Unit → List LocalEvent → Prop} {R : LocalError → List LocalEvent → Prop}

lemma releaseLaw_of_other (hremoved : ∀ p, ev ≠ .removed p) (hlinked : ∀ p q, ev ≠ .linked p q) :
    ReleaseLaw L id h ev w w' :=
  ⟨fun p hp => (hremoved p hp).elim, fun p q hpq => (hlinked p q hpq).elim⟩

lemma releaseLaw_checked : ReleaseLaw L id h .checked w w' :=
  releaseLaw_of_other (fun _ h => nomatch h) fun _ _ h => nomatch h

/-- **What a checked target says** of the catalog. -/
lemma releaseTarget_spec {cat : Catalog} (ht : releaseTarget cat id = some t) :
    ∃ row f u, cat.job? id = some row ∧ cat.file? row.vaultFileId = some f ∧
      f.latestVersion = some u ∧ u.integrity = .verified ∧ u.availability = .available ∧
      u.providerVersionId = some t.providerVersionId ∧ u.plaintextSha256 = some t.sha256 ∧
      u.objectKey = t.objectKey := by
  simp only [releaseTarget, Option.bind_eq_bind, Option.bind_eq_some_iff] at ht
  obtain ⟨row, hrow, v, ⟨id', -, hv⟩, f, hf, lc, -, u, hu, sha, hsha, n, hn, ht⟩ := ht
  split at ht
  · rename_i hcond
    obtain ⟨-, -, hverified, havailable, -, -, -, hlatest⟩ := hcond
    -- the two rows have one id
    have hufile : u ∈ f.versions := (List.mem_filter.mp (newest_mem hu)).1
    have hvu : cat.version? u.id = some u :=
      Catalog.version?_eq_some_iff.mpr ⟨rfl, f, List.mem_of_find?_eq_some hf, hufile⟩
    obtain ⟨hvid, -⟩ := Catalog.version?_eq_some_iff.mp hv
    rw [← hvid, hlatest] at hv
    obtain rfl : u = v := Option.some.inj (hvu.symm.trans hv)
    cases ht
    exact ⟨row, f, u, hrow, hf, hu, hverified, havailable, hn, hsha, rfl⟩
  · cases ht

/-! ### Actions that remove nothing -/

lemma releases_look {α : Type} {Q : α → List LocalEvent → Prop}
    {f : LocalWorld → Except LocalError α} (hQ : ∀ a, Q a (h ++ [.checked]))
    (hR : ∀ e, R e (h ++ [.checked])) : Meets (ReleaseLaw L id) Q R (look f) h :=
  meets_ask (fun _ => releaseLaw_checked) (fun _ a _ => hQ a) fun _ e _ => hR e

lemma releases_commit {α : Type} {Q : α → List LocalEvent → Prop} {event : LocalEvent}
    {f : LocalWorld → Except LocalError (α × LocalWorld)} (hremoved : ∀ p, event ≠ .removed p)
    (hlinked : ∀ p q, event ≠ .linked p q) (hQ : ∀ a, Q a (h ++ [event]))
    (hR : ∀ e, R e (h ++ [event])) : Meets (ReleaseLaw L id) Q R (.commit (fun _ => event) f) h :=
  meets_commit (fun _ a _ _ => ⟨releaseLaw_of_other hremoved hlinked, hQ a⟩)
    fun _ e _ => ⟨releaseLaw_of_other hremoved hlinked, hR e⟩

lemma releases_ensureJobActive (hQ : Q () (h ++ [.checked])) (hR : ∀ e, R e (h ++ [.checked])) :
    Meets (ReleaseLaw L id) Q R (ensureJobActive job) h :=
  releases_commit (fun _ h => nomatch h) (fun _ _ h => nomatch h) (fun _ => hQ) hR

lemma releases_hash {Q : Digest × FileStat → List LocalEvent → Prop}
    (hQ : ∀ r, Q r (h ++ [.hashed p r.1])) (hR : ∀ e, R e (h ++ [.checked])) :
    Meets (ReleaseLaw L id) Q R (hashStableRegularFile p) h := by
  refine meets_act fun w => ?_
  cases hread : hashStableRegularFile.read p w with
  | error e => exact ⟨releaseLaw_checked, meets_raise (hR e)⟩
  | ok r =>
      exact ⟨releaseLaw_of_other (fun _ h => nomatch h) (fun _ _ h => nomatch h),
        meets_ret (hQ r)⟩

lemma releases_repair {replacement : Bool} :
    Meets (ReleaseLaw L id) (fun _ _ => True) (fun _ _ => True)
      (repairFailedLocalRelease vaults job t p replacement) h := by
  refine Meets.bind (releases_look (Q := fun _ _ => True) (fun _ => trivial) fun _ => trivial)
    fun valid _ _ => ?_
  refine Meets.bind (meets_require (Q := fun _ _ => True) (fun _ => trivial) fun _ => trivial)
    fun _ _ _ => ?_
  refine Meets.bind (releases_look (Q := fun _ _ => True) (fun _ => trivial) fun _ => trivial)
    fun n _ _ => ?_
  refine Meets.bind (Q := fun _ _ => True) ?_ fun digest _ _ => ?_
  · rw [regularDigest]
    split
    · exact Meets.bind (releases_hash (Q := fun _ _ => True) (fun _ => trivial) fun _ => trivial)
        fun _ _ _ => meets_pure trivial
    · exact meets_pure trivial
  · exact releases_commit (fun _ h => nomatch h) (fun _ _ h => nomatch h) (fun _ => trivial)
      fun _ => trivial

/-! ### Claims -/

lemma linkedTo_spec {s q : Place} (hw : w.linkedTo s q = .ok w') :
    ∃ n, w.files.lookup s = some n ∧ w.files.lookup q = none ∧ w.refuses q = false ∧
      n.kind ≠ .directory ∧ w' = { w with files := w.files.insert q n } := by
  rw [LocalWorld.linkedTo] at hw
  split at hw
  · cases hw
  · rename_i n hn
    split at hw
    · cases hw
    · rename_i hfree
      split at hw
      · cases hw
      · rename_i hno
        push Not at hno
        cases hw
        exact ⟨n, hn, by simpa using hfree, by simpa using hno.1, hno.2, rfl⟩

/-- **A claim is linked back before it is removed.** -/
lemma releases_restoreClaimed {claimed target : Place} (hL : L claimed target) :
    Meets (ReleaseLaw L id) (fun _ _ => True) (fun _ _ => True)
      (restoreClaimedLocalCopy claimed target) h := by
  refine Meets.bind (releases_look (Q := fun _ _ => True) (fun _ => trivial) fun _ => trivial)
    fun there _ _ => ?_
  cases there with
  | false => exact meets_pure trivial
  | true =>
      have hlink {h : List LocalEvent} : Meets (ReleaseLaw L id)
          (fun _ h => .linked claimed target ∈ h) (fun _ _ => True) (link claimed target) h := by
        refine meets_commit (fun w a w' hw => ?_) fun w e he => ?_
        · obtain ⟨w'', hw'', -⟩ := map_eq_ok.mp hw
          rw [hw'']
          refine ⟨⟨(fun _ h => nomatch h), fun p q hpq => ?_⟩, List.mem_append_right _
            List.mem_cons_self⟩
          obtain ⟨rfl, rfl⟩ := LocalEvent.linked.inj hpq
          exact hL
        · cases hw : w.linkedTo claimed target with
          | error e' => exact ⟨releaseLaw_checked, trivial⟩
          | ok w'' =>
              rw [hw] at he
              cases he
      refine Meets.bind (hlink.outcome (S := fun r h => r = .ok () → .linked claimed target ∈ h)
        (fun _ _ hmem _ => hmem) fun _ _ _ h => nomatch h) fun r h hr => ?_
      match r with
      | .ok () =>
          refine Meets.bind (meets_commit (Q := fun _ _ => True) (fun w a w' _ =>
            ⟨⟨fun p hp => ?_, (fun _ _ h => nomatch h)⟩, trivial⟩) fun w e _ =>
              ⟨⟨fun p hp => ?_, (fun _ _ h => nomatch h)⟩, trivial⟩) fun _ _ _ => meets_pure trivial
          · obtain rfl := LocalEvent.removed.inj hp
            exact .inr ⟨target, hr rfl⟩
          · obtain rfl := LocalEvent.removed.inj hp
            exact .inr ⟨target, hr rfl⟩
      | .error .occupied => exact meets_pure trivial
      | .error .cancelled | .error .leaseLost | .error (.refused _) | .error .notFound |
        .error .os | .error .provider =>
          refine Meets.bind (releases_look (Q := fun _ _ => True) (fun _ => trivial)
            fun _ => trivial) fun still _ _ => ?_
          cases still with
          | true => exact meets_pure trivial
          | false => exact meets_raise trivial

/-! ### The worker -/

/-- The provider has confirmed the version of the target. -/
def HeadedFor (t : ReleaseTarget) (h : List LocalEvent) : Prop :=
  ∃ size, .headed t.objectKey t.providerVersionId
    (.ok ⟨false, some t.providerVersionId, some size⟩) ∈ h

lemma HeadedFor.mono {h' : List LocalEvent} (hh : HeadedFor t h) (hp : h <+: h') :
    HeadedFor t h' := by
  obtain ⟨size, hs⟩ := hh
  exact ⟨size, hp.subset hs⟩

lemma headedFor_of_confirms {reply : HeadReply} (hc : reply.confirms t)
    (hmem : .headed t.objectKey t.providerVersionId (.ok reply) ∈ h) : HeadedFor t h := by
  obtain ⟨marker, version, length⟩ := reply
  simp only [HeadReply.confirms, Bool.and_eq_true, Bool.not_eq_true', decide_eq_true_eq] at hc
  obtain ⟨⟨⟨rfl, rfl⟩, hlen⟩, -⟩ := hc
  obtain ⟨size, rfl⟩ := Option.isSome_iff_exists.mp hlen
  exact ⟨size, hmem⟩

/-- What the transaction of a release checks. -/
lemma released_spec {claimed : Place} {digest : Digest} {st : FileStat}
    (hw : releaseClaim.released job t claimed digest st w = .ok w') :
    ∃ fresh, releaseTarget w.cat job.id = some fresh ∧ fresh.objectKey = t.objectKey ∧
      fresh.providerVersionId = t.providerVersionId ∧ fresh.sha256 = digest := by
  rw [releaseClaim.released] at hw
  cases hclaim : renewedClaim w job with
  | error e =>
      rw [hclaim] at hw
      cases hw
  | ok cat =>
      rw [hclaim] at hw
      change (checkedLocalReleaseTarget w job.id >>= _) = _ at hw
      rw [checkedLocalReleaseTarget] at hw
      cases hallowed : w.releaseAllowed with
      | error e =>
          rw [hallowed] at hw
          cases hw
      | ok u =>
          rw [hallowed] at hw
          cases hfresh : releaseTarget w.cat job.id with
          | none =>
              rw [hfresh] at hw
              cases hw
          | some fresh =>
              rw [hfresh] at hw
              dsimp only at hw
              change (if _ then _ else _) = _ at hw
              split at hw
              · rename_i hcond
                exact ⟨fresh, rfl, hcond.2.1, hcond.2.2.1, hcond.2.2.2.2.1⟩
              · cases hw

/-- **The unlink of a release** is confirmed. -/
lemma releases_releaseClaim {claimed : Place} {digest : Digest} {st : FileStat}
    (hheaded : HeadedFor t h) (hhashed : .hashed claimed digest ∈ h) :
    Meets (ReleaseLaw L job.id) (fun _ _ => True) (fun _ _ => True)
      (releaseClaim job t claimed digest st) h := by
  refine meets_commit (fun w a w' hw => ⟨?_, trivial⟩) fun w e he => ⟨?_, trivial⟩
  · obtain ⟨w'', hreleased, -⟩ := map_eq_ok.mp hw
    rw [hreleased]
    refine ⟨fun p hp => ?_, (fun _ _ h => nomatch h)⟩
    obtain rfl := LocalEvent.removed.inj hp
    obtain ⟨fresh, hfresh, hkey, hversion, rfl⟩ := released_spec hreleased
    obtain ⟨row, f, u, hrow, hf, hu, hverified, havailable, hn, hsha, hukey⟩ :=
      releaseTarget_spec hfresh
    obtain ⟨size, hsize⟩ := hheaded
    refine .inl ⟨row, f, u, fresh.sha256, fresh.providerVersionId, size, hrow, hf, hu, hverified,
      havailable, hn, hsha, hhashed, ?_⟩
    rwa [hukey, hkey, hversion]
  · cases hreleased : releaseClaim.released job t claimed digest st w with
    | error e' => exact releaseLaw_checked
    | ok w'' =>
        rw [hreleased] at he
        cases he

/-- **The worker removes confirmed claims only, and restores its own.** -/
theorem meets_processFreeSpace (vaults : VaultTable) (job : LocalJob) (n : Naming) :
    Meets (ReleaseLaw (fun p q => OwnClaim q p) job.id) (fun _ _ => True) (fun _ _ => True)
      (processFreeSpace vaults job n) [] := by
  have hactive {h : List LocalEvent} : Meets (ReleaseLaw (fun p q => OwnClaim q p) job.id)
      (fun _ _ => True) (fun _ _ => True) (ensureJobActive job) h :=
    releases_ensureJobActive trivial fun _ => trivial
  have hstatus {h : List LocalEvent} (status : JobStatus) :
      Meets (ReleaseLaw (fun p q => OwnClaim q p) job.id) (fun _ _ => True) (fun _ _ => True)
        (setJob job status) h :=
    releases_commit (fun _ h => nomatch h) (fun _ _ h => nomatch h) (fun _ => trivial)
      fun _ => trivial
  refine Meets.bind hactive fun _ _ _ => ?_
  refine Meets.bind hactive fun _ _ _ => ?_
  refine Meets.bind (releases_look (Q := fun _ _ => True) (fun _ => trivial) fun _ => trivial)
    fun t _ _ => ?_
  refine Meets.bind (hstatus .cleaning) fun _ _ _ => ?_
  refine Meets.bind hactive fun _ _ _ => ?_
  refine Meets.bind (Q := fun reply h => .headed t.objectKey t.providerVersionId (.ok reply) ∈ h)
    (meets_ask (fun w => releaseLaw_of_other (fun _ h => nomatch h) fun _ _ h => nomatch h)
      (fun w reply _ => List.mem_append_right _ List.mem_cons_self) fun _ _ _ => trivial)
    fun reply h₁ hmem => ?_
  refine Meets.bind (meets_require (Q := fun _ h => HeadedFor t h)
    (fun hc => headedFor_of_confirms hc hmem) fun _ => trivial) fun _ h₂ hheaded => ?_
  refine Meets.bind hactive.grows fun _ h₃ ⟨hp, _⟩ => ?_
  have hheaded := hheaded.mono hp
  refine Meets.bind (Q := fun _ h => HeadedFor t h) (meets_ask (fun w => ?_)
    (fun w p _ => hheaded.mono (List.prefix_append _ _)) fun _ _ _ => trivial) fun p h₄ hheaded => ?_
  · cases w.entryPath job.vaultId job.path <;>
      exact releaseLaw_of_other (fun _ h => nomatch h) fun _ _ h => nomatch h
  refine Meets.bind (Q := fun _ h => HeadedFor t h) (releases_commit (fun _ h => nomatch h)
    (fun _ _ h => nomatch h) (fun _ => hheaded.mono (List.prefix_append _ _)) fun _ => trivial)
    fun _ h₅ hheaded => ?_
  have hown : OwnClaim p (claimOf p n.hex) := ⟨n.hex, n.hex_uuid, rfl⟩
  refine Meets.bind (Q := fun _ _ => True) (Meets.handle (S := fun _ _ => True) ?_
    fun e h _ => ?_) fun _ _ _ => ?_
  · refine Meets.bind (releases_hash (Q := fun r h => HeadedFor t h ∧
      .hashed (claimOf p n.hex) r.1 ∈ h) (fun r => ⟨hheaded.mono (List.prefix_append _ _),
        List.mem_append_right _ List.mem_cons_self⟩) fun _ => trivial) fun r h ⟨hheaded, hhashed⟩ => ?_
    refine Meets.bind (meets_require (Q := fun _ h => HeadedFor t h ∧
      .hashed (claimOf p n.hex) r.1 ∈ h) (fun _ => ⟨hheaded, hhashed⟩) fun _ => trivial)
      fun _ h ⟨hheaded, hhashed⟩ => ?_
    refine Meets.bind hactive.grows fun _ h ⟨hp, _⟩ => ?_
    exact releases_releaseClaim (hheaded.mono hp) (hp.subset hhashed)
  · refine Meets.bind (releases_restoreClaimed hown) fun restored _ _ => ?_
    cases restored with
    | true => exact Meets.bind releases_repair fun _ _ _ => meets_raise trivial
    | false =>
        exact Meets.bind (releases_repair.outcome (S := fun _ _ => True) (fun _ _ _ => trivial)
          fun _ _ _ => trivial) fun _ _ _ => meets_raise trivial
  refine Meets.bind hactive fun _ _ _ => ?_
  refine Meets.bind (releases_look (Q := fun _ _ => True) (fun _ => trivial) fun _ => trivial)
    fun left _ _ => ?_
  refine Meets.bind (releases_commit (Q := fun _ _ => True) (fun _ h => nomatch h)
    (fun _ _ h => nomatch h) (fun _ => trivial) fun _ => trivial) fun _ _ _ => ?_
  exact Meets.bind (hstatus .completed) fun _ _ _ => meets_pure trivial

end Frostvault
