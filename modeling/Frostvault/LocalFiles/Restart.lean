import Frostvault.LocalFiles.Claims

/-!
What a restart does with the claims it finds (the free-space branch of
`_reconcile_interrupted_jobs_impl` of `app/storage.py`).

The claims of an entry are found by a shell pattern made of its name, and the first one that can be
linked is linked to it.  While others create the original entry nothing else changes, so the restart
is decided by the files it finds.

* `SurvivesRestart`: the property of a restart;
* `firstLinkable`, `firstExisting`, `Restorable`: the condition on the files it finds;
* `meets_reconcileFreeSpace`: it unlinks a claim only once it is linked;
* `outcome_reconcileFreeSpace`: **what it does**, whoever creates the original entry;
* `local_release_safe_iff`: the property of the worker and of its restart;
* `claim_lost_behind_pattern`: a name whose claims are not.
-/

namespace Frostvault

open List Effects Directory

/-! ### The property and its condition -/

/-- No claim of the entry is on disk. -/
def NoClaim (w : LocalWorld) (target : Place) : Prop :=
  ∀ hex, IsUuid hex → w.files.lookup (claimOf target hex) = none

/-- When the restart has decided the Job there is an entry at the original name, or the Job failed
naming a claim of that name that is there, or there is no claim of that name. -/
def SurvivesRestart (job : JobId) (target : Place)
    (r : Played LocalWorld LocalEvent LocalError Unit) : Prop :=
  r.ending ≠ .stopped → (∃ status named, .reconciled job status named ∈ r.events) →
    (r.world.files.lookup target).isSome ∨
    (∃ c, .reconciled job .failed (some c) ∈ r.events ∧ OwnClaim target c ∧
      isCleanupTemporary c.name = true ∧ (r.world.files.lookup c).isSome) ∨
    NoClaim r.world target

/-- Others create an entry at the original name, when there is none. -/
def createAt (target : Place) (n : Option FileNode) (w : LocalWorld) : LocalWorld :=
  match n with
  | none => w
  | some n => if (w.files.lookup target).isSome then w
    else { w with files := w.files.insert target n }

/-- A claim that can be linked to the original name. -/
def linkable (w : LocalWorld) (target : Place) (c : FileName) : Bool :=
  !w.refuses target && (w.files.lookup ⟨target.dir, c⟩).any fun n => n.kind ≠ .directory

/-- The claim a restart links. -/
def firstLinkable (w : LocalWorld) (target : Place) : Option Place :=
  ((foundClaims w.files target).find? (linkable w target)).map (⟨target.dir, ·⟩)

/-- The claim a failed Job names. -/
def firstExisting (w : LocalWorld) (target : Place) : Option Place :=
  ((foundClaims w.files target).find? fun c => w.exists_ ⟨target.dir, c⟩).map (⟨target.dir, ·⟩)

/-- **The condition**: the first claim that is found and can be linked is one of the entry, and
where none can be linked the first that is found and exists is, or the entry has no claim on
disk. -/
def Restorable (w : LocalWorld) (job : LocalJob) (target : Place) (at_ : Stamp) : Prop :=
  w.access job.vaultId = true → w.files.lookup target = none →
    (w.rootIsDir job.vaultId = true → ∀ c, firstLinkable w target = some c → OwnClaim target c) ∧
    (w.stale job.id at_ = true →
      (w.rootIsDir job.vaultId = true → firstLinkable w target = none) →
      (w.rootIsDir job.vaultId = true ∧
        ∃ c, firstExisting w target = some c ∧ OwnClaim target c) ∨ NoClaim w target)

/-! ### A claim is unlinked once it is linked -/

variable {vaults : VaultTable} {job : LocalJob} {at_ : Stamp} {h : List LocalEvent}
  {w w' : LocalWorld} {target : Place} {id : JobId}

variable {named : Option Place} {status : JobStatus}

lemma releases_transition {L : Place → Place → Prop} :
    Meets (ReleaseLaw L id) (fun _ _ => True) (fun _ _ => True)
      (transition job.id status named at_) h := by
  refine meets_commit (fun w a w' hw => ⟨?_, trivial⟩) fun w e hw => nomatch hw
  split
  · exact releaseLaw_of_other (fun _ h => nomatch h) fun _ _ h => nomatch h
  · exact releaseLaw_checked

lemma releases_restoreFirst (cs : List FileName) :
    Meets (ReleaseLaw (fun _ _ => True) id) (fun _ _ => True) (fun _ _ => True)
      (restoreFirst target cs) h := by
  induction cs generalizing h with
  | nil => exact meets_pure trivial
  | cons c cs ih =>
      refine Meets.bind (releases_restoreClaimed trivial) fun restored _ _ => ?_
      cases restored with
      | false => exact ih
      | true =>
          refine Meets.bind (releases_look (Q := fun _ _ => True) (fun _ => trivial)
            fun _ => trivial) fun there _ _ => ?_
          cases there with
          | true => exact meets_pure trivial
          | false => exact ih

/-- **The restart unlinks a claim only once it is linked.** -/
theorem meets_reconcileFreeSpace (job : LocalJob) (at_ : Stamp) (id : JobId) :
    Meets (ReleaseLaw (fun _ _ => True) id) (fun _ _ => True) (fun _ _ => True)
      (reconcileFreeSpace job at_) [] := by
  have hlook {α : Type} {h : List LocalEvent} (f : LocalWorld → Except LocalError α) :
      Meets (ReleaseLaw (fun _ _ => True) id) (fun _ _ => True) (fun _ _ => True) (look f) h :=
    releases_look (fun _ => trivial) fun _ => trivial
  have hdecide {h : List LocalEvent} (status : JobStatus) (named : Option Place) :
      Meets (ReleaseLaw (fun _ _ => True) id) (fun _ _ => True) (fun _ _ => True)
        (do let _ ← transition job.id status named at_; pure ()) h :=
    Meets.bind releases_transition fun _ _ _ => meets_pure trivial
  refine Meets.bind (hlook _) fun allowed _ _ => ?_
  cases allowed with
  | false => exact meets_pure trivial
  | true =>
      refine Meets.handle (S := fun _ _ => True) ?_ fun e _ _ => hdecide .failed none
      refine Meets.bind (hlook _) fun isDir _ _ => ?_
      refine Meets.bind (meets_require (Q := fun _ _ => True) (fun _ => trivial) fun _ => trivial)
        fun _ _ _ => ?_
      refine Meets.bind (Q := fun _ _ => True) (meets_ask (fun w => ?_) (fun _ _ _ => trivial)
        fun _ _ _ => trivial) fun target _ _ => ?_
      · cases w.entryPath job.vaultId job.path <;>
          exact releaseLaw_of_other (fun _ h => nomatch h) fun _ _ h => nomatch h
      refine Meets.bind (hlook _) fun there _ _ => ?_
      cases there with
      | true => exact hdecide .queued none
      | false =>
          refine Meets.bind (hlook _) fun found _ _ => ?_
          refine Meets.bind (releases_restoreFirst found) fun restored _ _ => ?_
          cases restored with
          | true => exact hdecide .queued none
          | false =>
              refine Meets.bind (hlook _) fun remaining _ _ => ?_
              cases remaining with
              | cons c cs => exact hdecide .failed _
              | nil =>
                  refine Meets.bind (releases_commit (Q := fun _ _ => True) (fun _ h => nomatch h)
                    (fun _ _ h => nomatch h) (fun _ => trivial) fun _ => trivial) fun _ _ _ => ?_
                  exact hdecide .completed none

/-! ### While others create the entry -/

section Created

variable {E : LocalWorld → LocalWorld → Prop} {w₀ : LocalWorld}

/-- The others may create the original entry, when there is none. -/
def Created (target : Place) (w w' : LocalWorld) : Prop :=
  w' = w ∨ w.files.lookup target = none ∧
    ∃ n, w' = { w with files := w.files.insert target n }

/-- The others do something. -/
def Moves (E : LocalWorld → LocalWorld → Prop) : Prop := ∃ w w', E w w' ∧ w' ≠ w

/-- The original entry is there: it was from the start, a claim was linked to it, or somebody
created it. -/
structure Present (E : LocalWorld → LocalWorld → Prop) (w₀ : LocalWorld) (job : LocalJob)
    (target : Place) (h : List LocalEvent) (w : LocalWorld) : Prop where
  there : (w.files.lookup target).isSome
  path : w.entryPath job.vaultId job.path = some target
  linked : ∀ p q, .linked p q ∈ h → q = target ∧ firstLinkable w₀ target = some p ∧
    w₀.access job.vaultId = true ∧ w₀.rootIsDir job.vaultId = true ∧
    w₀.files.lookup target = none
  cause : (w₀.files.lookup target).isSome ∨ (∃ p, .linked p target ∈ h) ∨ Moves E

/-- The files are those the restart found, and it has recorded no decision. -/
structure Same (w₀ : LocalWorld) (job : LocalJob) (target : Place) (h : List LocalEvent)
    (w : LocalWorld) : Prop where
  world : ∃ cat, cat.jobs = w₀.cat.jobs ∧ w = { w₀ with cat := cat }
  path : w₀.entryPath job.vaultId job.path = some target
  absent : w₀.files.lookup target = none
  quiet : ∀ e ∈ h, e = .checked ∨ ∃ p, e = .located p

/-- The files are those the restart found, and it has decided. -/
structure LeftAsFound (w₀ : LocalWorld) (job : LocalJob) (target : Place) (at_ : Stamp)
    (h : List LocalEvent) (w : LocalWorld) : Prop where
  files : w.files = w₀.files
  absent : w₀.files.lookup target = none
  unlinked : ∀ p q, .linked p q ∉ h
  none : w₀.access job.vaultId = true → w₀.rootIsDir job.vaultId = true →
    firstLinkable w₀ target = none
  decided : (∃ status named, .reconciled job.id status named ∈ h) ↔
    w₀.access job.vaultId = true ∧ w₀.stale job.id at_ = true
  named : ∀ c, .reconciled job.id .failed (some c) ∈ h →
    w₀.rootIsDir job.vaultId = true ∧ firstExisting w₀ target = some c
  naming : w₀.access job.vaultId = true → w₀.stale job.id at_ = true →
    w₀.rootIsDir job.vaultId = true → ∀ c, firstExisting w₀ target = some c →
    .reconciled job.id .failed (some c) ∈ h

/-- What a restart comes to. -/
def RestartOutcome (E : LocalWorld → LocalWorld → Prop) (w₀ : LocalWorld) (job : LocalJob)
    (target : Place) (at_ : Stamp) (h : List LocalEvent) (w : LocalWorld) : Prop :=
  Present E w₀ job target h w ∨ LeftAsFound w₀ job target at_ h w

lemma Present.snoc (hp : Present E w₀ job target h w) {ev : LocalEvent}
    (hev : ∀ p q, ev ≠ .linked p q) (ht : (w'.files.lookup target).isSome)
    (hpath : w'.entryPath = w.entryPath) : Present E w₀ job target (h ++ [ev]) w' where
  there := ht
  path := hpath ▸ hp.path
  linked p q hpq := by
    rcases mem_append.mp hpq with hpq | hpq
    · exact hp.linked p q hpq
    · exact (hev p q (mem_singleton.mp hpq).symm).elim
  cause := by
    rcases hp.cause with hc | ⟨p, hpt⟩ | hc
    · exact .inl hc
    · exact .inr (.inl ⟨p, mem_append_left _ hpt⟩)
    · exact .inr (.inr hc)

lemma Present.checked (hp : Present E w₀ job target h w) :
    Present E w₀ job target (h ++ [.checked]) w :=
  hp.snoc (fun _ _ h => nomatch h) hp.there rfl

lemma Same.not_linked (hs : Same w₀ job target h w) {p q : Place} : .linked p q ∉ h := fun he => by
  rcases hs.quiet _ he with hev | ⟨r, hev⟩ <;> cases hev

lemma Same.not_decided (hs : Same w₀ job target h w) : .reconciled id status named ∉ h :=
  fun he => by rcases hs.quiet _ he with hev | ⟨r, hev⟩ <;> cases hev

variable (hE : ∀ w w', E w w' → Created target w w')

include hE

lemma Present.moved (hp : Present E w₀ job target h w) (hw : E w w') :
    Present E w₀ job target h w' where
  there := by
    rcases hE w w' hw with rfl | ⟨hnone, -⟩
    · exact hp.there
    · have ht := hp.there
      rw [hnone] at ht
      cases ht
  path := by
    rcases hE w w' hw with rfl | ⟨-, n, rfl⟩ <;> exact hp.path
  linked := hp.linked
  cause := hp.cause

/-- **A move of the others** leaves everything, or creates the entry. -/
lemma Same.moved (hs : Same w₀ job target h w) (hw : E w w') :
    w' = w ∨ Present E w₀ job target h w' := by
  by_cases heq : w' = w
  · exact .inl heq
  · refine .inr ⟨?_, ?_, fun p q hpq => ?_, .inr (.inr ⟨w, w', hw, heq⟩)⟩
    · rcases hE w w' hw with rfl | ⟨-, n, rfl⟩
      · exact (heq rfl).elim
      · rw [AList.lookup_insert]
        rfl
    · obtain ⟨cat, -, rfl⟩ := hs.world
      rcases hE _ w' hw with rfl | ⟨-, n, rfl⟩ <;> exact hs.path
    · exact (hs.not_linked hpq).elim

omit hE in
lemma Same.snoc (hs : Same w₀ job target h w) {ev : LocalEvent}
    (hev : ev = .checked ∨ ∃ p, ev = .located p) : Same w₀ job target (h ++ [ev]) w where
  world := hs.world
  path := hs.path
  absent := hs.absent
  quiet e he := by
    rcases mem_append.mp he with he | he
    · exact hs.quiet e he
    · exact (mem_singleton.mp he) ▸ hev

/-! ### Once the entry is there -/

lemma keepsPresent_look {α : Type} (f : LocalWorld → Except LocalError α) :
    Keeps E (Present E w₀ job target) (look f) :=
  keeps_ask (fun _ _ _ hp hw => hp.moved hE hw) fun _ _ hp => hp.checked

lemma keepsPresent_transition :
    Keeps E (Present E w₀ job target) (transition job.id status named at_) := by
  refine keeps_commit (fun _ _ _ hp hw => hp.moved hE hw) (fun h w a w' hp hw => ?_)
    fun _ _ _ _ hw => nomatch hw
  cases hw
  refine hp.snoc (fun p q => ?_) hp.there rfl
  split <;> exact fun h => nomatch h

lemma keepsPresent_decide : Keeps E (Present E w₀ job target)
      (do let _ ← transition job.id status named at_; pure () : Working Unit) :=
  Keeps.bind (keepsPresent_transition hE) fun _ => keeps_pure ()

/-- Nothing is linked to an entry that is there. -/
lemma keepsPresent_linkBack (claimed : Place) :
    Keeps E (Present E w₀ job target) (linkBack claimed target) := by
  have hoccupied {w : LocalWorld} (ht : (w.files.lookup target).isSome) :
      ∃ e, w.linkedTo claimed target = .error e := by
    rw [LocalWorld.linkedTo]
    cases w.files.lookup claimed with
    | none => exact ⟨_, rfl⟩
    | some n => exact ⟨.occupied, if_pos ht⟩
  intro h w hp
  refine wp_bind.mpr (wp_outcome.mpr (wp_commit.mpr fun w' hw => ?_))
  have hp' := hp.moved hE hw
  obtain ⟨e, he⟩ := hoccupied hp'.there
  rw [he]
  refine ⟨fun a w'' ha => ?_, fun e' he' => ⟨trivial, ?_⟩⟩
  · cases ha
  have hq : Present E w₀ job target (h ++ [.checked]) w' := hp'.checked
  cases e' with
  | occupied => exact hq
  | cancelled | leaseLost | refused _ | notFound | os | provider =>
      refine (Keeps.bind (keepsPresent_look hE _) fun still => ?_) _ _ hq
      cases still with
      | true => exact keeps_pure false
      | false => exact keeps_raise _

lemma keepsPresent_restoreClaimed (claimed : Place) :
    Keeps E (Present E w₀ job target) (restoreClaimedLocalCopy claimed target) := by
  refine Keeps.bind (keepsPresent_look hE _) fun there => ?_
  cases there with
  | false => exact keeps_pure true
  | true => exact keepsPresent_linkBack hE claimed

lemma keepsPresent_restoreFirst (cs : List FileName) :
    Keeps E (Present E w₀ job target) (restoreFirst target cs) := by
  induction cs with
  | nil => exact keeps_pure false
  | cons c cs ih =>
      refine Keeps.bind (keepsPresent_restoreClaimed hE _) fun restored => ?_
      cases restored with
      | false => exact ih
      | true =>
          refine Keeps.bind (keepsPresent_look hE _) fun there => ?_
          cases there with
          | true => exact keeps_pure true
          | false => exact ih

/-- What follows the loop over the claims. -/
lemma keepsPresent_afterClaims (found : List FileName) (restored : Bool) :
    Keeps E (Present E w₀ job target) (afterClaims job target at_ found
      restored) := by
  cases restored with
  | true => exact keepsPresent_decide hE
  | false =>
      refine Keeps.bind (keepsPresent_look hE _) fun remaining => ?_
      cases remaining with
      | cons c cs => exact keepsPresent_decide hE
      | nil =>
          refine Keeps.bind (keeps_commit (fun _ _ _ hp hw => hp.moved hE hw)
            (fun h w a w' hp hw => ?_) fun _ _ _ _ hw => nomatch hw) fun _ => keepsPresent_decide hE
          cases hw
          exact hp.snoc (fun _ _ h => nomatch h) hp.there rfl

/-- **Once the entry is there it stays**, and nothing is linked any more. -/
lemma keepsPresent_reconcileClaims :
    Keeps E (Present E w₀ job target) (reconcileClaims job target at_) :=
  Keeps.bind (keepsPresent_look hE _) fun found =>
    Keeps.bind (keepsPresent_restoreFirst hE found) fun restored =>
      keepsPresent_afterClaims hE found restored

lemma keepsPresent_unlink {p : Place} (hp : target ≠ p) :
    Keeps E (Present E w₀ job target) (unlink p) := by
  refine keeps_commit (fun _ _ _ hp hw => hp.moved hE hw) (fun h w a w' hI hw => ?_)
    fun h w e hI _ => hI.snoc (fun _ _ h => nomatch h) hI.there rfl
  obtain ⟨w'', hunlinked, hw''⟩ := map_eq_ok.mp hw
  cases hw''
  rw [LocalWorld.unlinked] at hunlinked
  split at hunlinked
  · cases hunlinked
  · split at hunlinked
    · cases hunlinked
    · cases hunlinked
      refine hI.snoc (fun _ _ h => nomatch h) ?_ rfl
      rw [AList.lookup_erase_ne hp]
      exact hI.there

/-! ### While nobody has created the entry -/

variable {R : LocalError → List LocalEvent → LocalWorld → Prop}

lemma wp_same_look {α β : Type} {f : LocalWorld → Except LocalError α} {k : α → Working β}
    {Q : β → List LocalEvent → LocalWorld → Prop} (hs : Same w₀ job target h w) {a : α}
    (hf : f w = .ok a) (hk : ∀ a, Keeps E (Present E w₀ job target) (k a))
    (hQ : ∀ b h w, Present E w₀ job target h w → Q b h w)
    (hR : ∀ e h w, Present E w₀ job target h w → R e h w)
    (hnext : Same w₀ job target (h ++ [.checked]) w →
      Wp E (Unchecked LocalWorld LocalEvent) Q R (k a) (h ++ [.checked]) w) :
    Wp E (Unchecked LocalWorld LocalEvent) Q R (look f >>= k) h w := by
  refine wp_bind.mpr (wp_ask.mpr fun w' hw => ?_)
  rcases hs.moved hE hw with rfl | hp
  · refine ⟨trivial, fun b hb => ?_, fun e he => nomatch hf.symm.trans he⟩
    cases hf.symm.trans hb
    exact hnext (hs.snoc (.inl rfl))
  · exact ⟨trivial, fun b _ => (hk b _ _ hp.checked).mono hQ hR, fun e _ => hR e _ _ hp.checked⟩

/-- After one claim: the entry is there, or the claim cannot be linked. -/
def Tried (E : LocalWorld → LocalWorld → Prop) (w₀ : LocalWorld) (job : LocalJob) (target : Place)
    (c : FileName) (restored : Bool) (h : List LocalEvent) (w : LocalWorld) : Prop :=
  Present E w₀ job target h w ∨
    restored = false ∧ linkable w₀ target c = false ∧ Same w₀ job target h w

/-- **One claim**: it is linked, or it cannot be. -/
lemma wp_same_linkBack (hrefl : ∀ w, E w w) (hs : Same w₀ job target h w) {c : FileName}
    {n : FileNode} (hc : w₀.files.lookup ⟨target.dir, c⟩ = some n) (haccess : w₀.access job.vaultId)
    (hroot : w₀.rootIsDir job.vaultId)
    (hfirst : linkable w₀ target c → firstLinkable w₀ target = some ⟨target.dir, c⟩) :
    Wp E (Unchecked LocalWorld LocalEvent) (Tried E w₀ job target c)
      (fun _ => Present E w₀ job target) (linkBack ⟨target.dir, c⟩ target) h w := by
  have hne : target ≠ ⟨target.dir, c⟩ := by
    intro heq
    rw [← heq, hs.absent] at hc
    cases hc
  refine wp_bind.mpr (wp_outcome.mpr (wp_commit.mpr fun w' hw => ?_))
  rcases hs.moved hE hw with rfl | hp
  · obtain ⟨cat, hjobs, rfl⟩ := hs.world
    have hlinkable :
        linkable w₀ target c = (!w₀.refuses target && decide (n.kind ≠ .directory)) := by
      rw [linkable, hc, Option.any_some]
    by_cases hcan : linkable w₀ target c
    · -- the link succeeds, then the claim is removed
      have hok : LocalWorld.linkedTo { w₀ with cat := cat } ⟨target.dir, c⟩ target =
          .ok { w₀ with
            cat := cat
            files := w₀.files.insert target n } := by
        rw [hlinkable, Bool.and_eq_true, Bool.not_eq_true', decide_eq_true_eq] at hcan
        rw [LocalWorld.linkedTo]
        simp only [hc, hs.absent, hcan.1, hcan.2, Option.isSome_none, Bool.false_eq_true, or_self,
          if_false]
      rw [hok]
      refine ⟨fun a w'' ha => ⟨trivial, ?_⟩, fun e he => ?_⟩
      swap
      · cases he
      cases ha
      have hp : Present E w₀ job target (h ++ [.linked ⟨target.dir, c⟩ target])
          { w₀ with
            cat := cat
            files := w₀.files.insert target n } := by
        refine ⟨?_, hs.path, fun p q hpq => ?_, .inr (.inl ⟨⟨target.dir, c⟩,
          mem_append_right _ mem_cons_self⟩)⟩
        · rw [AList.lookup_insert]
          rfl
        · rcases mem_append.mp hpq with hpq | hpq
          · exact (hs.not_linked hpq).elim
          · obtain ⟨rfl, rfl⟩ := LocalEvent.linked.inj (mem_singleton.mp hpq)
            exact ⟨rfl, hfirst hcan, haccess, hroot, hs.absent⟩
      have hrest : Keeps E (Present E w₀ job target)
          (do unlink ⟨target.dir, c⟩; pure true : Working Bool) :=
        Keeps.bind (keepsPresent_unlink hE hne) fun _ => keeps_pure true
      exact (hrest _ _ hp).mono (fun _ _ _ => .inl) fun _ _ _ hp => hp
    · -- the system refuses the link
      have hno : w₀.refuses target ∨ n.kind = .directory := by
        rw [hlinkable] at hcan
        by_contra hno
        push Not at hno
        refine hcan ?_
        simp [hno.1, hno.2]
      have herror : LocalWorld.linkedTo { w₀ with cat := cat } ⟨target.dir, c⟩ target =
          .error .os := by
        rw [LocalWorld.linkedTo]
        simp only [hc, hs.absent, Option.isSome_none, Bool.false_eq_true, if_false]
        rw [if_pos hno]
      rw [herror]
      refine ⟨fun a w'' ha => ?_, fun e he => ⟨trivial, ?_⟩⟩
      · cases ha
      cases he
      have hs₁ : Same w₀ job target (h ++ [.checked]) { w₀ with cat := cat } := hs.snoc (.inl rfl)
      have hstill : (.ok (w₀.files.lookup ⟨target.dir, c⟩).isSome : Except LocalError Bool) =
          .ok true := by
        rw [hc]
        rfl
      refine wp_same_look hE hs₁ hstill (fun still => ?_) (fun _ _ _ => .inl)
        (fun _ _ _ hp => hp) fun hs₂ => ?_
      · cases still with
        | true => exact keeps_pure false
        | false => exact keeps_raise _
      · exact .inr ⟨rfl, Bool.not_eq_true _ ▸ hcan, hs₂⟩
  · -- somebody has created the entry
    have hrest : Wp E (Unchecked LocalWorld LocalEvent) (Tried E w₀ job target c)
        (fun _ => Present E w₀ job target) (linkBack ⟨target.dir, c⟩ target) h w' :=
      (keepsPresent_linkBack hE _ h w' hp).mono (fun _ _ _ hp => .inl hp) fun _ _ _ hp => hp
    exact wp_commit.mp (wp_outcome.mp (wp_bind.mp hrest)) w' (hrefl w')

lemma wp_same_restoreClaimed (hrefl : ∀ w, E w w) (hs : Same w₀ job target h w) {c : FileName}
    {n : FileNode} (hc : w₀.files.lookup ⟨target.dir, c⟩ = some n) (haccess : w₀.access job.vaultId)
    (hroot : w₀.rootIsDir job.vaultId)
    (hfirst : linkable w₀ target c → firstLinkable w₀ target = some ⟨target.dir, c⟩) :
    Wp E (Unchecked LocalWorld LocalEvent) (Tried E w₀ job target c)
      (fun _ => Present E w₀ job target) (restoreClaimedLocalCopy ⟨target.dir, c⟩ target) h w := by
  have hlook : (.ok (w.files.lookup ⟨target.dir, c⟩).isSome : Except LocalError Bool) =
      .ok true := by
    obtain ⟨cat, -, rfl⟩ := hs.world
    dsimp only
    rw [hc]
    rfl
  refine wp_same_look hE hs hlook (fun there => ?_) (fun _ _ _ => .inl)
    (fun _ _ _ hp => hp) fun hs₁ => wp_same_linkBack hE hrefl hs₁ hc haccess hroot hfirst
  cases there with
  | false => exact keeps_pure true
  | true => exact keepsPresent_linkBack hE _

/-- **The loop**: a claim is linked, or none can be. -/
lemma wp_same_restoreFirst (hrefl : ∀ w, E w w) (haccess : w₀.access job.vaultId)
    (hroot : w₀.rootIsDir job.vaultId) (cs : List FileName) (hs : Same w₀ job target h w)
    (hcs : ∀ c ∈ cs, (w₀.files.lookup ⟨target.dir, c⟩).isSome)
    (hfirst : (cs.find? (linkable w₀ target)).map (⟨target.dir, ·⟩) = firstLinkable w₀ target) :
    Wp E (Unchecked LocalWorld LocalEvent)
      (fun restored h w => Present E w₀ job target h w ∨
        restored = false ∧ firstLinkable w₀ target = none ∧ Same w₀ job target h w)
      (fun _ => Present E w₀ job target) (restoreFirst target cs) h w := by
  induction cs generalizing h w with
  | nil => exact .inr ⟨rfl, hfirst.symm, hs⟩
  | cons c cs ih =>
      obtain ⟨n, hn⟩ := Option.isSome_iff_exists.mp (hcs c mem_cons_self)
      have hfirst' : linkable w₀ target c →
          firstLinkable w₀ target = some ⟨target.dir, c⟩ := by
        intro hcan
        rw [← hfirst, find?_cons_of_pos hcan, Option.map_some]
      have hnext : ∀ restored : Bool, Keeps E (Present E w₀ job target)
          (if restored then do
              let there ← lexists target
              if there then pure true else restoreFirst target cs
            else restoreFirst target cs : Working Bool) := by
        intro restored
        cases restored with
        | false => exact keepsPresent_restoreFirst hE cs
        | true =>
            refine Keeps.bind (keepsPresent_look hE _) fun there => ?_
            cases there with
            | true => exact keeps_pure true
            | false => exact keepsPresent_restoreFirst hE cs
      refine wp_bind.mpr ((wp_same_restoreClaimed hE hrefl hs hn haccess hroot hfirst').mono
        (fun restored h w htried => ?_) fun _ _ _ hp => hp)
      rcases htried with hp | ⟨rfl, hno, hs'⟩
      · exact (hnext restored h w hp).mono (fun _ _ _ => .inl) fun _ _ _ hp => hp
      · refine ih hs' (fun c' hc' => hcs c' (mem_cons_of_mem c hc')) ?_
        rw [← hfirst, find?_cons_of_neg (by simp [hno])]

lemma wp_same_decide (hs : Same w₀ job target h w) (haccess : w₀.access job.vaultId)
    (hnone : w₀.rootIsDir job.vaultId → firstLinkable w₀ target = none)
    (hnamed : ∀ c, named = some c →
      w₀.rootIsDir job.vaultId ∧ firstExisting w₀ target = some c)
    (hnaming : w₀.rootIsDir job.vaultId → ∀ c, firstExisting w₀ target = some c →
      status = .failed ∧ named = some c) :
    Wp E (Unchecked LocalWorld LocalEvent) (fun _ => RestartOutcome E w₀ job target at_) R
      (do let _ ← transition job.id status named at_; pure () : Working Unit) h w := by
  refine wp_bind.mpr (wp_commit.mpr fun w' hw => ?_)
  refine ⟨fun a w'' ha => ⟨trivial, ?_⟩, fun e he => nomatch he⟩
  cases ha
  rcases hs.moved hE hw with rfl | hp
  · obtain ⟨cat, hjobs, rfl⟩ := hs.world
    have hstale : LocalWorld.stale { w₀ with cat := cat } job.id at_ = w₀.stale job.id at_ := by
      rw [LocalWorld.stale, LocalWorld.stale, Catalog.job?, Catalog.job?, hjobs]
    rw [hstale]
    refine .inr ⟨rfl, hs.absent, fun p q hpq => ?_, fun _ => hnone, ?_, fun c hc => ?_, ?_⟩
    · rcases mem_append.mp hpq with hpq | hpq
      · exact (hs.not_linked hpq).elim
      · split at hpq <;> cases mem_singleton.mp hpq
    · constructor
      · rintro ⟨s, m, hsm⟩
        rcases mem_append.mp hsm with hsm | hsm
        · exact (hs.not_decided hsm).elim
        · split at hsm
          · rename_i hyes
            exact ⟨haccess, hyes⟩
          · cases mem_singleton.mp hsm
      · rintro ⟨-, hyes⟩
        rw [if_pos hyes]
        exact ⟨status, named, mem_append_right _ mem_cons_self⟩
    · rcases mem_append.mp hc with hc | hc
      · exact (hs.not_decided hc).elim
      · split at hc
        · cases mem_singleton.mp hc
          exact hnamed c rfl
        · cases mem_singleton.mp hc
    · intro _ hyes hroot c hex
      obtain ⟨rfl, rfl⟩ := hnaming hroot c hex
      rw [if_pos hyes]
      exact mem_append_right _ mem_cons_self
  · refine .inl (hp.snoc (fun p q => ?_) hp.there rfl)
    split <;> exact fun h => nomatch h

/-- What is decided when no claim can be linked. -/
lemma wp_same_afterClaims (hs : Same w₀ job target h w) (haccess : w₀.access job.vaultId)
    (hroot : w₀.rootIsDir job.vaultId) (hnone : firstLinkable w₀ target = none)
    (hR : ∀ e h w, Present E w₀ job target h w → R e h w) :
    Wp E (Unchecked LocalWorld LocalEvent) (fun _ => RestartOutcome E w₀ job target at_) R
      (afterClaims job target at_ (foundClaims w₀.files target) false) h w := by
  have hremaining : (.ok ((foundClaims w₀.files target).filter fun c => w.exists_ ⟨target.dir, c⟩) :
      Except LocalError (List FileName)) =
      .ok ((foundClaims w₀.files target).filter fun c => w₀.exists_ ⟨target.dir, c⟩) := by
    obtain ⟨cat, -, rfl⟩ := hs.world
    rfl
  refine wp_same_look hE hs hremaining (fun remaining => ?_) (fun _ _ _ => .inl) hR
    fun hs₁ => ?_
  · cases remaining with
    | cons c cs => exact keepsPresent_decide hE
    | nil =>
        refine Keeps.bind (keeps_commit (fun _ _ _ hp hw => hp.moved hE hw)
          (fun h w a w' hp hw => ?_) fun _ _ _ _ hw => nomatch hw) fun _ => keepsPresent_decide hE
        cases hw
        exact hp.snoc (fun _ _ h => nomatch h) hp.there rfl
  have hfirst : ((foundClaims w₀.files target).filter fun c => w₀.exists_ ⟨target.dir, c⟩).head? =
      (foundClaims w₀.files target).find? fun c => w₀.exists_ ⟨target.dir, c⟩ := head?_filter
  cases hfilter : (foundClaims w₀.files target).filter fun c => w₀.exists_ ⟨target.dir, c⟩ with
  | cons c cs =>
      have hnamed : firstExisting w₀ target = some ⟨target.dir, c⟩ := by
        rw [firstExisting, ← hfirst, hfilter]
        rfl
      refine wp_same_decide hE hs₁ haccess (fun _ => hnone) (fun c' hc' => ?_) fun _ c' hc' => ?_
      · exact ⟨hroot, hnamed.trans hc'⟩
      · exact ⟨rfl, hnamed.symm.trans hc'⟩
  | nil =>
      refine wp_bind.mpr (wp_commit.mpr fun w' hw => ⟨fun a w'' ha => ⟨trivial, ?_⟩,
        fun e he => nomatch he⟩)
      cases ha
      rcases hs₁.moved hE hw with rfl | hp
      · have hs₂ : Same w₀ job target (h ++ [.checked] ++ [.checked])
            { w' with cat := markLocalCopyMissing w'.cat job.vaultFileId at_ } := by
          have hs₂ : Same w₀ job target (h ++ [.checked] ++ [.checked]) w' := hs₁.snoc (.inl rfl)
          obtain ⟨cat, hjobs, rfl⟩ := hs₁.world
          exact ⟨⟨markLocalCopyMissing cat job.vaultFileId at_, hjobs, rfl⟩, hs₂.path, hs₂.absent,
            hs₂.quiet⟩
        refine wp_same_decide hE hs₂ haccess (fun _ => hnone) (fun _ h => nomatch h) ?_
        intro _ c hc
        rw [firstExisting, ← hfirst, hfilter] at hc
        cases hc
      · refine (keepsPresent_decide hE _ _ ?_).mono (fun _ _ _ => .inl) hR
        exact hp.snoc (fun _ _ h => nomatch h) hp.there rfl

omit hE in
/-- The claims that are found are there. -/
lemma foundClaims_there {fs : Files FileNode} {c : FileName} (hc : c ∈ foundClaims fs target) :
    (fs.lookup ⟨target.dir, c⟩).isSome ∧ isCleanupTemporary c := by
  rw [foundClaims, mem_insertionSort] at hc
  obtain ⟨hname, hmatches⟩ := mem_filter.mp hc
  exact ⟨mem_names.mp hname, (Bool.and_eq_true_iff.mp hmatches).2⟩

/-- The body of the branch, from the original entry on. -/
lemma keepsPresent_located {α : Type} {k : Place → Working α}
    (hk : Keeps E (Present E w₀ job target) (k target)) :
    Keeps E (Present E w₀ job target) (do let p ← locate job.vaultId job.path; k p) := by
  intro h w hp
  refine wp_bind.mpr (wp_ask.mpr fun w' hw => ?_)
  have hp' := hp.moved hE hw
  rw [hp'.path]
  refine ⟨trivial, fun p hpath => ?_, fun e he => nomatch he⟩
  cases hpath
  exact hk _ _ (hp'.snoc (fun _ _ h => nomatch h) hp'.there rfl)

lemma keepsPresent_decideAt :
    Keeps E (Present E w₀ job target) (decideAt job at_ target) := by
  refine Keeps.bind (keepsPresent_look hE _) fun there => ?_
  cases there with
  | true => exact keepsPresent_decide hE
  | false => exact keepsPresent_reconcileClaims hE

lemma keepsPresent_decideFreeSpace :
    Keeps E (Present E w₀ job target) (decideFreeSpace job at_) :=
  Keeps.bind (keepsPresent_look hE _) fun _ => Keeps.bind keeps_require fun _ =>
    keepsPresent_located hE (keepsPresent_decideAt hE)

/-- **What a restart comes to**, while others create the original entry. -/
theorem outcome_reconcileFreeSpace (hrefl : ∀ w, E w w)
    (hpath : w₀.entryPath job.vaultId job.path = some target) :
    Wp E (Unchecked LocalWorld LocalEvent) (fun _ => RestartOutcome E w₀ job target at_)
      (fun _ => RestartOutcome E w₀ job target at_) (reconcileFreeSpace job at_) [] w₀ := by
  have hallowed : ∀ allowed : Bool, Keeps E (Present E w₀ job target)
      (if allowed then orFailed job at_ (decideFreeSpace job at_) else pure ()) := by
    intro allowed
    cases allowed with
    | false => exact keeps_pure ()
    | true => exact Keeps.handle (keepsPresent_decideFreeSpace hE) fun _ => keepsPresent_decide hE
  by_cases hthere : (w₀.files.lookup target).isSome
  · have hp : Present E w₀ job target [] w₀ :=
      ⟨hthere, hpath, (fun _ _ h => nomatch h), .inl hthere⟩
    have hwhole : Keeps E (Present E w₀ job target) (reconcileFreeSpace job at_) :=
      Keeps.bind (keepsPresent_look hE _) hallowed
    exact (hwhole _ _ hp).mono (fun _ _ _ => .inl) fun _ _ _ => .inl
  have hs : Same w₀ job target [] w₀ :=
    ⟨⟨w₀.cat, rfl, rfl⟩, hpath, by simpa using hthere, fun _ h => nomatch h⟩
  refine wp_same_look hE hs rfl hallowed (fun _ _ _ => .inl) (fun _ _ _ => .inl) fun hs => ?_
  cases haccess : w₀.access job.vaultId with
  | false =>
      refine .inr ⟨rfl, hs.absent, fun _ _ => hs.not_linked, ?_, ?_, fun c hc => ?_, ?_⟩
      · exact fun hyes => nomatch haccess.symm.trans hyes
      · constructor
        · rintro ⟨s, m, hsm⟩
          exact (hs.not_decided hsm).elim
        · exact fun hyes => nomatch haccess.symm.trans hyes.1
      · exact (hs.not_decided hc).elim
      · exact fun hyes => nomatch haccess.symm.trans hyes
  | true =>
      have hfailed : Keeps E (Present E w₀ job target)
          (do let _ ← transition job.id .failed none at_; pure () : Working Unit) :=
        keepsPresent_decide hE
      have hfail {h : List LocalEvent} {w : LocalWorld} (hp : Present E w₀ job target h w) :
          Wp E (Unchecked LocalWorld LocalEvent) (fun _ => RestartOutcome E w₀ job target at_)
            (fun _ => RestartOutcome E w₀ job target at_)
            (do let _ ← transition job.id .failed none at_; pure () : Working Unit) h w :=
        (hfailed h w hp).mono (fun _ _ _ => .inl) fun _ _ _ => .inl
      refine wp_handle.mpr ?_
      refine wp_same_look hE hs rfl (fun _ => Keeps.bind keeps_require fun _ =>
        keepsPresent_located hE (keepsPresent_decideAt hE)) (fun _ _ _ => .inl)
        (fun _ _ _ hp => hfail hp) fun hs => ?_
      cases hroot : w₀.rootIsDir job.vaultId with
      | false =>
          refine wp_same_decide hE hs haccess (fun h => nomatch hroot.symm.trans h)
            (fun _ h => nomatch h) fun h => nomatch hroot.symm.trans h
      | true =>
          refine wp_bind.mpr (wp_require.mpr ⟨fun _ => ?_, fun h => (h rfl).elim⟩)
          refine wp_bind.mpr (wp_ask.mpr fun w' hw => ?_)
          rcases hs.moved hE hw with rfl | hp
          · rw [hs.path]
            refine ⟨trivial, fun p hp => ?_, fun e he => nomatch he⟩
            cases hp
            have hs := hs.snoc (.inr ⟨target, rfl⟩)
            have habsent : (.ok (w'.files.lookup target).isSome : Except LocalError Bool) =
                .ok false := by
              rw [hs.absent]
              rfl
            refine wp_same_look hE hs habsent (fun there => ?_) (fun _ _ _ => .inl)
              (fun _ _ _ hp => hfail hp) fun hs => ?_
            · cases there with
              | true => exact keepsPresent_decide hE
              | false => exact keepsPresent_reconcileClaims hE
            refine wp_same_look hE hs rfl (fun found => Keeps.bind
              (keepsPresent_restoreFirst hE found) fun _ => keepsPresent_afterClaims hE found _)
              (fun _ _ _ => .inl) (fun _ _ _ hp => hfail hp) fun hs => ?_
            refine wp_bind.mpr ((wp_same_restoreFirst hE hrefl haccess hroot _ hs
              (fun c hc => (foundClaims_there hc).1) rfl).mono (fun restored h w hdone => ?_)
              fun _ _ _ hp => hfail hp)
            rcases hdone with hp | ⟨rfl, hnone, hs⟩
            · exact (keepsPresent_afterClaims hE _ restored h w hp).mono (fun _ _ _ => .inl)
                fun _ _ _ hp => hfail hp
            · exact wp_same_afterClaims hE hs haccess hroot hnone fun _ _ _ hp => hfail hp
          · rw [hp.path]
            refine ⟨trivial, fun p hpath => ?_, fun e he => nomatch he⟩
            cases hpath
            refine (keepsPresent_decideAt hE _ _ ?_).mono (fun _ _ _ => .inl)
              fun _ _ _ hp => hfail hp
            exact hp.snoc (fun _ _ h => nomatch h) hp.there rfl

end Created

/-! ### The restart and the worker -/

lemma createAt_created (target : Place) (n : Option FileNode) (w : LocalWorld) :
    Created target w (createAt target n w) := by
  cases n with
  | none => exact .inl rfl
  | some n =>
      rw [createAt]
      split
      · exact .inl rfl
      · rename_i hnone
        exact .inr ⟨by simpa using hnone, n, rfl⟩

lemma Created.refl (target : Place) (w : LocalWorld) : Created target w w := .inl rfl

/-- A run that ended has come to an outcome. -/
lemma outcome_of_ended {E : LocalWorld → LocalWorld → Prop} {w₀ : LocalWorld} {χ : Type}
    {env : χ → LocalWorld → LocalWorld} (hrefl : ∀ w, E w w)
    (hE : ∀ w w', E w w' → Created target w w') (henv : ∀ x w, E w (env x w))
    (hpath : w₀.entryPath job.vaultId job.path = some target) {xs : List χ}
    (hended : ((reconcileFreeSpace job at_).play env w₀ xs).ending ≠ .stopped) :
    RestartOutcome E w₀ job target at_ ((reconcileFreeSpace job at_).play env w₀ xs).events
      ((reconcileFreeSpace job at_).play env w₀ xs).world := by
  have hwp : Wp E (Unchecked LocalWorld LocalEvent) (fun _ => RestartOutcome E w₀ job target at_)
      (fun _ => RestartOutcome E w₀ job target at_) (reconcileFreeSpace job at_) [] w₀ :=
    outcome_reconcileFreeSpace hE hrefl hpath
  have hout := hwp.play henv xs
  cases hending : ((reconcileFreeSpace job at_).play env w₀ xs).ending with
  | stopped => exact (hended hending).elim
  | returned a => exact hout.1 a hending
  | raised e => exact hout.2.1 e hending

lemma restart_alone {w₀ : LocalWorld} (job : LocalJob) (at_ : Stamp)
    (hpath : w₀.entryPath job.vaultId job.path = some target) :
    ∃ ns : List (Option FileNode),
      ((reconcileFreeSpace job at_).play (createAt target) w₀ ns).ending ≠ .stopped ∧
      RestartOutcome Eq w₀ job target at_
        ((reconcileFreeSpace job at_).play (createAt target) w₀ ns).events
        ((reconcileFreeSpace job at_).play (createAt target) w₀ ns).world := by
  obtain ⟨n, hn, -⟩ :=
    Prog.exists_ended (fun (_ : Unit) w => w) () (reconcileFreeSpace job at_) w₀ []
  refine ⟨([] ++ List.replicate n ()).map fun _ => none, ?_⟩
  rw [Prog.play_map]
  exact ⟨hn, outcome_of_ended (fun _ => rfl) (fun _ _ hw => .inl hw.symm) (fun _ _ => rfl) hpath hn⟩

/-- **The condition makes a restart safe.** -/
lemma survives_of_restorable {E : LocalWorld → LocalWorld → Prop} {w₀ : LocalWorld}
    (hres : Restorable w₀ job target at_) (hout : RestartOutcome E w₀ job target at_ h w)
    (hdecided : ∃ status named, .reconciled job.id status named ∈ h) :
    (w.files.lookup target).isSome ∨
      (∃ c, .reconciled job.id .failed (some c) ∈ h ∧ OwnClaim target c ∧
        isCleanupTemporary c.name ∧ (w.files.lookup c).isSome) ∨ NoClaim w target := by
  rcases hout with hp | hl
  · exact .inl hp.there
  · obtain ⟨haccess, hstale⟩ := hl.decided.mp hdecided
    rcases (hres haccess hl.absent).2 hstale (hl.none haccess) with ⟨hroot, c, hfirst, hown⟩ | hno
    · obtain ⟨name, hname, rfl⟩ := Option.map_eq_some_iff.mp hfirst
      obtain ⟨hthere, hclaim⟩ := foundClaims_there (mem_of_find?_eq_some hname)
      exact .inr (.inl ⟨_, hl.naming haccess hstale hroot _ hfirst, hown, hclaim,
        by rwa [hl.files]⟩)
    · exact .inr (.inr fun hex hhex => by rw [hl.files]; exact hno hex hhex)

/-- **A safe restart meets the condition**, when nobody moves. -/
lemma restorable_of_survives {w₀ : LocalWorld} (hout : RestartOutcome Eq w₀ job target at_ h w)
    (hsurvives : (∃ status named, .reconciled job.id status named ∈ h) →
      (w.files.lookup target).isSome ∨
      (∃ c, .reconciled job.id .failed (some c) ∈ h ∧ OwnClaim target c ∧
      isCleanupTemporary c.name ∧ (w.files.lookup c).isSome) ∨ NoClaim w target)
    (hown : RestoresOwn h) : Restorable w₀ job target at_ := by
  have hstill : ¬Moves (Eq : LocalWorld → LocalWorld → Prop) := fun ⟨_, _, heq, hne⟩ =>
    hne heq.symm
  intro haccess habsent
  rcases hout with hp | hl
  · -- a claim was linked, and it is the first that can be
    obtain ⟨p, hmem⟩ : ∃ p, .linked p target ∈ h := by
      rcases hp.cause with hthere | hlinked | hmoves
      · rw [habsent] at hthere
        cases hthere
      · exact hlinked
      · exact (hstill hmoves).elim
    obtain ⟨-, hfirst, -, hroot, -⟩ := hp.linked p target hmem
    refine ⟨fun _ c hc => ?_, fun _ hnone => (nomatch hfirst.symm.trans (hnone hroot))⟩
    cases hfirst.symm.trans hc
    exact hown p target hmem
  · refine ⟨fun hroot c hc => (nomatch (hl.none haccess hroot).symm.trans hc), fun hstale _ => ?_⟩
    rcases hsurvives (hl.decided.mpr ⟨haccess, hstale⟩) with hthere | ⟨c, hc, hclaim, -⟩ | hno
    · rw [hl.files, habsent] at hthere
      cases hthere
    · obtain ⟨hroot, hfirst⟩ := hl.named c hc
      exact .inl ⟨hroot, c, hfirst, hclaim⟩
    · exact .inr fun hex hhex => hl.files ▸ hno hex hhex

/-- **A local release loses and misplaces no bytes.**  Whatever others do, and wherever it stops,
the worker unlinks confirmed claims only, and restores its own to their name; and whatever is
created at the original name, so does the restart, which leaves an entry there, a Job that failed
naming a claim of that name, or none: exactly when the files it finds meet the condition. -/
theorem local_release_safe_iff (vaults : VaultTable) (job : LocalJob) (n : Naming) (w : LocalWorld)
    (at_ : Stamp) :
    ((∀ (χ : Type) (env : χ → LocalWorld → LocalWorld) (w₀ : LocalWorld) (xs : List χ),
        RemovesConfirmed job.id ((processFreeSpace vaults job n).steps env w₀ xs) ∧
        RestoresOwn (((processFreeSpace vaults job n).steps env w₀ xs).map Step.event)) ∧
      ∀ target, w.entryPath job.vaultId job.path = some target → ∀ ns : List (Option FileNode),
        RemovesConfirmed job.id ((reconcileFreeSpace job at_).steps (createAt target) w ns) ∧
        RestoresOwn (((reconcileFreeSpace job at_).steps (createAt target) w ns).map Step.event) ∧
        SurvivesRestart job.id target ((reconcileFreeSpace job at_).play (createAt target) w ns)) ↔
    ∀ target, w.entryPath job.vaultId job.path = some target → Restorable w job target at_ := by
  constructor
  · rintro ⟨-, hrestart⟩ target hpath
    obtain ⟨ns, hended, hout⟩ := restart_alone job at_ hpath
    obtain ⟨-, hown, hsurvives⟩ := hrestart target hpath ns
    rw [Prog.steps_events] at hown
    exact restorable_of_survives hout (hsurvives hended) hown
  · intro hres
    constructor
    · intro χ env w₀ xs
      constructor
      · intro before s after hs
        exact ((meets_processFreeSpace vaults job n).steps env w₀ hs).removed
      · intro p q hpq
        obtain ⟨s, hs, hev⟩ := mem_map.mp hpq
        obtain ⟨before, after, hsplit⟩ := append_of_mem hs
        exact ((meets_processFreeSpace vaults job n).steps env w₀ hsplit).linked p q hev
    · intro target hpath ns
      have hE : ∀ n w, Created target w (createAt target n w) := createAt_created target
      refine ⟨fun before s after hs =>
        ((meets_reconcileFreeSpace job at_ job.id).steps _ w hs).removed, ?_, ?_⟩
      · -- a run that was stopped goes on to its end, and links no more than that
        rw [Prog.steps_events]
        obtain ⟨k, hended, hevents⟩ :=
          Prog.exists_ended (createAt target) none (reconcileFreeSpace job at_) w ns
        have hout := outcome_of_ended (Created.refl target) (fun _ _ => id) hE hpath hended
        intro p q hpq
        rcases hout with hp | hl
        · obtain ⟨rfl, hfirst, haccess, hroot, habsent⟩ := hp.linked p q (hevents.subset hpq)
          exact (hres q hpath haccess habsent).1 hroot p hfirst
        · exact (hl.unlinked p q (hevents.subset hpq)).elim
      · intro hended hdecided
        exact survives_of_restorable (hres target hpath)
          (outcome_of_ended (Created.refl target) (fun _ _ => id) hE hpath hended) hdecided

/-! ### Names -/

/-- A release of `[a]` was interrupted after it claimed the file. -/
def interruptedRelease : LocalWorld :=
  { emptyVolume { recoverableCatalog with
      jobs := [{ claimedRecovery 1 ['[', 'a', ']'] with
        action := .freeSpace
        status := .cleaning
        claimExpiresAt := some 50 }]
      jobIds_nodup := by simp } with
    files := AList.insert (claimOf ⟨0, ['[', 'a', ']']⟩ zeros.hex)
      ⟨⟨2, 4, 0, 0⟩, .regular, 8, .other⟩ ∅ }

/-- **A claim behind a pattern**: the name `[a]` is read as a set, its claim is not found, and the
Job is completed with the file still under its temporary name. -/
theorem claim_lost_behind_pattern :
    ¬SurvivesRestart 1 ⟨0, ['[', 'a', ']']⟩
      ((reconcileFreeSpace ⟨1, 0, 1, ['[', 'a', ']'], 7⟩ 60).play
        (createAt ⟨0, ['[', 'a', ']']⟩) interruptedRelease (List.replicate 8 none)) := by
  intro hsurvives
  have hdecided : ((reconcileFreeSpace ⟨1, 0, 1, ['[', 'a', ']'], 7⟩ 60).play
      (createAt ⟨0, ['[', 'a', ']']⟩) interruptedRelease (List.replicate 8 none)).events.getLast? =
        some (.reconciled 1 .completed none) := rfl
  rcases hsurvives (by decide) ⟨_, _, mem_of_getLast? hdecided⟩ with hthere | ⟨c, hc, -⟩ | hno
  · revert hthere
    decide
  · have hnone : ((reconcileFreeSpace ⟨1, 0, 1, ['[', 'a', ']'], 7⟩ 60).play
        (createAt ⟨0, ['[', 'a', ']']⟩) interruptedRelease (List.replicate 8 none)).events.all
          (fun | .reconciled _ .failed _ => false | _ => true) = true := by decide
    exact nomatch all_eq_true.mp hnone _ hc
  · have hlost := hno zeros.hex zeros.hex_uuid
    revert hlost
    decide

end Frostvault
