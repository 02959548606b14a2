import Frostvault.Lib.Runs
import Frostvault.Upload.Journal

/-!
One unresolved send per file.

An attempt that owns its lease holds the intent its Job is bound to, in the state its phase
assumes; so the transactions of `Frostvault.Upload.Journal` apply to it, and they keep the
invariant of the journal.

* `AttemptInv`: what an attempt that owns its lease relies on;
* `Progress`: everything a step of an attempt does;
* `attemptStep_progress`: one case per step;
* `uploadInv_step`: every step of the system keeps the invariants;
* `one_unresolved_send`: **at most one send of a file is unresolved**.
-/

namespace Frostvault

open Option List Checks Runs

variable {db db' : UploadDb} {s s' : UploadState} {a b : Attempt}

/-! ### What an attempt relies on -/

/-- The intent an attempt is working on. -/
def AttemptPhase.intent? : AttemptPhase → Option UploadIntent
  | .resuming i | .reconciling i _ | .found i _ | .prepared i _ _ | .armed i | .calling i
  | .sending i _ | .refused i _ | .answered i _ | .acknowledged i _ => some i
  | _ => none

/-- The phase assumes that the send of its intent has started. -/
def AttemptPhase.started : AttemptPhase → Bool
  | .resuming _ | .reconciling _ _ | .found _ _ | .armed _ | .calling _ | .sending _ _
  | .refused _ _ | .answered _ _ | .acknowledged _ _ => true
  | _ => false

/-- The phase is one of a Job that may send. -/
def AttemptPhase.ordinary : AttemptPhase → Bool
  | .unlinked _ | .hashed _ | .digested _ | .reusing _ | .pinned _ _ _ | .prepared _ _ _
  | .armed _ | .calling _ | .sending _ _ | .refused _ _ | .answered _ _ | .acknowledged _ _ =>
      true
  | _ => false

/-- The send is committed and its call has not passed its check yet. -/
def AttemptPhase.ready? : AttemptPhase → Option UploadIntent
  | .armed i | .calling i => some i
  | _ => none

/-- The intent is a row the Job is bound to; a started one has started. -/
def Holds (db : UploadDb) (job : JobId) (i : UploadIntent) (started : Bool) : Prop :=
  ∃ r ∈ db.intents, r.id = i.id ∧ r.token = i.token ∧ (job, r.id) ∈ db.intentJobs ∧
    (started = true → r.sendStarted = true)

/-- What holds of every attempt. -/
structure AttemptInv (db : UploadDb) (a : Attempt) : Prop where
  row : ∃ j ∈ db.cat.jobs, j.id = a.job.row.id ∧ j.vaultFileId = a.job.row.vaultFileId ∧
    (a.job.row.uploadReconcileOnly = false → j.uploadReconcileOnly = false)
  holds : claimOwned db a.job = true → ∀ i, a.phase.intent? = some i →
    Holds db a.job.row.id i a.phase.started
  ordinary : a.phase.ordinary = true → a.job.row.uploadReconcileOnly = false

/-- The intents of an attempt are not touched by the transactions of others. -/
lemma AttemptInv.frame (h : AttemptInv db b) {touched : IntentId → Prop}
    (hm : Moved db db' touched) (hl : claimOwned db' b.job → claimOwned db b.job)
    (hun : claimOwned db b.job → ∀ i, (b.job.row.id, i) ∈ db.intentJobs → ¬touched i) :
    AttemptInv db' b where
  row := by
    obtain ⟨j, hj, hid, hf, hro⟩ := h.row
    obtain ⟨j', hj', hid', hf', hro'⟩ := hm.jobs j hj
    exact ⟨j', hj', hid'.trans hid, hf'.trans hf, fun hlocal => hro' (hro hlocal)⟩
  holds ho i hi := by
    obtain ⟨r, hr, hrid, hrt, hb, hs⟩ := h.holds (hl ho) i hi
    obtain ⟨k, hk, hkid, hkt, hks⟩ := hm.intents r hr (hun (hl ho) r.id hb)
    exact ⟨k, hk, hkid.trans hrid, hkt.trans hrt, hkid ▸ hm.bound _ hb,
      fun hst => hks (hs hst)⟩
  ordinary := h.ordinary

variable {act : UploadAct} {es : List UploadEvent} {i : UploadIntent} {p : AttemptPhase}

lemma AttemptInv.goto (h : AttemptInv db a)
    (hholds : claimOwned db a.job → ∀ i, p.intent? = some i →
      Holds db a.job.row.id i p.started)
    (hord : p.ordinary → a.job.row.uploadReconcileOnly = false) :
    AttemptInv db (a.goto p) :=
  ⟨h.row, hholds, hord⟩

lemma AttemptInv.ownedRow (h : AttemptInv db a) (ho : claimOwned db a.job) :
    ∃ j ∈ db.cat.jobs, j.id = a.job.row.id ∧ j.vaultFileId = a.job.row.vaultFileId ∧
      j.status.terminal = false ∧ j.claimToken = some a.claim ∧
      (a.job.row.uploadReconcileOnly = false → j.uploadReconcileOnly = false) := by
  obtain ⟨j, hj, hid, hc, ht⟩ := claimOwned_iff.mp ho
  obtain ⟨k, hk, hkid, hkf, hkro⟩ := h.row
  obtain rfl := db.cat.job_eq_of_id_eq hj hk (hid.trans hkid.symm)
  exact ⟨j, hj, hid, hkf, ht, hc, hkro⟩

/-! ### Steps of an attempt -/

/-- What a step writes into the history, with what held when it did. -/
inductive EventsOf (db db' : UploadDb) (a a' : Attempt) : List UploadEvent → Prop
  | silent (hsends : KeepsSends db db') (hready : ∀ i, a'.phase.ready? = some i →
      a.phase.ready? = some i) : EventsOf db db' a a' []
  | called (c : SendCall) (hsends : KeepsSends db db') (hready : ∀ i, a'.phase.ready? = some i →
      a.phase.ready? = some i) : EventsOf db db' a a' [.called c]
  | received (i : IntentId) (hsends : KeepsSends db db') (hready : a'.phase.ready? = none)
      (hresp : responses db' i ≠ []) : EventsOf db db' a a' [.received i]
  | noWrite (i : UploadIntent) (op : String) (ho : claimOwned db a.job = true)
      (hb : (a.job.row.id, i.id) ∈ db.intentJobs) (hready : a'.phase.ready? = none)
      (hop : (NoWriteOperation.ofName op).isSome = true) (hresp : responses db i.id = []) :
      EventsOf db db' a a' [.noWrite i.id op]
  | armed (i r : UploadIntent) (ho : claimOwned db a.job = true) (hsends : KeepsSends db db')
      (hready : a'.phase.ready? = some i) (hr : r ∈ db.intents) (hid : r.id = i.id)
      (htok : r.token = i.token) (hun : r.sendStarted = false)
      (hresp : responses db i.id = []) : EventsOf db db' a a' [.armed a.claim i.id i.token]
  | sent (i r : UploadIntent) (ho : claimOwned db a.job = true) (hdb : db' = db)
      (hready : a.phase.ready? = some i) (hready' : a'.phase.ready? = none)
      (hr : r ∈ db.intents) (hid : r.id = i.id) (htok : r.token = i.token)
      (hb : (a.job.row.id, r.id) ∈ db.intentJobs) (hs : r.sendStarted = true)
      (hro : (sendCall db a i).reconcileOnly = false) :
      EventsOf db db' a a' [.sent (sendCall db a i)]

/-- **Everything a step of an attempt does.**  It touches at most the intent its Job is
bound to, and that only while it owns its lease. -/
structure Progress (db db' : UploadDb) (a a' : Attempt) (es : List UploadEvent) : Prop where
  journal : JournalInv db'
  moved : Moved db db' fun i => claimOwned db a.job = true ∧ (a.job.row.id, i) ∈ db.intentJobs
  leases : NoNewLease db db'
  claim : a'.claim = a.claim
  job : a'.job.row.id = a.job.row.id
  attempt : AttemptInv db' a'
  events : EventsOf db db' a a' es

lemma Progress.untouched (h : AttemptInv db a) (hj : JournalInv db')
    (hm : Moved db db' fun _ => False) (hl : NoNewLease db db')
    (hholds : claimOwned db' a.job → ∀ i, p.intent? = some i →
      Holds db' a.job.row.id i p.started)
    (hord : p.ordinary → a.job.row.uploadReconcileOnly = false)
    (he : EventsOf db db' a (a.goto p) es) : Progress db db' a (a.goto p) es :=
  ⟨hj, hm.mono fun _ => False.elim, hl, rfl, rfl,
    (h.frame hm (hl a.job) fun _ _ _ => id).goto hholds hord, he⟩

lemma Progress.stay (h : AttemptInv db a) (hj : JournalInv db)
    (hholds : claimOwned db a.job → ∀ i, p.intent? = some i →
      Holds db a.job.row.id i p.started)
    (hord : p.ordinary → a.job.row.uploadReconcileOnly = false)
    (he : EventsOf db db a (a.goto p) es) : Progress db db a (a.goto p) es :=
  Progress.untouched h hj (Moved.refl db _) (fun _ ho => ho) hholds hord he

lemma EventsOf.silent_of_none (hsends : KeepsSends db db')
    (hp : p.ready? = none) : EventsOf db db' a (a.goto p) [] :=
  .silent hsends fun i hi => by
    rw [show (a.goto p).phase = p from rfl, hp] at hi
    cases hi

/-- The loaded intent is the one the Job is bound to. -/
lemma progress_loadIntent (hj : JournalInv db) (h : AttemptInv db a) {o : Option UploadIntent}
    (ho : claimOwned db a.job) (hok : loadIntent db a.job = .ok (o, db')) :
    Progress db db' a (a.goto (.afterLoad o)) [] := by
  obtain ⟨j, hjm, hid, hf, -⟩ := h.ownedRow ho
  obtain ⟨hinv, hmoved, hl, hrow⟩ := loadIntent_spec hj hjm hid hf hok
  refine Progress.untouched h hinv hmoved hl (fun _ i hi => ?_) ?_
    (EventsOf.silent_of_none hmoved.keepsSends ?_)
  · cases o with
    | none => simp [AttemptPhase.afterLoad, AttemptPhase.intent?] at hi
    | some k =>
        obtain ⟨hk, hb⟩ := hrow k rfl
        by_cases hs : k.sendStarted
        · simp only [AttemptPhase.afterLoad, if_pos hs, AttemptPhase.intent?,
            Option.some.injEq] at hi ⊢
          rw [← hi]
          exact ⟨k, hk, rfl, rfl, hb, fun _ => hs⟩
        · simp [AttemptPhase.afterLoad, hs, AttemptPhase.intent?] at hi
  · cases o with
    | none => simp [AttemptPhase.afterLoad, AttemptPhase.ordinary]
    | some k => by_cases hs : k.sendStarted = true <;>
        simp [AttemptPhase.afterLoad, hs, AttemptPhase.ordinary]
  · cases o with
    | none => rfl
    | some k => by_cases hs : k.sendStarted = true <;>
        simp [AttemptPhase.afterLoad, hs, AttemptPhase.ready?]

/-- A send that never landed is closed, and the Job may send again. -/
lemma progress_rearm (hj : JournalInv db) (h : AttemptInv db a)
    {raw : Option UploadResponse} (hp : a.phase = .reconciling i raw)
    (ho : claimOwned db a.job) (hok : rearmAfterProvenAbsence db a.job i = .ok db') :
    Progress db db' a (a.rearmed.goto (.loaded (some i))) [.noWrite i.id "ProvenAbsent"] := by
  obtain ⟨j, hjm, hid, hf, hjt, -, hro⟩ := h.ownedRow ho
  obtain ⟨r, -, hrid, -, hb, -⟩ := h.holds ho i (by rw [hp]; rfl)
  rw [hrid] at hb
  obtain ⟨hresp, hinv, hmoved, hl, j', hj', hjid', hjf', hfree⟩ :=
    rearm_spec hj hjm hid hjt hro hb hok
  refine ⟨hinv, hmoved.mono ?_, hl, rfl, rfl, ⟨?_, ?_, ?_⟩,
    .noWrite i "ProvenAbsent" ho hb rfl rfl hresp⟩
  · rintro k rfl
    exact ⟨ho, hb⟩
  · exact ⟨j', hj', hjid'.trans hid, hjf'.trans hf, fun _ => hfree⟩
  · intro _ k hk
    simp [Attempt.goto, AttemptPhase.intent?] at hk
  · intro hord
    simp [Attempt.goto, AttemptPhase.ordinary] at hord

variable {r : UploadResponse} {snap : UploadSnapshot}

section

variable (hj : JournalInv db)

include hj

section

variable (h : AttemptInv db a)

include h

/-- A response is published for an intent whose send has started. -/
lemma progress_publish {v : RowId} (hi : a.phase.intent? = some i) (hst : a.phase.started)
    (hp : p.intent? = none) (hp' : p.ordinary = false) (hp'' : p.ready? = none)
    (ho : claimOwned db a.job) (hok : publishUploadReceipt db a.job i r v = .ok db') :
    Progress db db' a (a.goto p) [] := by
  obtain ⟨k, hk, hkid, -, -, hks⟩ := h.holds ho i hi
  obtain ⟨hinv, hmoved, hl⟩ := publishUploadReceipt_spec hj hk hkid (hks hst) hok
  refine Progress.untouched h hinv hmoved hl (fun _ c hc => ?_) (fun hord => ?_)
    (EventsOf.silent_of_none hmoved.keepsSends hp'')
  · rw [hp] at hc
    cases hc
  · rw [hp'] at hord
    cases hord

/-- The prepared intent is the one the Job is bound to. -/
lemma progress_prepare {q : Prepared} {at_ : Stamp} {before : Inventory}
    (hord : a.phase.ordinary) (ho : claimOwned db a.job)
    (hok : prepare db a.job q at_ = .ok (i, db')) :
    Progress db db' a (a.goto (.prepared i snap before)) [] := by
  obtain ⟨j, hjm, hid, hf, hjt, -⟩ := h.ownedRow ho
  obtain ⟨hinv, hmoved, hl, hsends, r, hr, hrid, hrt, hb⟩ := prepare_spec hj hjm hid hf hjt hok
  refine ⟨hinv, hmoved.mono fun k hk => ⟨ho, hk⟩, hl, rfl, rfl, ⟨?_, ?_, ?_⟩,
    EventsOf.silent_of_none hsends rfl⟩
  · obtain ⟨k, hk, hkid, hkf, hkro⟩ := h.row
    obtain ⟨k', hk', hkid', hkf', hkro'⟩ := hmoved.jobs k hk
    exact ⟨k', hk', hkid'.trans hkid, hkf'.trans hkf, fun hlocal => hkro' (hkro hlocal)⟩
  · intro _ k hk
    obtain rfl : i = k := by simpa [Attempt.goto, AttemptPhase.intent?] using hk
    exact ⟨r, hr, hrid, hrt, hb, by simp [Attempt.goto, AttemptPhase.started]⟩
  · intro _
    exact h.ordinary hord

/-- The start of a send is committed. -/
lemma progress_markSendStarted {before : Inventory} (hp : a.phase = .prepared i snap before)
    (ho : claimOwned db a.job) (hok : markSendStarted db a.job i = .ok db') :
    Progress db db' a (a.goto (.armed i)) [.armed a.claim i.id i.token] := by
  obtain ⟨j, hjm, hid, hf, hjt, -, hro⟩ := h.ownedRow ho
  have hlocal := h.ordinary (by rw [hp]; rfl)
  obtain ⟨r, hr, hrid, hrt, hb, -⟩ := h.holds ho i (by rw [hp]; rfl)
  obtain ⟨hresp, hun, hinv, hmoved, hcat, hjobs, hset⟩ :=
    markSendStarted_spec hj hjm hid hjt (hro hlocal) hr hrid hb hok
  refine Progress.untouched h hinv hmoved (NoNewLease.ofCat hcat) (fun _ k hk => ?_)
    (fun _ => hlocal) (.armed i r ho hmoved.keepsSends rfl hr hrid hrt hun hresp)
  obtain rfl : i = k := by simpa [AttemptPhase.intent?] using hk
  exact ⟨_, hset, hrid, hrt, hjobs ▸ hb, fun _ => rfl⟩

lemma progress_recordNoWrite {op : String} (hp : a.phase = .refused i op)
    (ho : claimOwned db a.job) (hok : recordNoWrite db a.job i op = .ok db') :
    Progress db db' a (a.goto .over) [.noWrite i.id op] := by
  obtain ⟨hop, hresp, -, -, -, -, hinv, hmoved, hcat, -⟩ := recordNoWrite_spec hj hok
  obtain ⟨r, -, hrid, -, hb, -⟩ := h.holds ho i (by rw [hp]; rfl)
  rw [hrid] at hb
  refine ⟨hinv, hmoved.mono ?_, NoNewLease.ofCat hcat, rfl, rfl, ⟨?_, ?_, ?_⟩,
    .noWrite i op ho hb rfl hop hresp⟩
  · rintro k rfl
    exact ⟨ho, hb⟩
  · obtain ⟨k, hk, hkid, hkf, hkro⟩ := h.row
    exact ⟨k, hcat ▸ hk, hkid, hkf, hkro⟩
  · intro _ k hk
    simp [Attempt.goto, AttemptPhase.intent?] at hk
  · intro hord
    simp [Attempt.goto, AttemptPhase.ordinary] at hord

/-- A response is appended, by whichever worker it reaches. -/
lemma progress_appendReceipt (hi : a.phase.intent? = some i) (hst : a.phase.started)
    (hp : p.intent? = some i) (hord : p.ordinary → a.phase.ordinary)
    (hp' : p.ready? = none) :
    Progress db (appendReceipt db i.id r) a (a.goto p) [.received i.id] := by
  obtain ⟨hc, hrows, hjobs, hu, hmem, hrec⟩ := addFact_spec db i.id (.response r)
  have hmoved := Moved.addFact db i.id (.response r) fun _ => False
  refine Progress.untouched h (hj.addFact _ _) hmoved (NoNewLease.ofCat hc) (fun ho k hk => ?_)
    (fun ho => h.ordinary (hord ho)) (.received i.id hmoved.keepsSends hp' ?_)
  · obtain rfl : i = k := by simpa [hp] using hk
    obtain ⟨c, hcm, hcid, hct, hcb, hcs⟩ := h.holds (NoNewLease.ofCat hc _ ho) i hi
    exact ⟨c, hrows ▸ hcm, hcid, hct, hjobs ▸ hcb, fun _ => hcs hst⟩
  · intro hnil
    have := mem_responses_iff.mpr hmem
    rw [show responses (db.addFact i.id (.response r)) i.id = [] from hnil] at this
    cases this

lemma progress_passCheck (hp : a.phase = .calling i) (ho : claimOwned db a.job) :
    Progress db db a (a.goto (.sending i none)) [.sent (sendCall db a i)] := by
  obtain ⟨j, hjm, hid, -, -, -, hro⟩ := h.ownedRow ho
  have hlocal := h.ordinary (by rw [hp]; rfl)
  obtain ⟨r, hr, hrid, hrt, hb, hs⟩ := h.holds ho i (by rw [hp]; rfl)
  have hs' := hs (by rw [hp]; rfl)
  refine Progress.stay h hj (fun _ k hk => ?_) (fun _ => hlocal)
    (.sent i r ho rfl (by rw [hp]; rfl) rfl hr hrid hrt hb hs' ?_)
  · obtain rfl : i = k := by simpa [AttemptPhase.intent?] using hk
    exact ⟨r, hr, hrid, hrt, hb, fun _ => hs'⟩
  · have hjob := db.cat.job?_eq_of_mem hjm
    simp only [sendCall, ← hid, hjob, any_some]
    exact hro hlocal

/-- A Job column changes on the way to a phase without an intent. -/
lemma progress_updateJob {g : Job → Job} {hid : ∀ j, (g j).id = j.id}
    (hg : ∀ j, (g j).lease = j.lease) (hp : p.intent? = none)
    (hord : p.ordinary → a.phase.ordinary) (hp' : p.ready? = none) :
    Progress db (db.updateJob a.job.row.id g hid) a (a.goto p) [] := by
  obtain ⟨hinv, hmoved, hl⟩ := updateJob_spec hj a.job.row.id hid hg
    fun _ => False
  refine Progress.untouched h hinv hmoved hl (fun _ i hi => ?_) (fun ho => h.ordinary (hord ho))
    (EventsOf.silent_of_none hmoved.keepsSends hp')
  rw [hp] at hi
  cases hi

lemma progress_plain (hp : p.intent? = none)
    (hord : p.ordinary → a.job.row.uploadReconcileOnly = false) (hp' : p.ready? = none) :
    Progress db db a (a.goto p) [] := by
  refine Progress.stay h hj (fun _ i hi => ?_) hord
    (EventsOf.silent_of_none (Moved.refl db _).keepsSends hp')
  rw [hp] at hi
  cases hi

lemma progress_same (hp : p.intent? = a.phase.intent?)
    (hst : p.started → a.phase.started)
    (hord : p.ordinary → a.phase.ordinary) (hp' : p.ready? = none) :
    Progress db db a (a.goto p) [] := by
  refine Progress.stay h hj (fun ho i hi => ?_) (fun ho => h.ordinary (hord ho))
    (EventsOf.silent_of_none (Moved.refl db _).keepsSends hp')
  obtain ⟨r, hr, hid, ht, hb, hs⟩ := h.holds ho i (hp ▸ hi)
  exact ⟨r, hr, hid, ht, hb, fun h' => hs (hst h')⟩

end

end

/-- A `Progress` leads to `s'`. -/
def StepsTo (s : UploadState) (a : Attempt) (s' : UploadState) : Prop :=
  ∃ a' db' es, s' = s.put a' db' es ∧ Progress s.db db' a a' es

lemma StepsTo.of {a' : Attempt} (hs : some (s.put a' db' es) = some s')
    (hp : Progress s.db db' a a' es) : StepsTo s a s' :=
  ⟨a', db', es, (Option.some.inj hs).symm, hp⟩

lemma owned_of_unit {α : Type} {job : WorkerJob} {key : ObjectKey} {m : Outcome α}
    {f : α → Option UploadState}
    (h : (uploadCatalogUnit db job key m).toOption.bind f = some s') :
    ∃ x, claimOwned db job ∧ m = .ok x ∧ f x = some s' := by
  obtain ⟨x, hx, hf⟩ := bind_eq_some_iff.mp h
  obtain ⟨-, ho, hok⟩ := uploadCatalogUnit_eq_ok_iff.mp (toOption_eq_some_iff.mp hx)
  exact ⟨x, ho, hok, hf⟩

section Steps

variable (hj : JournalInv s.db) (h : AttemptInv s.db a) {n : ℕ} {key : ObjectKey}
include hj h

lemma stepsTo_loadIntent (hstep : attemptStep s a (.loadIntent n key) = some s') :
    StepsTo s a s' := by
  obtain ⟨-, -, hstep⟩ := bind_eq_some_iff.mp hstep
  obtain ⟨⟨o, db'⟩, ho, hok, hs⟩ := owned_of_unit hstep
  exact .of hs (progress_loadIntent hj h ho hok)

lemma stepsTo_readReceipt (hstep : attemptStep s a (.readReceipt n key) = some s') :
    StepsTo s a s' := by
  simp only [attemptStep] at hstep
  split at hstep
  · rename_i i hp
    obtain ⟨raw, hunit, hs⟩ := bind_eq_some_iff.mp hstep
    exact .of hs (progress_same hj h (by rw [hp]; rfl)
      (fun _ => by rw [hp]; rfl) (fun hord => by cases hord)
      rfl)
  · cases hstep

lemma stepsTo_linkIntent (hstep : attemptStep s a (.linkIntent n key) = some s') :
    StepsTo s a s' := by
  simp only [attemptStep] at hstep
  split at hstep
  · rename_i i raw hp
    obtain ⟨v, -, hstep⟩ := bind_eq_some_iff.mp hstep
    obtain ⟨-, -, hstep⟩ := bind_eq_some_iff.mp hstep
    obtain ⟨db', ho, hok, hs⟩ := owned_of_unit hstep
    cases hok
    exact .of hs (progress_updateJob (g := Job.linkVersion v) hj h
      (fun _ => rfl) rfl (fun hord => by cases hord) rfl)
  · cases hstep

lemma stepsTo_reconciled
    (hstep : attemptStep s a (.reconciled n r) = some s') : StepsTo s a s' := by
  simp only [attemptStep] at hstep
  split at hstep
  · rename_i i raw hp
    obtain ⟨-, -, hs⟩ := bind_eq_some_iff.mp hstep
    exact .of hs (progress_appendReceipt hj h (by rw [hp]; rfl)
      (by rw [hp]; rfl) rfl (fun hord => by cases hord) rfl)
  · cases hstep

lemma stepsTo_rearm {paused : Bool} (hstep : attemptStep s a (.rearm n key paused) = some s') :
    StepsTo s a s' := by
  simp only [attemptStep] at hstep
  split at hstep
  · rename_i i hp
    obtain ⟨-, -, hstep⟩ := bind_eq_some_iff.mp hstep
    obtain ⟨-, -, hstep⟩ := bind_eq_some_iff.mp hstep
    obtain ⟨db', ho, hok, hs⟩ := owned_of_unit hstep
    exact .of hs (progress_rearm hj h hp ho hok)
  · cases hstep

lemma stepsTo_publish {recorded : RowId}
    (hstep : attemptStep s a (.publish n key recorded) = some s') : StepsTo s a s' := by
  simp only [attemptStep] at hstep
  split at hstep
  · rename_i i r hp
    obtain ⟨db', ho, hok, hs⟩ := owned_of_unit hstep
    exact .of hs (progress_publish hj h (by rw [hp]; rfl) (by rw [hp]; rfl) rfl rfl rfl ho hok)
  · rename_i i r hp
    obtain ⟨db', ho, hok, hs⟩ := owned_of_unit hstep
    exact .of hs (progress_publish hj h (by rw [hp]; rfl) (by rw [hp]; rfl) rfl rfl rfl ho hok)
  · cases hstep

lemma stepsTo_readTarget (hstep : attemptStep s a (.readTarget n key) = some s') :
    StepsTo s a s' := by
  simp only [attemptStep] at hstep
  split at hstep
  · rename_i i hp
    obtain ⟨-, hunit, hstep⟩ := bind_eq_some_iff.mp hstep
    obtain ⟨a', ha', hs⟩ := bind_eq_some_iff.mp hstep
    refine ⟨a', s.db, [], (Option.some.inj hs).symm, ?_⟩
    unfold afterTarget at ha'
    split at ha'
    · cases ha'
      exact progress_plain hj h rfl
        (fun hord => by cases hord) rfl
    · split at ha'
      · cases ha'
      · rename_i hro
        cases ha'
        have hplain := progress_plain
          (p := .unlinked ((s.db.cat.job? a.job.row.id).bind Job.uploadSnapshot)) hj h rfl
          (fun _ => by simpa using hro) rfl
        exact ⟨hplain.journal, hplain.moved, hplain.leases, rfl, rfl,
          ⟨h.row, hplain.attempt.holds, hplain.attempt.ordinary⟩,
          .silent (Moved.refl s.db _).keepsSends fun k hk =>
            absurd hk (by simp [AttemptPhase.ready?])⟩
  · cases hstep

lemma stepsTo_hash (hstep : attemptStep s a (.hash n snap) = some s') :
    StepsTo s a s' := by
  simp only [attemptStep] at hstep
  split at hstep
  · rename_i old hp
    obtain ⟨-, -, hs⟩ := bind_eq_some_iff.mp hstep
    exact .of hs (progress_plain hj h rfl (fun _ => h.ordinary (by rw [hp]; rfl)) rfl)
  · cases hstep

lemma stepsTo_prepareDigest {reusable : Option RowId}
    (hstep : attemptStep s a (.prepareDigest n key reusable) = some s') : StepsTo s a s' := by
  simp only [attemptStep] at hstep
  split at hstep
  · rename_i snap hp
    obtain ⟨db', ho, hok, hs⟩ := owned_of_unit hstep
    cases hok
    have hord : a.phase.ordinary := by rw [hp]; rfl
    refine .of hs (progress_updateJob (g := Job.setUploadSnapshot snap) hj h (fun _ => rfl) ?_
      (fun _ => hord) ?_) <;> cases reusable <;> rfl
  · cases hstep

lemma stepsTo_linkReusable (hstep : attemptStep s a (.linkReusable n key) = some s') :
    StepsTo s a s' := by
  simp only [attemptStep] at hstep
  split at hstep
  · rename_i v hp
    obtain ⟨db', ho, hok, hs⟩ := owned_of_unit hstep
    cases hok
    exact .of hs (progress_updateJob (g := Job.linkVersion v) hj h
      (fun _ => rfl) rfl (fun hord => by cases hord) rfl)
  · cases hstep

lemma stepsTo_pin {provider : String} {before : Inventory}
    (hstep : attemptStep s a (.pin n key provider before) = some s') : StepsTo s a s' := by
  simp only [attemptStep] at hstep
  split at hstep
  · rename_i snap hp
    obtain ⟨t, -, hs⟩ := bind_eq_some_iff.mp hstep
    exact .of hs (progress_plain hj h rfl (fun _ => h.ordinary (by rw [hp]; rfl)) rfl)
  · cases hstep

lemma stepsTo_prepare {at_ : Stamp} (hstep : attemptStep s a (.prepare n key at_) = some s') :
    StepsTo s a s' := by
  simp only [attemptStep] at hstep
  split at hstep
  · rename_i snap t before hp
    obtain ⟨⟨i, db'⟩, ho, hok, hs⟩ := owned_of_unit hstep
    exact .of hs (progress_prepare hj h (by rw [hp]; rfl) ho hok)
  · cases hstep

lemma stepsTo_markSendStarted (hstep : attemptStep s a (.markSendStarted n key) = some s') :
    StepsTo s a s' := by
  simp only [attemptStep] at hstep
  split at hstep
  · rename_i i snap before hp
    obtain ⟨-, -, hstep⟩ := bind_eq_some_iff.mp hstep
    obtain ⟨db', ho, hok, hs⟩ := owned_of_unit hstep
    exact .of hs (progress_markSendStarted hj h hp ho hok)
  · cases hstep

lemma stepsTo_call (hstep : attemptStep s a (.call n) = some s') : StepsTo s a s' := by
  simp only [attemptStep] at hstep
  split at hstep
  · rename_i i hp
    refine .of hstep (Progress.stay h hj (fun ho k hk => ?_) (fun _ => h.ordinary (by rw [hp]; rfl))
      (.called _ (Moved.refl s.db _).keepsSends fun k hk => by rw [hp]; exact hk))
    obtain ⟨r, hr, hid, ht, hb, hst⟩ := h.holds ho k (by rw [hp]; exact hk)
    exact ⟨r, hr, hid, ht, hb, fun _ => hst (by rw [hp]; rfl)⟩
  · cases hstep

lemma stepsTo_passCheck (hstep : attemptStep s a (.passCheck n) = some s') : StepsTo s a s' := by
  simp only [attemptStep] at hstep
  split at hstep
  · rename_i i hp
    obtain ⟨ho, hs⟩ := guard_bind_eq_some.mp hstep
    exact .of hs (progress_passCheck hj h hp ho)
  · cases hstep

lemma stepsTo_acknowledge
    (hstep : attemptStep s a (.acknowledge n r) = some s') : StepsTo s a s' := by
  simp only [attemptStep] at hstep
  split at hstep
  · rename_i i ack hp
    exact .of hstep (progress_appendReceipt hj h
      (by rw [hp]; rfl) (by rw [hp]; rfl) rfl (fun _ => by rw [hp]; rfl) rfl)
  · cases hstep

lemma stepsTo_answer (hstep : attemptStep s a (.answer n) = some s') : StepsTo s a s' := by
  simp only [attemptStep] at hstep
  split at hstep
  · rename_i i r hp
    exact .of hstep (progress_same hj h (by rw [hp]; rfl)
      (fun _ => by rw [hp]; rfl) (fun _ => by rw [hp]; rfl) rfl)
  · cases hstep

lemma stepsTo_refuse {op : String} (hstep : attemptStep s a (.refuse n op) = some s') :
    StepsTo s a s' := by
  simp only [attemptStep] at hstep
  split at hstep
  · rename_i i hp
    obtain ⟨-, -, hs⟩ := bind_eq_some_iff.mp hstep
    exact .of hs (progress_same hj h (by rw [hp]; rfl)
      (fun _ => by rw [hp]; rfl) (fun _ => by rw [hp]; rfl) rfl)
  · cases hstep

lemma stepsTo_recordNoWrite (hstep : attemptStep s a (.recordNoWrite n key) = some s') :
    StepsTo s a s' := by
  simp only [attemptStep] at hstep
  split at hstep
  · rename_i i op hp
    obtain ⟨db', ho, hok, hs⟩ := owned_of_unit hstep
    exact .of hs (progress_recordNoWrite hj h hp ho hok)
  · cases hstep

lemma stepsTo_recordResponse (hstep : attemptStep s a (.recordResponse n) = some s') :
    StepsTo s a s' := by
  simp only [attemptStep] at hstep
  split at hstep
  · rename_i i r hp
    exact .of hstep (progress_appendReceipt hj h
      (by rw [hp]; rfl) (by rw [hp]; rfl) rfl (fun _ => by rw [hp]; rfl) rfl)
  · cases hstep

lemma stepsTo_cleanup (hstep : attemptStep s a (.cleanup n key) = some s') : StepsTo s a s' := by
  simp only [attemptStep] at hstep
  split at hstep
  · rename_i v hp
    obtain ⟨db', ho, hok, hs⟩ := owned_of_unit hstep
    cases hok
    have hmoved := Moved.settleKeeper s.db a.job.row.vaultFileId v
    have hself : a.goto a.phase = a := rfl
    refine .of hs (hself ▸ Progress.untouched h
      (hj.settleKeeper _ _) hmoved (NoNewLease.ofCat rfl) (fun _ i hi => ?_) h.ordinary
      (EventsOf.silent_of_none hmoved.keepsSends (by rw [hp]; rfl)))
    rw [hp] at hi
    exact absurd hi (by simp [AttemptPhase.intent?])
  · cases hstep

lemma stepsTo_crash (hstep : attemptStep s a (.crash n) = some s') : StepsTo s a s' := by
  exact .of hstep (progress_plain hj h rfl (fun hord => by cases hord) rfl)

end Steps

/-- **One step of an attempt**, the claim of its Job apart. -/
lemma attemptStep_progress (hj : JournalInv s.db) (h : AttemptInv s.db a)
    (hact : ∀ n, act ≠ .claim n) (hstep : attemptStep s a act = some s') : StepsTo s a s' := by
  cases act with
  | claim n => exact absurd rfl (hact n)
  | loadIntent => exact stepsTo_loadIntent hj h hstep
  | readReceipt => exact stepsTo_readReceipt hj h hstep
  | linkIntent => exact stepsTo_linkIntent hj h hstep
  | reconciled => exact stepsTo_reconciled hj h hstep
  | rearm => exact stepsTo_rearm hj h hstep
  | publish => exact stepsTo_publish hj h hstep
  | readTarget => exact stepsTo_readTarget hj h hstep
  | hash => exact stepsTo_hash hj h hstep
  | prepareDigest => exact stepsTo_prepareDigest hj h hstep
  | linkReusable => exact stepsTo_linkReusable hj h hstep
  | pin => exact stepsTo_pin hj h hstep
  | prepare => exact stepsTo_prepare hj h hstep
  | markSendStarted => exact stepsTo_markSendStarted hj h hstep
  | call => exact stepsTo_call hj h hstep
  | passCheck => exact stepsTo_passCheck hj h hstep
  | acknowledge => exact stepsTo_acknowledge hj h hstep
  | answer => exact stepsTo_answer hj h hstep
  | refuse => exact stepsTo_refuse hj h hstep
  | recordNoWrite => exact stepsTo_recordNoWrite hj h hstep
  | recordResponse => exact stepsTo_recordResponse hj h hstep
  | cleanup => exact stepsTo_cleanup hj h hstep
  | crash => exact stepsTo_crash hj h hstep
  | _ => cases (attemptStep_eq_none rfl).symm.trans hstep

/-! ### Every step -/

/-- The invariants of the system. -/
structure UploadInv (s : UploadState) : Prop where
  journal : JournalInv s.db
  attempts : ∀ a ∈ s.attempts, AttemptInv s.db a

/-- Two attempts that own leases and hold one intent are one attempt. -/
lemma UploadInv.eq_of_bound (h : UploadInv s) (ha : a ∈ s.attempts) (hb : b ∈ s.attempts)
    (hao : claimOwned s.db a.job) (hbo : claimOwned s.db b.job) {i : IntentId}
    (hai : (a.job.row.id, i) ∈ s.db.intentJobs) (hbi : (b.job.row.id, i) ∈ s.db.intentJobs) :
    a = b := by
  obtain ⟨j, hj, hjid, -, hjt, hjc, -⟩ := (h.attempts a ha).ownedRow hao
  obtain ⟨k, hk, hkid, -, hkt, hkc, -⟩ := (h.attempts b hb).ownedRow hbo
  obtain ⟨-, -, r, hr, -, hrid, -⟩ := h.journal.bound _ hai
  obtain rfl : r.id = i := hrid
  rw [← hjid] at hai
  rw [← hkid] at hbi
  -- one intent has one file, and one file has one active Job
  have hjk : j = k := s.db.cat.job_eq_of_id_eq hj hk <| h.journal.one_active j hj k hk hjt hkt <|
    (h.journal.file_of_bound hj hr hai).symm.trans (h.journal.file_of_bound hk hr hbi)
  have hclaim : a.claim = b.claim := by
    rw [hjk, hkc] at hjc
    exact (Option.some.inj hjc).symm
  exact inj_on_of_nodup_map s.claims_nodup ha hb hclaim

/-- A step of one attempt leaves the others what they rely on. -/
lemma UploadInv.put (h : UploadInv s) (ha : a ∈ s.attempts) {a' : Attempt}
    (hp : Progress s.db db' a a' es) : UploadInv (s.put a' db' es) where
  journal := hp.journal
  attempts b hb := by
    obtain ⟨b₀, hb₀, rfl⟩ := mem_map.mp hb
    split
    · exact hp.attempt
    · rename_i hne
      rw [hp.claim] at hne
      refine (h.attempts b₀ hb₀).frame hp.moved (hp.leases b₀.job) fun hbo i hbi hai => ?_
      exact hne (congrArg Attempt.claim (h.eq_of_bound hb₀ ha hbo hai.1 hbi hai.2))

/-- What a step that records nothing does: it neither starts nor ends a send, and gives no
lease to a worker that may be about to send. -/
structure Quiet (s s' : UploadState) : Prop where
  inv : UploadInv s'
  moved : Moved s.db s'.db fun _ => False
  log : s'.log = s.log
  attempts : ∀ b ∈ s'.attempts, b.phase.ready? = none ∨
    (b ∈ s.attempts ∧ (claimOwned s'.db b.job = true → claimOwned s.db b.job = true))

/-- Claiming a Job takes its lease from everybody else. -/
lemma UploadInv.claim (h : UploadInv s) (ha : a ∈ s.attempts)
    (hstep : attemptStep s a (.claim a.claim) = some s') :
    Quiet s s' := by
  obtain ⟨-, -, j, hj, -, -, hs⟩ := by
    simpa only [attemptStep, bind_eq_bind, bind_eq_some_iff] using hstep
  obtain rfl := (Option.some.inj hs).symm
  set g : Job → Job := fun k => if k.id = a.job.row.id then k.claimed a.claim else k with hg
  have hcols : ∀ k, (g k).id = k.id ∧ (g k).vaultFileId = k.vaultFileId ∧
      (g k).status = k.status ∧ (g k).uploadReconcileOnly = k.uploadReconcileOnly := by
    intro k
    simp only [hg]
    split <;> exact ⟨rfl, rfl, rfl, rfl⟩
  set db' := s.db.updateJob a.job.row.id (Job.claimed a.claim) fun _ => rfl with hdb
  have hmoved : Moved s.db db' fun _ => False := Moved.ofJobs
    (fun k hk => ⟨g k, mem_map_of_mem hk, (hcols k).1, (hcols k).2.1,
      fun hro => (hcols k).2.2.2.trans hro⟩) rfl rfl rfl rfl
  have hjournal : JournalInv db' := h.journal.ofLeases
    (LeasesFrom.mapJobs s.db.cat (fun k => (hcols k).1) (fun k => (hcols k).2.1)
      (fun k => (hcols k).2.2.2) fun k _ hkt => (hcols k).2.2.1 ▸ hkt) rfl rfl
  have hlease : ∀ w : WorkerJob, w.token ≠ a.claim → claimOwned db' w →
      claimOwned s.db w := by
    intro w hne ho
    obtain ⟨k', hk', hkid, hkc, hkt⟩ := claimOwned_iff.mp ho
    obtain ⟨k, hk, rfl⟩ := mem_map.mp hk'
    by_cases hka : k.id = a.job.row.id
    · rw [if_pos hka] at hkc
      exact absurd (Option.some.inj hkc).symm hne
    · rw [if_neg hka] at hkid hkc hkt
      exact claimOwned_iff.mpr ⟨k, hk, hkid, hkc, hkt⟩
  refine ⟨⟨hjournal, fun b hb => ?_⟩, hmoved, append_nil _, fun b hb => ?_⟩
  · obtain ⟨b₀, hb₀, rfl⟩ := mem_map.mp hb
    split
    · rename_i hclaim
      obtain rfl : b₀ = a := inj_on_of_nodup_map s.claims_nodup hb₀ ha hclaim
      obtain ⟨k, hk, hkid, hkf, hkro⟩ := (h.attempts b₀ hb₀).row
      refine ⟨⟨g k, mem_map_of_mem hk, (hcols k).1.trans hkid, (hcols k).2.1.trans hkf,
        fun hlocal => (hcols k).2.2.2.trans (hkro hlocal)⟩, fun _ i hi => ?_, fun hord => ?_⟩
      · simp [Attempt.goto, AttemptPhase.intent?] at hi
      · simp [Attempt.goto, AttemptPhase.ordinary] at hord
    · rename_i hne
      exact (h.attempts b₀ hb₀).frame hmoved (hlease b₀.job hne) fun _ _ _ => id
  · obtain ⟨b₀, hb₀, rfl⟩ := mem_map.mp hb
    split
    · exact Or.inl rfl
    · rename_i hne
      exact Or.inr ⟨hb₀, hlease b₀.job hne⟩

/-- What a step of the rest of the application does: it gives nobody a lease. -/
structure Background (s s' : UploadState) : Prop where
  journal : JournalInv s'.db
  moved : Moved s.db s'.db fun _ => False
  leases : NoNewLease s.db s'.db
  log : s'.log = s.log
  attempts : ∀ a ∈ s'.attempts, a ∈ s.attempts ∨
    (a.phase = .selected ∧ a.job.row ∈ s'.db.cat.jobs)

/-- Jobs whose leases are the same are the same to the journal. -/
lemma LeasesFrom.ofLeases {cat cat' : Catalog}
    (h : cat'.jobs.map Job.lease = cat.jobs.map Job.lease) :
    LeasesFrom cat cat' := by
  have hcols : ∀ j k : Job, j.lease = k.lease → j.id = k.id ∧ j.vaultFileId = k.vaultFileId ∧
      j.uploadReconcileOnly = k.uploadReconcileOnly ∧ j.status = k.status := by
    intro j k hjk
    simp only [Job.lease, Prod.mk.injEq] at hjk
    exact ⟨hjk.1, hjk.2.1, hjk.2.2.2.2, hjk.2.2.1⟩
  constructor
  · intro j hj
    have hmem : j.lease ∈ cat'.jobs.map Job.lease := h ▸ mem_map_of_mem hj
    obtain ⟨k, hk, hkj⟩ := mem_map.mp hmem
    obtain ⟨hid, hf, hro, -⟩ := hcols k j hkj
    exact ⟨k, hk, hid, hf, fun hlocal => hro.trans hlocal⟩
  · intro j hj
    have hmem : j.lease ∈ cat.jobs.map Job.lease := h ▸ mem_map_of_mem hj
    obtain ⟨k, hk, hkj⟩ := mem_map.mp hmem
    obtain ⟨hid, hf, hro, hst⟩ := hcols k j hkj
    exact ⟨k, hk, hid, hf, hro, fun ht => hst ▸ ht⟩

lemma NoNewLease.ofLeases (h : db'.cat.jobs.map Job.lease = db.cat.jobs.map Job.lease) :
    NoNewLease db db' := by
  intro w ho
  obtain ⟨j, hj, hid, hc, ht⟩ := claimOwned_iff.mp ho
  have hmem : j.lease ∈ db.cat.jobs.map Job.lease := h ▸ mem_map_of_mem hj
  obtain ⟨k, hk, hkj⟩ := mem_map.mp hmem
  simp only [Job.lease, Prod.mk.injEq] at hkj
  exact claimOwned_iff.mpr
    ⟨k, hk, hkj.1.trans hid, hkj.2.2.2.1.trans hc, hkj.2.2.1 ▸ ht⟩

lemma insertJob_moved (db : UploadDb) {row : Job} (hfree : row.claimToken = none)
    (touched : IntentId → Prop) :
    Moved db (db.insertJob row) touched ∧ NoNewLease db (db.insertJob row) := by
  constructor
  · exact Moved.ofJobs (fun j hj => ⟨j, mem_append_left _ hj, rfl, rfl, id⟩) rfl rfl rfl rfl
  · intro w ho
    obtain ⟨j, hj, hid, hc, ht⟩ := claimOwned_iff.mp ho
    rcases mem_append.mp hj with hj | hj
    · exact claimOwned_iff.mpr ⟨j, hj, hid, hc, ht⟩
    · rw [mem_singleton.mp hj] at hc
      cases hfree.symm.trans hc

/-- A Job that is not over gets another status. -/
lemma setStatus_background (hj : JournalInv db) {job : JobId} {j : Job}
    (hjob : db.cat.job? job = some j) (hjt : j.status.terminal = false) (st : JobStatus)
    (drop : Bool) :
    JournalInv (db.updateJob job (Job.setStatus st drop) fun _ => rfl) ∧
      Moved db (db.updateJob job (Job.setStatus st drop) fun _ => rfl) (fun _ => False) ∧
      NoNewLease db (db.updateJob job (Job.setStatus st drop) fun _ => rfl) := by
  obtain ⟨hjm, hjid⟩ := Catalog.mem_of_job? hjob
  -- the row that changes was active
  have hopen : ∀ k ∈ db.cat.jobs, k.id = job → k.status.terminal = false := by
    intro k hk hkid
    rw [db.cat.job_eq_of_id_eq hk hjm (hkid.trans hjid.symm)]
    exact hjt
  set g : Job → Job := fun k => if k.id = job then Job.setStatus st drop k else k with hg
  have hcols : ∀ k, (g k).id = k.id ∧ (g k).vaultFileId = k.vaultFileId ∧
      (g k).uploadReconcileOnly = k.uploadReconcileOnly := by
    intro k
    simp only [hg]
    split <;> exact ⟨rfl, rfl, rfl⟩
  have hst : ∀ k ∈ db.cat.jobs, (g k).status.terminal = false → k.status.terminal = false := by
    intro k hk hkt
    by_cases hkid : k.id = job
    · exact hopen k hk hkid
    · simpa only [hg, if_neg hkid] using hkt
  refine ⟨hj.ofLeases (LeasesFrom.mapJobs db.cat (fun k => (hcols k).1)
    (fun k => (hcols k).2.1) (fun k => (hcols k).2.2) hst) rfl rfl, Moved.ofJobs
    (fun k hk => ⟨g k, mem_map_of_mem hk, (hcols k).1, (hcols k).2.1,
      fun hro => (hcols k).2.2.trans hro⟩) rfl rfl rfl rfl, ?_⟩
  intro w ho
  obtain ⟨k', hk', hkid, hkc, hkt⟩ := claimOwned_iff.mp ho
  obtain ⟨k, hk, rfl⟩ := mem_map.mp hk'
  refine claimOwned_iff.mpr ⟨k, hk, (hcols k).1 ▸ hkid, ?_, hst k hk hkt⟩
  split at hkc
  · cases drop with
    | true => exact absurd hkc (by simp [Job.setStatus])
    | false => exact hkc
  · exact hkc

/-- **One step of the rest of the application.** -/
lemma environmentStep_background (hj : JournalInv s.db)
    (hstep : environmentStep s act = some s') : Background s s' := by
  cases act with
  | others cat vaults remediations =>
      obtain ⟨hl, hs⟩ := guard_bind_eq_some.mp hstep
      obtain rfl := (Option.some.inj hs).symm
      have hfrom := LeasesFrom.ofLeases hl
      exact ⟨hj.ofLeases hfrom rfl rfl, Moved.ofJobs hfrom.fwd rfl rfl rfl rfl,
        NoNewLease.ofLeases hl, rfl, fun a ha => Or.inl ha⟩
  | queueJob row =>
      obtain ⟨⟨hidle, hfree⟩, hs⟩ := guard_bind_eq_some.mp hstep
      obtain rfl := (Option.some.inj hs).symm
      obtain ⟨hm, hl⟩ := insertJob_moved s.db hfree fun _ => False
      exact ⟨hj.insertJob hidle, hm, hl, rfl, fun a ha => Or.inl ha⟩
  | admitJob row intent =>
      obtain ⟨⟨hidle, hfree, hro⟩, hstep⟩ := guard_bind_eq_some.mp hstep
      obtain ⟨i, hi, hstep⟩ := bind_eq_some_iff.mp hstep
      obtain ⟨hfile, hstep⟩ := guard_bind_eq_some.mp hstep
      obtain ⟨db', hbind, hs⟩ := bind_eq_some_iff.mp hstep
      obtain rfl := (Option.some.inj hs).symm
      obtain rfl := bindForResume_eq_ok (toOption_eq_some_iff.mp hbind)
      obtain ⟨hm, hl⟩ := insertJob_moved s.db hfree fun _ => False
      obtain ⟨hc, -⟩ := bind_spec (s.db.insertJob row) s.db.cat.freshJobId i.id
      refine ⟨?_, hm.trans (Moved.bind _ _ _ _),
        fun w ho => hl w (NoNewLease.ofCat hc w ho), rfl, fun a ha => Or.inl ha⟩
      exact (hj.insertJob hidle).bind (j := { row with id := s.db.cat.freshJobId })
        (mem_append_right _ (mem_singleton_self _)) (UploadDb.mem_of_intent? hi).1
        hfile fun _ hlocal => absurd (hro.symm.trans hlocal) (by simp)
  | setStatus job st drop =>
      obtain ⟨j, hjob, hstep⟩ := bind_eq_some_iff.mp hstep
      obtain ⟨hjt, hs⟩ := guard_bind_eq_some.mp hstep
      obtain rfl := (Option.some.inj hs).symm
      obtain ⟨hinv, hm, hl⟩ := setStatus_background hj hjob hjt st drop
      exact ⟨hinv, hm, hl, rfl, fun a ha => Or.inl ha⟩
  | settle file keeper =>
      obtain rfl := (Option.some.inj hstep).symm
      exact ⟨hj.settleKeeper file keeper, Moved.settleKeeper s.db file keeper,
        NoNewLease.ofCat rfl, rfl, fun a ha => Or.inl ha⟩
  | select job =>
      obtain ⟨j, hjob, hstep⟩ := bind_eq_some_iff.mp hstep
      obtain ⟨vault, -, hs⟩ := bind_eq_some_iff.mp hstep
      obtain rfl := (Option.some.inj hs).symm
      refine ⟨hj, Moved.refl s.db _, fun _ ho => ho, rfl, fun a ha => ?_⟩
      rcases mem_append.mp ha with ha | ha
      · exact Or.inl ha
      · rw [mem_singleton.mp ha]
        exact Or.inr ⟨rfl, (Catalog.mem_of_job? hjob).1⟩
  | _ => simp [environmentStep] at hstep

/-- The rest of the application leaves the attempts what they rely on. -/
lemma UploadInv.background (h : UploadInv s) (hb : Background s s') : Quiet s s' := by
  refine ⟨⟨hb.journal, fun a ha => ?_⟩, hb.moved, hb.log, fun a ha => ?_⟩
  · rcases hb.attempts a ha with ha | ⟨hp, hj⟩
    · exact (h.attempts a ha).frame hb.moved (hb.leases a.job) fun _ _ _ => id
    · refine ⟨⟨a.job.row, hj, rfl, rfl, id⟩, fun _ i hi => ?_, fun hord => ?_⟩
      · rw [hp] at hi
        simp [AttemptPhase.intent?] at hi
      · rw [hp] at hord
        simp [AttemptPhase.ordinary] at hord
  · rcases hb.attempts a ha with ha | ⟨hp, -⟩
    · exact Or.inr ⟨ha, hb.leases a.job⟩
    · rw [hp]
      exact Or.inl rfl

lemma UploadState.mem_of_attempt? {claim : ℕ} (h : s.attempt? claim = some a) :
    a ∈ s.attempts ∧ a.claim = claim :=
  ⟨mem_of_find?_eq_some h, by simpa using find?_some h⟩

/-- **What a step of the system is**: a step of an attempt, or one that records nothing. -/
lemma uploadStep_cases (h : UploadInv s) (hstep : uploadStep s act = some s') :
    (∃ a ∈ s.attempts, ∃ a' db' es, s' = s.put a' db' es ∧ Progress s.db db' a a' es) ∨
      Quiet s s' := by
  unfold uploadStep at hstep
  split at hstep
  · exact Or.inr (h.background (environmentStep_background h.journal hstep))
  · rename_i claim hclaim
    obtain ⟨a, ha, hdo⟩ := bind_eq_some_iff.mp hstep
    obtain ⟨hmem, rfl⟩ := UploadState.mem_of_attempt? ha
    by_cases hact : ∃ n, act = .claim n
    · obtain ⟨n, rfl⟩ := hact
      cases hclaim
      exact Or.inr (h.claim hmem hdo)
    · refine Or.inl ⟨a, hmem, attemptStep_progress h.journal (h.attempts a hmem) ?_ hdo⟩
      exact fun n hn => hact ⟨n, hn⟩

/-- **Every step keeps the invariants.** -/
lemma uploadInv_step (h : UploadInv s) (hstep : uploadStep s act = some s') :
    UploadInv s' := by
  rcases uploadStep_cases h hstep with ⟨a, ha, a', db', es, rfl, hp⟩ | hq
  · exact h.put ha hp
  · exact hq.inv

/-! ### Runs -/

/-- A journal nothing has been written to. -/
structure Unused (db : UploadDb) : Prop where
  intents : db.intents = []
  intentJobs : db.intentJobs = []
  receipts : db.receipts = []

/-- The unique index of active Jobs. -/
def OneActiveJob (cat : Catalog) : Prop :=
  ∀ j ∈ cat.jobs, ∀ k ∈ cat.jobs, j.status.terminal = false → k.status.terminal = false →
    j.vaultFileId = k.vaultFileId → j.id = k.id

instance (cat : Catalog) : Decidable (OneActiveJob cat) :=
  inferInstanceAs (Decidable (∀ _ ∈ _, ∀ _ ∈ _, _))

lemma uploadInv_start (hu : Unused db) (hone : OneActiveJob db.cat) :
    UploadInv (UploadState.start db) where
  journal :=
    { one_active := hone
      one_outstanding := by simp [UploadState.start, hu.intents]
      settled_linked := by simp [UploadState.start, hu.intents]
      linked_sent := by simp [UploadState.start, hu.intents]
      bound := by simp [UploadState.start, hu.intentJobs]
      exclusive := by simp [UploadState.start, hu.intents] }
  attempts a ha := absurd ha (by simp [UploadState.start])

/-- **One unresolved send.**  However the attempts interleave with each other and with the
rest of the application, and wherever they stop, a file has at most one intent that is sent
and not settled, and what is settled after a send is linked to a version. -/
theorem one_unresolved_send {acts : List UploadAct} (hu : Unused db)
    (hone : OneActiveJob db.cat) (hrun : run uploadStep (UploadState.start db) acts = some s) :
    (∀ i ∈ s.db.intents, ∀ k ∈ s.db.intents, i.vaultFileId = k.vaultFileId →
      i.sendStarted = true → i.settled = false → k.sendStarted = true → k.settled = false →
        i = k) ∧
    ∀ i ∈ s.db.intents, i.settled = true → i.sendStarted = true →
      i.archiveVersionId.isSome = true := by
  have hinv : UploadInv s :=
    run_induction (I := UploadInv) (fun _ _ _ h hstep => uploadInv_step h hstep)
      (uploadInv_start hu hone) hrun
  refine ⟨fun i hi k hk hf his hio hks hko => ?_, hinv.journal.settled_linked⟩
  exact hinv.journal.one_outstanding i hi k hk hf (by simp [UploadIntent.outstanding, his, hio])
    (by simp [UploadIntent.outstanding, hks, hko])

/-- What hashing the file gives. -/
def hashedSnapshot : UploadSnapshot := ⟨1, 7, "FULL_OBJECT", "c", 8, ["c"]⟩

/-- A queued upload of one file `a` of a writable Vault. -/
def queuedUpload : UploadDb where
  cat :=
    { files := [⟨0, 0, .active, some ['a'], 0, [], none, [], []⟩]
      jobs := [{ id := 0, vaultId := 0, vaultFileId := 0, path := ['a'], action := .upload
                 status := .queued, origin := .manual, groupId := none, requestedAt := 0
                 pendingUntil := none, claimToken := none, claimExpiresAt := none }]
      items := []
      ids_nodup := by decide
      paths_unique := by simp
      versions_unique := by simp [VaultFile.versionKeys]
      jobIds_nodup := by decide }
  vaults := fun _ => some ⟨"/v", "b", "p", true, .active, .ready, false, none, none⟩
  remediations := []
  intents := []
  intentJobs := []
  receipts := []
  nextUuid := 0
  intentIds_nodup := nodup_nil
  tokens_nodup := nodup_nil
  uuids_lt := UploadIntent.nil_lt
  intentJobs_nodup := nodup_nil

/-- An attempt from its target to the committed start of its send. -/
def prepareSend (a : ℕ) : List UploadAct :=
  [.readTarget a 0, .hash a hashedSnapshot, .prepareDigest a 0 none, .pin a 0 "s3" ⟨[], []⟩,
    .prepare a 0 0, .markSendStarted a 0]

/-- The first attempt, which finds nothing to resume. -/
def firstSend (a : ℕ) : List UploadAct :=
  [.select 0, .claim a, .loadIntent a 0] ++ prepareSend a

/-- A later attempt, which proves that the send before it never landed. -/
def resumedSend (a : ℕ) : List UploadAct :=
  [.select 0, .claim a, .loadIntent a 0, .readReceipt a 0, .rearm a 0 false] ++ prepareSend a

/-- The response to a send: the VersionId 5. -/
def landed : UploadResponse := ⟨some 5, none, none, none, none, none⟩

/-- The first worker stops before its call; the second one sends, publishes and cleans up. -/
def landedAfterCrash : List UploadAct :=
  firstSend 1 ++ [.crash 1] ++ resumedSend 2 ++
    [.call 2, .passCheck 2, .acknowledge 2 landed, .answer 2, .recordResponse 2,
      .publish 2 0 3, .cleanup 2 0]

theorem one_unresolved_send_landedAfterCrash :
    ∃ s, run uploadStep (UploadState.start queuedUpload) landedAfterCrash = some s ∧
      (∀ i ∈ s.db.intents, ∀ k ∈ s.db.intents, i.vaultFileId = k.vaultFileId →
        i.sendStarted = true → i.settled = false → k.sendStarted = true → k.settled = false →
          i = k) ∧
      ∀ i ∈ s.db.intents, i.settled = true → i.sendStarted = true →
        i.archiveVersionId.isSome = true := by
  have hrun : (run uploadStep (UploadState.start queuedUpload) landedAfterCrash).isSome = true := by
    decide
  obtain ⟨s, hs⟩ := isSome_iff_exists.mp hrun
  exact ⟨s, hs, one_unresolved_send ⟨rfl, rfl, rfl⟩ (by decide) hs⟩

end Frostvault
