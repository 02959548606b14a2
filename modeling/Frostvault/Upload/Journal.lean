import Frostvault.Upload.Attempts

/-!
The invariant of the upload journal, and what each function does to the rows.

A Job that may send (it is not over and not reconcile-only) and is bound to an intent leaves
no other send of its file outstanding, and its own intent is not closed behind its back.

* `JournalInv`: the facts about the rows;
* `JournalInv.ofLeases`, `JournalInv.mapIntents`: Jobs and intents rewritten row by row;
* `JournalInv.setSendStarted`: **the send that starts is the only one**;
* `JournalInv.releaseForRearm`: a re-armed Job may send;
* `Moved`: what a transaction leaves to the other Jobs;
* `loadIntent_spec`, `prepare_spec`: the two transactions that bind an intent.
-/

namespace Frostvault

open List Checks

variable {db db' : UploadDb}

/-! ### Reading the journal -/

variable {file : FileId} {i : UploadIntent} {j : Job} {job : WorkerJob} {touched : IntentId → Prop}

lemma UploadDb.eq_of_id_eq (db : UploadDb) {k : UploadIntent} (hi : i ∈ db.intents)
    (hk : k ∈ db.intents) (h : i.id = k.id) : i = k :=
  inj_on_of_nodup_map db.intentIds_nodup hi hk h

lemma UploadDb.eq_of_token_eq (db : UploadDb) {k : UploadIntent} (hi : i ∈ db.intents)
    (hk : k ∈ db.intents) (h : i.token = k.token) : i = k :=
  inj_on_of_nodup_map db.tokens_nodup hi hk h

lemma UploadDb.bound_unique (db : UploadDb) {j : JobId} {i k : IntentId}
    (hi : (j, i) ∈ db.intentJobs) (hk : (j, k) ∈ db.intentJobs) : i = k := by
  have h := inj_on_of_nodup_map db.intentJobs_nodup hi hk rfl
  exact (Prod.mk.inj h).2

lemma UploadDb.mem_of_intent? {id : IntentId} (h : db.intent? id = some i) :
    i ∈ db.intents ∧ i.id = id :=
  ⟨mem_of_find?_eq_some h, by simpa using find?_some h⟩

lemma Catalog.mem_of_job? {cat : Catalog} {id : JobId} (h : cat.job? id = some j) :
    j ∈ cat.jobs ∧ j.id = id :=
  ⟨mem_of_find?_eq_some h, by simpa using find?_some h⟩

lemma Catalog.job?_eq_of_mem (cat : Catalog) (hj : j ∈ cat.jobs) :
    cat.job? j.id = some j := by
  cases h : cat.job? j.id with
  | none =>
      have := find?_eq_none.mp h j hj
      simp at this
  | some k =>
      obtain ⟨hk, hid⟩ := mem_of_job? h
      rw [cat.job_eq_of_id_eq hk hj hid]

lemma mem_of_loadForJob {job : JobId} (h : loadForJob db job = some i) :
    i ∈ db.intents ∧ (job, i.id) ∈ db.intentJobs := by
  obtain ⟨b, hb, hi⟩ := Option.bind_eq_some_iff.mp h
  obtain ⟨hmem, hid⟩ := UploadDb.mem_of_intent? hi
  have hjob : b.1 = job := by simpa using find?_some hb
  refine ⟨hmem, ?_⟩
  rw [hid, ← hjob]
  exact mem_of_find?_eq_some hb

/-- `outstanding` returns a row of the file, and there is no other. -/
lemma mem_of_outstanding (h : outstanding db file = .ok (some i)) :
    i ∈ db.intents ∧ i.vaultFileId = file ∧ i.outstanding := by
  unfold outstanding at h
  split at h
  · cases h
  · rename_i k hk
    obtain rfl : k = i := by simpa using h
    have hmem : k ∈ db.intents.filter fun i => i.vaultFileId = file && i.outstanding := by
      rw [hk]
      exact mem_singleton_self k
    simpa using mem_filter.mp hmem
  · cases h

lemma not_outstanding_of_none (h : outstanding db file = .ok none) :
    ∀ i ∈ db.intents, i.vaultFileId = file → i.outstanding = false := by
  unfold outstanding at h
  split at h
  · rename_i hnil
    intro i hi hfile
    have hno := filter_eq_nil_iff.mp hnil i hi
    simpa [hfile] using hno
  · cases h
  · cases h

lemma claimOwned_iff :
    claimOwned db job ↔ ∃ j ∈ db.cat.jobs, j.id = job.row.id ∧
      j.claimToken = some job.token ∧ j.status.terminal = false := by
  simp [claimOwned, and_assoc]

/-- A transaction of a worker commits only while its lease is owned. -/
lemma uploadCatalogUnit_eq_ok_iff {α : Type} {key : ObjectKey} {m : Outcome α} {x : α} :
    uploadCatalogUnit db job key m = .ok x ↔
      (∃ t, target db job key "db-fence" = .ok t) ∧ claimOwned db job ∧ m = .ok x := by
  simp only [uploadCatalogUnit, bind_eq_ok_iff, require_eq_ok_iff]
  constructor
  · rintro ⟨t, ht, -, ho, hm⟩
    exact ⟨⟨t, ht⟩, ho, hm⟩
  · rintro ⟨⟨t, ht⟩, ho, hm⟩
    exact ⟨t, ht, (), ho, hm⟩

/-! ### The rows -/

/-- What holds of the journal at every moment. -/
structure JournalInv (db : UploadDb) : Prop where
  /-- The active-Job index. -/
  one_active : ∀ j ∈ db.cat.jobs, ∀ k ∈ db.cat.jobs, j.status.terminal = false →
    k.status.terminal = false → j.vaultFileId = k.vaultFileId → j.id = k.id
  one_outstanding : ∀ i ∈ db.intents, ∀ k ∈ db.intents, i.vaultFileId = k.vaultFileId →
    i.outstanding = true → k.outstanding = true → i = k
  settled_linked : ∀ i ∈ db.intents, i.settled = true → i.sendStarted = true →
    i.archiveVersionId.isSome = true
  linked_sent : ∀ i ∈ db.intents, i.archiveVersionId.isSome = true → i.sendStarted = true
  bound : ∀ b ∈ db.intentJobs, ∃ j ∈ db.cat.jobs, ∃ i ∈ db.intents,
    j.id = b.1 ∧ i.id = b.2 ∧ i.vaultFileId = j.vaultFileId
  /-- A Job that may send shares its file with no other send. -/
  exclusive : ∀ j ∈ db.cat.jobs, j.status.terminal = false → j.uploadReconcileOnly = false →
    ∀ i ∈ db.intents, (j.id, i.id) ∈ db.intentJobs →
      (i.settled = true → i.archiveVersionId.isSome = true) ∧
      ∀ k ∈ db.intents, k.vaultFileId = i.vaultFileId → k.outstanding = true → k = i

/-- The file of an intent is the file of the Jobs bound to it. -/
lemma JournalInv.file_of_bound (h : JournalInv db)
    (hj : j ∈ db.cat.jobs) (hi : i ∈ db.intents) (hb : (j.id, i.id) ∈ db.intentJobs) :
    i.vaultFileId = j.vaultFileId := by
  obtain ⟨j', hj', i', hi', hjid, hiid, hfile⟩ := h.bound _ hb
  rw [db.cat.job_eq_of_id_eq hj hj' hjid.symm, db.eq_of_id_eq hi hi' hiid.symm]
  exact hfile

/-- The Jobs of `cat'` are those of `cat`: a Job that is active now was active before, with
the same rights. -/
structure LeasesFrom (cat cat' : Catalog) : Prop where
  fwd : ∀ j ∈ cat.jobs, ∃ j' ∈ cat'.jobs, j'.id = j.id ∧ j'.vaultFileId = j.vaultFileId ∧
    (j.uploadReconcileOnly = false → j'.uploadReconcileOnly = false)
  bwd : ∀ j' ∈ cat'.jobs, ∃ j ∈ cat.jobs, j.id = j'.id ∧ j.vaultFileId = j'.vaultFileId ∧
    j.uploadReconcileOnly = j'.uploadReconcileOnly ∧
    (j'.status.terminal = false → j.status.terminal = false)

lemma LeasesFrom.refl (cat : Catalog) : LeasesFrom cat cat :=
  ⟨fun j hj => ⟨j, hj, rfl, rfl, id⟩, fun j hj => ⟨j, hj, rfl, rfl, rfl, id⟩⟩

/-- Jobs rewritten one by one, their leases kept or ended. -/
lemma LeasesFrom.mapJobs (cat : Catalog) {g : Job → Job} (hid : ∀ j, (g j).id = j.id)
    (hfile : ∀ j, (g j).vaultFileId = j.vaultFileId)
    (hro : ∀ j, (g j).uploadReconcileOnly = j.uploadReconcileOnly)
    (hst : ∀ j ∈ cat.jobs, (g j).status.terminal = false → j.status.terminal = false) :
    LeasesFrom cat (cat.mapJobs g hid) where
  fwd j hj := ⟨g j, mem_map_of_mem hj, hid j, hfile j, fun h => (hro j).trans h⟩
  bwd j' hj' := by
    obtain ⟨j, hj, rfl⟩ := mem_map.mp hj'
    exact ⟨j, hj, (hid j).symm, (hfile j).symm, (hro j).symm, hst j hj⟩

/-- The journal does not look at more of a Job than its lease. -/
lemma JournalInv.ofLeases (h : JournalInv db) (hl : LeasesFrom db.cat db'.cat)
    (hi : db'.intents = db.intents) (hb : db'.intentJobs = db.intentJobs) :
    JournalInv db' where
  one_active j hj k hk hjt hkt hfile := by
    obtain ⟨j₀, hj₀, hjid, hjf, -, hjt₀⟩ := hl.bwd j hj
    obtain ⟨k₀, hk₀, hkid, hkf, -, hkt₀⟩ := hl.bwd k hk
    rw [← hjid, ← hkid]
    exact h.one_active j₀ hj₀ k₀ hk₀ (hjt₀ hjt) (hkt₀ hkt) (by rw [hjf, hkf, hfile])
  one_outstanding := by
    rw [hi]
    exact h.one_outstanding
  settled_linked := by
    rw [hi]
    exact h.settled_linked
  linked_sent := by
    rw [hi]
    exact h.linked_sent
  bound b hmem := by
    rw [hb] at hmem
    rw [hi]
    obtain ⟨j, hj, i, hi', hjid, hiid, hfile⟩ := h.bound b hmem
    obtain ⟨j', hj', hjid', hjf, -⟩ := hl.fwd j hj
    exact ⟨j', hj', i, hi', hjid'.trans hjid, hiid, hfile.trans hjf.symm⟩
  exclusive j hj hjt hro i hmem hbound := by
    rw [hi] at hmem ⊢
    rw [hb] at hbound
    obtain ⟨j₀, hj₀, hjid, -, hro₀, hjt₀⟩ := hl.bwd j hj
    exact h.exclusive j₀ hj₀ (hjt₀ hjt) (hro₀.trans hro) i hmem (hjid ▸ hbound)

/-- **Rewriting intents.**  No send becomes outstanding, and what is closed or linked stays
accounted for. -/
lemma JournalInv.mapIntents (h : JournalInv db) {g : UploadIntent → UploadIntent}
    (hc : db'.cat = db.cat) (hi : db'.intents = db.intents.map g)
    (hb : db'.intentJobs = db.intentJobs) (hid : ∀ i, (g i).id = i.id)
    (hfile : ∀ i, (g i).vaultFileId = i.vaultFileId)
    (hout : ∀ i ∈ db.intents, (g i).outstanding → i.outstanding)
    (hset : ∀ i ∈ db.intents, (g i).settled → (g i).sendStarted →
      (g i).archiveVersionId.isSome)
    (hlink : ∀ i ∈ db.intents, (g i).archiveVersionId.isSome →
      (g i).sendStarted)
    (hex : ∀ j ∈ db.cat.jobs, j.status.terminal = false → j.uploadReconcileOnly = false →
      ∀ i ∈ db.intents, (j.id, i.id) ∈ db.intentJobs → (g i).settled →
        (g i).archiveVersionId.isSome) :
    JournalInv db' where
  one_active := by
    rw [hc]
    exact h.one_active
  one_outstanding := by
    rw [hi]
    intro i' hi' k' hk' hf ho ho'
    obtain ⟨i, him, rfl⟩ := mem_map.mp hi'
    obtain ⟨k, hkm, rfl⟩ := mem_map.mp hk'
    rw [hfile, hfile] at hf
    rw [h.one_outstanding i him k hkm hf (hout i him ho) (hout k hkm ho')]
  settled_linked := by
    rw [hi]
    intro i' hi'
    obtain ⟨i, him, rfl⟩ := mem_map.mp hi'
    exact hset i him
  linked_sent := by
    rw [hi]
    intro i' hi'
    obtain ⟨i, him, rfl⟩ := mem_map.mp hi'
    exact hlink i him
  bound b hmem := by
    rw [hb] at hmem
    rw [hi, hc]
    obtain ⟨j, hj, i, him, hjid, hiid, hf⟩ := h.bound b hmem
    exact ⟨j, hj, g i, mem_map_of_mem him, hjid, (hid i).trans hiid,
      (hfile i).trans hf⟩
  exclusive j hj hjt hro i' hi' hbound := by
    rw [hc] at hj
    rw [hb] at hbound
    rw [hi] at hi' ⊢
    obtain ⟨i, him, rfl⟩ := mem_map.mp hi'
    rw [hid] at hbound
    refine ⟨hex j hj hjt hro i him hbound, ?_⟩
    intro k' hk' hf ho
    obtain ⟨k, hkm, rfl⟩ := mem_map.mp hk'
    rw [hfile, hfile] at hf
    rw [(h.exclusive j hj hjt hro i him hbound).2 k hkm hf (hout k hkm ho)]

/-! ### What the functions do to the rows -/

section

variable (h : JournalInv db)

include h

/-- `_settle_unstarted` closes what never sent, and leaves the intent of the Job alone. -/
lemma JournalInv.settleUnstarted {keep : Option IntentId} (hj : j ∈ db.cat.jobs)
    (hjt : j.status.terminal = false) (hfile : j.vaultFileId = file)
    (hkeep : ∀ i ∈ db.intents, (j.id, i.id) ∈ db.intentJobs → keep = some i.id)
    (hok : Frostvault.settleUnstarted db file keep = .ok db') :
    JournalInv db' := by
  simp only [Frostvault.settleUnstarted, bind_eq_ok_iff, pure_eq_ok_iff] at hok
  obtain ⟨-, -, rfl⟩ := hok
  refine h.mapIntents rfl rfl rfl (fun i => by split <;> rfl) (fun i => by split <;> rfl)
    (fun i _ ho => ?_) (fun i hi hset hsent => ?_) (fun i hi hlink => ?_)
    fun k hk hkt hro i hi hb hset => ?_
  · split at ho
    · simp [UploadIntent.settle, UploadIntent.outstanding] at ho
    · exact ho
  · split at hset
    · rename_i hun
      simp_all [UploadIntent.unstarted, UploadIntent.settle]
    · simp_all only [if_false, Bool.false_eq_true]
      exact h.settled_linked i hi hset hsent
  · split at hlink
    · rename_i hun
      simp_all [UploadIntent.unstarted, UploadIntent.settle]
    · simp_all only [if_false, Bool.false_eq_true]
      exact h.linked_sent i hi hlink
  · split at hset
    · rename_i hun
      -- a closed row belongs to the file of the Job, and no other Job of it is active
      have hif : i.vaultFileId = file := by simp_all [UploadIntent.unstarted]
      have hkj : k.id = j.id :=
        h.one_active k hk j hj hkt hjt (by rw [← h.file_of_bound hk hi hb, hif, hfile])
      have := hkeep i hi (hkj ▸ hb)
      simp_all [UploadIntent.unstarted]
    · simp_all only [if_false, Bool.false_eq_true]
      exact (h.exclusive k hk hkt hro i hi hb).1 hset

/-- A new token does not change where a send stands. -/
lemma JournalInv.renewToken (id : IntentId) (p : Prepared) (at_ : Stamp) :
    JournalInv (db.renewToken id (UploadIntent.repin p at_) (fun _ _ => rfl) fun _ _ => rfl) := by
  set g : UploadIntent → UploadIntent :=
    fun i => if i.id = id then UploadIntent.repin p at_ i db.nextUuid else i with hg
  have hset : ∀ i, (g i).settled = i.settled := fun i => by simp only [hg]; split <;> rfl
  have hsent : ∀ i, (g i).sendStarted = i.sendStarted := fun i => by
    simp only [hg]; split <;> rfl
  have hlink : ∀ i, (g i).archiveVersionId = i.archiveVersionId := fun i => by
    simp only [hg]; split <;> rfl
  refine h.mapIntents (g := g) rfl rfl rfl (fun i => by simp only [hg]; split <;> rfl)
    (fun i => by simp only [hg]; split <;> rfl) (fun i _ ho => ?_) (fun i hi => ?_)
    (fun i hi => ?_) fun k hk hkt hro i hi hb => ?_
  · rwa [UploadIntent.outstanding, hset, hsent] at ho
  · rw [hset, hsent, hlink]
    exact h.settled_linked i hi
  · rw [hsent, hlink]
    exact h.linked_sent i hi
  · rw [hset, hlink]
    exact (h.exclusive k hk hkt hro i hi hb).1

/-- Binding the Job of a file to an intent of it. -/
lemma JournalInv.bind (hj : j ∈ db.cat.jobs) (hi : i ∈ db.intents)
    (hfile : i.vaultFileId = j.vaultFileId)
    (hex : j.status.terminal = false → j.uploadReconcileOnly = false →
      (i.settled → i.archiveVersionId.isSome) ∧
      ∀ k ∈ db.intents, k.vaultFileId = i.vaultFileId → k.outstanding → k = i) :
    JournalInv (db.bind j.id i.id) := by
  unfold UploadDb.bind
  split
  · exact h
  · refine ⟨h.one_active, h.one_outstanding, h.settled_linked, h.linked_sent, ?_, ?_⟩
    · intro b hb
      rcases mem_append.mp hb with hb | hb
      · exact h.bound b hb
      · rw [mem_singleton.mp hb]
        exact ⟨j, hj, i, hi, rfl, rfl, hfile⟩
    · intro j' hj' hjt hro i' hi' hb
      rcases mem_append.mp hb with hb | hb
      · exact h.exclusive j' hj' hjt hro i' hi' hb
      · obtain ⟨hjj, hii⟩ := Prod.mk.inj (mem_singleton.mp hb)
        obtain rfl := db.cat.job_eq_of_id_eq hj' hj hjj
        obtain rfl := db.eq_of_id_eq hi' hi hii
        exact hex hjt hro

lemma JournalInv.insertIntent (job : WorkerJob) (p : Prepared) (at_ : Stamp) :
    JournalInv (db.insertIntent (newIntent job p at_) (fun _ _ => rfl) fun _ _ => rfl) := by
  have hnew : ∀ i ∈ (db.insertIntent (newIntent job p at_) (fun _ _ => rfl)
      fun _ _ => rfl).intents, i ∈ db.intents ∨
        i = newIntent job p at_ db.nextUuid (db.nextUuid + 1) := by
    intro i hi
    rcases mem_append.mp hi with hi | hi
    · exact Or.inl hi
    · exact Or.inr (mem_singleton.mp hi)
  refine ⟨h.one_active, ?_, ?_, ?_, ?_, ?_⟩
  · intro i hi k hk hf ho ho'
    rcases hnew i hi with hi | rfl
    · rcases hnew k hk with hk | rfl
      · exact h.one_outstanding i hi k hk hf ho ho'
      · simp [newIntent, UploadIntent.outstanding] at ho'
    · simp [newIntent, UploadIntent.outstanding] at ho
  · intro i hi
    rcases hnew i hi with hi | rfl
    · exact h.settled_linked i hi
    · simp [newIntent]
  · intro i hi
    rcases hnew i hi with hi | rfl
    · exact h.linked_sent i hi
    · simp [newIntent]
  · intro b hb
    obtain ⟨j, hj, i, hi, hrest⟩ := h.bound b hb
    exact ⟨j, hj, i, mem_append_left _ hi, hrest⟩
  · intro j hj hjt hro i hi hb
    -- nobody is bound to an id the supply has not given yet
    have him : i ∈ db.intents := by
      rcases hnew i hi with hi | rfl
      · exact hi
      · obtain ⟨-, -, k, hk, -, hkid, -⟩ := h.bound _ hb
        have hlt := (db.uuids_lt k hk).1
        rw [hkid] at hlt
        exact absurd hlt (lt_irrefl _)
    obtain ⟨hset, hone⟩ := h.exclusive j hj hjt hro i him hb
    refine ⟨hset, fun k hk hf ho => ?_⟩
    rcases hnew k hk with hk | rfl
    · exact hone k hk hf ho
    · simp [newIntent, UploadIntent.outstanding] at ho

/-- **Starting a send.**  The Job that may send leaves no other send of the file
outstanding, so the one it starts is the only one. -/
lemma JournalInv.setSendStarted (hj : j ∈ db.cat.jobs) (hjt : j.status.terminal = false)
    (hro : j.uploadReconcileOnly = false) (hi : i ∈ db.intents) (hb : (j.id, i.id) ∈ db.intentJobs)
    (hun : i.sendStarted = false) :
    JournalInv (db.updateIntent i.id (UploadIntent.setSendStarted true) (fun _ => rfl)
      fun _ => rfl) := by
  obtain ⟨hset, hone⟩ := h.exclusive j hj hjt hro i hi hb
  have hsettled : i.settled = false := by
    by_contra hs
    have hs' := hset (by simpa using hs)
    simpa [hun] using h.linked_sent i hi hs'
  -- every rewritten row is the started one, or as it was
  have hrow : ∀ k' ∈ (db.updateIntent i.id (UploadIntent.setSendStarted true) (fun _ => rfl)
      fun _ => rfl).intents, k' = i.setSendStarted true ∨ (k' ∈ db.intents ∧ k'.id ≠ i.id) := by
    intro k' hk'
    obtain ⟨k, hk, rfl⟩ := mem_map.mp hk'
    by_cases hid : k.id = i.id
    · rw [if_pos hid, db.eq_of_id_eq hk hi hid]
      exact Or.inl rfl
    · rw [if_neg hid]
      exact Or.inr ⟨hk, hid⟩
  have hother : ∀ k ∈ db.intents, k.id ≠ i.id → k.vaultFileId = i.vaultFileId →
      k.outstanding → False := fun k hk hid hf ho => hid (hone k hk hf ho ▸ rfl)
  refine ⟨h.one_active, ?_, ?_, ?_, ?_, ?_⟩
  · intro a ha c hc hf hao hco
    rcases hrow a ha with rfl | ⟨ha, hai⟩
    · rcases hrow c hc with rfl | ⟨hc, hci⟩
      · rfl
      · exact (hother c hc hci hf.symm hco).elim
    · rcases hrow c hc with rfl | ⟨hc, hci⟩
      · exact (hother a ha hai hf hao).elim
      · exact h.one_outstanding a ha c hc hf hao hco
  · intro a ha
    rcases hrow a ha with rfl | ⟨ha, -⟩
    · intro hs
      rw [show (i.setSendStarted true).settled = i.settled from rfl, hsettled] at hs
      cases hs
    · exact h.settled_linked a ha
  · intro a ha
    rcases hrow a ha with rfl | ⟨ha, -⟩
    · exact fun _ => rfl
    · exact h.linked_sent a ha
  · intro b' hb'
    obtain ⟨j', hj', k, hk, hjid, hkid, hf⟩ := h.bound b' hb'
    refine ⟨j', hj', _, mem_map_of_mem hk, hjid, ?_, ?_⟩
    · split <;> exact hkid
    · split <;> exact hf
  · intro j' hj' hjt' hro' a ha hb'
    have hfiles : ∀ k ∈ db.intents, k.id = a.id → k.vaultFileId = a.vaultFileId ∧
        k.settled = a.settled ∧ k.archiveVersionId = a.archiveVersionId := by
      intro k hk hid
      rcases hrow a ha with rfl | ⟨ha, -⟩
      · rw [db.eq_of_id_eq hk hi hid]
        exact ⟨rfl, rfl, rfl⟩
      · rw [db.eq_of_id_eq hk ha hid]
        exact ⟨rfl, rfl, rfl⟩
    obtain ⟨-, -, k, hk, -, hkid, -⟩ := h.bound _ hb'
    obtain ⟨hkf, hks, hka⟩ := hfiles k hk hkid
    obtain ⟨hset', hone'⟩ := h.exclusive j' hj' hjt' hro' k hk (by rw [hkid]; exact hb')
    rw [← hks, ← hka, ← hkf]
    refine ⟨hset', fun c hc hf ho => ?_⟩
    rcases hrow c hc with rfl | ⟨hc, hci⟩
    · -- the started row belongs to the Job, which is the only active one of its file
      have hjj : j'.id = j.id := by
        refine h.one_active j' hj' j hj hjt' hjt ?_
        rw [← h.file_of_bound hj' hk (by rw [hkid]; exact hb'), ← h.file_of_bound hj hi hb]
        exact hf.symm
      have hia : i.id = a.id := db.bound_unique hb (hjj ▸ hb')
      rcases hrow a ha with rfl | ⟨ha, hai⟩
      · rfl
      · exact absurd hia.symm hai
    · have hck := hone' c hc hf ho
      rcases hrow a ha with rfl | ⟨ha, -⟩
      · rw [hck, hkid] at hci
        exact absurd rfl hci
      · rw [hck]
        exact db.eq_of_id_eq hk ha hkid

/-- A recorded no-write closes the send. -/
lemma JournalInv.clearSendStarted (hi : i ∈ db.intents) (hlink : i.archiveVersionId = none)
    (hset : i.settled = false) :
    JournalInv (db.updateIntent i.id (UploadIntent.setSendStarted false) (fun _ => rfl)
      fun _ => rfl) := by
  have hrow : ∀ k ∈ db.intents, k.id = i.id → k = i := fun k hk hid => db.eq_of_id_eq hk hi hid
  refine h.mapIntents rfl rfl rfl (fun k => by split <;> rfl) (fun k => by split <;> rfl)
    (fun k hk ho => ?_) (fun k hk hs hsent => ?_) (fun k hk hl => ?_)
    fun j hj hjt hro k hk hb hs => ?_
  · split at ho
    · simp [UploadIntent.setSendStarted, UploadIntent.outstanding] at ho
    · exact ho
  · split at hs
    · rename_i hid
      rw [if_pos hid] at hsent
      simp [UploadIntent.setSendStarted] at hsent
    · rename_i hid
      rw [if_neg hid] at hsent ⊢
      exact h.settled_linked k hk hs hsent
  · split at hl
    · rename_i hid
      rw [show (k.setSendStarted false).archiveVersionId = k.archiveVersionId from rfl,
        hrow k hk hid, hlink] at hl
      cases hl
    · rename_i hid
      rw [if_neg hid]
      exact h.linked_sent k hk hl
  · split at hs
    · rename_i hid
      rw [show (k.setSendStarted false).settled = k.settled from rfl, hrow k hk hid, hset] at hs
      cases hs
    · rename_i hid
      rw [if_neg hid]
      exact (h.exclusive j hj hjt hro k hk hb).1 hs

/-- Publication links an intent whose send has started. -/
lemma JournalInv.linkVersion (hi : i ∈ db.intents) (hsent : i.sendStarted) (v : RowId) :
    JournalInv (db.updateIntent i.id (UploadIntent.linkVersion v)
      (fun _ => UploadIntent.linkVersion_id _ _) fun _ => UploadIntent.linkVersion_token _ _) := by
  set g : UploadIntent → UploadIntent :=
    fun k => if k.id = i.id then UploadIntent.linkVersion v k else k with hg
  have hsame : ∀ k, (g k).id = k.id ∧ (g k).vaultFileId = k.vaultFileId ∧
      (g k).settled = k.settled ∧ (g k).sendStarted = k.sendStarted := by
    intro k
    simp only [hg, UploadIntent.linkVersion]
    split
    · split <;> exact ⟨rfl, rfl, rfl, rfl⟩
    · exact ⟨rfl, rfl, rfl, rfl⟩
  have hgrow : ∀ k : UploadIntent, k.archiveVersionId.isSome →
      (g k).archiveVersionId.isSome := by
    intro k hk
    simp only [hg, UploadIntent.linkVersion]
    split
    · split
      · rfl
      · exact hk
    · exact hk
  refine h.mapIntents (g := g) rfl rfl rfl (fun k => (hsame k).1) (fun k => (hsame k).2.1)
    (fun k _ ho => ?_) (fun k hk hs hst => ?_) (fun k hk hl => ?_)
    fun j hj hjt hro k hk hb hs => ?_
  · rwa [UploadIntent.outstanding, (hsame k).2.2.1, (hsame k).2.2.2] at ho
  · rw [(hsame k).2.2.1] at hs
    rw [(hsame k).2.2.2] at hst
    exact hgrow k (h.settled_linked k hk hs hst)
  · rw [(hsame k).2.2.2]
    by_cases hid : k.id = i.id
    · rw [db.eq_of_id_eq hk hi hid]
      exact hsent
    · simp only [hg, if_neg hid] at hl
      exact h.linked_sent k hk hl
  · rw [(hsame k).2.2.1] at hs
    exact hgrow k ((h.exclusive j hj hjt hro k hk hb).1 hs)

/-- The settlement of a cleanup only touches linked intents. -/
lemma JournalInv.settleKeeper (file : FileId) (keeper : RowId) :
    JournalInv (settleKeeper db file keeper) := by
  refine h.mapIntents rfl rfl rfl (fun k => by split <;> rfl) (fun k => by split <;> rfl)
    (fun k _ ho => ?_) (fun k hk hs hst => ?_) (fun k hk hl => ?_)
    fun j hj hjt hro k hk hb hs => ?_
  · split at ho
    · simp [UploadIntent.settle, UploadIntent.outstanding] at ho
    · exact ho
  · split at hs
    · rename_i hk'
      rw [if_pos hk', show k.settle.archiveVersionId = k.archiveVersionId from rfl, hk'.1]
      rfl
    · rename_i hk'
      rw [if_neg hk'] at hst ⊢
      exact h.settled_linked k hk hs hst
  · split at hl
    · rename_i hk'
      rw [if_pos hk']
      exact h.linked_sent k hk hl
    · rename_i hk'
      rw [if_neg hk']
      exact h.linked_sent k hk hl
  · split at hs
    · rename_i hk'
      rw [if_pos hk', show k.settle.archiveVersionId = k.archiveVersionId from rfl, hk'.1]
      rfl
    · rename_i hk'
      rw [if_neg hk']
      exact (h.exclusive j hj hjt hro k hk hb).1 hs

end

/-- What `release_for_rearm` does to the Jobs. -/
lemma releaseForRearm_spec (db : UploadDb) (job : WorkerJob) :
    (releaseForRearm db job).intents = db.intents ∧
      (releaseForRearm db job).intentJobs = db.intentJobs ∧
      (releaseForRearm db job).receipts = db.receipts ∧
      (releaseForRearm db job).nextUuid = db.nextUuid ∧
      (∀ j ∈ (releaseForRearm db job).cat.jobs, ∃ k ∈ db.cat.jobs, k.id = j.id ∧
        k.vaultFileId = j.vaultFileId ∧ k.status = j.status ∧ k.claimToken = j.claimToken ∧
        (j.uploadReconcileOnly = false → k.uploadReconcileOnly = false ∨ k.id = job.row.id)) ∧
      (∀ k ∈ db.cat.jobs, ∃ j ∈ (releaseForRearm db job).cat.jobs, j.id = k.id ∧
        j.vaultFileId = k.vaultFileId ∧ j.status = k.status ∧ j.claimToken = k.claimToken ∧
        (k.uploadReconcileOnly = false → j.uploadReconcileOnly = false) ∧
        (k.id = job.row.id → k.status.terminal = false → job.row.uploadReconcileOnly →
          j.uploadReconcileOnly = false)) := by
  unfold releaseForRearm
  by_cases hro : job.row.uploadReconcileOnly
  · simp only [if_pos hro]
    refine ⟨rfl, rfl, rfl, rfl, ?_, ?_⟩
    · intro j hj
      obtain ⟨k, hk, rfl⟩ := mem_map.mp hj
      refine ⟨k, hk, ?_⟩
      split
      · rename_i hid
        simp only [Bool.and_eq_true, decide_eq_true_eq] at hid
        exact ⟨rfl, rfl, rfl, rfl, fun _ => Or.inr hid.1⟩
      · exact ⟨rfl, rfl, rfl, rfl, Or.inl⟩
    · intro k hk
      refine ⟨_, mem_map_of_mem hk, ?_⟩
      split
      · exact ⟨rfl, rfl, rfl, rfl, fun _ => rfl, fun _ _ _ => rfl⟩
      · rename_i hno
        refine ⟨rfl, rfl, rfl, rfl, id, fun hid hkt _ => ?_⟩
        simp [hid, hkt] at hno
  · rw [if_neg hro]
    refine ⟨rfl, rfl, rfl, rfl, ?_, ?_⟩
    · intro j hj
      exact ⟨j, hj, rfl, rfl, rfl, rfl, Or.inl⟩
    · intro k hk
      exact ⟨k, hk, rfl, rfl, rfl, rfl, id, fun _ _ h => absurd h hro⟩

/-- **A re-armed Job may send.**  Its file has no send left, and its own intent is open. -/
lemma JournalInv.releaseForRearm (h : JournalInv db)
    (hquiet : ∀ j ∈ db.cat.jobs, j.id = job.row.id → ∀ i ∈ db.intents,
      (j.id, i.id) ∈ db.intentJobs → (i.settled → i.archiveVersionId.isSome) ∧
        ∀ k ∈ db.intents, k.vaultFileId = i.vaultFileId → k.outstanding → k = i) :
    JournalInv (releaseForRearm db job) := by
  obtain ⟨hi, hb, -, -, hbwd, hfwd⟩ := releaseForRearm_spec db job
  refine ⟨?_, by rw [hi]; exact h.one_outstanding, by rw [hi]; exact h.settled_linked,
    by rw [hi]; exact h.linked_sent, ?_, ?_⟩
  · intro j hj k hk hjt hkt hf
    obtain ⟨j₀, hj₀, hjid, hjf, hjs, -⟩ := hbwd j hj
    obtain ⟨k₀, hk₀, hkid, hkf, hks, -⟩ := hbwd k hk
    rw [← hjid, ← hkid]
    exact h.one_active j₀ hj₀ k₀ hk₀ (hjs ▸ hjt) (hks ▸ hkt) (by rw [hjf, hkf, hf])
  · intro b hmem
    rw [hb] at hmem
    rw [hi]
    obtain ⟨j, hj, i, hi', hjid, hiid, hf⟩ := h.bound b hmem
    obtain ⟨j', hj', hjid', hjf, -⟩ := hfwd j hj
    exact ⟨j', hj', i, hi', hjid'.trans hjid, hiid, hf.trans hjf.symm⟩
  · intro j hj hjt hro i hmem hbound
    rw [hi] at hmem ⊢
    rw [hb] at hbound
    obtain ⟨k, hk, hkid, hkf, hks, -, hkro⟩ := hbwd j hj
    rcases hkro hro with hkro | hkjob
    · exact h.exclusive k hk (hks ▸ hjt) hkro i hmem (hkid ▸ hbound)
    · exact hquiet k hk hkjob i hmem (hkid ▸ hbound)

/-- A new Job of an idle file is bound to nothing. -/
lemma JournalInv.insertJob (h : JournalInv db) {row : Job}
    (hidle : fileIdle db.cat row.vaultFileId) : JournalInv (db.insertJob row) := by
  have hnew : ∀ j ∈ (db.insertJob row).cat.jobs, (j ∈ db.cat.jobs ∧ j.id ≠ db.cat.freshJobId) ∨
      (j.id = db.cat.freshJobId ∧ j.vaultFileId = row.vaultFileId) := by
    intro j hj
    rcases mem_append.mp hj with hj | hj
    · exact Or.inl ⟨hj, Nat.ne_of_lt (Catalog.lt_fresh (mem_map_of_mem hj))⟩
    · rw [mem_singleton.mp hj]
      exact Or.inr ⟨rfl, rfl⟩
  have hidle' : ∀ j ∈ db.cat.jobs, j.vaultFileId = row.vaultFileId → j.status.terminal := by
    intro j hj hf
    have hall := all_eq_true.mp hidle j hj
    simpa [hf] using hall
  refine ⟨?_, h.one_outstanding, h.settled_linked, h.linked_sent, ?_, ?_⟩
  · intro j hj k hk hjt hkt hf
    rcases hnew j hj with ⟨hj, -⟩ | ⟨hjid, hjf⟩
    · rcases hnew k hk with ⟨hk, -⟩ | ⟨hkid, hkf⟩
      · exact h.one_active j hj k hk hjt hkt hf
      · rw [hidle' j hj (hf.trans hkf)] at hjt
        cases hjt
    · rcases hnew k hk with ⟨hk, -⟩ | ⟨hkid, hkf⟩
      · rw [hidle' k hk (hf.symm.trans hjf)] at hkt
        cases hkt
      · exact hjid.trans hkid.symm
  · intro b hb
    obtain ⟨j, hj, hrest⟩ := h.bound b hb
    exact ⟨j, mem_append_left _ hj, hrest⟩
  · intro j hj hjt hro i hi hb
    rcases hnew j hj with ⟨hj, -⟩ | ⟨hjid, -⟩
    · exact h.exclusive j hj hjt hro i hi hb
    · obtain ⟨k, hk, -, -, hkid, -⟩ := h.bound _ hb
      exact absurd (hkid.trans hjid)
        (Nat.ne_of_lt (Catalog.lt_fresh (mem_map_of_mem hk)))

/-! ### What a transaction leaves alone -/

/-- What a transaction does to the Jobs and intents it is not about: rights only grow,
bindings and receipts stay, a token is kept or new, and an intent that is not touched keeps
its token and its send. -/
structure Moved (db db' : UploadDb) (touched : IntentId → Prop) : Prop where
  jobs : ∀ j ∈ db.cat.jobs, ∃ j' ∈ db'.cat.jobs, j'.id = j.id ∧ j'.vaultFileId = j.vaultFileId ∧
    (j.uploadReconcileOnly = false → j'.uploadReconcileOnly = false)
  bound : ∀ b ∈ db.intentJobs, b ∈ db'.intentJobs
  receipts : ∀ f ∈ db.receipts, f ∈ db'.receipts
  uuids : db.nextUuid ≤ db'.nextUuid
  tokens : ∀ k ∈ db'.intents, (∃ i ∈ db.intents, i.id = k.id ∧ i.token = k.token) ∨
    db.nextUuid ≤ k.token
  intents : ∀ i ∈ db.intents, ¬touched i.id → ∃ k ∈ db'.intents, k.id = i.id ∧
    k.token = i.token ∧ (i.sendStarted = true → k.sendStarted = true)

/-- No worker owns a lease it did not own before. -/
def NoNewLease (db db' : UploadDb) : Prop :=
  ∀ job : WorkerJob, claimOwned db' job = true → claimOwned db job = true

/-- Sends that have started stay started, under their tokens. -/
def KeepsSends (db db' : UploadDb) : Prop :=
  ∀ i ∈ db.intents, i.sendStarted = true →
    ∃ k ∈ db'.intents, k.id = i.id ∧ k.token = i.token ∧ k.sendStarted = true

/-- The tables of intents are the same. -/
lemma Moved.ofJobs
    (hj : ∀ j ∈ db.cat.jobs, ∃ j' ∈ db'.cat.jobs, j'.id = j.id ∧ j'.vaultFileId = j.vaultFileId ∧
      (j.uploadReconcileOnly = false → j'.uploadReconcileOnly = false))
    (hi : db'.intents = db.intents) (hb : db'.intentJobs = db.intentJobs)
    (hr : db'.receipts = db.receipts) (hu : db'.nextUuid = db.nextUuid) :
    Moved db db' touched where
  jobs := hj
  bound _ hmem := hb ▸ hmem
  receipts _ hf := hr ▸ hf
  uuids := hu ▸ le_refl _
  tokens k hk := Or.inl ⟨k, hi ▸ hk, rfl, rfl⟩
  intents i him _ := ⟨i, hi ▸ him, rfl, rfl, id⟩

lemma Moved.refl (db : UploadDb) (touched : IntentId → Prop) : Moved db db touched :=
  Moved.ofJobs (fun j hj => ⟨j, hj, rfl, rfl, id⟩) rfl rfl rfl rfl

lemma Moved.trans {db'' : UploadDb} (h : Moved db db' touched)
    (h' : Moved db' db'' touched) : Moved db db'' touched where
  jobs j hj := by
    obtain ⟨k, hk, hkid, hkf, hkro⟩ := h.jobs j hj
    obtain ⟨l, hl, hlid, hlf, hlro⟩ := h'.jobs k hk
    exact ⟨l, hl, hlid.trans hkid, hlf.trans hkf, fun hro => hlro (hkro hro)⟩
  bound b hb := h'.bound b (h.bound b hb)
  receipts f hf := h'.receipts f (h.receipts f hf)
  uuids := le_trans h.uuids h'.uuids
  tokens l hl := by
    rcases h'.tokens l hl with ⟨k, hk, hkid, hkt⟩ | hge
    · rcases h.tokens k hk with ⟨i, hi, hiid, hit⟩ | hge
      · exact Or.inl ⟨i, hi, hiid.trans hkid, hit.trans hkt⟩
      · exact Or.inr (hkt ▸ hge)
    · exact Or.inr (le_trans h.uuids hge)
  intents i hi ht := by
    obtain ⟨k, hk, hkid, hkt, hks⟩ := h.intents i hi ht
    obtain ⟨l, hl, hlid, hlt, hls⟩ := h'.intents k hk (by rwa [hkid])
    exact ⟨l, hl, hlid.trans hkid, hlt.trans hkt, fun hs => hls (hks hs)⟩

lemma Moved.keepsSends (h : Moved db db' fun _ => False) : KeepsSends db db' := by
  intro i hi hs
  obtain ⟨k, hk, hid, ht, hks⟩ := h.intents i hi id
  exact ⟨k, hk, hid, ht, hks hs⟩

lemma Moved.mono {p q : IntentId → Prop} (h : Moved db db' p) (hpq : ∀ i, p i → q i) :
    Moved db db' q :=
  { h with intents := fun i hi hq => h.intents i hi fun hp => hq (hpq _ hp) }

/-- Intents rewritten row by row, their tokens kept. -/
lemma Moved.mapIntents {g : UploadIntent → UploadIntent}
    (hc : db'.cat = db.cat) (hi : db'.intents = db.intents.map g)
    (hb : db'.intentJobs = db.intentJobs) (hr : ∀ f ∈ db.receipts, f ∈ db'.receipts)
    (hu : db'.nextUuid = db.nextUuid) (hid : ∀ i, (g i).id = i.id)
    (htok : ∀ i, (g i).token = i.token)
    (hsend : ∀ i ∈ db.intents, ¬touched i.id → i.sendStarted →
      (g i).sendStarted) : Moved db db' touched where
  jobs j hj := ⟨j, hc ▸ hj, rfl, rfl, id⟩
  bound b hmem := hb ▸ hmem
  receipts := hr
  uuids := hu ▸ le_refl _
  tokens k hk := by
    rw [hi] at hk
    obtain ⟨i, him, rfl⟩ := mem_map.mp hk
    exact Or.inl ⟨i, him, (hid i).symm, (htok i).symm⟩
  intents i him ht :=
    ⟨g i, hi ▸ mem_map_of_mem him, hid i, htok i, hsend i him ht⟩

lemma NoNewLease.ofCat (hc : db'.cat = db.cat) : NoNewLease db db' := by
  intro job ho
  rwa [claimOwned, hc] at ho

/-- A Job's other columns change: the journal stays as it is. -/
lemma updateJob_spec (h : JournalInv db) (id : JobId) {g : Job → Job}
    (hid : ∀ j, (g j).id = j.id) (hg : ∀ j, (g j).lease = j.lease)
    (touched : IntentId → Prop) :
    JournalInv (db.updateJob id g hid) ∧ Moved db (db.updateJob id g hid) touched ∧
      NoNewLease db (db.updateJob id g hid) := by
  have hcols : ∀ j, (if j.id = id then g j else j).id = j.id ∧
      (if j.id = id then g j else j).vaultFileId = j.vaultFileId ∧
      (if j.id = id then g j else j).status = j.status ∧
      (if j.id = id then g j else j).claimToken = j.claimToken ∧
      (if j.id = id then g j else j).uploadReconcileOnly = j.uploadReconcileOnly := by
    intro j
    have hj := hg j
    simp only [Job.lease, Prod.mk.injEq] at hj
    split
    · exact hj
    · exact ⟨rfl, rfl, rfl, rfl, rfl⟩
  refine ⟨h.ofLeases ?_ rfl rfl, Moved.ofJobs ?_ rfl rfl rfl rfl, ?_⟩
  · exact LeasesFrom.mapJobs db.cat (fun j => (hcols j).1) (fun j => (hcols j).2.1)
      (fun j => (hcols j).2.2.2.2) fun j _ hjt => (hcols j).2.2.1 ▸ hjt
  · intro j hj
    exact ⟨_, mem_map_of_mem hj, (hcols j).1, (hcols j).2.1,
      fun hro => (hcols j).2.2.2.2.trans hro⟩
  · intro job ho
    obtain ⟨j', hj', hid', hc, ht⟩ := claimOwned_iff.mp ho
    obtain ⟨j, hj, rfl⟩ := mem_map.mp hj'
    obtain ⟨h₁, -, h₃, h₄, -⟩ := hcols j
    exact claimOwned_iff.mpr ⟨j, hj, h₁ ▸ hid', h₄ ▸ hc, h₃ ▸ ht⟩

lemma bind_spec (db : UploadDb) (job : JobId) (i : IntentId) :
    (db.bind job i).cat = db.cat ∧ (db.bind job i).intents = db.intents ∧
      (db.bind job i).receipts = db.receipts ∧ (db.bind job i).nextUuid = db.nextUuid ∧
      ∀ b ∈ db.intentJobs, b ∈ (db.bind job i).intentJobs := by
  unfold UploadDb.bind
  split
  · exact ⟨rfl, rfl, rfl, rfl, fun _ h => h⟩
  · exact ⟨rfl, rfl, rfl, rfl, fun b hb => mem_append_left _ hb⟩

lemma Moved.bind (db : UploadDb) (job : JobId) (i : IntentId) (touched : IntentId → Prop) :
    Moved db (db.bind job i) touched := by
  obtain ⟨hc, hi, hr, hu, hb⟩ := bind_spec db job i
  refine ⟨fun j hj => ⟨j, hc ▸ hj, rfl, rfl, id⟩, hb, fun f hf => hr ▸ hf, hu ▸ le_refl _,
    fun k hk => Or.inl ⟨k, hi ▸ hk, rfl, rfl⟩, fun i him _ => ⟨i, hi ▸ him, rfl, rfl, id⟩⟩

lemma Moved.releaseForRearm (db : UploadDb) (job : WorkerJob) (touched : IntentId → Prop) :
    Moved db (releaseForRearm db job) touched ∧ NoNewLease db (releaseForRearm db job) := by
  obtain ⟨hi, hb, hr, hu, hbwd, hfwd⟩ := releaseForRearm_spec db job
  refine ⟨Moved.ofJobs (fun j hj => ?_) hi hb hr hu, ?_⟩
  · obtain ⟨j', hj', hid, hf, -, -, hro, -⟩ := hfwd j hj
    exact ⟨j', hj', hid, hf, hro⟩
  · intro w ho
    obtain ⟨j', hj', hid, hc, ht⟩ := claimOwned_iff.mp ho
    obtain ⟨j, hj, hjid, -, hjs, hjc, -⟩ := hbwd j' hj'
    exact claimOwned_iff.mpr ⟨j, hj, hjid.trans hid, hjc.trans hc, hjs ▸ ht⟩

lemma Moved.settleKeeper (db : UploadDb) (file : FileId) (keeper : RowId) :
    Moved db (settleKeeper db file keeper) fun _ => False := by
  refine Moved.mapIntents rfl rfl rfl (fun _ hf => hf) rfl (fun i => ?_) (fun i => ?_)
    fun i _ _ hs => ?_
  · split <;> rfl
  · split <;> rfl
  · split <;> exact hs

/-- Closing intents that never sent touches no send. -/
lemma settleUnstarted_spec {keep : Option IntentId} (hok : settleUnstarted db file keep = .ok db') :
    db'.cat = db.cat ∧ db'.intentJobs = db.intentJobs ∧ Moved db db' (fun _ => False) ∧
      db'.intents = db.intents.map fun i => if i.unstarted file keep then i.settle else i := by
  simp only [settleUnstarted, bind_eq_ok_iff, pure_eq_ok_iff] at hok
  obtain ⟨-, -, rfl⟩ := hok
  refine ⟨rfl, rfl, Moved.mapIntents rfl rfl rfl (fun _ hf => hf) rfl (fun i => ?_) (fun i => ?_)
    fun i _ _ hs => ?_, rfl⟩
  · split <;> rfl
  · split <;> rfl
  · split <;> exact hs

/-! ### The transactions that bind an intent -/

/-- A Job without an intent is bound to nothing. -/
lemma JournalInv.not_bound_of_none (h : JournalInv db) {job : JobId}
    (hnone : loadForJob db job = none) (i : IntentId) : (job, i) ∉ db.intentJobs := by
  intro hb
  obtain ⟨-, -, k, hk, -, hkid, -⟩ := h.bound _ hb
  cases hfind : db.intentJobs.find? fun b => b.1 = job with
  | none =>
      have := find?_eq_none.mp hfind _ hb
      simp at this
  | some b =>
      have hjob : b.1 = job := by simpa using find?_some hfind
      have hmem := mem_of_find?_eq_some hfind
      have hbi : b.2 = i := db.bound_unique (hjob ▸ hmem) hb
      have hnone' : db.intent? b.2 = none := by simpa [loadForJob, hfind] using hnone
      have := find?_eq_none.mp hnone' k hk
      simp [hkid, hbi] at this

/-- A binding of a Job that has none is there afterwards. -/
lemma mem_bind {job : JobId} {i : IntentId} (hun : ∀ k, (job, k) ∉ db.intentJobs) :
    (job, i) ∈ (db.bind job i).intentJobs := by
  unfold UploadDb.bind
  split
  · rename_i hmem
    obtain ⟨⟨j, k⟩, hb, rfl⟩ := mem_map.mp hmem
    exact absurd hb (hun k)
  · exact mem_append_right _ (mem_singleton_self _)

lemma bindForResume_eq_ok {job : JobId}
    (hok : bindForResume db job i = .ok db') : db' = db.bind job i.id := by
  simp only [bindForResume, bind_eq_ok_iff, pure_eq_ok_iff] at hok
  obtain ⟨-, -, rfl⟩ := hok
  rfl

/-- **Loading.**  The intent an attempt loads is a row its Job is bound to. -/
lemma loadIntent_spec (h : JournalInv db) (hj : j ∈ db.cat.jobs)
    (hid : j.id = job.row.id) (hfile : j.vaultFileId = job.row.vaultFileId)
    {o : Option UploadIntent} (hok : loadIntent db job = .ok (o, db')) :
    JournalInv db' ∧ Moved db db' (fun _ => False) ∧ NoNewLease db db' ∧
      ∀ i, o = some i → i ∈ db'.intents ∧ (job.row.id, i.id) ∈ db'.intentJobs := by
  unfold loadIntent at hok
  split at hok
  · rename_i i hi
    obtain ⟨rfl, rfl⟩ : some i = o ∧ db = db' := by simpa using hok
    refine ⟨h, Moved.refl db _, fun _ ho => ho, ?_⟩
    rintro k hk
    cases hk
    exact mem_of_loadForJob hi
  · rename_i hnone
    simp only [bind_eq_ok_iff] at hok
    obtain ⟨o', ho', hok⟩ := hok
    cases o' with
    | none =>
        obtain ⟨rfl, rfl⟩ : none = o ∧ db = db' := by simpa using hok
        exact ⟨h, Moved.refl db _, fun _ ho => ho, by simp⟩
    | some i =>
        simp only [bind_eq_ok_iff, pure_eq_ok_iff, Prod.mk.injEq] at hok
        obtain ⟨db₁, hbind, rfl, rfl⟩ := hok
        obtain rfl := bindForResume_eq_ok hbind
        obtain ⟨him, hif, hout⟩ := mem_of_outstanding ho'
        have hinv : JournalInv (db.bind j.id i.id) := by
          refine h.bind hj him (hif.trans hfile.symm) fun _ _ => ⟨fun hs => ?_, ?_⟩
          · simp [UploadIntent.outstanding, hs] at hout
          · exact fun k hk hf ho => h.one_outstanding k hk i him hf ho hout
        obtain ⟨hc, hi, -⟩ := bind_spec db job.row.id i.id
        refine ⟨hid ▸ hinv, Moved.bind db _ _ _, NoNewLease.ofCat hc, ?_⟩
        rintro k hk
        cases hk
        exact ⟨hi ▸ him, mem_bind (h.not_bound_of_none hnone)⟩

/-- The rows a Job is bound to. -/
def BoundTo (db : UploadDb) (job : JobId) (i : IntentId) : Prop := (job, i) ∈ db.intentJobs

lemma prepareExisting_spec (h : JournalInv db)
    (hj : j ∈ db.cat.jobs) (hid : j.id = job.row.id) (hfile : j.vaultFileId = job.row.vaultFileId)
    (hjt : j.status.terminal = false) {p : Prepared} {at_ : Stamp} {e : UploadIntent}
    (he : e ∈ db.intents) (hb : (job.row.id, e.id) ∈ db.intentJobs)
    (hok : prepareExisting db job p at_ e = .ok (i, db')) :
    JournalInv db' ∧ Moved db db' (BoundTo db job.row.id) ∧ NoNewLease db db' ∧
      KeepsSends db db' ∧ ∃ r ∈ db'.intents, r.id = i.id ∧ r.token = i.token ∧
        (job.row.id, r.id) ∈ db'.intentJobs := by
  unfold prepareExisting at hok
  split at hok
  · obtain ⟨rfl, rfl⟩ : e = i ∧ db = db' := by simpa using hok
    exact ⟨h, Moved.refl db _, fun _ ho => ho, (Moved.refl db _).keepsSends, e, he, rfl, rfl, hb⟩
  · rename_i hopen
    have hunsent : e.sendStarted = false := by simp_all
    simp only [bind_eq_ok_iff, pure_eq_ok_iff, Prod.mk.injEq] at hok
    obtain ⟨-, -, -, -, db₁, hsettle, rfl, rfl⟩ := hok
    set db₀ := db.renewToken e.id (UploadIntent.repin p at_) (fun _ _ => rfl) fun _ _ => rfl
      with hdb₀
    have hkeep : ∀ k ∈ db₀.intents, (j.id, k.id) ∈ db₀.intentJobs → some e.id = some k.id := by
      intro k _ hk
      exact congrArg some (db.bound_unique hb (hid ▸ hk))
    have hinv := (h.renewToken e.id p at_).settleUnstarted hj hjt hfile hkeep hsettle
    obtain ⟨hcat, -, hmoved, hrows⟩ := settleUnstarted_spec hsettle
    -- the re-pinned row has not sent, so every send keeps its token
    have hrenew : ∀ k ∈ db.intents, k.id ≠ e.id → k ∈ db₀.intents := by
      intro k hk hne
      exact mem_map.mpr ⟨k, hk, if_neg hne⟩
    have hmoved₀ : Moved db db₀ (BoundTo db job.row.id) := by
      refine ⟨fun k hk => ⟨k, hk, rfl, rfl, id⟩, fun _ h => h, fun _ h => h, Nat.le_succ _,
        fun k hk => ?_, fun k hk hun => ?_⟩
      · obtain ⟨k₀, hk₀, rfl⟩ := mem_map.mp hk
        split
        · exact Or.inr (le_refl _)
        · exact Or.inl ⟨k₀, hk₀, rfl, rfl⟩
      · exact ⟨k, hrenew k hk fun hke => hun (show (_, k.id) ∈ _ from hke ▸ hb), rfl, rfl, id⟩
    refine ⟨hinv, hmoved₀.trans (hmoved.mono fun _ => False.elim), NoNewLease.ofCat hcat, ?_, ?_⟩
    · intro k hk hs
      have hne : k.id ≠ e.id := by
        intro hke
        rw [db.eq_of_id_eq hk he hke, hunsent] at hs
        cases hs
      exact hmoved.keepsSends k (hrenew k hk hne) hs
    · refine ⟨e.repin p at_ db.nextUuid, ?_, rfl, rfl, hmoved.bound _ hb⟩
      rw [hrows]
      refine mem_map.mpr ⟨e.repin p at_ db.nextUuid, ?_, ?_⟩
      · exact mem_map.mpr ⟨e, he, if_pos rfl⟩
      · rw [if_neg]
        simp [UploadIntent.unstarted, UploadIntent.repin]

lemma prepareNew_spec (h : JournalInv db)
    (hj : j ∈ db.cat.jobs) (hid : j.id = job.row.id) (hfile : j.vaultFileId = job.row.vaultFileId)
    (hjt : j.status.terminal = false) {p : Prepared} {at_ : Stamp}
    (hun : ∀ k, (job.row.id, k) ∉ db.intentJobs)
    (hok : prepareNew db job p at_ = .ok (i, db')) :
    JournalInv db' ∧ Moved db db' (BoundTo db job.row.id) ∧ NoNewLease db db' ∧
      KeepsSends db db' ∧ ∃ r ∈ db'.intents, r.id = i.id ∧ r.token = i.token ∧
        (job.row.id, r.id) ∈ db'.intentJobs := by
  simp only [prepareNew, bind_eq_ok_iff, require_eq_ok_iff, pure_eq_ok_iff, Prod.mk.injEq] at hok
  obtain ⟨db₁, hsettle, o, hout, -, rfl, rfl, rfl⟩ := hok
  have hinv := h.settleUnstarted hj hjt hfile (fun k _ hk => absurd (hid ▸ hk) (hun k.id)) hsettle
  obtain ⟨hcat, hjobs, hmoved, -⟩ := settleUnstarted_spec hsettle
  set db₂ := db₁.insertIntent (newIntent job p at_) (fun _ _ => rfl) fun _ _ => rfl with hdb₂
  set row := newIntent job p at_ db₁.nextUuid (db₁.nextUuid + 1) with hrow
  have hrowmem : row ∈ db₂.intents := mem_append_right _ (mem_singleton_self _)
  have hbind : JournalInv (db₂.bind j.id row.id) := by
    refine (hinv.insertIntent job p at_).bind (hcat ▸ hj : j ∈ db₂.cat.jobs) hrowmem
      hfile.symm fun _ _ => ⟨by simp [hrow, newIntent], ?_⟩
    intro k hk hf ho
    rcases mem_append.mp hk with hk | hk
    · rw [not_outstanding_of_none hout k hk hf] at ho
      cases ho
    · exact mem_singleton.mp hk
  have hmoved₂ : Moved db₁ db₂ fun _ => False := by
    refine ⟨fun k hk => ⟨k, hk, rfl, rfl, id⟩, fun _ hb => hb, fun _ hf => hf,
      Nat.le_add_right _ 2, fun k hk => ?_,
      fun k hk _ => ⟨k, mem_append_left _ hk, rfl, rfl, id⟩⟩
    rcases mem_append.mp hk with hk | hk
    · exact Or.inl ⟨k, hk, rfl, rfl⟩
    · rw [mem_singleton.mp hk]
      exact Or.inr (Nat.le_succ _)
  have hall : Moved db (db₂.bind job.row.id row.id) fun _ => False :=
    (hmoved.trans hmoved₂).trans (Moved.bind db₂ _ _ _)
  obtain ⟨hc, hi, -⟩ := bind_spec db₂ job.row.id row.id
  refine ⟨hid ▸ hbind, hall.mono fun _ => False.elim, NoNewLease.ofCat (hc.trans hcat),
    hall.keepsSends, row, hi ▸ hrowmem, rfl, rfl, mem_bind fun k hk => hun k (hjobs ▸ hk)⟩

/-- **Preparing.**  The prepared intent is a row the Job is bound to, and no other Job's
intent changes its token. -/
lemma prepare_spec (h : JournalInv db)
    (hj : j ∈ db.cat.jobs) (hid : j.id = job.row.id) (hfile : j.vaultFileId = job.row.vaultFileId)
    (hjt : j.status.terminal = false) {p : Prepared} {at_ : Stamp}
    (hok : prepare db job p at_ = .ok (i, db')) :
    JournalInv db' ∧ Moved db db' (BoundTo db job.row.id) ∧ NoNewLease db db' ∧
      KeepsSends db db' ∧ ∃ r ∈ db'.intents, r.id = i.id ∧ r.token = i.token ∧
        (job.row.id, r.id) ∈ db'.intentJobs := by
  simp only [prepare, bind_eq_ok_iff] at hok
  obtain ⟨-, -, hok⟩ := hok
  split at hok
  · rename_i e he
    obtain ⟨hmem, hb⟩ := mem_of_loadForJob he
    exact prepareExisting_spec h hj hid hfile hjt hmem hb hok
  · rename_i hnone
    exact prepareNew_spec h hj hid hfile hjt (h.not_bound_of_none hnone) hok

/-! ### The transactions of a send -/

/-- Without a receipt no response has been received. -/
lemma responses_eq_nil_of_receipt {i : IntentId} (h : receipt db i = .ok none) :
    responses db i = [] := by
  unfold receipt at h
  split at h
  · assumption
  · split at h
    · cases h
    · split at h <;> simp at h

lemma mem_responses_iff {i : IntentId} {r : UploadResponse} :
    r ∈ responses db i ↔ (i, UploadFact.response r) ∈ db.receipts := by
  unfold responses
  rw [mem_filterMap]
  constructor
  · rintro ⟨⟨k, f⟩, hmem, hf⟩
    cases f with
    | response r' =>
        simp only [Option.ite_none_right_eq_some, Option.some.injEq] at hf
        rw [← hf.1, ← hf.2]
        exact hmem
    | noWrite op => simp at hf
  · intro hmem
    exact ⟨_, hmem, by simp⟩

/-- A fact changes the receipts only. -/
lemma addFact_spec (db : UploadDb) (i : IntentId) (f : UploadFact) :
    (db.addFact i f).cat = db.cat ∧ (db.addFact i f).intents = db.intents ∧
      (db.addFact i f).intentJobs = db.intentJobs ∧ (db.addFact i f).nextUuid = db.nextUuid ∧
      (i, f) ∈ (db.addFact i f).receipts ∧ ∀ x ∈ db.receipts, x ∈ (db.addFact i f).receipts := by
  unfold UploadDb.addFact
  split
  · exact ⟨rfl, rfl, rfl, rfl, by assumption, fun _ h => h⟩
  · exact ⟨rfl, rfl, rfl, rfl, by simp, fun x hx => mem_append_left _ hx⟩

lemma JournalInv.addFact (h : JournalInv db) (i : IntentId) (f : UploadFact) :
    JournalInv (db.addFact i f) := by
  obtain ⟨hc, hi, hb, -⟩ := addFact_spec db i f
  exact h.ofLeases (hc ▸ LeasesFrom.refl _) hi hb

lemma Moved.addFact (db : UploadDb) (i : IntentId) (f : UploadFact) (touched : IntentId → Prop) :
    Moved db (db.addFact i f) touched := by
  obtain ⟨hc, hi, hb, hu, -, hr⟩ := addFact_spec db i f
  exact Moved.mapIntents (g := id) hc (by rw [hi, map_id]) hb hr hu (fun _ => rfl)
    (fun _ => rfl) fun _ _ _ hs => hs

/-- **Marking.**  The row had not sent and had no receipt; now it has sent. -/
lemma markSendStarted_spec (h : JournalInv db) {r : UploadIntent}
    (hj : j ∈ db.cat.jobs) (hid : j.id = job.row.id) (hjt : j.status.terminal = false)
    (hro : j.uploadReconcileOnly = false) (hr : r ∈ db.intents) (hri : r.id = i.id)
    (hb : (job.row.id, r.id) ∈ db.intentJobs) (hok : markSendStarted db job i = .ok db') :
    responses db i.id = [] ∧ r.sendStarted = false ∧ JournalInv db' ∧
      Moved db db' (fun _ => False) ∧ db'.cat = db.cat ∧ db'.intentJobs = db.intentJobs ∧
      r.setSendStarted true ∈ db'.intents := by
  simp only [markSendStarted, bind_eq_ok_iff, require_eq_ok_iff, pure_eq_ok_iff] at hok
  obtain ⟨-, -, o, ho, -, rfl, -, hany, rfl⟩ := hok
  have hun : r.sendStarted = false := by
    obtain ⟨k, hk, hks⟩ := (Option.any_eq_true _ _).mp hany
    obtain ⟨hkm, hkid⟩ := UploadDb.mem_of_intent? hk
    rw [db.eq_of_id_eq hr hkm (hri.trans hkid.symm)]
    simpa using hks
  rw [← hri]
  refine ⟨responses_eq_nil_of_receipt (hri ▸ ho), hun,
    h.setSendStarted hj hjt hro hr (hid ▸ hb) hun, ?_, rfl, rfl, ?_⟩
  · refine Moved.mapIntents rfl rfl rfl (fun _ hf => hf) rfl (fun k => ?_) (fun k => ?_)
      fun k _ _ hs => ?_
    · split <;> rfl
    · split <;> rfl
    · split
      · rfl
      · exact hs
  · exact mem_map.mpr ⟨r, hr, if_pos rfl⟩

/-- **Recording that nothing was written.**  The operation is on the list, no response had
been received, and the send is open no longer. -/
lemma recordNoWrite_spec (h : JournalInv db) {op : String}
    (hok : recordNoWrite db job i op = .ok db') :
    (NoWriteOperation.ofName op).isSome ∧ responses db i.id = [] ∧
      ∃ r ∈ db.intents, r.id = i.id ∧ r.outstanding ∧ JournalInv db' ∧
        Moved db db' (fun k => k = i.id) ∧ db'.cat = db.cat ∧ db'.intentJobs = db.intentJobs ∧
        db'.intents = db.intents.map fun k => if k.id = i.id then k.setSendStarted false else k := by
  unfold recordNoWrite at hok
  split at hok
  · cases hok
  · rename_i f hf
    simp only [bind_eq_ok_iff, require_eq_ok_iff, pure_eq_ok_iff] at hok
    obtain ⟨-, -, o, ho, -, rfl, -, hany, rfl⟩ := hok
    obtain ⟨r, hr, hrs⟩ := (Option.any_eq_true _ _).mp hany
    obtain ⟨hrm, hrid⟩ := UploadDb.mem_of_intent? hr
    simp only [Bool.and_eq_true, Bool.not_eq_true', Option.isNone_iff_eq_none] at hrs
    obtain ⟨hc, hi, hb, hu, -, hrec⟩ := addFact_spec (db.updateIntent i.id
      (UploadIntent.setSendStarted false) (fun _ => rfl) fun _ => rfl) i.id (.noWrite f)
    refine ⟨by rw [hf]; rfl, responses_eq_nil_of_receipt ho, r, hrm, hrid, ?_, ?_, ?_, hc, hb, hi⟩
    · rw [UploadIntent.outstanding, hrs.1.1, hrs.1.2]
      rfl
    · rw [← hrid]
      exact (h.clearSendStarted hrm hrs.2 hrs.1.2).addFact _ _
    · refine Moved.mapIntents hc hi hb hrec hu (fun k => ?_) (fun k => ?_) fun k _ ht hs => ?_
      · split <;> rfl
      · split <;> rfl
      · rw [if_neg ht]
        exact hs

/-- **Publishing** an intent whose send has started. -/
lemma publishUploadReceipt_spec (h : JournalInv db) {r : UploadIntent}
    {resp : UploadResponse} {v : RowId} (hr : r ∈ db.intents) (hri : r.id = i.id)
    (hsent : r.sendStarted) (hok : publishUploadReceipt db job i resp v = .ok db') :
    JournalInv db' ∧ Moved db db' (fun _ => False) ∧ NoNewLease db db' := by
  simp only [publishUploadReceipt, bind_eq_ok_iff, pure_eq_ok_iff] at hok
  obtain ⟨-, -, -, -, rfl⟩ := hok
  obtain ⟨hinv₁, hm₁, hl₁⟩ := updateJob_spec h job.row.id
    (g := Job.setUploadSnapshot i.snapshot) (fun _ => rfl) (fun _ => rfl) fun _ => False
  obtain ⟨hinv₂, hm₂, hl₂⟩ := updateJob_spec hinv₁ job.row.id (g := Job.linkVersion v)
    (fun _ => rfl) (fun _ => rfl) fun _ => False
  refine ⟨?_, (hm₁.trans hm₂).trans ?_, ?_⟩
  · rw [← hri]
    exact hinv₂.linkVersion hr hsent v
  · refine Moved.mapIntents rfl rfl rfl (fun _ hf => hf) rfl (fun k => ?_) (fun k => ?_)
      fun k _ _ hs => ?_
    · split <;> simp
    · split <;> simp
    · rw [UploadIntent.linkVersion]
      split
      · split <;> exact hs
      · exact hs
  · intro w ho
    exact hl₁ w (hl₂ w (NoNewLease.ofCat rfl w ho))

/-- **Re-arming.**  The Job may send again, and the send it made is closed. -/
lemma rearm_spec (h : JournalInv db)
    (hj : j ∈ db.cat.jobs) (hid : j.id = job.row.id) (hjt : j.status.terminal = false)
    (hro : job.row.uploadReconcileOnly = false → j.uploadReconcileOnly = false)
    (hb : (job.row.id, i.id) ∈ db.intentJobs)
    (hok : rearmAfterProvenAbsence db job i = .ok db') :
    responses db i.id = [] ∧ JournalInv db' ∧ Moved db db' (fun k => k = i.id) ∧
      NoNewLease db db' ∧ ∃ j' ∈ db'.cat.jobs, j'.id = j.id ∧ j'.vaultFileId = j.vaultFileId ∧
        j'.uploadReconcileOnly = false := by
  simp only [rearmAfterProvenAbsence, bind_eq_ok_iff, pure_eq_ok_iff] at hok
  obtain ⟨db₁, hno, rfl⟩ := hok
  obtain ⟨-, hresp, r, hr, hrid, hout, hinv, hmoved, hcat, hjobs, hrows⟩ :=
    recordNoWrite_spec h hno
  obtain ⟨hm, hl⟩ := Moved.releaseForRearm db₁ job fun k => k = i.id
  refine ⟨hresp, ?_, hmoved.trans hm, fun w ho => NoNewLease.ofCat hcat w (hl w ho), ?_⟩
  · refine hinv.releaseForRearm fun k hk hkid k' hk' hbound => ?_
    rw [hcat] at hk
    rw [hjobs, hkid] at hbound
    rw [hrows] at hk' ⊢
    obtain ⟨k₀, hk₀, rfl⟩ := mem_map.mp hk'
    have hk₀id : k₀.id = i.id := by
      have hid₀ : (if k₀.id = i.id then k₀.setSendStarted false else k₀).id = k₀.id := by
        split <;> rfl
      rw [hid₀] at hbound
      exact db.bound_unique hbound hb
    have hk₀r : k₀ = r := db.eq_of_id_eq hk₀ hr (hk₀id.trans hrid.symm)
    simp only [UploadIntent.outstanding, Bool.and_eq_true, Bool.not_eq_true'] at hout
    rw [if_pos hk₀id, hk₀r]
    refine ⟨fun hs => ?_, fun c hc hf ho => ?_⟩
    · rw [show (r.setSendStarted false).settled = r.settled from rfl, hout.2] at hs
      cases hs
    · obtain ⟨c₀, hc₀, rfl⟩ := mem_map.mp hc
      -- the other rows of the file had no send outstanding beside this one
      by_cases hcid : c₀.id = i.id
      · rw [if_pos hcid] at ho
        simp [UploadIntent.setSendStarted, UploadIntent.outstanding] at ho
      · rw [if_neg hcid] at ho hf
        have := h.one_outstanding c₀ hc₀ r hr hf ho (by simp [UploadIntent.outstanding, hout])
        exact absurd (this ▸ hrid) hcid
  · obtain ⟨-, -, -, -, -, hfwd⟩ := releaseForRearm_spec db₁ job
    obtain ⟨j', hj', hjid, hjf, -, -, hkeep, hfree⟩ := hfwd j (hcat ▸ hj)
    refine ⟨j', hj', hjid, hjf, ?_⟩
    cases hlocal : job.row.uploadReconcileOnly with
    | true => exact hfree hid hjt hlocal
    | false => exact hkeep (hro hlocal)

end Frostvault
