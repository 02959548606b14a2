import Frostvault.Lib.History
import Frostvault.Upload.Unresolved

/-!
The history of sends.

Before a call of `upload_s3_file` may write, its own attempt has committed the start of the
send, at a time when no response had been received, and no call has been let through under
that token since.  Only `record_no_write` opens the intent again.

* `Journaled`: what holds of each event in its history;
* `HistoryInv`: what the rows and the attempts say about the history;
* `historyInv_step`: every step keeps it;
* `sends_journaled`: **a send is repeated only after a journaled no-write**;
* `late_call`: the calls themselves, and receipts that arrive after the start of the send.
-/

namespace Frostvault

open Checks History Runs

variable {db db' : UploadDb} {s s' : UploadState} {a b a' : Attempt}

/-! ### Events -/

/-- A call is let through for an intent, under a token. -/
def UploadEvent.sends (i : IntentId) (t : UploadToken) : UploadEvent → Prop
  | .sent c => c.intent = i ∧ c.token = t
  | _ => False

/-- The send of an intent is recorded as not written. -/
def UploadEvent.closes (i : IntentId) : UploadEvent → Prop
  | .noWrite k _ => k = i
  | _ => False

/-- A call has been let through, and nothing has closed the send. -/
def SentSince (i : IntentId) (t : UploadToken) (l : List UploadEvent) : Prop :=
  Since (fun _ e => e.sends i t) (UploadEvent.closes i) l

/-- An attempt has started its send, and nothing has closed it. -/
def ArmedSince (claim : ℕ) (i : IntentId) (t : UploadToken) (l : List UploadEvent) : Prop :=
  Since (fun _ e => e = .armed claim i t) (UploadEvent.closes i) l

/-- **What holds of an event in its history.** -/
def Journaled (l : List UploadEvent) : UploadEvent → Prop
  | .noWrite i op => (NoWriteOperation.ofName op).isSome = true ∧ .received i ∉ l
  | .armed _ i _ => .received i ∉ l
  | .sent c => c.reconcileOnly = false ∧ ArmedSince c.claim c.intent c.token l ∧
      ¬SentSince c.intent c.token l ∧
      ∀ c', .sent c' ∈ l → c'.token = c.token → c'.intent = c.intent
  | _ => True

/-! ### The invariant -/

/-- What the rows and the attempts say about the history. -/
structure HistoryInv (s : UploadState) : Prop where
  good : Always Journaled s.log
  received : ∀ i, .received i ∈ s.log → responses s.db i ≠ []
  /-- The token of a call has been given, to the intent of the call. -/
  tokens : ∀ c, .sent c ∈ s.log → c.token < s.db.nextUuid ∧
    ∀ r ∈ s.db.intents, r.token = c.token → r.id = c.intent
  sends : ∀ i t, SentSince i t s.log →
    ∃ r ∈ s.db.intents, r.id = i ∧ r.token = t ∧ r.sendStarted = true
  ready : ∀ b ∈ s.attempts, claimOwned s.db b.job = true → ∀ i, b.phase.ready? = some i →
    ArmedSince b.claim i.id i.token s.log ∧ ¬SentSince i.id i.token s.log

lemma Moved.responses {touched : IntentId → Prop} (hm : Moved db db' touched) {i : IntentId}
    (h : responses db i ≠ []) : responses db' i ≠ [] := by
  obtain ⟨r, hr⟩ := List.exists_mem_of_ne_nil _ h
  exact List.ne_nil_of_mem (mem_responses_iff.mpr (hm.receipts _ (mem_responses_iff.mp hr)))

lemma Moved.token {touched : IntentId → Prop} (hm : Moved db db' touched) {t : UploadToken}
    {i : IntentId} (h : t < db.nextUuid ∧ ∀ r ∈ db.intents, r.token = t → r.id = i) :
    t < db'.nextUuid ∧ ∀ r ∈ db'.intents, r.token = t → r.id = i := by
  refine ⟨lt_of_lt_of_le h.1 hm.uuids, fun r hr ht => ?_⟩
  rcases hm.tokens r hr with ⟨k, hk, hkid, hkt⟩ | hnew
  · rw [← hkid]
    exact h.2 k hk (hkt.trans ht)
  · exact absurd (ht ▸ hnew) (Nat.not_le_of_lt h.1)

lemma HistoryInv.quiet (h : HistoryInv s) (hq : Quiet s s') : HistoryInv s' where
  good := by
    rw [hq.log]
    exact h.good
  received i hi := hq.moved.responses (h.received i (hq.log ▸ hi))
  tokens c hc := hq.moved.token (h.tokens c (hq.log ▸ hc))
  sends i t hs := by
    obtain ⟨r, hr, hid, ht, hst⟩ := h.sends i t (hq.log ▸ hs)
    obtain ⟨k, hk, hkid, hkt, hks⟩ := hq.moved.keepsSends r hr hst
    exact ⟨k, hk, hkid.trans hid, hkt.trans ht, hks⟩
  ready b hb hbo i hi := by
    rcases hq.attempts b hb with hnone | ⟨hb, hl⟩
    · rw [hnone] at hi
      cases hi
    · rw [hq.log]
      exact h.ready b hb (hl hbo) i hi

variable {es : List UploadEvent}

/-- What one attempt records neither closes nor repeats the send of another that owns its
lease. -/
lemma Progress.events_other (h : UploadInv s) (ha : a ∈ s.attempts) (hb : b ∈ s.attempts)
    (hne : b.claim ≠ a.claim) (hbo : claimOwned s.db b.job) {i : UploadIntent}
    (hi : b.phase.ready? = some i)
    (hp : Progress s.db db' a a' es) :
    (∀ e ∈ es, ¬e.closes i.id) ∧ ∀ e ∈ es, ¬e.sends i.id i.token := by
  have hint : b.phase.intent? = some i := by
    cases hbp : b.phase <;> simp_all [AttemptPhase.ready?, AttemptPhase.intent?]
  obtain ⟨r, -, hrid, -, hbound, -⟩ := (h.attempts b hb).holds hbo i hint
  rw [hrid] at hbound
  -- another attempt bound to the same intent would have the same claim
  have hother : ∀ k, claimOwned s.db a.job → (a.job.row.id, k) ∈ s.db.intentJobs →
      k ≠ i.id := by
    rintro k hao hk rfl
    exact hne (congrArg Attempt.claim (h.eq_of_bound hb ha hbo hao hbound hk))
  cases hp.events with
  | silent => simp
  | called => simp [UploadEvent.closes, UploadEvent.sends]
  | received => simp [UploadEvent.closes, UploadEvent.sends]
  | armed => simp [UploadEvent.closes, UploadEvent.sends]
  | noWrite k op ho hk => simpa [UploadEvent.closes, UploadEvent.sends] using hother k.id ho hk
  | sent k r' ho _ _ _ _ hid _ hk =>
      have hki := hother k.id ho (hid ▸ hk)
      simp [UploadEvent.closes, UploadEvent.sends, sendCall, hki]

lemma HistoryInv.good_put (h : HistoryInv s) (ha : a ∈ s.attempts)
    (he : EventsOf s.db db' a a' es) : Always Journaled (s.log ++ es) := by
  have hnew : ∀ i, responses s.db i = [] → .received i ∉ s.log :=
    fun i hnil hi => h.received i hi hnil
  cases he with
  | silent =>
      rw [List.append_nil]
      exact h.good
  | called => exact always_concat.mpr ⟨h.good, trivial⟩
  | received => exact always_concat.mpr ⟨h.good, trivial⟩
  | noWrite i op _ _ _ hop hresp => exact always_concat.mpr ⟨h.good, hop, hnew i.id hresp⟩
  | armed i _ _ _ _ _ _ _ _ hresp => exact always_concat.mpr ⟨h.good, hnew i.id hresp⟩
  | sent i r ho _ hready _ hr hid htok _ _ hro =>
      obtain ⟨harmed, hsent⟩ := h.ready a ha ho i hready
      refine always_concat.mpr ⟨h.good, hro, harmed, hsent, fun c' hc' htok' => ?_⟩
      exact ((h.tokens c' hc').2 r hr (htok.trans htok'.symm)).symm.trans hid

/-- What has been let through and not closed is a row whose send has started. -/
lemma HistoryInv.sends_put (h : HistoryInv s)
    (hp : Progress s.db db' a a' es) (i : IntentId) (t : UploadToken)
    (hs : SentSince i t (s.log ++ es)) :
    ∃ r ∈ db'.intents, r.id = i ∧ r.token = t ∧ r.sendStarted := by
  have hkeep : KeepsSends s.db db' → SentSince i t s.log →
      ∃ r ∈ db'.intents, r.id = i ∧ r.token = t ∧ r.sendStarted := by
    intro hk hs
    obtain ⟨r, hr, hid, ht, hst⟩ := h.sends i t hs
    obtain ⟨k, hkm, hkid, hkt, hks⟩ := hk r hr hst
    exact ⟨k, hkm, hkid.trans hid, hkt.trans ht, hks⟩
  cases hp.events with
  | silent hsends => exact hkeep hsends (by rwa [List.append_nil] at hs)
  | called c hsends =>
      rcases since_concat.mp hs with he | ⟨hs, -⟩
      · exact he.elim
      · exact hkeep hsends hs
  | received k hsends =>
      rcases since_concat.mp hs with he | ⟨hs, -⟩
      · exact he.elim
      · exact hkeep hsends hs
  | armed k _ _ hsends =>
      rcases since_concat.mp hs with he | ⟨hs, -⟩
      · exact he.elim
      · exact hkeep hsends hs
  | noWrite k op ho hb =>
      rcases since_concat.mp hs with he | ⟨hs, hne⟩
      · exact he.elim
      · obtain ⟨r, hr, hid, ht, hst⟩ := h.sends i t hs
        -- the step touches the intent of its own Job only, and that one is closed
        obtain ⟨c, hc, hcid, hct, hcs⟩ := hp.moved.intents r hr fun htouched =>
          hne ((s.db.bound_unique hb htouched.2).trans hid)
        exact ⟨c, hc, hcid.trans hid, hct.trans ht, hcs hst⟩
  | sent k r _ hdb _ _ hr hid ht _ hst =>
      subst hdb
      rcases since_concat.mp hs with ⟨hki, hkt⟩ | ⟨hs, -⟩
      · exact ⟨r, hr, hid.trans hki, ht.trans hkt, hst⟩
      · exact h.sends i t hs

/-- What an attempt that is about to send knows about the history. -/
lemma HistoryInv.ready_put (h : HistoryInv s) (ha : a ∈ s.attempts)
    (hp : Progress s.db db' a a' es) (hao : claimOwned db' a'.job)
    {i : UploadIntent} (hi : a'.phase.ready? = some i) :
    ArmedSince a'.claim i.id i.token (s.log ++ es) ∧ ¬SentSince i.id i.token (s.log ++ es) := by
  have hown : claimOwned s.db a.job := by
    refine hp.leases a.job ?_
    have hclaim : a'.job.token = a.job.token := hp.claim
    simpa only [claimOwned, hclaim, hp.job] using hao
  rw [hp.claim]
  cases hp.events with
  | silent _ hready =>
      rw [List.append_nil]
      exact h.ready a ha hown i (hready i hi)
  | called c _ hready =>
      obtain ⟨harmed, hsent⟩ := h.ready a ha hown i (hready i hi)
      exact ⟨harmed.append (by simp [UploadEvent.closes]),
        not_since_append hsent (by simp [UploadEvent.sends])⟩
  | received _ _ hready =>
      rw [hready] at hi
      cases hi
  | noWrite _ _ _ _ hready =>
      rw [hready] at hi
      cases hi
  | sent _ _ _ _ _ hready =>
      rw [hready] at hi
      cases hi
  | armed k r _ _ hready hr hid _ hun =>
      cases hready.symm.trans hi
      refine ⟨since_concat.mpr (Or.inl rfl), not_since_append (fun hsent => ?_)
        (by simp [UploadEvent.sends])⟩
      -- the row had not sent before this start
      obtain ⟨c, hc, hcid, -, hcs⟩ := h.sends _ _ hsent
      rw [s.db.eq_of_id_eq hc hr (hcid.trans hid.symm), hun] at hcs
      cases hcs

/-- A step of an attempt keeps the invariant. -/
lemma HistoryInv.put (h : HistoryInv s) (hinv : UploadInv s) (ha : a ∈ s.attempts)
    (hp : Progress s.db db' a a' es) :
    HistoryInv (s.put a' db' es) where
  good := h.good_put ha hp.events
  received i hi := by
    rcases List.mem_append.mp hi with hi | hi
    · exact hp.moved.responses (h.received i hi)
    · cases hp.events with
      | received k _ _ hresp =>
          obtain rfl : i = k := by simpa using hi
          exact hresp
      | _ => simp at hi
  tokens c hc := by
    rcases List.mem_append.mp hc with hc | hc
    · exact hp.moved.token (h.tokens c hc)
    · cases hp.events with
      | sent i r _ hdb _ _ hr hid ht =>
          obtain rfl : c = sendCall s.db a i := by simpa using hc
          subst hdb
          have hlt := (s.db.uuids_lt r hr).2
          rw [ht] at hlt
          refine ⟨hlt, fun k hk hkt => ?_⟩
          rw [s.db.eq_of_token_eq hk hr (hkt.trans ht.symm)]
          exact hid
      | _ => simp at hc
  sends := h.sends_put hp
  ready b hb hbo i hi := by
    obtain ⟨b₀, hb₀, rfl⟩ := List.mem_map.mp hb
    split at hbo
    · rename_i hclaim
      rw [if_pos hclaim] at hi ⊢
      exact h.ready_put ha hp hbo hi
    · rename_i hne
      rw [if_neg hne] at hi ⊢
      rw [hp.claim] at hne
      have hbo' := hp.leases b₀.job hbo
      obtain ⟨harmed, hsent⟩ := h.ready b₀ hb₀ hbo' i hi
      obtain ⟨hcloses, hsends⟩ := Progress.events_other hinv ha hb₀ hne hbo' hi hp
      exact ⟨harmed.append hcloses, not_since_append hsent fun e he _ => hsends e he⟩

/-- **Every step keeps the invariant.** -/
lemma historyInv_step (hinv : UploadInv s) (h : HistoryInv s) {act : UploadAct}
    (hstep : uploadStep s act = some s') : HistoryInv s' := by
  rcases uploadStep_cases hinv hstep with ⟨a, ha, a', db', es, rfl, hp⟩ | hq
  · exact h.put hinv ha hp
  · exact h.quiet hq

lemma historyInv_start (db : UploadDb) : HistoryInv (UploadState.start db) where
  good := always_nil
  received i hi := absurd hi (by simp [UploadState.start])
  tokens c hc := absurd hc (by simp [UploadState.start])
  sends i t hs := absurd hs not_since_nil
  ready b hb := absurd hb (by simp [UploadState.start])

/-! ### Runs -/

/-- **A send is repeated only after a journaled no-write.**  A call that may write finds its
Job not reconcile-only; its own attempt has started the send, before any response had been
received, and nothing has closed it since; and since any earlier such call under its token a
refusal on the list has been recorded, before any response had been received. -/
theorem sends_journaled {acts : List UploadAct} (hu : Unused db) (hone : OneActiveJob db.cat)
    (hrun : run uploadStep (UploadState.start db) acts = some s) :
    ∀ h c t, s.log = h ++ .sent c :: t →
      c.reconcileOnly = false ∧
      (∃ h₁ t₁, h = h₁ ++ .armed c.claim c.intent c.token :: t₁ ∧ .received c.intent ∉ h₁ ∧
        ∀ op, .noWrite c.intent op ∉ t₁) ∧
      ∀ h₁ c' t₁, h = h₁ ++ .sent c' :: t₁ → c'.token = c.token →
        ∃ op h₂ t₂, t₁ = h₂ ++ .noWrite c.intent op :: t₂ ∧
          (NoWriteOperation.ofName op).isSome = true ∧
          .received c.intent ∉ h₁ ++ .sent c' :: h₂ := by
  obtain ⟨-, hist⟩ : UploadInv s ∧ HistoryInv s :=
    run_induction (I := fun s => UploadInv s ∧ HistoryInv s)
      (fun _ _ _ hI hstep => ⟨uploadInv_step hI.1 hstep, historyInv_step hI.1 hI.2 hstep⟩)
      ⟨uploadInv_start hu hone, historyInv_start db⟩ hrun
  intro h c t hlog
  obtain ⟨hro, ⟨h₁, e, t₁, rfl, he, hopen⟩, hunsent, htokens⟩ := hist.good h (.sent c) t hlog
  obtain rfl : e = .armed c.claim c.intent c.token := he
  refine ⟨hro, ⟨h₁, t₁, rfl, ?_, fun op hop => hopen _ hop rfl⟩, fun g c' t' hg htok => ?_⟩
  · exact hist.good h₁ (.armed c.claim c.intent c.token) (t₁ ++ .sent c :: t) (by simp [hlog])
  · have hintent : c'.intent = c.intent := htokens c' (by simp [hg]) htok
    obtain ⟨e, he, hcloses⟩ := not_since_iff.mp hunsent g (.sent c') t' hg ⟨hintent, htok⟩
    obtain ⟨h₂, t₂, rfl⟩ := List.append_of_mem he
    cases e with
    | noWrite k op =>
        obtain rfl : k = c.intent := hcloses
        obtain ⟨hop, hnone⟩ := hist.good (g ++ .sent c' :: h₂) (.noWrite c.intent op)
          (t₂ ++ .sent c :: t) (by simp [hlog, hg])
        exact ⟨op, h₂, t₂, rfl, hop, hnone⟩
    | _ => exact hcloses.elim

/-- The first worker crashes, the second one sends the same token again. -/
theorem sends_journaled_landedAfterCrash :
    ∃ s h c t, run uploadStep (UploadState.start queuedUpload) landedAfterCrash = some s ∧
      s.log = h ++ .sent c :: t ∧ c.reconcileOnly = false ∧
      ∃ h₁ t₁, h = h₁ ++ .armed c.claim c.intent c.token :: t₁ ∧ .received c.intent ∉ h₁ ∧
        ∀ op, .noWrite c.intent op ∉ t₁ := by
  have hlog : (run uploadStep (UploadState.start queuedUpload) landedAfterCrash).map (·.log) =
      some ([.armed 1 0 1, .noWrite 0 "ProvenAbsent", .armed 2 0 1, .called ⟨2, 0, 0, 1, false⟩] ++
        .sent ⟨2, 0, 0, 1, false⟩ :: [.received 0, .received 0]) := by decide
  obtain ⟨s, hs, hlog⟩ := Option.map_eq_some_iff.mp hlog
  obtain ⟨hro, harmed, -⟩ := sends_journaled ⟨rfl, rfl, rfl⟩ (by decide) hs _ _ _ hlog
  exact ⟨s, _, _, _, hs, hlog, hro, harmed⟩

/-- The property without the claim check: of every call of `upload_s3_file`, and of receipts
at the time of the call. -/
def CallsJournaled (l : List UploadEvent) : Prop :=
  ∀ h c t, l = h ++ .called c :: t → c.reconcileOnly = false ∧ .received c.intent ∉ h ∧
    ∀ h₁ c' t₁, h = h₁ ++ .called c' :: t₁ → c'.token = c.token →
      ∃ op, .noWrite c.intent op ∈ t₁

/-- The first worker starts its send and loses its lease; the second one proves the absence,
sends and loses its lease as well; now the first one calls, and its claim check stops it.
The third worker proves the absence before the response to the second one arrives. -/
def lateCall : List UploadAct :=
  firstSend 1 ++ resumedSend 2 ++ [.call 2, .passCheck 2, .call 1] ++ resumedSend 3 ++
    [.acknowledge 2 landed, .call 3, .passCheck 3]

/-- A late worker still makes its call, and a receipt may arrive between the start of a send
and a call that passes its check. -/
theorem late_call :
    ∃ s, run uploadStep (UploadState.start queuedUpload) lateCall = some s ∧
      ¬CallsJournaled s.log ∧
      ∃ h c t, s.log = h ++ .sent c :: t ∧ .received c.intent ∈ h := by
  have hlog : (run uploadStep (UploadState.start queuedUpload) lateCall).map (·.log) =
      some [.armed 1 0 1, .noWrite 0 "ProvenAbsent", .armed 2 0 1, .called ⟨2, 0, 0, 1, false⟩,
        .sent ⟨2, 0, 0, 1, false⟩, .called ⟨1, 0, 0, 1, false⟩, .noWrite 0 "ProvenAbsent",
        .armed 3 0 1, .received 0, .called ⟨3, 0, 0, 1, false⟩, .sent ⟨3, 0, 0, 1, false⟩] := by
    decide
  obtain ⟨s, hs, hlog⟩ := Option.map_eq_some_iff.mp hlog
  refine ⟨s, hs, fun hall => ?_, s.log.take 10, ⟨3, 0, 0, 1, false⟩, [], by simp [hlog],
    by simp [hlog]⟩
  obtain ⟨-, -, hpair⟩ := hall (s.log.take 5) ⟨1, 0, 0, 1, false⟩ (s.log.drop 6) (by simp [hlog])
  obtain ⟨op, hop⟩ := hpair (s.log.take 3) ⟨2, 0, 0, 1, false⟩ [.sent ⟨2, 0, 0, 1, false⟩]
    (by simp [hlog]) rfl
  simp at hop

end Frostvault
