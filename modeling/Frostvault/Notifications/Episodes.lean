import Frostvault.Notifications.Deliveries

/-!
Every episode of a problem is notified, as long as no stale read is written back.

Only a commit of `set_problem` opens the problem; what it commits with that is a delivery that
was armed by the same transaction, under the lock of its row.  So the worker writes the outcome
of an attempt of an earlier episode only if it selected the row before that commit and writes it
after, and a transaction opens the problem without arming only if it has read it as open and
`reconcile_problem_states` resolved it before the write.

* `Moved`: what each statement finds and leaves;
* `WriterAt`, `WorkerAt`: what holds at each stage of the two transactions;
* `Sound.step`: **the step**: every statement of a calm run keeps it;
* `problem_episode_notified`: in every calm run the episode of an open problem is notified;
* `recurrence_swallowed`: a run that is not calm, and a recurrence nobody is told of.
-/

namespace Frostvault

open Runs Option

namespace Mail

variable {maxAttempts : ℕ}

/-! ### What a statement does -/

/-- A statement of `set_problem` and where its transaction is after it. -/
inductive WriterMoved (w : MailWorld) (t : Writer) : MailAct → Writer → Prop
  | readPrevious (h : t.stage = .reading) : WriterMoved w t .readPrevious
      { t with stage := t.stageAfterRead w.notification, previous := w.notification }
  | insertRow (h : t.stage = .inserting) : WriterMoved w t .insertRow
      { t with stage := .checking, row :=
          if w.notification.isNone then some (.enqueued t.path t.created) else none }
  | checkDelivery (h : t.stage = .checking) : WriterMoved w t .checkDelivery
      { t with stage := if w.delivery.isSome then .reporting else .arming }
  | insertDelivery (h : t.stage = .arming) : WriterMoved w t .insertDelivery
      { t with stage := .reporting, delivery := some (armed t.created) }
  | reportRow (h : t.stage = .reporting) (hfree : w.rowFreeForWriter) :
      WriterMoved w t .reportRow
      { t with stage := if t.reopen then .rearming else .done
               row := (t.row.or w.notification).map (.reported t.path t.reopen t.stamp) }
  | rearm (h : t.stage = .rearming) (hfree : w.deliveryFreeForWriter) : WriterMoved w t .rearm
      { t with stage := .done
               delivery := (t.delivery.or w.delivery).map fun _ => armed t.stamp }
  | resolveRow (h : t.stage = .resolving) (hfree : w.rowFreeForWriter) :
      WriterMoved w t .resolveRow
      { t with stage := .done, row := w.notification.map (.resolve t.stamp) }

/-- A statement of the worker, where its transaction is after it, and what it attempted. -/
inductive WorkerMoved (maxAttempts : ℕ) (w : MailWorld) (k : Worker) :
    MailAct → Worker → List MailAttempt → Prop
  | reconcile {resolves : Bool} {stamp : ℕ} (h : k.stage = .reconciling)
      (hfree : resolves → w.isOpen ∧ w.rowFree) :
      WorkerMoved maxAttempts w k (.workerReconcile resolves stamp)
      { k with stage := .selecting
               row := if resolves then w.notification.map (.resolve stamp) else none } []
  | select {stamp : ℕ} (h : k.stage = .selecting) :
      WorkerMoved maxAttempts w k (.select stamp)
      { k with stage := k.stageAfterSelect w stamp, stamp := stamp } []
  | send {row : Delivery} {episode : ℕ} {ok : Bool} (h : k.stage = .sending row episode) :
      WorkerMoved maxAttempts w k (.send ok)
      { k with stage := .recording row episode ok } [⟨episode, ok⟩]
  | record {row : Delivery} {episode : ℕ} {ok : Bool} (h : k.stage = .recording row episode ok)
      (hfree : w.deliveryFreeForWorker) : WorkerMoved maxAttempts w k .record
      { k with stage := .done
               delivery := w.delivery.map fun _ => row.attempted maxAttempts k.stamp ok } []

/-- What a statement, a commit or a rollback leaves. -/
inductive Moved (maxAttempts : ℕ) (w : MailWorld) : MailAct → MailWorld → Prop
  | lockOwner {active : Bool} {path : List Char} {stamp created : ℕ} (h : w.writer = none) :
      Moved maxAttempts w (.lockOwner active path stamp created)
      { w with writer := some ⟨active, path, stamp, created, .reading, none, none, none⟩ }
  | writer {a : MailAct} {t t' : Writer} (h : w.writer = some t) (hmoved : WriterMoved w t a t') :
      Moved maxAttempts w a { w with writer := some t' }
  | commitProblem {t : Writer} (h : w.writer = some t) (hdone : t.stage = .done) :
      Moved maxAttempts w .commitProblem
      { w with
        notification := t.row.or w.notification, delivery := t.delivery.or w.delivery
        writer := none
        episode := if (t.row.or w.notification).any (·.isOpen) && !w.isOpen then w.episode + 1
          else w.episode }
  | rollbackProblem : Moved maxAttempts w .rollbackProblem { w with writer := none }
  | reconcile {stamp : ℕ} (hopen : w.isOpen) (hfree : w.rowFree) :
      Moved maxAttempts w (.reconcile stamp)
      { w with resolver := w.notification.map (.resolve stamp) }
  | commitReconcile {row : Notification} (h : w.resolver = some row) :
      Moved maxAttempts w .commitReconcile { w with notification := some row, resolver := none }
  | rollbackReconcile : Moved maxAttempts w .rollbackReconcile { w with resolver := none }
  | startWorker (h : w.worker = none) : Moved maxAttempts w .startWorker
      { w with worker := some ⟨.reconciling, 0, none, none⟩ }
  | worker {a : MailAct} {k k' : Worker} {attempts : List MailAttempt} (h : w.worker = some k)
      (hmoved : WorkerMoved maxAttempts w k a k' attempts) : Moved maxAttempts w a
      { w with worker := some k', attempts := w.attempts ++ attempts }
  | commitWorker {k : Worker} (h : w.worker = some k) (hdone : k.stage = .done) :
      Moved maxAttempts w .commitWorker
      { w with
        notification := k.row.or w.notification, delivery := k.delivery.or w.delivery
        worker := none }
  | rollbackWorker : Moved maxAttempts w .rollbackWorker { w with worker := none }

lemma moved_of_mailStep {w w' : MailWorld} {a : MailAct} (h : mailStep maxAttempts w a = some w') :
    Moved maxAttempts w a w' := by
  cases a with
  | lockOwner active path stamp created =>
      obtain ⟨hwriter, rfl⟩ := checked_eq_some.mp h
      exact .lockOwner hwriter
  | readPrevious =>
      obtain ⟨t, ht, hstage, rfl⟩ := read_checked_eq_some.mp h
      exact .writer ht (.readPrevious hstage)
  | insertRow =>
      obtain ⟨t, ht, hstage, rfl⟩ := read_checked_eq_some.mp h
      exact .writer ht (.insertRow hstage)
  | checkDelivery =>
      obtain ⟨t, ht, hstage, rfl⟩ := read_checked_eq_some.mp h
      exact .writer ht (.checkDelivery hstage)
  | insertDelivery =>
      obtain ⟨t, ht, hstage, rfl⟩ := read_checked_eq_some.mp h
      exact .writer ht (.insertDelivery hstage)
  | reportRow =>
      obtain ⟨t, ht, ⟨hstage, hfree⟩, rfl⟩ := read_checked_eq_some.mp h
      exact .writer ht (.reportRow hstage hfree)
  | rearm =>
      obtain ⟨t, ht, ⟨hstage, hfree⟩, rfl⟩ := read_checked_eq_some.mp h
      exact .writer ht (.rearm hstage hfree)
  | resolveRow =>
      obtain ⟨t, ht, ⟨hstage, hfree⟩, rfl⟩ := read_checked_eq_some.mp h
      exact .writer ht (.resolveRow hstage hfree)
  | commitProblem =>
      obtain ⟨t, ht, hstage, rfl⟩ := read_checked_eq_some.mp h
      exact .commitProblem ht hstage
  | rollbackProblem =>
      obtain ⟨-, rfl⟩ := checked_eq_some.mp h
      exact .rollbackProblem
  | reconcile stamp =>
      obtain ⟨⟨hopen, hfree⟩, rfl⟩ := checked_eq_some.mp h
      exact .reconcile hopen hfree
  | commitReconcile =>
      obtain ⟨row, hrow, hw'⟩ := bind_eq_some_iff.mp h
      cases hw'
      exact .commitReconcile hrow
  | rollbackReconcile =>
      obtain ⟨-, rfl⟩ := checked_eq_some.mp h
      exact .rollbackReconcile
  | startWorker =>
      obtain ⟨hworker, rfl⟩ := checked_eq_some.mp h
      exact .startWorker hworker
  | workerReconcile resolves stamp =>
      obtain ⟨k, hk, ⟨hstage, hfree⟩, rfl⟩ := read_checked_eq_some.mp h
      have hmoved : Moved maxAttempts w (.workerReconcile resolves stamp) _ :=
        .worker hk (.reconcile hstage hfree)
      rwa [List.append_nil] at hmoved
  | select stamp =>
      obtain ⟨k, hk, hstage, rfl⟩ := read_checked_eq_some.mp h
      have hmoved : Moved maxAttempts w (.select stamp) _ := .worker hk (.select hstage)
      rwa [List.append_nil] at hmoved
  | send ok =>
      obtain ⟨k, hk, h⟩ := bind_eq_some_iff.mp h
      cases hstage : k.stage with
      | sending row episode =>
          rw [hstage] at h
          cases h
          exact .worker hk (.send hstage)
      | _ => simp [hstage] at h
  | record =>
      obtain ⟨k, hk, h⟩ := bind_eq_some_iff.mp h
      obtain ⟨hfree, h⟩ := guard_bind_eq_some.mp h
      cases hstage : k.stage with
      | recording row episode ok =>
          rw [hstage] at h
          cases h
          have hmoved : Moved maxAttempts w .record _ := .worker hk (.record hstage hfree)
          rwa [List.append_nil] at hmoved
      | _ => simp [hstage] at h
  | commitWorker =>
      obtain ⟨k, hk, hstage, rfl⟩ := read_checked_eq_some.mp h
      exact .commitWorker hk hstage
  | rollbackWorker =>
      obtain ⟨-, rfl⟩ := checked_eq_some.mp h
      exact .rollbackWorker

/-! ### What holds at each stage -/

/-- The outcome of a delivery is that of attempts of the current episode. -/
def Good (maxAttempts : ℕ) (w : MailWorld) (d : Delivery) : Prop :=
  match d.status with
  | .pending => d.attemptCount ≤ w.attemptsIn w.episode
  | .failed => maxAttempts ≤ w.attemptsIn w.episode
  | .delivered => w.sentIn w.episode

/-- A delivery as it is armed. -/
def Fresh (d : Delivery) : Prop := d.status = .pending ∧ d.attemptCount = 0

lemma fresh_armed (stamp : ℕ) : Fresh (armed stamp) := ⟨rfl, rfl⟩

/-- What `set_problem` has read first and what is committed since: only its own commit inserts
the row or opens it. -/
structure ReadFirst (w : MailWorld) (t : Writer) : Prop where
  absent : t.previous = none → w.notification = none
  present : ∀ n, t.previous = some n → w.notification.isSome
  closed : t.previous.any (·.isOpen) = false → w.isOpen = false
  status : ∀ n, t.previous = some n → n.problemStatus.isSome

/-- **What holds at each stage of `set_problem`.** -/
inductive WriterAt (w : MailWorld) (t : Writer) : Prop
  | reading (h : t.stage = .reading) (hrow : t.row = none) (hdelivery : t.delivery = none)
  | resolving (h : t.stage = .resolving) (hdelivery : t.delivery = none)
  | inserting (h : t.stage = .inserting) (hread : ReadFirst w t) (hdelivery : t.delivery = none)
  | checking (h : t.stage = .checking) (hread : ReadFirst w t) (hdelivery : t.delivery = none)
      (hrow : (t.row.or w.notification).isSome)
  | arming (h : t.stage = .arming) (hread : ReadFirst w t) (hdelivery : t.delivery = none)
      (hrow : (t.row.or w.notification).isSome) (hprevious : t.previous = none)
  | armedFirst (h : t.stage = .reporting) (hread : ReadFirst w t)
      (hrow : (t.row.or w.notification).isSome) (hprevious : t.previous = none)
      (hdelivery : ∃ d, t.delivery = some d ∧ Fresh d)
  | reporting (h : t.stage = .reporting) (hread : ReadFirst w t)
      (hrow : (t.row.or w.notification).isSome) (hprevious : t.previous.isSome)
      (hdelivery : t.delivery = none)
  | rearming (h : t.stage = .rearming) (hclosed : w.isOpen = false)
      (hpresent : w.notification.isSome) (hrow : t.row.any (·.isOpen))
      (hdelivery : t.delivery = none)
  | resolved (h : t.stage = .done)
      (hrow : ∀ n, t.row = some n → n.problemStatus = some .resolved ∧ w.notification.isSome)
      (hdelivery : t.delivery = none)
  | opened (h : t.stage = .done) (hclosed : w.isOpen = false) (hrow : t.row.any (·.isOpen))
      (hdelivery : ∃ d, t.delivery = some d ∧ Fresh d) (hfree : w.deliveryFreeForWriter)
  | reported (h : t.stage = .done) (hopen : w.isOpen) (hrow : t.row.any (·.isOpen))
      (hdelivery : t.delivery = none) (hfree : w.rowFreeForWriter)

/-- **What holds at each stage of the worker.** -/
inductive WorkerAt (maxAttempts : ℕ) (w : MailWorld) (k : Worker) : Prop
  | reconciling (h : k.stage = .reconciling) (hrow : k.row = none) (hdelivery : k.delivery = none)
  | selecting (h : k.stage = .selecting)
      (hrow : ∀ n, k.row = some n → n.problemStatus = some .resolved ∧ w.notification.isSome)
      (hdelivery : k.delivery = none)
  | sending {row : Delivery} {episode : ℕ} (h : k.stage = .sending row episode)
      (hrow : k.row = none) (hdelivery : k.delivery = none)
      (hcount : row.attemptCount ≤ w.attemptsIn episode)
  | recording {row : Delivery} {episode : ℕ} {ok : Bool} (h : k.stage = .recording row episode ok)
      (hrow : k.row = none) (hdelivery : k.delivery = none)
      (hcount : row.attemptCount + 1 ≤ w.attemptsIn episode) (hsent : ok → w.sentIn episode)
  | done (h : k.stage = .done)
      (hrow : ∀ n, k.row = some n → n.problemStatus = some .resolved ∧ w.notification.isSome)
      (hdelivery : ∀ d, k.delivery = some d → w.delivery.isSome ∧ (w.isOpen → Good maxAttempts w d))

/-- **The invariant.** -/
structure Sound (maxAttempts : ℕ) (w : MailWorld) : Prop where
  status : ∀ n, w.notification = some n → n.problemStatus.isSome
  rows : w.delivery.isSome = w.notification.isSome
  good : w.isOpen → ∀ d, w.delivery = some d → Good maxAttempts w d
  writer : ∀ t, w.writer = some t → WriterAt w t
  resolver : ∀ n, w.resolver = some n → n.problemStatus = some .resolved ∧ w.notification.isSome
  worker : ∀ k, w.worker = some k → WorkerAt maxAttempts w k

/-! ### What the others do to a stage -/

section Stable

variable {w w' : MailWorld} {t : Writer} {k : Worker} {d : Delivery}

/-- More attempts do not make an outcome worse. -/
lemma Good.mono (h : Good maxAttempts w d) (hepisode : w'.episode = w.episode)
    (hcount : ∀ e, w.attemptsIn e ≤ w'.attemptsIn e) (hsent : ∀ e, w.sentIn e → w'.sentIn e) :
    Good maxAttempts w' d := by
  unfold Good at h ⊢
  rw [hepisode]
  cases hstatus : d.status with
  | pending =>
      rw [hstatus] at h
      exact Nat.le_trans h (hcount w.episode)
  | failed =>
      rw [hstatus] at h
      exact Nat.le_trans h (hcount w.episode)
  | delivered =>
      rw [hstatus] at h
      exact hsent w.episode h

lemma Fresh.good (h : Fresh d) : Good maxAttempts w d := by
  unfold Good
  rw [h.1, h.2]
  exact Nat.zero_le _

/-- What was read stays true while the row only goes from open to resolved. -/
lemma ReadFirst.stable (h : ReadFirst w t)
    (hpresent : w'.notification.isSome = w.notification.isSome) (hopen : w'.isOpen → w.isOpen) :
    ReadFirst w' t where
  absent hprevious := by
    rw [← isNone_iff_eq_none, ← not_isSome, hpresent, h.absent hprevious]
    rfl
  present n hn := by rw [hpresent, h.present n hn]
  closed hprevious := by
    rw [Bool.eq_false_iff]
    intro hopen'
    have hfalse := h.closed hprevious
    rw [hopen hopen'] at hfalse
    cases hfalse
  status := h.status

lemma isSome_or_stable (hpresent : w'.notification.isSome = w.notification.isSome)
    (h : (t.row.or w.notification).isSome) : (t.row.or w'.notification).isSome := by
  cases hrow : t.row with
  | some n => rfl
  | none =>
      rw [hrow, none_or] at h
      rwa [none_or, hpresent]

/-- A stage of `set_problem` is not left by what the others do: they resolve the row, unless it
is held, and they write the delivery, unless that is held. -/
lemma WriterAt.stable (h : WriterAt w t) (hpresent : w'.notification.isSome = w.notification.isSome)
    (hopen : w'.isOpen → w.isOpen) (hrowFree : t.row.isSome → w.isOpen → w.rowFreeForWriter →
      w'.isOpen ∧ w'.rowFreeForWriter)
    (hdeliveryFree : t.delivery.isSome → w.deliveryFreeForWriter → w'.deliveryFreeForWriter) :
    WriterAt w' t := by
  have hclosed' : w.isOpen = false → w'.isOpen = false := by
    intro hclosed
    rw [Bool.eq_false_iff] at hclosed ⊢
    exact fun h' => hclosed (hopen h')
  have hheld : t.row.any (·.isOpen) → t.row.isSome := by
    intro hrow
    cases hcase : t.row with
    | none => simp [hcase] at hrow
    | some n => rfl
  cases h with
  | reading h hrow hdelivery => exact .reading h hrow hdelivery
  | resolving h hdelivery => exact .resolving h hdelivery
  | inserting h hread hdelivery => exact .inserting h (hread.stable hpresent hopen) hdelivery
  | checking h hread hdelivery hrow =>
      exact .checking h (hread.stable hpresent hopen) hdelivery (isSome_or_stable hpresent hrow)
  | arming h hread hdelivery hrow hprevious =>
      exact .arming h (hread.stable hpresent hopen) hdelivery (isSome_or_stable hpresent hrow)
        hprevious
  | armedFirst h hread hrow hprevious hdelivery =>
      exact .armedFirst h (hread.stable hpresent hopen) (isSome_or_stable hpresent hrow)
        hprevious hdelivery
  | reporting h hread hrow hprevious hdelivery =>
      exact .reporting h (hread.stable hpresent hopen) (isSome_or_stable hpresent hrow)
        hprevious hdelivery
  | rearming h hclosed hpresent' hrow hdelivery =>
      exact .rearming h (hclosed' hclosed) (by rwa [hpresent]) hrow hdelivery
  | resolved h hrow hdelivery =>
      exact .resolved h (fun n hn => ⟨(hrow n hn).1, by rw [hpresent, (hrow n hn).2]⟩) hdelivery
  | opened h hclosed hrow hdelivery hfree =>
      obtain ⟨d, hd, hfresh⟩ := hdelivery
      exact .opened h (hclosed' hclosed) hrow ⟨d, hd, hfresh⟩
        (hdeliveryFree (by rw [hd]; rfl) hfree)
  | reported h hopen' hrow hdelivery hfree =>
      obtain ⟨hopen'', hfree'⟩ := hrowFree (hheld hrow) hopen' hfree
      exact .reported h hopen'' hrow hdelivery hfree'

/-- A stage of the worker is not left by what the others do: unless it holds the delivery, they
may open the problem. -/
lemma WorkerAt.stable (h : WorkerAt maxAttempts w k)
    (hpresent : w.notification.isSome → w'.notification.isSome)
    (hdelivery : w.delivery.isSome → w'.delivery.isSome) (hattempts : w'.attempts = w.attempts)
    (hopen : k.delivery.isSome → w'.isOpen → w.isOpen ∧ w'.episode = w.episode) :
    WorkerAt maxAttempts w' k := by
  have hcount : ∀ e, w'.attemptsIn e = w.attemptsIn e := fun e => by
    rw [MailWorld.attemptsIn, hattempts, MailWorld.attemptsIn]
  have hsent : ∀ e, w'.sentIn e = w.sentIn e := fun e => by
    rw [MailWorld.sentIn, hattempts, MailWorld.sentIn]
  have hresolved : (∀ n, k.row = some n →
      n.problemStatus = some .resolved ∧ w.notification.isSome) →
      ∀ n, k.row = some n → n.problemStatus = some .resolved ∧ w'.notification.isSome :=
    fun hrow n hn => ⟨(hrow n hn).1, hpresent (hrow n hn).2⟩
  cases h with
  | reconciling h hrow hnone => exact .reconciling h hrow hnone
  | selecting h hrow hnone => exact .selecting h (hresolved hrow) hnone
  | sending h hrow hnone hle => exact .sending h hrow hnone (by rwa [hcount])
  | recording h hrow hnone hle hok =>
      exact .recording h hrow hnone (by rwa [hcount]) fun ok => by rw [hsent]; exact hok ok
  | done h hrow hwritten =>
      refine .done h (hresolved hrow) fun d hd => ⟨hdelivery (hwritten d hd).1, fun hopen' => ?_⟩
      obtain ⟨hwas, hepisode⟩ := hopen (by rw [hd]; rfl) hopen'
      exact ((hwritten d hd).2 hwas).mono hepisode (fun e => Nat.le_of_eq (hcount e).symm)
        fun e he => by rw [hsent]; exact he

end Stable

/-! ### The statements of `set_problem` -/

section Statements

variable {w : MailWorld} {t t' : Writer} {k k' : Worker} {a : MailAct}

lemma isOpen_of_resolved {n : Notification} (h : n.problemStatus = some .resolved) :
    n.isOpen = false := by
  simp [Notification.isOpen, h]

lemma isOpen_of_reopen (h : t.reopen) : t.previous.any (·.isOpen) = false := by
  unfold Writer.reopen at h
  cases hprevious : t.previous with
  | none => rfl
  | some n =>
      rw [hprevious] at h
      exact isOpen_of_resolved (by simpa using h)

/-- A row with a status that is no reopening was read as open. -/
lemma isOpen_of_not_reopen (hstatus : ∀ n, t.previous = some n → n.problemStatus.isSome)
    (hprevious : t.previous.isSome) (h : t.reopen = false) : t.previous.any (·.isOpen) := by
  obtain ⟨n, hn⟩ := isSome_iff_exists.mp hprevious
  have hsome := hstatus n hn
  rw [Writer.reopen, hn] at h
  rw [hn]
  cases hcase : n.problemStatus with
  | none => simp [hcase] at hsome
  | some status =>
      cases status with
      | «open» => simp [Notification.isOpen, hcase]
      | resolved => simp [hcase] at h

/-- The delivery is not held by the worker when there is none. -/
lemma deliveryFree_of_none (hw : Sound maxAttempts w) (h : w.notification = none) :
    w.deliveryFreeForWriter := by
  unfold MailWorld.deliveryFreeForWriter
  cases hk : w.worker with
  | none => rfl
  | some k =>
      have hdelivery : k.delivery = none := by
        cases hw.worker k hk with
        | reconciling _ _ hnone => exact hnone
        | selecting _ _ hnone => exact hnone
        | sending _ _ hnone _ => exact hnone
        | recording _ _ hnone _ _ => exact hnone
        | done _ _ hwritten =>
            cases hd : k.delivery with
            | none => rfl
            | some d =>
                have hsome := (hwritten d hd).1
                rw [hw.rows, h] at hsome
                cases hsome
      simp [hdelivery]

/-- A statement of `set_problem` leads to what holds at its next stage. -/
lemma writerAt_moved (hw : Sound maxAttempts w) (ht : WriterAt w t) (hmoved : WriterMoved w t a t')
    (hcalm : w.writer = some t → calm w a) (hwriter : w.writer = some t) : WriterAt w t' := by
  have hcalm := hcalm hwriter
  cases hmoved with
  | readPrevious h =>
      cases ht with
      | reading _ hrow hdelivery =>
          have hread : ReadFirst w
              { t with stage := t.stageAfterRead w.notification, previous := w.notification } :=
            ⟨fun h => h, fun n hn => by rw [show w.notification = some n from hn]; rfl,
              fun h => h, hw.status⟩
          unfold Writer.stageAfterRead at hread ⊢
          cases hactive : t.active with
          | true => exact .inserting (by simp) (by simpa [hactive] using hread) hdelivery
          | false =>
              cases hopen : w.notification.any (·.isOpen) with
              | true => exact .resolving (by simp) hdelivery
              | false => exact .resolved (by simp) (by simp [hrow]) hdelivery
      | _ => simp_all
  | insertRow h =>
      cases ht with
      | inserting _ hread hdelivery =>
          refine .checking rfl ⟨hread.absent, hread.present, hread.closed, hread.status⟩
            hdelivery ?_
          cases hnotification : w.notification with
          | none => simp
          | some n => simp
      | _ => simp_all
  | checkDelivery h =>
      cases ht with
      | checking _ hread hdelivery hrow =>
          have hread' : ∀ stage, ReadFirst w { t with stage := stage } := fun _ =>
            ⟨hread.absent, hread.present, hread.closed, hread.status⟩
          have hprevious : t.previous.isSome = w.delivery.isSome := by
            rw [hw.rows]
            cases hcase : t.previous with
            | none => rw [hread.absent hcase]
            | some n => rw [hread.present n hcase, isSome_some]
          cases hd : w.delivery.isSome with
          | true =>
              exact .reporting (by simp) (hread' _) hrow (by rw [hprevious, hd]) hdelivery
          | false =>
              refine .arming (by simp) (hread' _) hdelivery hrow ?_
              rw [← not_isSome_iff_eq_none, hprevious, hd]
              decide
      | _ => simp_all
  | insertDelivery h =>
      cases ht with
      | arming _ hread hdelivery hrow hprevious =>
          exact .armedFirst rfl ⟨hread.absent, hread.present, hread.closed, hread.status⟩ hrow
            hprevious ⟨_, rfl, fresh_armed t.created⟩
      | _ => simp_all
  | reportRow h hfree =>
      have hreported : (t.row.or w.notification).isSome →
          ((t.row.or w.notification).map (Notification.reported t.path t.reopen t.stamp)).any
            (·.isOpen) := by
        intro hrow
        obtain ⟨n, hn⟩ := isSome_iff_exists.mp hrow
        simp [hn]
      cases ht with
      | armedFirst _ hread hrow hprevious hdelivery =>
          have hreopen : t.reopen = false := by simp [Writer.reopen, hprevious]
          refine .opened (by simp [hreopen]) (hread.closed (by simp [hprevious]))
            (hreported hrow) hdelivery (deliveryFree_of_none hw (hread.absent hprevious))
      | reporting _ hread hrow hprevious hdelivery =>
          cases hreopen : t.reopen with
          | true =>
              obtain ⟨n, hn⟩ := isSome_iff_exists.mp hprevious
              have hopened := hreported hrow
              rw [hreopen] at hopened
              exact .rearming (by simp) (hread.closed (isOpen_of_reopen hreopen))
                (hread.present n hn) hopened hdelivery
          | false =>
              have hopened := hreported hrow
              rw [hreopen] at hopened
              have hopen : w.isOpen := by
                have hread' := isOpen_of_not_reopen hread.status hprevious hreopen
                simpa [calm, hwriter, hread'] using hcalm
              exact .reported (by simp) hopen hopened hdelivery hfree
      | _ => simp_all
  | rearm h hfree =>
      cases ht with
      | rearming _ hclosed hpresent hrow hdelivery =>
          refine .opened rfl hclosed hrow ?_ hfree
          rw [← hw.rows] at hpresent
          obtain ⟨d, hd⟩ := isSome_iff_exists.mp hpresent
          exact ⟨armed t.stamp, by simp [hdelivery, hd], fresh_armed t.stamp⟩
      | _ => simp_all
  | resolveRow h hfree =>
      cases ht with
      | resolving _ hdelivery =>
          refine .resolved rfl (fun n hn => ?_) hdelivery
          obtain ⟨m, hm, rfl⟩ := map_eq_some_iff.mp hn
          exact ⟨rfl, by rw [hm, isSome_some]⟩
      | _ => simp_all

/-! ### The statements of the worker -/

variable {attempts : List MailAttempt}

lemma attemptsIn_of_append {w w' : MailWorld} (h : w'.attempts = w.attempts ++ attempts) (e : ℕ) :
    w'.attemptsIn e = w.attemptsIn e + attempts.countP (·.episode == e) := by
  rw [MailWorld.attemptsIn, h, List.countP_append, MailWorld.attemptsIn]

lemma sentIn_of_append {w w' : MailWorld} (h : w'.attempts = w.attempts ++ attempts) (e : ℕ) :
    w'.sentIn e = (w.sentIn e || attempts.any fun a => a.episode == e && a.sent) := by
  rw [MailWorld.sentIn, h, List.any_append, MailWorld.sentIn]

/-- The outcome of an attempt of the current episode. -/
lemma good_attempted {row : Delivery} {stamp : ℕ} {ok : Bool}
    (hcount : row.attemptCount + 1 ≤ w.attemptsIn w.episode) (hsent : ok → w.sentIn w.episode) :
    Good maxAttempts w (row.attempted maxAttempts stamp ok) := by
  unfold Delivery.attempted
  cases ok with
  | true => exact hsent rfl
  | false =>
      dsimp only
      split
      · simp at *
      · split
        · rename_i hmax
          exact Nat.le_trans hmax hcount
        · exact hcount

/-- A selected delivery is pending, and its attempts are of the current episode. -/
lemma le_attemptsIn_of_selects (hw : Sound maxAttempts w) {stamp : ℕ} {d : Delivery}
    (hd : w.delivery = some d) (h : selects stamp w.notification d) :
    d.attemptCount ≤ w.attemptsIn w.episode := by
  obtain ⟨hdue, hrow⟩ := Bool.and_eq_true_iff.mp h
  have hpending : d.status = .pending := by simpa using (Bool.and_eq_true_iff.mp hdue).1
  have hopen : w.isOpen := by
    obtain ⟨n, hn, hstatus⟩ : ∃ n, w.notification = some n ∧
        (n.problemStatus.isNone || n.isOpen) := by
      simpa [any_eq_true] using hrow
    rw [MailWorld.isOpen, hn, any_some]
    rcases Bool.or_eq_true_iff.mp hstatus with hnone | hopen
    · have hsome := hw.status n hn
      rw [isNone_iff_eq_none.mp hnone] at hsome
      cases hsome
    · exact hopen
  have hgood := hw.good hopen d hd
  rw [Good, hpending] at hgood
  exact hgood

/-- A statement of the worker leads to what holds at its next stage. -/
lemma workerAt_moved (hw : Sound maxAttempts w) (hk : WorkerAt maxAttempts w k)
    (hmoved : WorkerMoved maxAttempts w k a k' attempts) (hcalm : calm w a)
    (hworker : w.worker = some k) :
    WorkerAt maxAttempts { w with worker := some k', attempts := w.attempts ++ attempts } k' := by
  cases hmoved with
  | reconcile h hfree =>
      cases hk with
      | reconciling _ hrow hdelivery =>
          refine .selecting rfl (fun n hn => ?_) hdelivery
          split at hn
          · obtain ⟨m, hm, rfl⟩ := map_eq_some_iff.mp hn
            exact ⟨rfl, by rw [hm, isSome_some]⟩
          · cases hn
      | _ => simp_all
  | select h =>
      cases hk with
      | selecting _ hrow hdelivery =>
          unfold Worker.stageAfterSelect
          cases hd : w.delivery with
          | none => exact .done rfl hrow (by simp [hdelivery])
          | some d =>
              dsimp only
              split
              · rename_i hselects
                have hnone : k.row = none := by
                  cases hcase : k.row with
                  | none => rfl
                  | some n =>
                      have hresolved := (hrow n hcase).1
                      rw [hcase] at hselects
                      simp [selects, hresolved, isOpen_of_resolved hresolved] at hselects
                rw [hnone, none_or] at hselects
                refine .sending rfl hnone hdelivery ?_
                rw [attemptsIn_of_append (w := w) rfl w.episode]
                exact le_attemptsIn_of_selects hw hd hselects
              · exact .done rfl hrow (by simp [hdelivery])
      | _ => simp_all
  | @send row episode ok h =>
      cases hk with
      | sending h' hrow hdelivery hcount =>
          obtain ⟨rfl, rfl⟩ := WorkerStage.sending.inj (h.symm.trans h')
          refine .recording rfl hrow hdelivery ?_ fun hok => ?_
          · rw [attemptsIn_of_append (w := w) rfl episode]
            simpa using hcount
          · rw [sentIn_of_append (w := w) rfl episode, hok]
            simp
      | _ => simp_all
  | @record row episode ok h hfree =>
      cases hk with
      | recording h' hrow hdelivery hcount hsent =>
          obtain ⟨rfl, rfl, rfl⟩ := WorkerStage.recording.inj (h.symm.trans h')
          rw [List.append_nil]
          refine .done rfl (by simp [hrow]) fun d hd => ?_
          obtain ⟨m, hm, rfl⟩ := map_eq_some_iff.mp hd
          refine ⟨by rw [hm, isSome_some], fun hopen => ?_⟩
          have hepisode : episode = w.episode := by
            have hwas : w.isOpen := hopen
            simpa [calm, hworker, h, hwas] using hcalm
          subst hepisode
          exact good_attempted hcount hsent
      | _ => simp_all

/-- The worker writes the problem's row only while `set_problem` does not hold it. -/
lemma row_eq_none_of_moved (hmoved : WorkerMoved maxAttempts w k a k' attempts)
    (ht : w.writer = some t) (hheld : t.row.isSome) (hnone : k.row = none) : k'.row = none := by
  cases hmoved with
  | @reconcile resolves stamp h hfree =>
      cases resolves with
      | false => rfl
      | true =>
          obtain ⟨-, hfree⟩ := hfree rfl
          obtain ⟨-, hfree⟩ := Bool.and_eq_true_iff.mp hfree
          have hrow : t.row = none := by simpa [ht] using hfree
          simp [hrow] at hheld
  | select h => exact hnone
  | send h => exact hnone
  | record h hfree => exact hnone

/-- The worker writes the delivery only while `set_problem` does not hold it. -/
lemma delivery_eq_none_of_moved (hmoved : WorkerMoved maxAttempts w k a k' attempts)
    (ht : w.writer = some t) (hheld : t.delivery.isSome) (hnone : k.delivery = none) :
    k'.delivery = none := by
  cases hmoved with
  | reconcile h hfree => exact hnone
  | select h => exact hnone
  | send h => exact hnone
  | record h hfree =>
      have hdelivery : t.delivery = none := by
        simpa [MailWorld.deliveryFreeForWorker, ht] using hfree
      simp [hdelivery] at hheld

end Statements

/-! ### One statement of anybody -/

section Step

variable {w w' : MailWorld} {a : MailAct}

lemma rowFreeForWriter_iff : w.rowFreeForWriter ↔
    w.resolver = none ∧ ∀ k, w.worker = some k → k.row = none := by
  simp [MailWorld.rowFreeForWriter, all_eq_true]

lemma deliveryFreeForWriter_iff : w.deliveryFreeForWriter ↔
    ∀ k, w.worker = some k → k.delivery = none := by
  simp [MailWorld.deliveryFreeForWriter, all_eq_true]

variable {row : Option Notification}

/-- A row that was written and resolved is not open. -/
lemma isOpen_or (h : ∀ n, row = some n → n.problemStatus = some .resolved)
    (hopen : (row.or w.notification).any (·.isOpen)) : row = none ∧ w.isOpen := by
  cases hrow : row with
  | none =>
      rw [hrow, none_or] at hopen
      exact ⟨rfl, hopen⟩
  | some n =>
      rw [hrow, some_or, any_some, isOpen_of_resolved (h n hrow)] at hopen
      cases hopen

lemma status_or (hw : Sound maxAttempts w) (h : ∀ n, row = some n → n.problemStatus.isSome)
    (n : Notification) (hn : row.or w.notification = some n) : n.problemStatus.isSome := by
  cases hrow : row with
  | none => exact hw.status n (by rwa [hrow, none_or] at hn)
  | some m =>
      rw [hrow, some_or] at hn
      exact h n (by rw [hrow, hn])

lemma status_of_resolved (h : ∀ n, row = some n → n.problemStatus = some .resolved)
    (n : Notification) (hn : row = some n) : n.problemStatus.isSome := by
  rw [h n hn]
  rfl

lemma isSome_or {α : Type} {x y : Option α} (h : x.isSome → y.isSome) :
    (x.or y).isSome = y.isSome := by
  cases x with
  | none => rw [none_or]
  | some n => rw [some_or, h rfl, isSome_some]

section

variable (hw : Sound maxAttempts w)

include hw

/-- **The commit of `set_problem`**: it opens the problem with a fresh delivery that nobody else
holds, or leaves it open, or resolves it. -/
lemma Sound.commitProblem {t : Writer} (ht : w.writer = some t) (hdone : t.stage = .done) :
    Sound maxAttempts { w with
      notification := t.row.or w.notification, delivery := t.delivery.or w.delivery
      writer := none
      episode := if (t.row.or w.notification).any (·.isOpen) && !w.isOpen then w.episode + 1
        else w.episode } := by
  have hopenrow : t.row.any (·.isOpen) → (t.row.or w.notification).any (·.isOpen) ∧
      (t.row.or w.notification).isSome ∧ ∀ n, t.row = some n → n.problemStatus.isSome := by
    intro hrow
    cases hcase : t.row with
    | none => simp [hcase] at hrow
    | some n =>
        rw [hcase] at hrow
        refine ⟨hrow, rfl, fun m hm => ?_⟩
        cases hm
        have hopen : n.problemStatus = some .open := by simpa [Notification.isOpen] using hrow
        rw [hopen, isSome_some]
  cases hw.writer t ht with
  | resolved _ hrow hdelivery =>
      -- the row is resolved, or was not written
      have hresolved := fun n hn => (hrow n hn).1
      have hpresent : (t.row.or w.notification).isSome = w.notification.isSome := by
        refine isSome_or fun hsome => ?_
        obtain ⟨n, hn⟩ := isSome_iff_exists.mp hsome
        exact (hrow n hn).2
      have hepisode : (if (t.row.or w.notification).any (·.isOpen) && !w.isOpen then
          w.episode + 1 else w.episode) = w.episode := by
        refine if_neg fun hcond => ?_
        obtain ⟨hopen, hclosed⟩ := Bool.and_eq_true_iff.mp hcond
        rw [(isOpen_or hresolved hopen).2] at hclosed
        cases hclosed
      refine ⟨status_or hw (status_of_resolved hresolved), ?_, fun hopen d hd => ?_, by simp,
        fun n hn => ?_, fun k hk => ?_⟩
      · simpa only [hdelivery, none_or, hpresent] using hw.rows
      · have hwas := (isOpen_or hresolved hopen).2
        rw [hdelivery, none_or] at hd
        exact (hw.good hwas d hd).mono hepisode (fun _ => Nat.le_refl _) fun _ he => he
      · exact ⟨(hw.resolver n hn).1, by rw [hpresent, (hw.resolver n hn).2]⟩
      · refine (hw.worker k hk).stable (fun h => by rwa [hpresent]) (fun h => ?_) rfl
          fun _ hopen => ⟨(isOpen_or hresolved hopen).2, hepisode⟩
        rwa [hdelivery, none_or]
  | opened _ hclosed hrow hdelivery hfree =>
      -- a new episode, with a delivery that was armed for it
      obtain ⟨hopen, hsome, hstatus⟩ := hopenrow hrow
      obtain ⟨d₀, hd₀, hfresh⟩ := hdelivery
      refine ⟨status_or hw hstatus, ?_, fun _ d hd => ?_, by simp, fun n hn => ?_,
        fun k hk => ?_⟩
      · rw [hsome, hd₀, some_or, isSome_some]
      · rw [hd₀, some_or] at hd
        cases hd
        exact hfresh.good
      · exact ⟨(hw.resolver n hn).1, hsome⟩
      · refine (hw.worker k hk).stable (fun _ => hsome) (fun _ => ?_) rfl fun hheld _ => ?_
        · rw [hd₀, some_or, isSome_some]
        · rw [deliveryFreeForWriter_iff.mp hfree k hk] at hheld
          cases hheld
  | reported _ hwas hrow hdelivery hfree =>
      -- the problem stays open, in the same episode
      obtain ⟨hopen, hsome, hstatus⟩ := hopenrow hrow
      have hpresent : w.notification.isSome := by
        cases hcase : w.notification with
        | none => simp [MailWorld.isOpen, hcase] at hwas
        | some n => rfl
      have hepisode : (if (t.row.or w.notification).any (·.isOpen) && !w.isOpen then
          w.episode + 1 else w.episode) = w.episode := by simp [hwas]
      refine ⟨status_or hw hstatus, ?_, fun _ d hd => ?_, by simp, fun n hn => ?_,
        fun k hk => ?_⟩
      · rw [hsome, hdelivery, none_or, hw.rows, hpresent]
      · rw [hdelivery, none_or] at hd
        exact (hw.good hwas d hd).mono hepisode (fun _ => Nat.le_refl _) fun _ he => he
      · exact ⟨(hw.resolver n hn).1, hsome⟩
      · refine (hw.worker k hk).stable (fun _ => hsome) (fun h => ?_) rfl
          fun _ _ => ⟨hwas, hepisode⟩
        rwa [hdelivery, none_or]
  | _ => simp_all

/-- The commit of `reconcile_problem_states`. -/
lemma Sound.commitReconcile {row : Notification} (hrow : w.resolver = some row) :
    Sound maxAttempts { w with notification := some row, resolver := none } := by
  obtain ⟨hresolved, hpresent⟩ := hw.resolver row hrow
  have hclosed : ∀ w' : MailWorld, w'.notification = some row → ¬w'.isOpen := by
    intro w' hw'
    rw [MailWorld.isOpen, hw', any_some, isOpen_of_resolved hresolved]
    decide
  refine ⟨fun n hn => ?_, ?_, fun hopen => absurd hopen (hclosed _ rfl), fun t ht => ?_, by simp,
    fun k hk => ?_⟩
  · cases hn
    rw [hresolved, isSome_some]
  · rw [hw.rows, hpresent, isSome_some]
  · refine (hw.writer t ht).stable (by rw [hpresent, isSome_some])
      (fun hopen => absurd hopen (hclosed _ rfl)) (fun _ _ hfree => ?_) fun _ hfree => hfree
    rw [(rowFreeForWriter_iff.mp hfree).1] at hrow
    cases hrow
  · exact (hw.worker k hk).stable (fun _ => rfl) (fun h => h) rfl
      fun _ hopen => absurd hopen (hclosed _ rfl)

/-- The commit of the worker: the outcome of an attempt of this episode, or of a problem that is
not open. -/
lemma Sound.commitWorker {k : Worker} (hk : w.worker = some k) (hdone : k.stage = .done) :
    Sound maxAttempts { w with
      notification := k.row.or w.notification, delivery := k.delivery.or w.delivery
      worker := none } := by
  cases hw.worker k hk with
  | done _ hrow hwritten =>
      have hresolved := fun n hn => (hrow n hn).1
      have hpresent : (k.row.or w.notification).isSome = w.notification.isSome := by
        refine isSome_or fun hsome => ?_
        obtain ⟨n, hn⟩ := isSome_iff_exists.mp hsome
        exact (hrow n hn).2
      have hdelivery : (k.delivery.or w.delivery).isSome = w.delivery.isSome := by
        refine isSome_or fun hsome => ?_
        obtain ⟨d, hd⟩ := isSome_iff_exists.mp hsome
        exact (hwritten d hd).1
      refine ⟨status_or hw (status_of_resolved hresolved), ?_, fun hopen d hd => ?_,
        fun t ht => ?_, fun n hn => ?_, by simp⟩
      · rw [hpresent, hdelivery, hw.rows]
      · have hwas := (isOpen_or hresolved hopen).2
        have hgood : Good maxAttempts w d := by
          cases hcase : k.delivery with
          | none => exact hw.good hwas d (by rwa [hcase, none_or] at hd)
          | some d' =>
              rw [hcase, some_or] at hd
              obtain rfl := Option.some.inj hd
              exact (hwritten d' hcase).2 hwas
        exact hgood.mono rfl (fun _ => Nat.le_refl _) fun _ he => he
      · refine (hw.writer t ht).stable hpresent (fun hopen => (isOpen_or hresolved hopen).2)
          (fun _ hwas hfree => ?_) fun _ _ => rfl
        obtain ⟨hresolver, hnone⟩ := rowFreeForWriter_iff.mp hfree
        refine ⟨?_, rowFreeForWriter_iff.mpr ⟨hresolver, by simp⟩⟩
        rw [MailWorld.isOpen, hnone k hk, none_or]
        exact hwas
      · exact ⟨(hw.resolver n hn).1, by rw [hpresent, (hw.resolver n hn).2]⟩
  | _ => simp_all

/-- **The step**: every statement of a calm run keeps what holds. -/
theorem Sound.step (hcalm : calm w a) (h : Moved maxAttempts w a w') : Sound maxAttempts w' := by
  cases h with
  | lockOwner hnone =>
      refine ⟨hw.status, hw.rows, hw.good, fun t ht => ?_, hw.resolver, fun k hk => ?_⟩
      · cases ht
        exact .reading rfl rfl rfl
      · exact (hw.worker k hk).stable (fun h => h) (fun h => h) rfl fun _ hopen => ⟨hopen, rfl⟩
  | @writer _ t t' ht hmoved =>
      refine ⟨hw.status, hw.rows, hw.good, fun x hx => ?_, hw.resolver, fun k hk => ?_⟩
      · cases hx
        exact (writerAt_moved hw (hw.writer t ht) hmoved (fun _ => hcalm) ht).stable rfl
          (fun hopen => hopen) (fun _ hopen hfree => ⟨hopen, hfree⟩) fun _ hfree => hfree
      · exact (hw.worker k hk).stable (fun h => h) (fun h => h) rfl fun _ hopen => ⟨hopen, rfl⟩
  | commitProblem ht hdone => exact hw.commitProblem ht hdone
  | rollbackProblem =>
      refine ⟨hw.status, hw.rows, hw.good, by simp, hw.resolver, fun k hk => ?_⟩
      exact (hw.worker k hk).stable (fun h => h) (fun h => h) rfl fun _ hopen => ⟨hopen, rfl⟩
  | reconcile hopen hfree =>
      obtain ⟨-, hheld⟩ := Bool.and_eq_true_iff.mp hfree
      refine ⟨hw.status, hw.rows, hw.good, fun t ht => ?_, fun n hn => ?_, fun k hk => ?_⟩
      · have ht' : w.writer = some t := ht
        have hnone : t.row = none := by simpa [ht'] using hheld
        refine (hw.writer t ht).stable rfl (fun hopen => hopen) (fun hsome => ?_)
          fun _ hfree => hfree
        simp [hnone] at hsome
      · obtain ⟨m, hm, rfl⟩ := map_eq_some_iff.mp hn
        exact ⟨rfl, by rw [hm, isSome_some]⟩
      · exact (hw.worker k hk).stable (fun h => h) (fun h => h) rfl fun _ hopen => ⟨hopen, rfl⟩
  | commitReconcile hrow => exact hw.commitReconcile hrow
  | rollbackReconcile =>
      refine ⟨hw.status, hw.rows, hw.good, fun t ht => ?_, by simp, fun k hk => ?_⟩
      · refine (hw.writer t ht).stable rfl (fun hopen => hopen) (fun _ hopen hfree => ?_)
          fun _ hfree => hfree
        exact ⟨hopen, rowFreeForWriter_iff.mpr ⟨rfl, (rowFreeForWriter_iff.mp hfree).2⟩⟩
      · exact (hw.worker k hk).stable (fun h => h) (fun h => h) rfl fun _ hopen => ⟨hopen, rfl⟩
  | startWorker hnone =>
      refine ⟨hw.status, hw.rows, hw.good, fun t ht => ?_, hw.resolver, fun k hk => ?_⟩
      · refine (hw.writer t ht).stable rfl (fun hopen => hopen) (fun _ hopen hfree => ?_)
          fun _ _ => rfl
        refine ⟨hopen, rowFreeForWriter_iff.mpr ⟨(rowFreeForWriter_iff.mp hfree).1, ?_⟩⟩
        intro k hk
        cases hk
        rfl
      · cases hk
        exact .reconciling rfl rfl rfl
  | @worker _ k k' attempts hk hmoved =>
      refine ⟨hw.status, hw.rows, fun hopen d hd => ?_, fun t ht => ?_, hw.resolver,
        fun x hx => ?_⟩
      · refine (hw.good hopen d hd).mono rfl (fun e => ?_) fun e he => ?_
        · exact Nat.le_trans (Nat.le_add_right _ _)
            (Nat.le_of_eq (attemptsIn_of_append rfl e).symm)
        · rw [sentIn_of_append (w := w) rfl e, he, Bool.true_or]
      · refine (hw.writer t ht).stable rfl (fun hopen => hopen) (fun hsome hopen hfree => ?_)
          fun hsome hfree => ?_
        · refine ⟨hopen, rowFreeForWriter_iff.mpr ⟨(rowFreeForWriter_iff.mp hfree).1, ?_⟩⟩
          intro x hx
          cases hx
          exact row_eq_none_of_moved hmoved ht hsome ((rowFreeForWriter_iff.mp hfree).2 k hk)
        · refine deliveryFreeForWriter_iff.mpr fun x hx => ?_
          cases hx
          exact delivery_eq_none_of_moved hmoved ht hsome
            (deliveryFreeForWriter_iff.mp hfree k hk)
      · cases hx
        exact workerAt_moved hw (hw.worker k hk) hmoved hcalm hk
  | commitWorker hk hdone => exact hw.commitWorker hk hdone
  | rollbackWorker =>
      refine ⟨hw.status, hw.rows, hw.good, fun t ht => ?_, hw.resolver, by simp⟩
      refine (hw.writer t ht).stable rfl (fun hopen => hopen) (fun _ hopen hfree => ?_)
        fun _ _ => rfl
      exact ⟨hopen, rowFreeForWriter_iff.mpr ⟨(rowFreeForWriter_iff.mp hfree).1, by simp⟩⟩

end

end Step

/-! ### Runs -/

lemma sound_quiet : Sound maxAttempts quiet where
  status n hn := by simp [quiet] at hn
  rows := rfl
  good hopen := by simp [quiet, MailWorld.isOpen] at hopen
  writer t ht := by simp [quiet] at ht
  resolver n hn := by simp [quiet] at hn
  worker k hk := by simp [quiet] at hk

/-- What holds says that the episode is notified. -/
lemma Sound.notified {w : MailWorld} (hw : Sound maxAttempts w) : Notified maxAttempts w := by
  intro hopen
  have hpresent : w.delivery.isSome := by
    rw [hw.rows]
    cases hcase : w.notification with
    | none => simp [MailWorld.isOpen, hcase] at hopen
    | some n => rfl
  obtain ⟨d, hd⟩ := isSome_iff_exists.mp hpresent
  have hgood := hw.good hopen d hd
  unfold Good at hgood
  cases hstatus : d.status with
  | pending => exact .inl ⟨d, hd, .inl hstatus⟩
  | failed =>
      rw [hstatus] at hgood
      exact .inl ⟨d, hd, .inr ⟨hstatus, hgood⟩⟩
  | delivered =>
      rw [hstatus] at hgood
      exact .inr hgood

/-- **Every episode is notified in a calm run**: whenever the problem is open, its delivery is
pending or failed after `max_attempts` attempts of this episode, or an attempt that selected it
in this episode sent the mail. -/
theorem problem_episode_notified {as : List MailAct} {w : MailWorld}
    (hcalm : Along (mailStep maxAttempts) (fun w a => calm w a) quiet as)
    (h : run (mailStep maxAttempts) quiet as = some w) : Notified maxAttempts w := by
  refine Sound.notified (run_induction_along (G := fun w a => calm w a) ?_ sound_quiet hcalm h)
  exact fun _ _ _ hw hstep hmoved => hw.step hstep (moved_of_mailStep hmoved)

/-- A problem that is reported for the first time. -/
def opening (stamp : ℕ) : List MailAct :=
  [.lockOwner true [] stamp stamp, .readPrevious, .insertRow, .checkDelivery, .insertDelivery,
    .reportRow, .commitProblem]

/-- The problem is gone. -/
def closing (stamp : ℕ) : List MailAct :=
  [.lockOwner false [] stamp stamp, .readPrevious, .resolveRow, .commitProblem]

/-- The problem is reported again after it was resolved. -/
def recurrence (stamp : ℕ) : List MailAct :=
  [.lockOwner true [] stamp stamp, .readPrevious, .insertRow, .checkDelivery, .reportRow, .rearm,
    .commitProblem]

/-- The worker selects the delivery and sends the mail. -/
def sending (stamp : ℕ) : List MailAct :=
  [.startWorker, .workerReconcile false stamp, .select stamp, .send true]

/-- The worker writes the outcome. -/
def recording : List MailAct := [.record, .commitWorker]

/-- A problem, its mail, and its recurrence. -/
def recurring : List MailAct :=
  opening 1 ++ sending 2 ++ recording ++ closing 3 ++ recurrence 4

/-- The recurrence is notified. -/
theorem problem_episode_notified_recurrence : ∃ w, run (mailStep 3) quiet recurring = some w ∧
    w.isOpen ∧ Notified 3 w :=
  ⟨_, rfl, by decide, problem_episode_notified (show Along (mailStep 3)
    (fun w a => calm w a) quiet recurring by decide) rfl⟩

/-- A delivered mail of an earlier episode notifies nobody of this one. -/
lemma not_notified_of_delivered {w : MailWorld} {d : Delivery} (hopen : w.isOpen)
    (hd : w.delivery = some d) (hstatus : d.status = .delivered)
    (hsent : w.sentIn w.episode = false) : ¬Notified maxAttempts w := by
  intro h
  rcases h hopen with ⟨d', hd', hpending | ⟨hfailed, -⟩⟩ | h
  · cases hd.symm.trans hd'
    simp [hstatus] at hpending
  · cases hd.symm.trans hd'
    simp [hstatus] at hfailed
  · simp [hsent] at h

/-- **A recurrence that is swallowed**: the mail of the first episode is out, the problem is
resolved and opens again, and then the worker writes its outcome over the armed delivery. -/
theorem recurrence_swallowed : ¬∀ (maxAttempts : ℕ) (as : List MailAct) (w : MailWorld),
    run (mailStep maxAttempts) quiet as = some w → Notified maxAttempts w := by
  intro hall
  have hnotified := hall 3
    (opening 1 ++ sending 2 ++ closing 3 ++ recurrence 4 ++ recording) _ rfl
  exact not_notified_of_delivered (by decide) rfl (by decide) (by decide) hnotified

/-- Another one: `set_problem` has read the problem as open, and it is resolved before the
row is written. -/
example : ∃ w, run (mailStep 3) quiet (opening 1 ++ sending 2 ++ recording ++
    [.lockOwner true [] 3 3, .readPrevious, .reconcile 4, .commitReconcile, .insertRow,
      .checkDelivery, .reportRow, .commitProblem]) = some w ∧ ¬Notified 3 w :=
  ⟨_, rfl, not_notified_of_delivered (by decide) rfl (by decide) (by decide)⟩

end Mail

end Frostvault
