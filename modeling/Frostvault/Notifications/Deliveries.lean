import Frostvault.Lib.Runs
import Frostvault.Notifications.Problems
import Mathlib.Algebra.Group.Nat.Defs

/-!
The email of a problem, statement by statement under READ COMMITTED (`set_problem`,
`_ensure_delivery`, `reconcile_problem_states`, `deliver_pending_notifications` of
`app/services/notifications.py`).

A problem has one row in `notifications` and one email row in `notification_deliveries`.  A
transaction sees what is committed and its own writes; it holds a row it wrote to its end, and
an `UPDATE` by id waits for a row that another transaction holds and then writes it whatever it
has become.  `set_problem` locks the row of the Owner first, so one of its transactions at a time
is past its first statement.  The worker reads the due deliveries, sends, and writes the outcome
by id; neither it nor `reconcile_problem_states` locks the Owner.

* `Writer`, `Worker`: a transaction of `set_problem`, and the one of the worker;
* `MailWorld`: the committed rows, the rows that open transactions hold, and what was attempted;
* `MailAct`, `mailStep`: the statements, and what each of them does;
* `Notified`: the episode of an open problem is notified;
* `calm`: the condition on the steps of a run.
-/

namespace Frostvault

namespace Mail

/-! ### Rows -/

/-- `status` of a delivery. -/
inductive DeliveryStatus
  | pending | delivered | failed
deriving DecidableEq, Repr

/-- The email row of `notification_deliveries`. -/
structure Delivery where
  status : DeliveryStatus
  attemptCount : ℕ
  nextAttemptAt : Option ℕ
deriving DecidableEq, Repr

/-- The `INSERT` of `_ensure_delivery`, and the `UPDATE` of a recurrence. -/
def armed (stamp : ℕ) : Delivery := ⟨.pending, 0, some stamp⟩

/-- `DELIVERY_RETRY_CAP_SECONDS`. -/
def deliveryRetryCapSeconds : ℕ := 300

/-- `_delivery_retry_at`. -/
def deliveryRetryAt (attempt now : ℕ) : ℕ := now + min deliveryRetryCapSeconds (2 ^ max 1 attempt)

/-- `status='pending' AND (next_attempt_at IS NULL OR next_attempt_at <= stamp)`. -/
def Delivery.due (stamp : ℕ) (d : Delivery) : Bool :=
  d.status == .pending && d.nextAttemptAt.all (· ≤ stamp)

/-- What the worker writes after it has attempted the row it read. -/
def Delivery.attempted (maxAttempts stamp : ℕ) (ok : Bool) (row : Delivery) : Delivery :=
  let attempt := row.attemptCount + 1
  if ok then ⟨.delivered, attempt, none⟩
  else if maxAttempts ≤ attempt then ⟨.failed, attempt, none⟩
  else ⟨.pending, attempt, some (deliveryRetryAt attempt stamp)⟩

/-! ### Transactions -/

/-- Before which statement a transaction of `set_problem` is, the Owner being locked. -/
inductive WriterStage
  | reading | inserting | checking | arming | reporting | rearming | resolving | done
deriving DecidableEq, Repr

/-- A transaction of `set_problem`: its arguments, the times it reads, the row it read first, and
the rows it has written. -/
structure Writer where
  active : Bool
  path : List Char
  stamp : ℕ
  created : ℕ
  stage : WriterStage
  previous : Option Notification
  row : Option Notification
  delivery : Option Delivery
deriving DecidableEq, Repr

/-- Before which statement the worker is; a row it selected is kept with the episode it was
selected in. -/
inductive WorkerStage
  | reconciling | selecting
  | sending (row : Delivery) (episode : ℕ)
  | recording (row : Delivery) (episode : ℕ) (ok : Bool)
  | done
deriving DecidableEq, Repr

/-- The transaction of the worker and the rows it has written. -/
structure Worker where
  stage : WorkerStage
  stamp : ℕ
  row : Option Notification
  delivery : Option Delivery
deriving DecidableEq, Repr

/-- An attempt to send: the episode its row was selected in, and whether the mail was sent. -/
structure MailAttempt where
  episode : ℕ
  sent : Bool
deriving DecidableEq, Repr

/-- The committed rows, the open transactions and what was attempted.  `resolver` is the row that
another transaction's `reconcile_problem_states` has written; `episode` counts the commits that
opened the problem. -/
structure MailWorld where
  notification : Option Notification
  delivery : Option Delivery
  writer : Option Writer
  resolver : Option Notification
  worker : Option Worker
  attempts : List MailAttempt
  episode : ℕ
deriving DecidableEq, Repr

namespace MailWorld

/-- The problem is open in what is committed. -/
def isOpen (w : MailWorld) : Bool := w.notification.any (·.isOpen)

/-- No transaction but `set_problem`'s holds the problem's row. -/
def rowFreeForWriter (w : MailWorld) : Bool := w.resolver.isNone && w.worker.all (·.row.isNone)

/-- Nobody holds the problem's row. -/
def rowFree (w : MailWorld) : Bool := w.rowFreeForWriter && w.writer.all (·.row.isNone)

/-- No transaction but `set_problem`'s holds the delivery. -/
def deliveryFreeForWriter (w : MailWorld) : Bool := w.worker.all (·.delivery.isNone)

/-- No transaction but the worker's holds the delivery. -/
def deliveryFreeForWorker (w : MailWorld) : Bool := w.writer.all (·.delivery.isNone)

/-- The attempts whose row was selected in an episode. -/
def attemptsIn (w : MailWorld) (episode : ℕ) : ℕ := w.attempts.countP (·.episode == episode)

/-- A mail was sent by an attempt that selected its row in the episode. -/
def sentIn (w : MailWorld) (episode : ℕ) : Bool :=
  w.attempts.any fun a => a.episode == episode && a.sent

end MailWorld

/-- **The episode of an open problem is notified**: its delivery is pending, or failed after
`max_attempts` attempts of this episode, or an attempt of this episode sent the mail. -/
def Notified (maxAttempts : ℕ) (w : MailWorld) : Prop :=
  w.isOpen → (∃ d, w.delivery = some d ∧ (d.status = .pending ∨
    d.status = .failed ∧ maxAttempts ≤ w.attemptsIn w.episode)) ∨ w.sentIn w.episode

/-! ### Statements -/

/-- The statements of the transactions, with the times they read and what the outside decides. -/
inductive MailAct
  | lockOwner (active : Bool) (path : List Char) (stamp created : ℕ)
  | readPrevious | insertRow | checkDelivery | insertDelivery | reportRow | rearm | resolveRow
  | commitProblem | rollbackProblem
  | reconcile (stamp : ℕ)
  | commitReconcile | rollbackReconcile
  | startWorker
  | workerReconcile (resolves : Bool) (stamp : ℕ)
  | select (stamp : ℕ)
  | send (ok : Bool)
  | record | commitWorker | rollbackWorker
deriving DecidableEq, Repr

/-- `previous and previous.get("problem_status") == "resolved"`. -/
def Writer.reopen (t : Writer) : Bool :=
  t.previous.any fun n => n.problemStatus == some .resolved

/-- Where `set_problem` goes from its first `SELECT`. -/
def Writer.stageAfterRead (t : Writer) (previous : Option Notification) : WriterStage :=
  if t.active then .inserting
  else if previous.any (·.isOpen) then .resolving
  else .done

/-- The rows the worker's `SELECT` finds: the problem's row as its transaction sees it, and the
delivery. -/
def selects (stamp : ℕ) (n : Option Notification) (d : Delivery) : Bool :=
  d.due stamp && n.any fun n => n.problemStatus.isNone || n.isOpen

/-- Where the worker goes from its `SELECT`. -/
def Worker.stageAfterSelect (k : Worker) (w : MailWorld) (stamp : ℕ) : WorkerStage :=
  match w.delivery with
  | some d => if selects stamp (k.row.or w.notification) d then .sending d w.episode else .done
  | none => .done

/-- One statement, commit or rollback; `none` while it has to wait. -/
def mailStep (maxAttempts : ℕ) (w : MailWorld) : MailAct → Option MailWorld
  | .lockOwner active path stamp created => do
      guard (w.writer = none)
      return { w with writer := some ⟨active, path, stamp, created, .reading, none, none, none⟩ }
  | .readPrevious => do
      let t ← w.writer
      guard (t.stage = .reading)
      let stage := t.stageAfterRead w.notification
      return { w with writer := some { t with stage := stage, previous := w.notification } }
  | .insertRow => do
      let t ← w.writer
      guard (t.stage = .inserting)
      -- `ON CONFLICT DO NOTHING`
      let row := if w.notification.isNone then some (.enqueued t.path t.created) else none
      return { w with writer := some { t with stage := .checking, row := row } }
  | .checkDelivery => do
      let t ← w.writer
      guard (t.stage = .checking)
      let stage := if w.delivery.isSome then .reporting else .arming
      return { w with writer := some { t with stage := stage } }
  | .insertDelivery => do
      let t ← w.writer
      guard (t.stage = .arming)
      let delivery := some (armed t.created)
      return { w with writer := some { t with stage := .reporting, delivery := delivery } }
  | .reportRow => do
      let t ← w.writer
      guard (t.stage = .reporting ∧ w.rowFreeForWriter)
      let row := (t.row.or w.notification).map (.reported t.path t.reopen t.stamp)
      let stage := if t.reopen then .rearming else .done
      return { w with writer := some { t with stage := stage, row := row } }
  | .rearm => do
      let t ← w.writer
      guard (t.stage = .rearming ∧ w.deliveryFreeForWriter)
      let delivery := (t.delivery.or w.delivery).map fun _ => armed t.stamp
      return { w with writer := some { t with stage := .done, delivery := delivery } }
  | .resolveRow => do
      let t ← w.writer
      guard (t.stage = .resolving ∧ w.rowFreeForWriter)
      let row := w.notification.map (.resolve t.stamp)
      return { w with writer := some { t with stage := .done, row := row } }
  | .commitProblem => do
      let t ← w.writer
      guard (t.stage = .done)
      let row := t.row.or w.notification
      -- the commit that opens the problem begins an episode
      let episode := if row.any (·.isOpen) && !w.isOpen then w.episode + 1 else w.episode
      return { w with
        notification := row, delivery := t.delivery.or w.delivery
        writer := none, episode := episode }
  | .rollbackProblem => do
      guard w.writer.isSome
      return { w with writer := none }
  | .reconcile stamp => do
      guard (w.isOpen ∧ w.rowFree)
      return { w with resolver := w.notification.map (.resolve stamp) }
  | .commitReconcile => do
      let row ← w.resolver
      return { w with notification := some row, resolver := none }
  | .rollbackReconcile => do
      guard w.resolver.isSome
      return { w with resolver := none }
  | .startWorker => do
      guard (w.worker = none)
      return { w with worker := some ⟨.reconciling, 0, none, none⟩ }
  | .workerReconcile resolves stamp => do
      let k ← w.worker
      guard (k.stage = .reconciling ∧ (resolves → w.isOpen ∧ w.rowFree))
      let row := if resolves then w.notification.map (.resolve stamp) else none
      return { w with worker := some { k with stage := .selecting, row := row } }
  | .select stamp => do
      let k ← w.worker
      guard (k.stage = .selecting)
      let stage := k.stageAfterSelect w stamp
      return { w with worker := some { k with stage := stage, stamp := stamp } }
  | .send ok => do
      let k ← w.worker
      match k.stage with
      | .sending row episode =>
          return { w with
            worker := some { k with stage := .recording row episode ok }
            attempts := w.attempts ++ [⟨episode, ok⟩] }
      | _ => none
  | .record => do
      let k ← w.worker
      guard w.deliveryFreeForWorker
      match k.stage with
      | .recording row _ ok =>
          -- `WHERE id=…`: whatever the row has become
          let delivery := w.delivery.map fun _ => row.attempted maxAttempts k.stamp ok
          return { w with worker := some { k with stage := .done, delivery := delivery } }
      | _ => none
  | .commitWorker => do
      let k ← w.worker
      guard (k.stage = .done)
      return { w with
        notification := k.row.or w.notification, delivery := k.delivery.or w.delivery
        worker := none }
  | .rollbackWorker => do
      guard w.worker.isSome
      return { w with worker := none }

/-- Nothing was reported yet, and nobody is at work. -/
def quiet : MailWorld := ⟨none, none, none, none, none, [], 0⟩

/-- **What a run has to meet.**  When `set_problem` writes the row of a problem it has read as
open, the problem is still open; when the worker writes the outcome for a problem that is open,
no commit has opened it since the worker selected the delivery. -/
def calm (w : MailWorld) : MailAct → Bool
  | .reportRow => w.writer.all fun t => !t.previous.any (·.isOpen) || w.isOpen
  | .record => w.worker.all fun k =>
      match k.stage with
      | .recording _ episode _ => !w.isOpen || episode == w.episode
      | _ => true
  | _ => true

end Mail

end Frostvault
