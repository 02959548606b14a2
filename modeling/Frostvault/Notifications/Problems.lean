import Frostvault.Lib.Hex

/-!
The rows of the problem inbox (`app/services/notifications.py`, `app/services/problems.py`).

One row stands for a problem, under its `dedupe_key`.  `set_problem` opens it, reports it again
while it is open and reopens it after it was resolved; only a first report and a reopening set
the time of creation.  A path is shown by its text, in which bytes that are not UTF-8 are
escaped, while the key distinguishes the paths themselves.

* `displayPath`: the text of a path, `displayPath_ofText` for the paths that are text;
* `Notification.reported`, `Notification.resolve`: the two `UPDATE`s of `set_problem`;
* `setProblem_createdAt`: when a report keeps the time of an earlier one.
-/

namespace Frostvault

/-! ### Paths and their text -/

/-- A unit of a path as Python reads it: a character, or a byte from 128 on that is not UTF-8,
kept as a lone surrogate. -/
inductive NameUnit
  | char (c : Char)
  | byte (b : Fin 128)
deriving DecidableEq, Repr

/-- A path below the root of a Vault. -/
abbrev PosixName := List NameUnit

/-- The path that is a text. -/
def PosixName.ofText (text : List Char) : PosixName := text.map .char

/-- A unit in the text: the surrogate of byte `b` is written `\udc` and two digits. -/
def NameUnit.display : NameUnit → List Char
  | .char c => [c]
  | .byte b => ['\\', 'u', 'd', 'c', Hex.digit ((128 + b) / 16), Hex.digit (b % 16)]

/-- `path.encode("utf-8", errors="backslashreplace").decode("utf-8")`. -/
def displayPath (path : PosixName) : List Char := path.flatMap NameUnit.display

/-! ### Rows -/

/-- `problem_status`. -/
inductive ProblemStatus
  | open | resolved
deriving DecidableEq, Repr

/-- The columns of `notifications` that the problems use: `path` is `message_params->>'path'`. -/
structure Notification where
  path : List Char
  problemStatus : Option ProblemStatus
  readAt : Option ℕ
  resolvedAt : Option ℕ
  createdAt : ℕ
deriving DecidableEq, Repr

namespace Notification

/-- The problem is open. -/
def isOpen (n : Notification) : Bool := n.problemStatus == some .open

/-- The row `enqueue_notification` inserts for a key without one. -/
def enqueued (path : List Char) (stamp : ℕ) : Notification where
  path := path
  problemStatus := none
  readAt := none
  resolvedAt := none
  createdAt := stamp

/-- `problem_status='open', resolved_at=NULL, …`: the `UPDATE` of a report. -/
def reported (path : List Char) (reopen : Bool) (stamp : ℕ) (n : Notification) :
    Notification where
  path := path
  problemStatus := some .open
  readAt := if reopen then none else n.readAt
  resolvedAt := none
  createdAt := if reopen then stamp else n.createdAt

/-- `problem_status='resolved', resolved_at=%s, read_at=COALESCE(read_at,%s)`. -/
def resolve (stamp : ℕ) (n : Notification) : Notification :=
  { n with
    problemStatus := some .resolved
    resolvedAt := some stamp
    readAt := n.readAt.or (some stamp) }

@[simp] lemma isOpen_reported (path : List Char) (reopen : Bool) (stamp : ℕ)
    (n : Notification) : (n.reported path reopen stamp).isOpen := rfl

@[simp] lemma isOpen_resolve (stamp : ℕ) (n : Notification) :
    (n.resolve stamp).isOpen = false := rfl

end Notification

/-- `set_problem(…, active=True)` on the row of its key: `stamp` is its own time, `created` that
of the `INSERT` inside it. -/
def setProblem (path : List Char) (stamp created : ℕ) (previous : Option Notification) :
    Notification :=
  let item := previous.getD (.enqueued path created)
  let reopen := previous.any fun n => n.problemStatus == some .resolved
  item.reported path reopen stamp

@[simp] lemma isOpen_setProblem (path : List Char) (stamp created : ℕ)
    (previous : Option Notification) :
    (setProblem path stamp created previous).isOpen := rfl

@[simp] lemma path_setProblem (path : List Char) (stamp created : ℕ)
    (previous : Option Notification) :
    (setProblem path stamp created previous).path = path := rfl

/-- **The time of an open problem is that of its first report**: reporting it again keeps it. -/
lemma setProblem_createdAt_of_isOpen {path : List Char} {stamp created : ℕ} {n : Notification}
    (h : n.isOpen) : (setProblem path stamp created (some n)).createdAt = n.createdAt := by
  have hstatus : n.problemStatus = some .open := by simpa [Notification.isOpen] using h
  simp [setProblem, Notification.reported, hstatus]

lemma le_setProblem_createdAt {path : List Char} {stamp created : ℕ}
    {previous : Option Notification} (hstamps : stamp ≤ created)
    (h : ∀ n, previous = some n → n.problemStatus = some .resolved) :
    stamp ≤ (setProblem path stamp created previous).createdAt := by
  cases previous with
  | none => simpa [setProblem, Notification.reported, Notification.enqueued] using hstamps
  | some n => simp [setProblem, Notification.reported, h n rfl]

end Frostvault
