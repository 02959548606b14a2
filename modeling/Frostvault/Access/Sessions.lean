import Frostvault.Lib.Runs
import Mathlib.Algebra.Order.Ring.Int

/-!
Server-side sessions (`app/sessions.py`), statement by statement under READ COMMITTED.

A transaction sees the committed rows and those it has written itself.  An `UPDATE` by id looks at
the row that is visible, waits while another transaction holds it, and checks its condition on the
row as it is then; what it writes it holds until the transaction ends.  The clock is read between
the statements, and moves on between any two steps.

* `Session`, `User`: the rows;
* `World`: the committed rows, the locks and the open transactions;
* `exec`: the next statement of `create_session`, `resolve_session`, `rotate_session`,
  `revoke_session` or of a sign-out everywhere;
* `step`, `accepted`: one step of the system, and the session it hands out.
-/

namespace Frostvault

namespace Sessions

/-! ### The rows -/

abbrev SessionId := ℕ

abbrev UserId := ℕ

/-- The name of a transaction. -/
abbrev TxnName := ℕ

/-- A row of `users`, as far as sessions read it. -/
structure User where
  username : List Char
  displayName : List Char
  sessionVersion : ℕ
deriving DecidableEq, Repr

/-- A row of `sessions`; its id is the key of the table. -/
structure Session (Hash : Type) where
  userId : UserId
  tokenHash : Hash
  authMethod : List Char
  csrfToken : List Char
  sessionVersion : ℕ
  vaultId : Option ℕ
  lastSeenAt : ℤ
  idleExpiresAt : ℤ
  absoluteExpiresAt : ℤ
  reauthAt : Option ℤ
  revokedAt : Option ℤ
  transitionVersion : ℕ
deriving DecidableEq

/-- What the module takes from outside: `_hash_token` and the settings. -/
structure Config (Token Hash : Type) where
  hashToken : Token → Hash
  idleSeconds : ℤ
  absoluteSeconds : ℤ

variable {Token Hash : Type}

/-! ### Conditions and assignments of the updates -/

namespace Session

/-- `revoked_at IS NULL AND absolute_expires_at > now AND idle_expires_at > now`. -/
def live (now : ℤ) (row : Session Hash) : Bool :=
  row.revokedAt = none && (now < row.absoluteExpiresAt && now < row.idleExpiresAt)

/-- `_session_is_expired`. -/
def isExpired (row : Session Hash) (now : ℤ) : Bool :=
  row.absoluteExpiresAt ≤ now || row.idleExpiresAt ≤ now

/-- The condition of `_expire_session_if_needed`. -/
def expirable (now : ℤ) (row : Session Hash) : Bool :=
  row.revokedAt = none && row.isExpired now

/-- What `revoke_session` and `_expire_session_if_needed` write. -/
def revoke (now : ℤ) (row : Session Hash) : Session Hash :=
  { row with
    revokedAt := some now
    transitionVersion := row.transitionVersion + 1 }

/-- What the touch of `resolve_session` writes. -/
def touch (idleSeconds now : ℤ) (row : Session Hash) : Session Hash :=
  { row with
    lastSeenAt := now
    idleExpiresAt := now + idleSeconds }

/-- What `rotate_session` writes. -/
def rotate (idleSeconds : ℤ) (hash : Hash) (now : ℤ) (reauthenticated : Bool)
    (row : Session Hash) : Session Hash :=
  { row with
    tokenHash := hash
    lastSeenAt := now
    idleExpiresAt := now + idleSeconds
    transitionVersion := row.transitionVersion + 1
    reauthAt := if reauthenticated then some now else row.reauthAt }

end Session

/-! ### Transactions -/

/-- A call; the tokens and ids it draws are its arguments. -/
inductive Call (Token : Type)
  | createSession (userId : UserId) (token : Token) (id : SessionId)
      (authMethod csrfToken : List Char)
  | resolveSession (token : Token)
  | rotateSession (id : SessionId) (token : Token) (reauthenticated : Bool)
  | revokeSession (id : SessionId)
  | signOutEverywhere (userId : UserId)

/-- Where a transaction is: between two calls, or before the next statement of one. -/
inductive Stage (Token Hash : Type)
  | idle
  | readingOwner (userId : UserId) (token : Token) (id : SessionId)
      (authMethod csrfToken : List Char) (now : ℤ)
  | inserting (id : SessionId) (row : Session Hash)
  | selecting (token : Token)
  | fetched (token : Token) (id : SessionId) (row : Session Hash)
  | expiring (id : SessionId) (now : ℤ)
  | readingUser (token : Token) (id : SessionId) (row : Session Hash) (now : ℤ)
  | touching (token : Token) (id : SessionId) (row : Session Hash) (user : User) (now : ℤ)
  | rotating (id : SessionId) (token : Token) (reauthenticated : Bool) (now : ℤ)
  | revoking (id : SessionId) (now : ℤ)
  | incrementing (userId : UserId)

/-- An open transaction: its stage and the rows it has written. -/
structure Txn (Token Hash : Type) where
  stage : Stage Token Hash
  held : SessionId → Option (Session Hash)
  heldUsers : UserId → Option User

/-- The committed rows, who holds which row, and the open transactions. -/
structure World (Token Hash : Type) where
  clock : ℤ
  ids : List SessionId
  sessions : SessionId → Option (Session Hash)
  users : UserId → Option User
  locks : SessionId → Option TxnName
  userLocks : UserId → Option TxnName
  txns : TxnName → Option (Txn Token Hash)

namespace World

/-- No transaction is open. -/
structure Idle (w : World Token Hash) : Prop where
  txns : ∀ p, w.txns p = none
  locks : ∀ id, w.locks id = none
  userLocks : ∀ userId, w.userLocks userId = none

/-- The row a transaction sees. -/
def session? (w : World Token Hash) (t : Txn Token Hash) (id : SessionId) :
    Option (Session Hash) :=
  (t.held id).or (w.sessions id)

/-- The user a transaction sees. -/
def user? (w : World Token Hash) (t : Txn Token Hash) (userId : UserId) : Option User :=
  (t.heldUsers userId).or (w.users userId)

/-- A transaction goes on. -/
def put (w : World Token Hash) (p : TxnName) (t : Txn Token Hash) : World Token Hash :=
  { w with txns := Function.update w.txns p (some t) }

/-- A transaction ends and lets go of its rows. -/
def drop (w : World Token Hash) (p : TxnName) : World Token Hash :=
  { w with
    txns := Function.update w.txns p none
    locks := fun id => if w.locks id = some p then none else w.locks id
    userLocks := fun userId => if w.userLocks userId = some p then none else w.userLocks userId }

/-- The transaction's rows become the committed ones. -/
def publish (w : World Token Hash) (t : Txn Token Hash) : World Token Hash :=
  { w with
    sessions := w.session? t
    users := w.user? t }

/-- A transaction writes a row and holds it. -/
def write (w : World Token Hash) (p : TxnName) (t : Txn Token Hash) (id : SessionId)
    (row : Session Hash) : World Token Hash :=
  { w.put p { t with
      stage := .idle
      held := Function.update t.held id (some row) } with
    locks := Function.update w.locks id (some p) }

/-- What `UPDATE sessions … WHERE id=… AND cond` finds: `none` while it waits, else its row if
there is one. -/
def hit (w : World Token Hash) (p : TxnName) (t : Txn Token Hash) (id : SessionId)
    (cond : Session Hash → Bool) : Option (Option (Session Hash)) :=
  match w.session? t id with
  | none => some none
  | some row =>
      if cond row then
        if w.locks id = none ∨ w.locks id = some p then some (some row) else none
      else some none

/-- The update, and the end of the call. -/
def update (w : World Token Hash) (p : TxnName) (t : Txn Token Hash) (id : SessionId)
    (cond : Session Hash → Bool) (f : Session Hash → Session Hash) :
    Option (World Token Hash) :=
  match w.hit p t id cond with
  | none => none
  | some none => some (w.put p { t with stage := .idle })
  | some (some row) => some (w.write p t id (f row))

end World

/-! ### The statements -/

variable [DecidableEq Hash] (c : Config Token Hash)

/-- The next statement of a transaction, or what the code does before it; `none` while it waits.
`resolve_session` reads the clock after its first `SELECT`. -/
def exec (w : World Token Hash) (p : TxnName) (t : Txn Token Hash) :
    Option (World Token Hash) :=
  match t.stage with
  | .idle => none
  | .readingOwner userId token id authMethod csrfToken now =>
      match w.user? t userId with
      | none => some (w.put p { t with stage := .idle })
      | some user => some (w.put p { t with
          stage := .inserting id
            { userId := userId
              tokenHash := c.hashToken token
              authMethod := authMethod
              csrfToken := csrfToken
              sessionVersion := user.sessionVersion
              vaultId := none
              lastSeenAt := now
              idleExpiresAt := now + c.idleSeconds
              absoluteExpiresAt := now + c.absoluteSeconds
              reauthAt := some now
              revokedAt := none
              transitionVersion := 1 } })
  | .inserting id row =>
      if w.sessions id = none ∧ w.locks id = none then
        some { w.write p t id row with ids := id :: w.ids }
      else none
  | .selecting token =>
      match w.ids.find? fun id =>
          (w.session? t id).any fun row => row.tokenHash = c.hashToken token with
      | none => some (w.put p { t with stage := .idle })
      | some id =>
          match w.session? t id with
          | none => none
          | some row => some (w.put p { t with stage := .fetched token id row })
  | .fetched token id row =>
      if row.revokedAt ≠ none then some (w.put p { t with stage := .idle })
      else if row.isExpired w.clock then
        some (w.put p { t with stage := .expiring id w.clock })
      else some (w.put p { t with stage := .readingUser token id row w.clock })
  | .expiring id now => w.update p t id (Session.expirable now) (Session.revoke now)
  | .readingUser token id row now =>
      match w.user? t row.userId with
      | none => some (w.put p { t with stage := .idle })
      | some user =>
          if row.sessionVersion ≠ user.sessionVersion then
            some (w.put p { t with stage := .idle })
          else some (w.put p { t with stage := .touching token id row user now })
  | .touching _ id _ _ now =>
      w.update p t id (Session.live now) (Session.touch c.idleSeconds now)
  | .rotating id token reauthenticated now =>
      w.update p t id (Session.live now)
        (Session.rotate c.idleSeconds (c.hashToken token) now reauthenticated)
  | .revoking id now => w.update p t id (fun row => row.revokedAt = none) (Session.revoke now)
  | .incrementing userId =>
      match w.user? t userId with
      | none => some (w.put p { t with stage := .idle })
      | some user =>
          if w.userLocks userId = none ∨ w.userLocks userId = some p then
            some { w.put p { t with
                stage := .idle
                heldUsers := Function.update t.heldUsers userId
                  (some { user with sessionVersion := user.sessionVersion + 1 }) } with
              userLocks := Function.update w.userLocks userId (some p) }
          else none

/-- The stage a call starts in; the writers read the clock first. -/
def Call.start (clock : ℤ) : Call Token → Stage Token Hash
  | .createSession userId token id authMethod csrfToken =>
      .readingOwner userId token id authMethod csrfToken clock
  | .resolveSession token => .selecting token
  | .rotateSession id token reauthenticated => .rotating id token reauthenticated clock
  | .revokeSession id => .revoking id clock
  | .signOutEverywhere userId => .incrementing userId

/-! ### The system -/

/-- What can happen. -/
inductive Act (Token : Type)
  | tick (clock : ℤ)
  | start (p : TxnName)
  | call (p : TxnName) (call : Call Token)
  | exec (p : TxnName)
  | commit (p : TxnName)
  | rollback (p : TxnName)

/-- One step of the system. -/
def step (w : World Token Hash) : Act Token → Option (World Token Hash)
  | .tick clock => if w.clock ≤ clock then some { w with clock := clock } else none
  | .start p =>
      match w.txns p with
      | none => some (w.put p ⟨.idle, fun _ => none, fun _ => none⟩)
      | some _ => none
  | .call p call =>
      match w.txns p with
      | some ⟨.idle, held, heldUsers⟩ => some (w.put p ⟨call.start w.clock, held, heldUsers⟩)
      | _ => none
  | .exec p => (w.txns p).bind (exec c w p)
  | .commit p =>
      match w.txns p with
      | some ⟨.idle, held, heldUsers⟩ => some ((w.publish ⟨.idle, held, heldUsers⟩).drop p)
      | _ => none
  | .rollback p =>
      match w.txns p with
      | some _ => some (w.drop p)
      | none => none

/-- What `resolve_session` returns, and for which token. -/
structure Accepted (Token Hash : Type) where
  token : Token
  id : SessionId
  row : Session Hash
  user : User

/-- The session a step hands out: the touch has found its row. -/
def accepted (w : World Token Hash) : Act Token → Option (Accepted Token Hash)
  | .exec p =>
      match w.txns p with
      | none => none
      | some t =>
          match t.stage with
          | .touching token id row user now =>
              match w.hit p t id (Session.live now) with
              | some (some _) => some ⟨token, id, row, user⟩
              | _ => none
          | _ => none
  | _ => none

end Sessions

end Frostvault
