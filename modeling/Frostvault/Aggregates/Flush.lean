import Frostvault.Aggregates.Rollup
import Frostvault.Lib.Runs
import Mathlib.Data.List.Dedup
import Mathlib.Data.List.Perm.Basic

/-!
Aggregate maintenance as concurrent transactions (`flush_directory_aggregates`,
`request_vault_rebuild` and the writers of `app/services/directory_aggregates.py`).

Transactions run under `READ COMMITTED`: a statement sees the committed database with the
writes of its own transaction on top (`Tx.view`), and these writes become visible to the
others when the transaction commits.  The only lock modelled is the Vault row lock, taken
where the code takes it and held until the end of the transaction.

A step of the system is one statement of one transaction.  Statements that only write rows
nobody else can see before the commit are merged with the read before them: the deletion and
the upserts that frame a full rebuild, and the deletion of the claims with the `ready` status.

* `Write`, `Tx.view`: the redo log of a transaction and what it sees;
* `Phase`: where a transaction stands inside `flush_directory_aggregates`;
* `step`: one statement, or nothing when it is blocked;
* `StepSpec`, `step_spec`: what each statement does, by cases;
* `Tx.rebuildSince`, `Sys.requests`, `Sys.rebuilds`, `Sys.marked`: history variables.
-/

namespace Frostvault

/-! ### Tables -/

/-- A transaction identity, the server's `pg_current_xact_id()`. -/
abbrev TxId := ℕ

/-- Equality of the keys of dirty marks is decided column by column. -/
instance lawfulBEq_mark : LawfulBEq (Path × TxId) := inferInstance

instance lawfulBEq_markKey : LawfulBEq (VaultId × Path × TxId) := inferInstance

/-- `directory_aggregate_status.status`. -/
inductive AggregateStatus
  | ready | rebuildRequired
deriving DecidableEq, Repr

/-- A row of `directory_aggregate_dirty`, keyed by Vault, path and marking transaction. -/
structure DirtyMark where
  vaultId : VaultId
  path : Path
  markId : TxId
  markedAt : Stamp
deriving DecidableEq, Repr

/-- The primary key of a mark. -/
def DirtyMark.key (m : DirtyMark) : VaultId × Path × TxId := (m.vaultId, m.path, m.markId)

/-- The committed tables. -/
structure Db where
  vaults : List VaultId
  catalog : Catalog
  dirty : List DirtyMark
  status : VaultId → Option AggregateStatus
  aggregates : VaultId → Rolled

/-! ### Writes -/

/-- One write statement of a transaction. -/
inductive Write
  /-- Any change of catalog rows. -/
  | mutate (f : Catalog → Catalog)
  /-- `_persist_dirty_directory`: insert a mark, `ON CONFLICT DO NOTHING`. -/
  | insertMark (m : DirtyMark)
  /-- `_delete_claimed_dirty_rows`. -/
  | deleteMarks (v : VaultId) (ids : List (Path × TxId))
  /-- `_mark_status`, and the upsert of `request_vault_rebuild`. -/
  | setStatus (v : VaultId) (st : AggregateStatus)
  /-- The upsert, or the deletion, of one aggregate row. -/
  | setAggregate (v : VaultId) (d : Path) (row : Option DirectoryRollup)
  /-- The deletion of all aggregate rows of a Vault and the upserts that follow it. -/
  | replaceAggregates (v : VaultId) (rolled : Rolled)

/-- The effect of a write. -/
def Write.apply (db : Db) : Write → Db
  | .mutate f => { db with catalog := f db.catalog }
  | .insertMark m =>
      { db with
        dirty := if m.key ∈ db.dirty.map DirtyMark.key then db.dirty else db.dirty ++ [m] }
  | .deleteMarks v ids =>
      { db with
        dirty := db.dirty.filter fun m => ¬ (m.vaultId = v ∧ (m.path, m.markId) ∈ ids) }
  | .setStatus v st => { db with status := Function.update db.status v (some st) }
  | .setAggregate v d row =>
      { db with
        aggregates := Function.update db.aggregates v (Function.update (db.aggregates v) d row) }
  | .replaceAggregates v rolled =>
      { db with aggregates := Function.update db.aggregates v rolled }

/-- A database with a list of writes on top, in their order. -/
def applyWrites (db : Db) (ws : List Write) : Db := ws.foldl Write.apply db

/-! ### Transactions -/

/-- The work that follows the claims, one entry per Vault or directory. -/
inductive Task
  /-- `rebuild_vault_directory_aggregates`. -/
  | rebuild (v : VaultId)
  /-- `_rebuild_directory`. -/
  | refresh (v : VaultId) (d : Path)
  /-- `_delete_claimed_dirty_rows` and `_mark_status(.., STATUS_READY)`. -/
  | finish (v : VaultId)
deriving DecidableEq, Repr

/-- A task that needs more than one read. -/
inductive Cursor
  /-- Inside the batches of a full rebuild: when its first read happened, the keyset path
  and the contributions read so far. -/
  | pages (v : VaultId) (since : Option ℕ) (keyset : Path) (acc : List FileContribution)
  /-- Between the two reads of `_rebuild_directory`. -/
  | storage (v : VaultId) (d : Path) (cols : RollupColumns)

/-- What a flush fixes before its first write. -/
structure FlushRun where
  scope : Option VaultId
  rebuildVaults : List VaultId
  claims : List (VaultId × Path × TxId)

/-- Where a transaction stands inside `flush_directory_aggregates`. -/
inductive Phase
  | idle
  /-- The status rows are read, the claims are not. -/
  | statusRead (scope : Option VaultId) (cutoff : Stamp) (statusRebuild : List VaultId)
  /-- Waiting for the Vault rows, in ascending order. -/
  | locking (run : FlushRun) (toLock : List VaultId) (plan : List Task)
  | working (run : FlushRun) (cursor : Option Cursor) (plan : List Task)

/-- An open transaction with the tracker of its connection. -/
structure Tx where
  writes : List Write
  dirtyDirectories : List (VaultId × Path)
  rebuildVaults : List VaultId
  phase : Phase
  /-- History: the transaction has started a flush. -/
  flushed : Bool
  /-- History: rebuild requests of this transaction that it has not executed itself. -/
  requested : List VaultId
  /-- History: when the first catalog read of its last full rebuild of a Vault happened. -/
  rebuildSince : VaultId → Option ℕ

/-- What the statements of a transaction see. -/
def Tx.view (tx : Tx) (db : Db) : Db := applyWrites db tx.writes

/-- The system: committed tables, Vault row locks and open transactions. -/
structure Sys where
  db : Db
  locks : VaultId → Option TxId
  txs : TxId → Option Tx
  nextTx : TxId
  clock : ℕ
  /-- History: when the rebuild requests for a Vault were committed. -/
  requests : VaultId → List ℕ
  /-- History: for each committed full rebuild of a Vault, when its first read happened. -/
  rebuilds : VaultId → List ℕ
  /-- History: the directories that committed transactions marked. -/
  marked : List (VaultId × Path)

/-- A database with nothing open. -/
def Sys.start (db : Db) (nextTx : TxId) : Sys :=
  ⟨db, fun _ => none, fun _ => none, nextTx, 0, fun _ => [], fun _ => [], []⟩

/-! ### Planning a flush -/

/-- The Vaults in the scope of a flush. -/
def inScope (scope : Option VaultId) (v : VaultId) : Bool := scope.all fun w => v = w

/-- `_claim_dirty_rows`. -/
def claimDirtyRows (db : Db) (scope : Option VaultId) (cutoff : Stamp) :
    List (VaultId × Path × TxId) :=
  (db.dirty.filter fun m => inScope scope m.vaultId && m.markedAt ≤ cutoff).map DirtyMark.key

/-- The directories to refresh: the claimed ones and those of the tracker. -/
def dirtyOf (tx : Tx) (scope : Option VaultId) (claims : List (VaultId × Path × TxId)) :
    List (VaultId × Path) :=
  claims.map (fun c => (c.1, c.2.1)) ++ tx.dirtyDirectories.filter fun q => inScope scope q.1

/-- The Vaults to rebuild in full: those of the tracker and those whose status said so. -/
def rebuildOf (tx : Tx) (scope : Option VaultId) (statusRebuild : List VaultId) :
    List VaultId :=
  ((tx.rebuildVaults ++ statusRebuild).filter (inScope scope)).dedup

/-- The Vaults refreshed directory by directory: dirty and not rebuilt in full. -/
def dirtyVaults (rebuild : List VaultId) (dirty : List (VaultId × Path)) : List VaultId :=
  ((dirty.map Prod.fst).filter fun v => v ∉ rebuild).dedup

/-- `sorted(set(directories), key=lambda item: (item.count("/"), item))`. -/
def orderDirectories (ds : List Path) : List Path :=
  ds.dedup.insertionSort fun a b =>
    a.count '/' < b.count '/' ∨ (a.count '/' = b.count '/' ∧ a ≤ b)

/-- The tasks of a flush; `order` is the order in which the Vaults of the dirty set come
out of it. -/
def planOf (rebuild : List VaultId) (dirty : List (VaultId × Path)) (order : List VaultId) :
    List Task :=
  (rebuild.insertionSort (· ≤ ·)).map Task.rebuild ++ order.flatMap fun v =>
    (orderDirectories ((dirty.filter fun q => q.1 = v).map Prod.snd)).map (Task.refresh v) ++
      [Task.finish v]

/-- `lock_vaults_in_order`: every Vault of the plan, ascending. -/
def lockOrder (rebuild : List VaultId) (dirty : List (VaultId × Path)) : List VaultId :=
  ((rebuild ++ dirty.map Prod.fst).dedup).insertionSort (· ≤ ·)

variable {dirty : List (VaultId × Path)} {order : List VaultId} {scope : Option VaultId}
  {v : VaultId}

lemma rebuild_mem_planOf {rebuild : List VaultId} :
    Task.rebuild v ∈ planOf rebuild dirty order ↔ v ∈ rebuild := by
  simp [planOf]

lemma finish_mem_planOf {rebuild : List VaultId} :
    Task.finish v ∈ planOf rebuild dirty order ↔ v ∈ order := by
  simp [planOf]

lemma refresh_mem_planOf {rebuild : List VaultId} {d : Path} :
    Task.refresh v d ∈ planOf rebuild dirty order ↔ v ∈ order ∧ (v, d) ∈ dirty := by
  simp [planOf, orderDirectories]

lemma mem_lockOrder {rebuild : List VaultId} :
    v ∈ lockOrder rebuild dirty ↔ v ∈ rebuild ∨ ∃ d, (v, d) ∈ dirty := by
  simp [lockOrder]

lemma mem_dirtyVaults {rebuild : List VaultId} :
    v ∈ dirtyVaults rebuild dirty ↔ (∃ d, (v, d) ∈ dirty) ∧ v ∉ rebuild := by
  simp [dirtyVaults]

lemma mem_rebuildOf {tx : Tx} {rows : List VaultId} :
    v ∈ rebuildOf tx scope rows ↔
      (v ∈ tx.rebuildVaults ∨ v ∈ rows) ∧ inScope scope v := by
  rw [rebuildOf, List.mem_dedup, List.mem_filter, List.mem_append]

/-- What is claimed lies in the scope of the flush. -/
lemma inScope_of_mem_claimDirtyRows {db : Db} {cutoff : Stamp}
    {c : VaultId × Path × TxId} (h : c ∈ claimDirtyRows db scope cutoff) :
    inScope scope c.1 := by
  obtain ⟨m, hm, rfl⟩ := List.mem_map.mp h
  have := (List.mem_filter.mp hm).2
  simp only [Bool.and_eq_true] at this
  exact this.1

/-- What is refreshed lies in the scope of the flush. -/
lemma inScope_of_mem_dirtyOf {tx : Tx} {claims : List (VaultId × Path × TxId)} {q : VaultId × Path}
    (hclaims : ∀ c ∈ claims, inScope scope c.1) (h : q ∈ dirtyOf tx scope claims) :
    inScope scope q.1 := by
  rcases List.mem_append.mp h with h | h
  · obtain ⟨c, hc, rfl⟩ := List.mem_map.mp h
    exact hclaims c hc
  · exact (List.mem_filter.mp h).2

/-- The claimed identities of a Vault. -/
def claimedIds (claims : List (VaultId × Path × TxId)) (v : VaultId) : List (Path × TxId) :=
  (claims.filter fun c => c.1 = v).map Prod.snd

/-! ### Steps -/

/-- The statements of the system. -/
inductive Act
  /-- Open a transaction; the tracker of a reused connection may not be empty. -/
  | begin_ (dirty : List (VaultId × Path)) (rebuild : List VaultId)
  /-- Change catalog rows and mark directories, each with its own clock reading. -/
  | write (t : TxId) (f : Catalog → Catalog) (marks : List (VaultId × Path × Stamp))
  /-- Lock a Vault row. -/
  | lockVault (t : TxId) (v : VaultId)
  /-- The upsert of `request_vault_rebuild`, under the Vault row lock. -/
  | request (t : TxId) (v : VaultId)
  /-- The first read of `flush_directory_aggregates`, after it took its cutoff. -/
  | readStatus (t : TxId) (scope : Option VaultId) (cutoff : Stamp)
  /-- `_claim_dirty_rows` and the planning. -/
  | claim (t : TxId) (order : List VaultId)
  /-- One row of `lock_vaults_in_order`. -/
  | lock (t : TxId)
  /-- The next statement of the rebuilds. -/
  | work (t : TxId)
  | commit (t : TxId)
  | rollback (t : TxId)

/-- Replace an open transaction. -/
def Sys.setTx (s : Sys) (t : TxId) (tx : Tx) : Sys :=
  { s with txs := Function.update s.txs t (some tx), clock := s.clock + 1 }

/-- A Vault row can be locked when it is free or already held. -/
def Sys.lockable (s : Sys) (t : TxId) (v : VaultId) : Bool :=
  s.locks v = none || s.locks v = some t

/-- Take a Vault row lock. -/
def Sys.take (s : Sys) (t : TxId) (v : VaultId) : Sys :=
  { s with locks := Function.update s.locks v (some t) }

/-- Release the locks of a transaction and close it. -/
def Sys.close (s : Sys) (t : TxId) : Sys :=
  { s with
    locks := fun v => if s.locks v = some t then none else s.locks v
    txs := Function.update s.txs t none
    clock := s.clock + 1 }

variable (coll : Collation)

/-- One statement of the working phase, with the transaction's view `db` at time `now`. -/
def workTx (db : Db) (now : ℕ) (tx : Tx) (run : FlushRun) : Option Cursor → List Task → Tx
  | some (.pages v since keyset acc), plan =>
      let rows := visibleFileSelect coll db.catalog v none (some keyset)
        (some rebuildContributionBatchSize)
      let acc' := acc ++ rows.filterMap contributionFromRow
      let since' := since.getD now
      if rows.length < rebuildContributionBatchSize then
        -- the last batch: store the rollups, consume the claims, mark the Vault ready
        { tx with
          writes := tx.writes ++
            [.replaceAggregates v (acc'.foldl rolledAdd fun _ => none),
              .deleteMarks v (claimedIds run.claims v), .setStatus v .ready]
          dirtyDirectories := tx.dirtyDirectories.filter fun q => q.1 ≠ v
          rebuildVaults := tx.rebuildVaults.filter (· ≠ v)
          requested := tx.requested.filter (· ≠ v)
          rebuildSince := Function.update tx.rebuildSince v (some since')
          phase := .working run none plan }
      else
        { tx with
          phase := .working run
            (some (.pages v (some since') (Keyset.nextKey VisibleRow.path keyset rows) acc')) plan }
  | some (.storage v d cols), plan =>
      { tx with
        writes := tx.writes ++ [.setAggregate v d (some
          { cols with storageClasses := fun k => (storageRows db.catalog v d).count k })]
        phase := .working run none plan }
  | none, [] =>
      -- the flush returns and forgets what it has handled
      { tx with
        dirtyDirectories := tx.dirtyDirectories.filter fun q => !inScope run.scope q.1
        rebuildVaults := match run.scope with
          | none => []
          | some _ => tx.rebuildVaults.filter (· ∉ run.rebuildVaults)
        phase := .idle }
  | none, .rebuild v :: plan => { tx with phase := .working run (some (.pages v none [] [])) plan }
  | none, .refresh v d :: plan =>
      let directory := normalize d
      if directory = [] then { tx with phase := .working run none plan }
      else
        match columnsSql (rowsBelow coll db.catalog v directory) with
        | none =>
            { tx with
              writes := tx.writes ++ [.setAggregate v directory none]
              phase := .working run none plan }
        | some cols => { tx with phase := .working run (some (.storage v directory cols)) plan }
  | none, .finish v :: plan =>
      { tx with
        writes := tx.writes ++ [.deleteMarks v (claimedIds run.claims v), .setStatus v .ready]
        phase := .working run none plan }

/-- The directories a transaction marked. -/
def Tx.markedDirs (tx : Tx) : List (VaultId × Path) :=
  tx.writes.filterMap fun w => match w with
    | .insertMark m => some (m.vaultId, m.path)
    | _ => none

/-- One statement of the system, or `none` when it is blocked or out of place. -/
def step (s : Sys) : Act → Option Sys
  | .begin_ dirty rebuild =>
      some { s.setTx s.nextTx ⟨[], dirty, rebuild, .idle, false, [], fun _ => none⟩ with
        nextTx := s.nextTx + 1 }
  | .write t f marks => do
      let tx ← s.txs t
      match tx.phase with
      | .idle =>
          some (s.setTx t { tx with
            writes := tx.writes ++
              .mutate f :: marks.map fun q => .insertMark ⟨q.1, q.2.1, t, q.2.2⟩
            dirtyDirectories := tx.dirtyDirectories ++ marks.map fun q => (q.1, q.2.1) })
      | _ => none
  | .lockVault t v => do
      let tx ← s.txs t
      match tx.phase with
      | .idle => if s.lockable t v then some ((s.setTx t tx).take t v) else none
      | _ => none
  | .request t v => do
      let tx ← s.txs t
      match tx.phase with
      | .idle =>
          if s.locks v = some t then
            some (s.setTx t { tx with
              writes := tx.writes ++ [.setStatus v .rebuildRequired]
              rebuildVaults := v :: tx.rebuildVaults
              requested := v :: tx.requested })
          else none
      | _ => none
  | .readStatus t scope cutoff => do
      let tx ← s.txs t
      match tx.phase with
      | .idle =>
          let db := tx.view s.db
          let rows := db.vaults.filter fun v =>
            inScope scope v && db.status v = some .rebuildRequired
          some (s.setTx t { tx with flushed := true, phase := .statusRead scope cutoff rows })
      | _ => none
  | .claim t order => do
      let tx ← s.txs t
      match tx.phase with
      | .statusRead scope cutoff statusRebuild =>
          let claims := claimDirtyRows (tx.view s.db) scope cutoff
          let dirty := dirtyOf tx scope claims
          let rebuild := rebuildOf tx scope statusRebuild
          if order.Perm (dirtyVaults rebuild dirty) then
            some (s.setTx t { tx with
              phase := .locking ⟨scope, rebuild, claims⟩ (lockOrder rebuild dirty)
                (planOf rebuild dirty order) })
          else none
      | _ => none
  | .lock t => do
      let tx ← s.txs t
      match tx.phase with
      | .locking run [] plan => some (s.setTx t { tx with phase := .working run none plan })
      | .locking run (v :: rest) plan =>
          if s.lockable t v then
            some ((s.setTx t { tx with phase := .locking run rest plan }).take t v)
          else none
      | _ => none
  | .work t => do
      let tx ← s.txs t
      match tx.phase with
      | .working run cursor plan =>
          some (s.setTx t (workTx coll (tx.view s.db) s.clock tx run cursor plan))
      | _ => none
  | .commit t => do
      let tx ← s.txs t
      match tx.phase with
      | .idle =>
          some { s.close t with
            db := tx.view s.db
            requests := fun v =>
              if v ∈ tx.requested then s.clock :: s.requests v else s.requests v
            rebuilds := fun v => (tx.rebuildSince v).toList ++ s.rebuilds v
            marked := tx.markedDirs ++ s.marked }
      | _ => none
  | .rollback t => do
      let _ ← s.txs t
      some (s.close t)

/-! ### What a statement does -/

/-- The effect of every statement, with the facts that enable it. -/
inductive StepSpec (s : Sys) : Act → Sys → Prop
  | begin_ (dirty rebuild) :
      StepSpec s (.begin_ dirty rebuild)
        { s.setTx s.nextTx ⟨[], dirty, rebuild, .idle, false, [], fun _ => none⟩ with
          nextTx := s.nextTx + 1 }
  | write (t tx f marks) (htx : s.txs t = some tx) (hidle : tx.phase = .idle) :
      StepSpec s (.write t f marks) (s.setTx t { tx with
        writes := tx.writes ++
          .mutate f :: marks.map fun q => .insertMark ⟨q.1, q.2.1, t, q.2.2⟩
        dirtyDirectories := tx.dirtyDirectories ++ marks.map fun q => (q.1, q.2.1) })
  | lockVault (t tx v) (htx : s.txs t = some tx) (hidle : tx.phase = .idle)
      (hfree : s.locks v = none ∨ s.locks v = some t) :
      StepSpec s (.lockVault t v) ((s.setTx t tx).take t v)
  | request (t tx v) (htx : s.txs t = some tx) (hidle : tx.phase = .idle)
      (hlock : s.locks v = some t) :
      StepSpec s (.request t v) (s.setTx t { tx with
        writes := tx.writes ++ [.setStatus v .rebuildRequired]
        rebuildVaults := v :: tx.rebuildVaults
        requested := v :: tx.requested })
  | readStatus (t tx scope cutoff) (htx : s.txs t = some tx) (hidle : tx.phase = .idle) :
      StepSpec s (.readStatus t scope cutoff) (s.setTx t { tx with
        flushed := true
        phase := .statusRead scope cutoff ((tx.view s.db).vaults.filter fun v =>
          inScope scope v && (tx.view s.db).status v = some .rebuildRequired) })
  | claim (t tx order scope cutoff rows) (htx : s.txs t = some tx)
      (hphase : tx.phase = .statusRead scope cutoff rows)
      (horder : order.Perm (dirtyVaults (rebuildOf tx scope rows)
        (dirtyOf tx scope (claimDirtyRows (tx.view s.db) scope cutoff)))) :
      StepSpec s (.claim t order) (s.setTx t { tx with
        phase := .locking
          ⟨scope, rebuildOf tx scope rows, claimDirtyRows (tx.view s.db) scope cutoff⟩
          (lockOrder (rebuildOf tx scope rows)
            (dirtyOf tx scope (claimDirtyRows (tx.view s.db) scope cutoff)))
          (planOf (rebuildOf tx scope rows)
            (dirtyOf tx scope (claimDirtyRows (tx.view s.db) scope cutoff)) order) })
  | locked (t tx run plan) (htx : s.txs t = some tx) (hphase : tx.phase = .locking run [] plan) :
      StepSpec s (.lock t) (s.setTx t { tx with phase := .working run none plan })
  | lock (t tx run v rest plan) (htx : s.txs t = some tx)
      (hphase : tx.phase = .locking run (v :: rest) plan)
      (hfree : s.locks v = none ∨ s.locks v = some t) :
      StepSpec s (.lock t) ((s.setTx t { tx with phase := .locking run rest plan }).take t v)
  | work (t tx run cursor plan) (htx : s.txs t = some tx)
      (hphase : tx.phase = .working run cursor plan) :
      StepSpec s (.work t) (s.setTx t (workTx coll (tx.view s.db) s.clock tx run cursor plan))
  | commit (t tx) (htx : s.txs t = some tx) (hidle : tx.phase = .idle) :
      StepSpec s (.commit t) { s.close t with
        db := tx.view s.db
        requests := fun v => if v ∈ tx.requested then s.clock :: s.requests v else s.requests v
        rebuilds := fun v => (tx.rebuildSince v).toList ++ s.rebuilds v
        marked := tx.markedDirs ++ s.marked }
  | rollback (t tx) (htx : s.txs t = some tx) : StepSpec s (.rollback t) (s.close t)

lemma lockable_iff (s : Sys) (t : TxId) (v : VaultId) :
    s.lockable t v ↔ s.locks v = none ∨ s.locks v = some t := by
  simp [Sys.lockable]

/-- **Every step is one of the statements.** -/
lemma step_spec {s s' : Sys} {a : Act} (h : step coll s a = some s') : StepSpec coll s a s' := by
  cases a with
  | begin_ dirty rebuild =>
      cases h
      exact .begin_ dirty rebuild
  | write t f marks =>
      obtain ⟨tx, htx, h⟩ := Option.bind_eq_some_iff.mp h
      split at h
      · cases h
        exact .write t tx f marks htx (by assumption)
      · cases h
  | lockVault t v =>
      obtain ⟨tx, htx, h⟩ := Option.bind_eq_some_iff.mp h
      split at h
      · split at h
        · cases h
          exact .lockVault t tx v htx (by assumption) ((lockable_iff s t v).mp (by assumption))
        · cases h
      · cases h
  | request t v =>
      obtain ⟨tx, htx, h⟩ := Option.bind_eq_some_iff.mp h
      split at h
      · split at h
        · cases h
          exact .request t tx v htx (by assumption) (by assumption)
        · cases h
      · cases h
  | readStatus t scope cutoff =>
      obtain ⟨tx, htx, h⟩ := Option.bind_eq_some_iff.mp h
      split at h
      · cases h
        exact .readStatus t tx scope cutoff htx (by assumption)
      · cases h
  | claim t order =>
      obtain ⟨tx, htx, h⟩ := Option.bind_eq_some_iff.mp h
      split at h
      · dsimp only at h
        split at h
        · cases h
          exact .claim t tx order _ _ _ htx (by assumption) (by assumption)
        · cases h
      · cases h
  | lock t =>
      obtain ⟨tx, htx, h⟩ := Option.bind_eq_some_iff.mp h
      split at h
      · cases h
        exact .locked t tx _ _ htx (by assumption)
      · split at h
        · cases h
          exact .lock t tx _ _ _ _ htx (by assumption) ((lockable_iff s t _).mp (by assumption))
        · cases h
      · cases h
  | work t =>
      obtain ⟨tx, htx, h⟩ := Option.bind_eq_some_iff.mp h
      split at h
      · cases h
        exact .work t tx _ _ _ htx (by assumption)
      · cases h
  | commit t =>
      obtain ⟨tx, htx, h⟩ := Option.bind_eq_some_iff.mp h
      split at h
      · cases h
        exact .commit t tx htx (by assumption)
      · cases h
  | rollback t =>
      obtain ⟨tx, htx, h⟩ := Option.bind_eq_some_iff.mp h
      cases h
      exact .rollback t tx htx

end Frostvault
