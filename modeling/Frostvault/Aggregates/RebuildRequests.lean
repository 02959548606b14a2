import Frostvault.Aggregates.Flush

/-!
Rebuild requests across concurrent flushes.

A full rebuild reads under the Vault row lock, and a request is written under it, so a
request either commits before all reads of a full rebuild or after its commit.  A flush that
refreshes single directories takes its decision from a status it read *before* it held the
lock; its `ready` can overwrite a request that committed in between.

* `StepSpec`, `step_spec`: what each statement does;
* `TxOk`, `RequestInv`: the invariant, kept by every step that meets `NoOverwrite`;
* `requests_kept`: **in every run in which no flush overwrites a request it has not seen, each
  committed request is still recorded or has been executed**;
* `request_lost`: a run of two transactions that loses a request.
-/

namespace Frostvault

open List

variable (coll : Collation)

/-! ### The pending status of a transaction -/

/-- The last status a transaction wrote for a Vault. -/
def pendingStatus (ws : List Write) (v : VaultId) : Option AggregateStatus :=
  ws.foldl (fun o w => match w with
    | .setStatus u st => if u = v then some st else o
    | _ => o) none

lemma pendingStatus_concat (ws : List Write) (w : Write) (v : VaultId) :
    pendingStatus (ws ++ [w]) v = match w with
      | .setStatus u st => if u = v then some st else pendingStatus ws v
      | _ => pendingStatus ws v := by
  rw [pendingStatus, foldl_append]
  rfl

/-- Writes of catalog rows and marks leave the pending status alone. -/
lemma pendingStatus_append_of_forall (ws us : List Write) (v : VaultId)
    (h : ∀ u st, Write.setStatus u st ∉ us) : pendingStatus (ws ++ us) v = pendingStatus ws v := by
  induction us using List.reverseRecOn with
  | nil => simp
  | append_singleton us w ih =>
      rw [← append_assoc, pendingStatus_concat]
      have hw : ∀ u st, w ≠ .setStatus u st := by
        rintro u st rfl
        exact h u st (by simp)
      have ih' := ih fun u st hm => h u st (by simp [hm])
      cases w with
      | setStatus u st => exact absurd rfl (hw u st)
      | _ => exact ih'

/-- The status a transaction sees is its own last one, else the committed one. -/
lemma view_status (db : Db) (ws : List Write) (v : VaultId) :
    (applyWrites db ws).status v = (pendingStatus ws v).or (db.status v) := by
  induction ws using List.reverseRecOn with
  | nil => rfl
  | append_singleton ws w ih =>
      rw [applyWrites, foldl_append, foldl_cons, foldl_nil, ← applyWrites,
        pendingStatus_concat]
      cases w with
      | setStatus u st =>
          by_cases huv : u = v
          · subst huv
            simp [Write.apply]
          · simp [Write.apply, huv, Ne.symm huv, ih]
      | _ => exact ih

/-! ### The invariant -/

/-- Every committed request for the Vault is older than a full rebuild that has committed,
or than one of this transaction. -/
def Served (s : Sys) (tx : Tx) (v : VaultId) : Prop :=
  ∀ r ∈ s.requests v, (∃ f ∈ s.rebuilds v, r < f) ∨ ∃ c, tx.rebuildSince v = some c ∧ r < c

/-- What a transaction inside a flush has secured. -/
def PhaseOk (s : Sys) (t : TxId) (tx : Tx) : Phase → Prop
  | .idle => True
  | .statusRead _ _ _ => True
  | .locking run toLock plan =>
      (∀ v ∈ run.rebuildVaults, inScope run.scope v = true) ∧
      (∀ v ∈ tx.requested, inScope run.scope v = true → Task.rebuild v ∈ plan) ∧
      (∀ v, Task.rebuild v ∈ plan → v ∈ toLock ∨ s.locks v = some t) ∧
      ∀ v, Task.finish v ∈ plan → v ∉ tx.requested ∧ v ∉ run.rebuildVaults ∧
        (v ∈ toLock ∨ s.locks v = some t ∧ Served s tx v)
  | .working run cursor plan =>
      (∀ v ∈ run.rebuildVaults, inScope run.scope v = true) ∧
      (∀ v ∈ tx.requested, inScope run.scope v = true →
        Task.rebuild v ∈ plan ∨ ∃ c k acc, cursor = some (.pages v c k acc)) ∧
      (∀ v, Task.rebuild v ∈ plan → s.locks v = some t) ∧
      (∀ v, Task.finish v ∈ plan → v ∉ tx.requested ∧ s.locks v = some t ∧ Served s tx v) ∧
      ∀ v since k acc, cursor = some (.pages v since k acc) → s.locks v = some t ∧
        ∀ c, since = some c → ∀ r ∈ s.requests v, r < c

/-- The invariant of one open transaction. -/
structure TxOk (s : Sys) (t : TxId) (tx : Tx) : Prop where
  requested_status : ∀ v ∈ tx.requested, pendingStatus tx.writes v = some .rebuildRequired
  requested_tracked : ∀ v ∈ tx.requested, v ∈ tx.rebuildVaults
  status_locked : ∀ v, pendingStatus tx.writes v ≠ none → s.locks v = some t
  ready_served : ∀ v, pendingStatus tx.writes v = some .ready → Served s tx v
  phase : PhaseOk s t tx tx.phase

/-- **No committed request is lost**: it is still recorded, or a full rebuild that started
reading after it has committed. -/
def RequestsKept (s : Sys) : Prop :=
  ∀ v, ∀ r ∈ s.requests v,
    s.db.status v = some .rebuildRequired ∨ ∃ f ∈ s.rebuilds v, r < f

/-- The invariant of the system. -/
structure RequestInv (s : Sys) : Prop where
  past : ∀ v, ∀ r ∈ s.requests v, r < s.clock
  kept : RequestsKept s
  txs : ∀ t tx, s.txs t = some tx → TxOk s t tx

/-- A flush that refreshes single directories of a Vault gets its row lock while a rebuild
request is recorded there: one it has not seen, and its `ready` will overwrite. -/
def overwrites (s : Sys) : Act → Bool
  | .lock t =>
      match s.txs t with
      | some tx =>
          match tx.phase with
          | .locking run (v :: _) _ =>
              v ∉ run.rebuildVaults && s.db.status v = some .rebuildRequired
          | _ => false
      | none => false
  | _ => false

/-- The step does not overwrite a rebuild request. -/
def NoOverwrite (s : Sys) (a : Act) : Prop := overwrites s a = false

instance (s : Sys) (a : Act) : Decidable (NoOverwrite s a) :=
  inferInstanceAs (Decidable (overwrites s a = false))

variable {s s' : Sys} {t : TxId} {tx : Tx}

lemma Served.mono {v : VaultId} (h : Served s tx v) (hr : s'.requests v = s.requests v)
    (hf : ∀ f ∈ s.rebuilds v, f ∈ s'.rebuilds v) : Served s' tx v := by
  intro r hmem
  rcases h r (hr ▸ hmem) with ⟨f, hmf, hlt⟩ | hc
  · exact Or.inl ⟨f, hf f hmf, hlt⟩
  · exact Or.inr hc

lemma TxOk.mono (h : TxOk s t tx)
    (hl : ∀ v, s.locks v = some t → s'.locks v = some t ∧ s'.requests v = s.requests v ∧
      ∀ f ∈ s.rebuilds v, f ∈ s'.rebuilds v) : TxOk s' t tx where
  requested_status := h.requested_status
  requested_tracked := h.requested_tracked
  status_locked v hv := (hl v (h.status_locked v hv)).1
  ready_served v hv := by
    obtain ⟨-, hr, hf⟩ := hl v (h.status_locked v (by simp [hv]))
    exact (h.ready_served v hv).mono hr hf
  phase := by
    have hp := h.phase
    cases hph : tx.phase with
    | idle => trivial
    | statusRead scope cutoff rows => trivial
    | locking run toLock plan =>
        rw [hph] at hp
        obtain ⟨h1, h2, h3, h4⟩ := hp
        refine ⟨h1, h2, fun v hv => ?_, fun v hv => ?_⟩
        · exact (h3 v hv).imp_right fun hk => (hl v hk).1
        · obtain ⟨h5, h6, h7⟩ := h4 v hv
          refine ⟨h5, h6, h7.imp_right fun hk => ?_⟩
          obtain ⟨hl', hr, hf⟩ := hl v hk.1
          exact ⟨hl', hk.2.mono hr hf⟩
    | working run cursor plan =>
        rw [hph] at hp
        obtain ⟨h1, h2, h3, h4, h5⟩ := hp
        refine ⟨h1, h2, fun v hv => (hl v (h3 v hv)).1, fun v hv => ?_, ?_⟩
        · obtain ⟨h6, h7, h8⟩ := h4 v hv
          obtain ⟨hl', hr, hf⟩ := hl v h7
          exact ⟨h6, hl', h8.mono hr hf⟩
        · intro v since k acc hcur
          obtain ⟨h6, h7⟩ := h5 v since k acc hcur
          obtain ⟨hl', hr, -⟩ := hl v h6
          exact ⟨hl', fun c hc r hmem => h7 c hc r (hr ▸ hmem)⟩

lemma RequestInv.setTx (h : RequestInv s) (tx' : Tx)
    (hs' : s'.txs = Function.update s.txs t (some tx')) (hdb : s'.db = s.db)
    (hclock : s'.clock = s.clock + 1) (hreq : s'.requests = s.requests)
    (hreb : s'.rebuilds = s.rebuilds)
    (hlock : ∀ u v, u ≠ t → s.locks v = some u → s'.locks v = some u) (htx : TxOk s' t tx') :
    RequestInv s' where
  past v r hr := by
    rw [hreq] at hr
    have := h.past v r hr
    omega
  kept v r hr := by
    rw [hreq] at hr
    rw [hdb, hreb]
    exact h.kept v r hr
  txs u ux hu := by
    rw [hs'] at hu
    by_cases hut : u = t
    · subst hut
      rw [Function.update_self] at hu
      exact Option.some.inj hu ▸ htx
    · rw [Function.update_of_ne hut] at hu
      refine (h.txs u ux hu).mono fun v hv => ⟨hlock u v hut hv, by rw [hreq], ?_⟩
      rw [hreb]
      exact fun f hf => hf

/-! ### One statement of a flush -/

lemma pendingStatus_ready (ws us : List Write) (v u : VaultId)
    (h : ∀ w st, Write.setStatus w st ∉ us) :
    pendingStatus (ws ++ (us ++ [.setStatus v .ready])) u =
      if v = u then some .ready else pendingStatus ws u := by
  rw [← append_assoc, pendingStatus_concat]
  simp only [pendingStatus_append_of_forall ws us u h]

lemma TxOk.goto (h : TxOk s t tx) {p : Phase} (hp : PhaseOk s t { tx with phase := p } p) :
    TxOk s t { tx with phase := p } :=
  ⟨h.requested_status, h.requested_tracked, h.status_locked, h.ready_served, hp⟩

lemma TxOk.writes (h : TxOk s t tx) (us : List Write) (dirs : List (VaultId × Path)) {p : Phase}
    (hus : ∀ u st, Write.setStatus u st ∉ us) (hp : PhaseOk s t { tx with phase := p } p) :
    TxOk s t { tx with
      writes := tx.writes ++ us
      dirtyDirectories := dirs
      phase := p } where
  requested_status u hu :=
    (pendingStatus_append_of_forall tx.writes us u hus).trans (h.requested_status u hu)
  requested_tracked := h.requested_tracked
  status_locked u hu :=
    h.status_locked u (pendingStatus_append_of_forall tx.writes us u hus ▸ hu)
  ready_served u hu := h.ready_served u (pendingStatus_append_of_forall tx.writes us u hus ▸ hu)
  phase := by cases p <;> exact hp

section Work

variable {run : FlushRun} {plan : List Task} {v : VaultId} {db : Db} {d : Path}
  {cols : RollupColumns}

/-- The last batch of a rebuild: all committed requests precede its first read. -/
lemma TxOk.workLast {since : Option ℕ} {k : Path} {acc : List FileContribution} {c : ℕ}
    (h : TxOk s t tx) (hp : PhaseOk s t tx (.working run (some (.pages v since k acc)) plan))
    (us : List Write) (hus : ∀ w st, Write.setStatus w st ∉ us) (dirs : List (VaultId × Path))
    (hserved : ∀ r ∈ s.requests v, r < c) :
    TxOk s t { tx with
      writes := tx.writes ++ (us ++ [.setStatus v .ready])
      dirtyDirectories := dirs
      rebuildVaults := tx.rebuildVaults.filter (· ≠ v)
      requested := tx.requested.filter (· ≠ v)
      rebuildSince := Function.update tx.rebuildSince v (some c)
      phase := .working run none plan } := by
  obtain ⟨h1, h2, h3, h4, h5⟩ := hp
  have hpend := fun u => pendingStatus_ready tx.writes us v u hus
  have hall : ∀ u, (u ≠ v → Served s tx u) → Served s
      { tx with rebuildSince := Function.update tx.rebuildSince v (some c) } u := by
    intro u hu r hr
    by_cases huv : u = v
    · subst huv
      exact Or.inr ⟨_, by simp, hserved r hr⟩
    · rcases hu huv r hr with hf | ⟨c', hc, hlt⟩
      · exact Or.inl hf
      · exact Or.inr ⟨c', by simp [huv, hc], hlt⟩
  refine ⟨?_, ?_, ?_, ?_, h1, ?_, h3, ?_, by simp⟩
  · intro u hu
    obtain ⟨hu, huv⟩ := mem_filter.mp hu
    rw [hpend, if_neg fun e => by simp [e] at huv]
    exact h.requested_status u hu
  · intro u hu
    obtain ⟨hu, huv⟩ := mem_filter.mp hu
    exact mem_filter.mpr ⟨h.requested_tracked u hu, huv⟩
  · intro u hu
    rw [hpend] at hu
    by_cases huv : v = u
    · exact huv ▸ (h5 v since k acc rfl).1
    · rw [if_neg huv] at hu
      exact h.status_locked u hu
  · intro u hu
    rw [hpend] at hu
    refine hall u fun huv => ?_
    rw [if_neg (Ne.symm huv)] at hu
    exact h.ready_served u hu
  · intro u hu hscope
    obtain ⟨hu, huv⟩ := mem_filter.mp hu
    rcases h2 u hu hscope with hin | ⟨c, k', acc', hcur⟩
    · exact Or.inl hin
    · obtain ⟨rfl, -⟩ : v = u ∧ _ := by simpa using hcur
      simp at huv
  · intro u hu
    obtain ⟨h6, h7, h8⟩ := h4 u hu
    exact ⟨fun hm => h6 (mem_filter.mp hm).1, h7, hall u fun _ => h8⟩

lemma TxOk.workPages {since : Option ℕ} {k : Path} {acc : List FileContribution} (h : TxOk s t tx)
    (hp : PhaseOk s t tx (.working run (some (.pages v since k acc)) plan))
    (hpast : ∀ v, ∀ r ∈ s.requests v, r < s.clock) :
    TxOk s t (workTx coll db s.clock tx run (some (.pages v since k acc)) plan) := by
  obtain ⟨h1, h2, h3, h4, h5⟩ := hp
  obtain ⟨hlock, hsince⟩ := h5 v since k acc rfl
  have hserved : ∀ r ∈ s.requests v, r < since.getD s.clock := by
    intro r hr
    cases since with
    | none => exact hpast v r hr
    | some c => exact hsince c rfl r hr
  simp only [workTx]
  split
  · exact h.workLast ⟨h1, h2, h3, h4, h5⟩ [_, _] (by simp) _ hserved
  · refine h.goto ⟨h1, fun u hu hscope => ?_, h3, h4, fun u since' k' acc' hcur => ?_⟩
    · rcases h2 u hu hscope with hin | ⟨c, k', acc', hcur⟩
      · exact Or.inl hin
      · obtain ⟨rfl, -⟩ : v = u ∧ _ := by simpa using hcur
        exact Or.inr ⟨_, _, _, rfl⟩
    · simp only [Option.some.injEq, Cursor.pages.injEq] at hcur
      obtain ⟨rfl, rfl, -, -⟩ := hcur
      exact ⟨hlock, fun c hc r hr => Option.some.inj hc ▸ hserved r hr⟩

/-- A flush that has nothing left to read goes on with its plan. -/
lemma phaseOk_next {cursor cursor' : Option Cursor} (hp : PhaseOk s t tx (.working run cursor plan))
    (hcursor : ∀ u c k acc, cursor ≠ some (.pages u c k acc))
    (hcursor' : ∀ u c k acc, cursor' ≠ some (.pages u c k acc)) :
    PhaseOk s t tx (.working run cursor' plan) := by
  obtain ⟨h1, h2, h3, h4, -⟩ := hp
  refine ⟨h1, fun u hu hscope => ?_, h3, h4, fun u c k acc hcur => (hcursor' u c k acc hcur).elim⟩
  exact (h2 u hu hscope).imp_right fun ⟨c, k, acc, hcur⟩ => (hcursor u c k acc hcur).elim

lemma TxOk.workStorage (h : TxOk s t tx)
    (hp : PhaseOk s t tx (.working run (some (.storage v d cols)) plan)) :
    TxOk s t (workTx coll db s.clock tx run (some (.storage v d cols)) plan) :=
  h.writes [_] _ (by simp) (phaseOk_next hp (by simp) (by simp))

/-- The end of a flush: everything requested in scope has been rebuilt, so the tracker may forget
it. -/
lemma TxOk.workDone (h : TxOk s t tx) (hp : PhaseOk s t tx (.working run none [])) :
    TxOk s t (workTx coll db s.clock tx run none []) := by
  obtain ⟨h1, h2, -⟩ := hp
  have hout : ∀ u ∈ tx.requested, inScope run.scope u = false := by
    intro u hu
    cases hscope : inScope run.scope u with
    | false => rfl
    | true =>
        rcases h2 u hu hscope with hin | ⟨c, k', acc', hcur⟩
        · cases hin
        · cases hcur
  refine ⟨h.requested_status, fun u hu => ?_, h.status_locked, h.ready_served, trivial⟩
  have hu' := hout u hu
  cases hscope : run.scope with
  | none => simp [inScope, hscope] at hu'
  | some w =>
      simp only [workTx, hscope, mem_filter]
      refine ⟨h.requested_tracked u hu, ?_⟩
      have : u ∉ run.rebuildVaults := fun hm => by simp [h1 u hm] at hu'
      simpa using this

lemma TxOk.workRebuild (h : TxOk s t tx)
    (hp : PhaseOk s t tx (.working run none (.rebuild v :: plan))) :
    TxOk s t (workTx coll db s.clock tx run none (.rebuild v :: plan)) := by
  obtain ⟨h1, h2, h3, h4, -⟩ := hp
  refine h.goto ⟨h1, ?_, fun u hu => h3 u (by simp [hu]), fun u hu => h4 u (by simp [hu]), ?_⟩
  · intro u hu hscope
    rcases h2 u hu hscope with hin | ⟨c, k', acc', hcur⟩
    · rcases mem_cons.mp hin with heq | hin
      · obtain rfl := Task.rebuild.inj heq
        exact Or.inr ⟨_, _, _, rfl⟩
      · exact Or.inl hin
    · cases hcur
  · intro u since k acc hcur
    simp only [Option.some.injEq, Cursor.pages.injEq] at hcur
    obtain ⟨rfl, rfl, -, -⟩ := hcur
    exact ⟨h3 v (by simp), by simp⟩

lemma phaseOk_tail {task : Task} (hp : PhaseOk s t tx (.working run none (task :: plan)))
    (htask : ∀ u, task ≠ .rebuild u) : PhaseOk s t tx (.working run none plan) := by
  obtain ⟨h1, h2, h3, h4, -⟩ := hp
  refine ⟨h1, fun u hu hscope => ?_, fun u hu => h3 u (mem_cons_of_mem _ hu),
    fun u hu => h4 u (mem_cons_of_mem _ hu), by simp⟩
  rcases h2 u hu hscope with hin | ⟨c, k', acc', hcur⟩
  · exact Or.inl ((mem_cons.mp hin).resolve_left fun h => htask u h.symm)
  · cases hcur

lemma TxOk.workRefresh (h : TxOk s t tx)
    (hp : PhaseOk s t tx (.working run none (.refresh v d :: plan))) :
    TxOk s t (workTx coll db s.clock tx run none (.refresh v d :: plan)) := by
  have hrest := phaseOk_tail hp (by simp)
  simp only [workTx]
  split
  · exact h.goto hrest
  · split
    · exact h.writes [_] _ (by simp) hrest
    · exact h.goto (phaseOk_next hrest (by simp) (by simp))

lemma TxOk.workFinish (h : TxOk s t tx)
    (hp : PhaseOk s t tx (.working run none (.finish v :: plan))) :
    TxOk s t (workTx coll db s.clock tx run none (.finish v :: plan)) := by
  obtain ⟨hreq, hlock, hserved⟩ := hp.2.2.2.1 v mem_cons_self
  have hpend := fun u => pendingStatus_ready tx.writes
    [.deleteMarks v (claimedIds run.claims v)] v u (by simp)
  refine ⟨?_, h.requested_tracked, ?_, ?_, phaseOk_tail hp (by simp)⟩
  · intro u hu
    have huv : v ≠ u := fun e => hreq (e ▸ hu)
    refine (hpend u).trans ?_
    rw [if_neg huv]
    exact h.requested_status u hu
  · intro u hu
    replace hu := (hpend u).symm.trans_ne hu
    by_cases huv : v = u
    · exact huv ▸ hlock
    · rw [if_neg huv] at hu
      exact h.status_locked u hu
  · intro u hu
    replace hu := (hpend u).symm.trans hu
    by_cases huv : v = u
    · exact huv ▸ hserved
    · rw [if_neg huv] at hu
      exact h.ready_served u hu

/-- **A statement of the working phase keeps the invariant of its transaction.** -/
lemma TxOk.work {cursor : Option Cursor} (h : TxOk s t tx)
    (hphase : tx.phase = .working run cursor plan) (hpast : ∀ v, ∀ r ∈ s.requests v, r < s.clock) :
    TxOk s t (workTx coll db s.clock tx run cursor plan) := by
  have hp := h.phase
  rw [hphase] at hp
  cases cursor with
  | some cursor =>
      cases cursor with
      | pages v since k acc => exact h.workPages coll hp hpast
      | storage v d cols => exact h.workStorage coll hp
  | none =>
      cases plan with
      | nil => exact h.workDone coll hp
      | cons task plan =>
          cases task with
          | rebuild v => exact h.workRebuild coll hp
          | refresh v d => exact h.workRefresh coll hp
          | finish v => exact h.workFinish coll hp

end Work

/-! ### One step of the system -/

lemma TxOk.tick (h : TxOk s t tx) (hl : s'.locks = s.locks) (hr : s'.requests = s.requests)
    (hf : s'.rebuilds = s.rebuilds) : TxOk s' t tx :=
  h.mono fun v hv => ⟨hl ▸ hv, by rw [hr], by rw [hf]; exact fun _ hm => hm⟩

/-- Planning: what was requested is rebuilt in full, and a Vault that is not rebuilt in full
is locked before it is finished. -/
lemma TxOk.claim {order : List VaultId} {scope : Option VaultId} {rows : List VaultId}
    {claims : List (VaultId × Path × TxId)} (h : TxOk s t tx)
    (hclaims : ∀ c ∈ claims, inScope scope c.1)
    (horder : order.Perm (dirtyVaults (rebuildOf tx scope rows) (dirtyOf tx scope claims))) :
    TxOk s t { tx with
      phase := .locking ⟨scope, rebuildOf tx scope rows, claims⟩
        (lockOrder (rebuildOf tx scope rows) (dirtyOf tx scope claims))
        (planOf (rebuildOf tx scope rows) (dirtyOf tx scope claims) order) } := by
  refine ⟨h.requested_status, h.requested_tracked, h.status_locked, h.ready_served, ?_, ?_, ?_, ?_⟩
  · exact fun v hv => (mem_rebuildOf.mp hv).2
  · intro v hv hscope
    exact rebuild_mem_planOf.mpr (mem_rebuildOf.mpr ⟨Or.inl (h.requested_tracked v hv), hscope⟩)
  · intro v hv
    exact Or.inl (mem_lockOrder.mpr (Or.inl (rebuild_mem_planOf.mp hv)))
  · intro v hv
    obtain ⟨⟨d, hd⟩, hnot⟩ := mem_dirtyVaults.mp (horder.mem_iff.mp (finish_mem_planOf.mp hv))
    refine ⟨fun hreq => ?_, hnot, Or.inl (mem_lockOrder.mpr (Or.inr ⟨d, hd⟩))⟩
    -- a dirty Vault of the plan is in scope, so a request of the tracker rebuilds it
    have hscope : inScope scope v := inScope_of_mem_dirtyOf hclaims hd
    exact hnot (mem_rebuildOf.mpr ⟨Or.inl (h.requested_tracked v hreq), hscope⟩)

/-- Getting a Vault row: if it is to be finished without a full rebuild, no request is
recorded there, so all of them have been executed. -/
lemma TxOk.lock {run : FlushRun} {v : VaultId} {rest : List VaultId} {plan : List Task}
    (h : TxOk s t tx) (hkept : RequestsKept s) (hphase : tx.phase = .locking run (v :: rest) plan)
    (hno : v ∉ run.rebuildVaults → s.db.status v ≠ some .rebuildRequired)
    (hlocks : s'.locks = Function.update s.locks v (some t)) (hr : s'.requests = s.requests)
    (hf : s'.rebuilds = s.rebuilds) :
    TxOk s' t { tx with phase := .locking run rest plan } := by
  have hmono : ∀ u, s.locks u = some t → s'.locks u = some t := by
    intro u hu
    rw [hlocks]
    by_cases huv : u = v
    · rw [huv, Function.update_self]
    · rw [Function.update_of_ne huv, hu]
  have hself : s'.locks v = some t := by rw [hlocks, Function.update_self]
  have h' : TxOk s' t tx := h.mono fun u hu =>
    ⟨hmono u hu, by rw [hr], by rw [hf]; exact fun _ hm => hm⟩
  have hp := h'.phase
  rw [hphase] at hp
  obtain ⟨h1, h2, h3, h4⟩ := hp
  refine ⟨h'.requested_status, h'.requested_tracked, h'.status_locked, h'.ready_served, h1, h2,
    ?_, ?_⟩
  · intro u hu
    rcases h3 u hu with hmem | hl
    · rcases mem_cons.mp hmem with rfl | hmem
      · exact Or.inr hself
      · exact Or.inl hmem
    · exact Or.inr hl
  · intro u hu
    obtain ⟨h5, h6, h7⟩ := h4 u hu
    refine ⟨h5, h6, ?_⟩
    rcases h7 with hmem | hl
    · rcases mem_cons.mp hmem with rfl | hmem
      · refine Or.inr ⟨hself, fun r hreq => Or.inl ?_⟩
        rw [hf]
        rw [hr] at hreq
        exact (hkept u r hreq).resolve_left (hno h6)
      · exact Or.inl hmem
    · exact Or.inr hl

/-- Committing keeps the others, who hold other locks. -/
lemma TxOk.closeOther {u : TxId} (h : TxOk s t tx) (hut : t ≠ u)
    (hlocks : s'.locks = fun v => if s.locks v = some u then none else s.locks v)
    (hr : ∀ v, s.locks v ≠ some u → s'.requests v = s.requests v)
    (hf : ∀ v, ∀ f ∈ s.rebuilds v, f ∈ s'.rebuilds v) : TxOk s' t tx := by
  refine h.mono fun v hv => ?_
  have hne : s.locks v ≠ some u := by
    rw [hv]
    exact fun e => hut (Option.some.inj e)
  refine ⟨?_, hr v hne, hf v⟩
  rw [hlocks]
  exact (if_neg hne).trans hv

/-- Committed requests stay recorded or executed through a commit. -/
lemma requestsKept_commit (h : RequestInv s) (htx : TxOk s t tx) (v : VaultId) (r : ℕ)
    (hr : r ∈ if v ∈ tx.requested then s.clock :: s.requests v else s.requests v) :
    (tx.view s.db).status v = some .rebuildRequired ∨
      ∃ f ∈ (tx.rebuildSince v).toList ++ s.rebuilds v, r < f := by
  rw [Tx.view, view_status]
  cases hpend : pendingStatus tx.writes v with
  | none =>
      -- no status written: no request either
      have hreq : v ∉ tx.requested := fun hm => by
        rw [htx.requested_status v hm] at hpend
        cases hpend
      rw [if_neg hreq] at hr
      rcases h.kept v r hr with hst | ⟨f, hf, hlt⟩
      · exact Or.inl (by simpa using hst)
      · exact Or.inr ⟨f, mem_append_right _ hf, hlt⟩
  | some st =>
      cases st with
      | rebuildRequired => exact Or.inl rfl
      | ready =>
          have hreq : v ∉ tx.requested := fun hm => by
            rw [htx.requested_status v hm] at hpend
            cases hpend
          rw [if_neg hreq] at hr
          right
          rcases htx.ready_served v hpend r hr with ⟨f, hf, hlt⟩ | ⟨c, hc, hlt⟩
          · exact ⟨f, mem_append_right _ hf, hlt⟩
          · exact ⟨c, mem_append_left _ (by simp [hc]), hlt⟩

section Step

variable {v w : VaultId} {u : TxId}

lemma locks_take (hfree : s.locks v = none ∨ s.locks v = some t) (hut : u ≠ t)
    (hw : s.locks w = some u) : ((s.setTx t tx).take t v).locks w = some u := by
  have hne : w ≠ v := by
    rintro rfl
    rcases hfree with hf | hf
    · simp [hf] at hw
    · exact hut (Option.some.inj (hw.symm.trans hf))
  simpa [Sys.take, Sys.setTx, hne] using hw

lemma RequestInv.lockVault (h : RequestInv s) (htx : s.txs t = some tx)
    (hfree : s.locks v = none ∨ s.locks v = some t) :
    RequestInv ((s.setTx t tx).take t v) := by
  refine h.setTx tx rfl rfl rfl rfl rfl (fun u w hut hw => locks_take hfree hut hw) ?_
  refine (h.txs t tx htx).mono fun w hw => ⟨?_, rfl, fun _ hm => hm⟩
  by_cases hwv : w = v
  · simp [Sys.take, hwv]
  · simpa [Sys.take, Sys.setTx, hwv] using hw

lemma TxOk.request (h : TxOk s t tx) (hidle : tx.phase = .idle) (hlock : s.locks v = some t) :
    TxOk s t { tx with
      writes := tx.writes ++ [.setStatus v .rebuildRequired]
      rebuildVaults := v :: tx.rebuildVaults
      requested := v :: tx.requested } := by
  refine ⟨fun u hu => ?_, fun u hu => ?_, fun u hu => ?_, fun u hu => ?_, ?_⟩
  · rw [pendingStatus_concat]
    by_cases hvu : v = u
    · simp [hvu]
    · have : u ∈ tx.requested := by simpa [Ne.symm hvu] using hu
      simpa [hvu] using h.requested_status u this
  · rcases mem_cons.mp hu with rfl | hu
    · exact mem_cons_self
    · exact mem_cons_of_mem _ (h.requested_tracked u hu)
  · rw [pendingStatus_concat] at hu
    by_cases hvu : v = u
    · exact hvu ▸ hlock
    · exact h.status_locked u (by simpa [hvu] using hu)
  · rw [pendingStatus_concat] at hu
    by_cases hvu : v = u
    · simp [hvu] at hu
    · exact h.ready_served u (by simpa [hvu] using hu)
  · simp only [hidle]
    trivial

lemma TxOk.locked {run : FlushRun} {plan : List Task} (h : TxOk s t tx)
    (hphase : tx.phase = .locking run [] plan) :
    TxOk s t { tx with phase := .working run none plan } := by
  have hp := h.phase
  rw [hphase] at hp
  obtain ⟨h1, h2, h3, h4⟩ := hp
  refine h.goto ⟨h1, fun v hv hs => Or.inl (h2 v hv hs), ?_, ?_, by simp⟩
  · exact fun v hv => (h3 v hv).resolve_left (by simp)
  · intro v hv
    obtain ⟨h5, -, h7⟩ := h4 v hv
    exact ⟨h5, h7.resolve_left (by simp)⟩

lemma RequestInv.commit (h : RequestInv s) (htx : s.txs t = some tx) :
    RequestInv { s.close t with
      db := tx.view s.db
      requests := fun v => if v ∈ tx.requested then s.clock :: s.requests v else s.requests v
      rebuilds := fun v => (tx.rebuildSince v).toList ++ s.rebuilds v
      marked := tx.markedDirs ++ s.marked } := by
  have hok := h.txs t tx htx
  refine ⟨fun v r hr => ?_, fun v r hr => requestsKept_commit h hok v r hr, fun u ux hu => ?_⟩
  · have hlt : r < s.clock + 1 := by
      dsimp only at hr
      split at hr
      · rcases mem_cons.mp hr with rfl | hr
        · omega
        · have := h.past v r hr
          omega
      · have := h.past v r hr
        omega
    exact hlt
  · by_cases hut : u = t
    · simp [Sys.close, hut] at hu
    · have hu' : s.txs u = some ux := by simpa [Sys.close, hut] using hu
      refine (h.txs u ux hu').closeOther hut rfl (fun v hv => ?_) fun v f hf =>
        mem_append_right _ hf
      have hreq : v ∉ tx.requested := fun hm =>
        hv (hok.status_locked v (by simp [hok.requested_status v hm]))
      simp [hreq]

lemma RequestInv.rollback (h : RequestInv s) : RequestInv (s.close t) := by
  refine ⟨fun v r hr => Nat.lt_succ_of_lt (h.past v r hr), h.kept, fun u ux hu => ?_⟩
  by_cases hut : u = t
  · simp [Sys.close, hut] at hu
  · have hu' : s.txs u = some ux := by simpa [Sys.close, hut] using hu
    exact (h.txs u ux hu').closeOther hut rfl (fun _ _ => rfl) fun _ _ hf => hf

lemma RequestInv.go (h : RequestInv s) {tx' : Tx} (htx : TxOk s t tx') :
    RequestInv (s.setTx t tx') :=
  h.setTx tx' rfl rfl rfl rfl rfl (fun _ _ _ hv => hv) (htx.tick rfl rfl rfl)

end Step

/-- **Every step that meets its condition keeps the invariant.** -/
lemma requestInv_step {a : Act} (h : RequestInv s) (hno : NoOverwrite s a)
    (hstep : step coll s a = some s') : RequestInv s' := by
  cases step_spec coll hstep with
  | begin_ dirty rebuild =>
      refine h.setTx _ rfl rfl rfl rfl rfl (fun _ _ _ hv => hv) ?_
      exact ⟨by simp, by simp, by simp [pendingStatus], by simp [pendingStatus], trivial⟩
  | write t tx f marks htx hidle =>
      exact h.go ((h.txs t tx htx).writes _ _ (by simp) (by rw [hidle]; trivial))
  | lockVault t tx v htx hidle hfree => exact h.lockVault htx hfree
  | request t tx v htx hidle hlock => exact h.go ((h.txs t tx htx).request hidle hlock)
  | readStatus t tx scope cutoff htx hidle =>
      obtain ⟨h1, h2, h3, h4, -⟩ := h.txs t tx htx
      exact h.go ⟨h1, h2, h3, h4, trivial⟩
  | claim t tx order scope cutoff rows htx hphase horder =>
      exact h.go ((h.txs t tx htx).claim (fun c hc => inScope_of_mem_claimDirtyRows hc) horder)
  | locked t tx run plan htx hphase => exact h.go ((h.txs t tx htx).locked hphase)
  | lock t tx run v rest plan htx hphase hfree =>
      refine h.setTx { tx with phase := .locking run rest plan } rfl rfl rfl rfl rfl
        (fun u w hut hw => locks_take hfree hut hw) ?_
      refine (h.txs t tx htx).lock h.kept hphase (fun hnot hst => ?_) rfl rfl rfl
      simp [NoOverwrite, overwrites, htx, hphase, hnot, hst] at hno
  | work t tx run cursor plan htx hphase =>
      exact h.go ((h.txs t tx htx).work coll hphase h.past)
  | commit t tx htx hidle => exact h.commit htx
  | rollback t tx htx => exact h.rollback

lemma requestInv_start (db : Db) (n : TxId) : RequestInv (Sys.start db n) :=
  ⟨by simp [Sys.start], by simp [RequestsKept, Sys.start], by simp [Sys.start]⟩

/-- **No lost rebuild request.**  In every run, from any committed tables, in which a flush
that refreshes single directories of a Vault gets its row lock only while no rebuild request
is recorded there, every committed request is still recorded or a full rebuild that started
reading after it has committed. -/
theorem requests_kept (db : Db) (n : TxId) (acts : List Act) (s : Sys)
    (hno : Runs.Along (step coll) NoOverwrite (Sys.start db n) acts)
    (hrun : Runs.run (step coll) (Sys.start db n) acts = some s) : RequestsKept s :=
  (Runs.run_induction_along (fun _ _ _ => requestInv_step coll) (requestInv_start db n) hno
    hrun).kept

/-! ### Runs -/

/-- A Vault with one directory marked by an earlier transaction. -/
def markedDb : Db where
  vaults := [0]
  catalog := Catalog.empty
  dirty := [⟨0, ['d'], 0, 0⟩]
  status := fun _ => some .ready
  aggregates := fun _ _ => none

/-- A maintenance flush (1) reads the status and claims the mark; a scan (2) commits a
rebuild request; the flush then gets the lock, refreshes the directory and writes `ready`. -/
def lostRequest : List Act :=
  [.begin_ [] [], .readStatus 1 (some 0) 5, .claim 1 [0],
    .begin_ [] [], .write 2 id [], .lockVault 2 0, .request 2 0, .commit 2,
    .lock 1, .lock 1, .work 1, .work 1, .work 1, .commit 1]

/-- The request committed at time 7 is neither recorded nor executed after the flush. -/
theorem request_lost :
    ¬ ∀ (db : Db) (n : TxId) (acts : List Act) (s : Sys),
      Runs.run (step .codePoint) (Sys.start db n) acts = some s → RequestsKept s := by
  intro h
  have hend : (Runs.run (step .codePoint) (Sys.start markedDb 1) lostRequest).map
      (fun s => (s.db.status 0, s.requests 0, s.rebuilds 0)) = some (some .ready, [7], []) := by
    decide
  obtain ⟨s, hs, heq⟩ := Option.map_eq_some_iff.mp hend
  simp only [Prod.mk.injEq] at heq
  obtain ⟨hst, hreq, hreb⟩ := heq
  have hkept := h markedDb 1 lostRequest s hs 0 7 (by simp [hreq])
  simp [hst, hreb] at hkept

/-- The same two transactions with the request before the flush's first read: the flush
rebuilds the Vault in full. -/
def keptRequest : List Act :=
  [.begin_ [] [], .write 1 id [], .lockVault 1 0, .request 1 0, .commit 1,
    .begin_ [] [], .readStatus 2 (some 0) 5, .claim 2 [], .lock 2, .lock 2,
    .work 2, .work 2, .work 2, .commit 2]

theorem requests_kept_keptRequest :
    ∃ s, Runs.run (step .codePoint) (Sys.start markedDb 1) keptRequest = some s ∧
      s.requests 0 = [4] ∧ RequestsKept s := by
  have hend : (Runs.run (step .codePoint) (Sys.start markedDb 1) keptRequest).map
      (fun s => s.requests 0) = some [4] := by decide
  obtain ⟨s, hs, heq⟩ := Option.map_eq_some_iff.mp hend
  exact ⟨s, hs, heq, requests_kept .codePoint markedDb 1 keptRequest s (by decide) hs⟩

end Frostvault
