import Frostvault.Lib.Runs
import Mathlib.Algebra.Order.Group.Int

/-!
The readiness of the S3 service (`app/services/cloud_preflight_gate.py`).

The row of `cloud_preflight_state` is shared by all threads; the process remembers in a variable
whether it has probed.  `check` reads the row, takes an advisory lock without waiting, reads
again, probes, and publishes over another connection while its own transaction holds the lock;
it writes the variable when that transaction has ended.  `invalidate` clears the variable, waits
for the lock, and its transaction blocks the row.  Every statement that another thread can see
between is a step of its own; clocks read anything, and a call may end with an exception.

* `probeDue`, `dispatchReady`: the decisions; `gateStep`: a step of a thread;
* `LockHeld`: who holds the lock; `lockHeld_run`: it stays so;
* `probed_of_run`: who publishes has probed since;
* `not_due_window`, `exists_due`: how long the gate may wait;
* `refusal_stands`: **after a refusal only a later probe opens the gate, and it is probed again in
  time**.
-/

namespace Frostvault.Preflight

open Runs

/-! ### The row -/

/-- `status`; a row that is missing reads as unknown. -/
inductive GateStatus
  | unknown
  | ready
  | blocked
deriving DecidableEq

/-- The row.  `nextProbeAt` is what `datetime.fromisoformat` reads of the column, in
microseconds; none when it is no time, or one without a zone. -/
structure GateRow where
  status : GateStatus
  remediation : Option String
  failureCount : ℤ
  nextProbeAt : Option ℤ
deriving DecidableEq

/-- `AUTH_REMEDIATION`. -/
def authRemediation : String :=
  "S3 access was refused. Check AWS credentials and required bucket permissions; Jobs remain queued"

/-- `MAX_REPROBE_SECONDS`. -/
def maxReprobeSeconds : ℤ := 60

/-- `timedelta(seconds=..)`, in microseconds. -/
def seconds (n : ℤ) : ℤ := n * 1000000

/-- `reprobe_seconds`. -/
def reprobeSeconds (failures : ℤ) : ℤ :=
  min maxReprobeSeconds (5 * 2 ^ (min (max (failures - 1) 0) 4).toNat)

/-- `snapshot`. -/
def snapshot (row : Option GateRow) : GateRow := row.getD ⟨.unknown, none, 0, none⟩

/-- `probe_due`. -/
def probeDue (state : GateRow) (now : ℤ) : Bool :=
  match state.nextProbeAt with
  | none => true
  | some t => !(0 < t - now && t - now ≤ seconds maxReprobeSeconds)

/-- `dispatch_ready`, in the process `pid`. -/
def dispatchReady (readyPid : Option ℕ) (pid : ℕ) (state : GateRow) (now : ℤ) : Bool :=
  readyPid = some pid && state.status = .ready && !probeDue state now

/-- `not needs_startup and not probe_due(..)` fails: the gate is to be probed. -/
def wantsProbe (readyPid : Option ℕ) (pid : ℕ) (state : GateRow) (now : ℤ) : Bool :=
  (readyPid ≠ some pid && state.status = .ready) || probeDue state now

/-- `bool(remediation)`. -/
def remedied (remediation : Option String) : Bool := remediation.any fun text => text ≠ ""

/-- What `check` publishes after a probe. -/
def outcomeRow (failureCount : ℤ) (remediation : Option String) (completed : ℤ) : GateRow :=
  let failures := if remedied remediation then failureCount + 1 else 0
  { status := if remedied remediation then .blocked else .ready
    remediation := remediation
    failureCount := failures
    nextProbeAt := some (completed + seconds
      (if remedied remediation then reprobeSeconds failures else maxReprobeSeconds)) }

/-- The row `invalidate` leaves. -/
def refusedRow (row : Option GateRow) (stamp : ℤ) : GateRow :=
  match row with
  | none => ⟨.blocked, some authRemediation, 0, some stamp⟩
  | some old =>
      if old.status ≠ .blocked then
        { old with
          status := .blocked
          remediation := some authRemediation
          nextProbeAt := some stamp }
      else old

/-! ### Threads -/

/-- Where a thread is. -/
inductive GateStage
  | idle
  /-- `check` has read the row. -/
  | seen (state : GateRow)
  /-- It goes for the lock. -/
  | decided
  | locked
  /-- It has read the row again. -/
  | reread (state : GateRow)
  /-- The probe comes next. -/
  | clear (failureCount : ℤ)
  | probing (failureCount : ℤ)
  | publishing (outcome : GateRow)
  | published (outcome : GateRow)
  /-- The transaction of `check` has ended; `_ready_pid` is written next. -/
  | closing (outcome : GateRow)
  /-- `invalidate` has cleared `_ready_pid`, and waits for the lock. -/
  | refusing (stamp : ℤ)
  | fencing (stamp : ℤ)
deriving DecidableEq

/-- The thread's transaction holds the advisory lock. -/
def GateStage.holds : GateStage → Bool
  | .locked | .reread _ | .clear _ | .probing _ | .publishing _ | .published _ | .fencing _ => true
  | _ => false

/-- The probe of the call has started, and its outcome may be published. -/
def GateStage.afterProbe : GateStage → Bool
  | .probing _ | .publishing _ | .published _ => true
  | _ => false

/-- The database and the threads of the process `pid`. -/
structure GateWorld (τ : Type) where
  row : Option GateRow
  lock : Option τ
  readyPid : Option ℕ
  stage : τ → GateStage

inductive GateAct (τ : Type)
  | readFirst (t : τ)
  | decideFirst (t : τ) (now : ℤ)
  | tryLock (t : τ)
  | readAgain (t : τ)
  | decideAgain (t : τ) (now : ℤ)
  | startProbe (t : τ)
  /-- The probe ends, and the clock is read. -/
  | endProbe (t : τ) (remediation : Option String) (completed : ℤ)
  /-- A commit of `_publish`, which may be replayed. -/
  | publish (t : τ)
  | finish (t : τ)
  | setFlag (t : τ)
  /-- `check` ends with an exception. -/
  | abandon (t : τ)
  | refuse (t : τ) (stamp : ℤ)
  | awaitLock (t : τ)
  | commitRefusal (t : τ)
  /-- `invalidate` is rolled back; a replay starts it again. -/
  | rollbackRefusal (t : τ)
deriving DecidableEq

namespace GateAct

/-- Whose step it is. -/
def thread {τ : Type} : GateAct τ → τ
  | readFirst t | decideFirst t _ | tryLock t | readAgain t | decideAgain t _ | startProbe t
  | endProbe t _ _ | publish t | finish t | setFlag t | abandon t | refuse t _ | awaitLock t
  | commitRefusal t | rollbackRefusal t => t

end GateAct

variable {τ : Type} [DecidableEq τ]

/-- The thread goes to another stage. -/
def GateWorld.move (w : GateWorld τ) (t : τ) (stage : GateStage) : GateWorld τ :=
  { w with stage := Function.update w.stage t stage }

/-- The transaction of the thread ends, and its lock with it. -/
def GateWorld.release (w : GateWorld τ) (t : τ) (stage : GateStage) : GateWorld τ :=
  { w.move t stage with lock := none }

/-- A transaction that may hold the lock ends. -/
def GateWorld.leave (w : GateWorld τ) (t : τ) : GateWorld τ :=
  if (w.stage t).holds then w.release t .idle else w.move t .idle

/-- A step of a thread of the process `pid`. -/
def gateStep (pid : ℕ) (w : GateWorld τ) : GateAct τ → Option (GateWorld τ)
  | .readFirst t =>
      match w.stage t with
      | .idle => some (w.move t (.seen (snapshot w.row)))
      | _ => none
  | .decideFirst t now =>
      match w.stage t with
      | .seen state =>
          some (w.move t (if wantsProbe w.readyPid pid state now then .decided else .idle))
      | _ => none
  | .tryLock t =>
      match w.stage t with
      | .decided =>
          if w.lock = none then some { w.move t .locked with lock := some t }
          else some (w.move t .idle)
      | _ => none
  | .readAgain t =>
      match w.stage t with
      | .locked => some (w.move t (.reread (snapshot w.row)))
      | _ => none
  | .decideAgain t now =>
      match w.stage t with
      | .reread state =>
          if wantsProbe w.readyPid pid state now then some (w.move t (.clear state.failureCount))
          else some (w.release t .idle)
      | _ => none
  | .startProbe t =>
      match w.stage t with
      | .clear failureCount => some (w.move t (.probing failureCount))
      | _ => none
  | .endProbe t remediation completed =>
      match w.stage t with
      | .probing failureCount =>
          some (w.move t (.publishing (outcomeRow failureCount remediation completed)))
      | _ => none
  | .publish t =>
      match w.stage t with
      | .publishing outcome | .published outcome =>
          some { w.move t (.published outcome) with row := some outcome }
      | _ => none
  | .finish t =>
      match w.stage t with
      | .published outcome => some (w.release t (.closing outcome))
      | _ => none
  | .setFlag t =>
      match w.stage t with
      | .closing outcome =>
          some { w.move t .idle with
            readyPid := if remedied outcome.remediation then none else some pid }
      | _ => none
  | .abandon t =>
      match w.stage t with
      | .idle | .refusing _ | .fencing _ => none
      | _ => some (w.leave t)
  | .refuse t stamp =>
      match w.stage t with
      | .idle => some { w.move t (.refusing stamp) with readyPid := none }
      | _ => none
  | .awaitLock t =>
      match w.stage t with
      | .refusing stamp =>
          if w.lock = none then some { w.move t (.fencing stamp) with lock := some t } else none
      | _ => none
  | .commitRefusal t =>
      match w.stage t with
      | .fencing stamp =>
          some { w.release t .idle with row := some (refusedRow w.row stamp) }
      | _ => none
  | .rollbackRefusal t =>
      match w.stage t with
      | .refusing _ | .fencing _ => some (w.leave t)
      | _ => none

/-! ### What a step does -/

variable {pid : ℕ} {w w' w₁ w₂ w₃ : GateWorld τ} {t u : τ} {as bs : List (GateAct τ)}

/-- What becomes of the lock when the thread goes to a stage. -/
inductive LockMoved (w w' : GateWorld τ) (t : τ) (stage : GateStage) : Prop
  | kept (hlock : w'.lock = w.lock) (hholds : stage.holds = (w.stage t).holds)
  | released (hlock : w'.lock = none) (hheld : (w.stage t).holds = true)
      (hholds : stage.holds = false)
  | taken (hfree : w.lock = none) (hlock : w'.lock = some t) (hholds : stage.holds = true)

/-- **What a step does**: its thread goes to another stage, with the lock; the row changes by a
publication or a refusal; and an outcome comes from a probe of the same call. -/
structure Moved (w : GateWorld τ) (a : GateAct τ) (w' : GateWorld τ) (stage : GateStage) :
    Prop where
  stage_eq : w'.stage = Function.update w.stage a.thread stage
  lock : LockMoved w w' a.thread stage
  row : w'.row = w.row ∨ a = .publish a.thread ∨ ∃ stamp, w'.row = some (refusedRow w.row stamp)
  probe : stage.afterProbe = true → a = .startProbe a.thread ∨
    (w.stage a.thread).afterProbe = true ∧
      ((∃ remediation completed, a = .endProbe a.thread remediation completed) ∨
        a = .publish a.thread)

/-- The end of a transaction that may hold the lock. -/
lemma moved_leave {a : GateAct τ} : Moved w a (w.leave a.thread) .idle := by
  unfold GateWorld.leave
  split
  · rename_i hheld
    exact ⟨rfl, .released rfl hheld rfl, .inl rfl, fun h => nomatch h⟩
  · rename_i hfree
    exact ⟨rfl, .kept rfl (Bool.eq_false_iff.mpr hfree).symm, .inl rfl, fun h => nomatch h⟩

lemma exists_moved {a : GateAct τ} (h : gateStep pid w a = some w') :
    ∃ stage, Moved w a w' stage := by
  cases a with
  | readFirst t =>
      simp only [gateStep] at h
      split at h <;> cases h
      rename_i hstage
      exact ⟨_, rfl, .kept rfl (by rw [GateAct.thread, hstage]; rfl), .inl rfl,
        fun h => nomatch h⟩
  | decideFirst t now =>
      simp only [gateStep] at h
      split at h <;> cases h
      rename_i hstage
      refine ⟨_, rfl, .kept rfl ?_, .inl rfl, fun h => ?_⟩
      · rw [GateAct.thread, hstage]
        split <;> rfl
      · split at h <;> cases h
  | tryLock t =>
      simp only [gateStep] at h
      split at h
      · rename_i hstage
        split at h <;> cases h
        · rename_i hfree
          exact ⟨_, rfl, .taken hfree rfl rfl, .inl rfl, fun h => nomatch h⟩
        · exact ⟨_, rfl, .kept rfl (by rw [GateAct.thread, hstage]; rfl), .inl rfl,
            fun h => nomatch h⟩
      · cases h
  | readAgain t =>
      simp only [gateStep] at h
      split at h <;> cases h
      rename_i hstage
      exact ⟨_, rfl, .kept rfl (by rw [GateAct.thread, hstage]; rfl), .inl rfl,
        fun h => nomatch h⟩
  | decideAgain t now =>
      simp only [gateStep] at h
      split at h
      · rename_i hstage
        split at h <;> cases h
        · exact ⟨_, rfl, .kept rfl (by rw [GateAct.thread, hstage]; rfl), .inl rfl,
            fun h => nomatch h⟩
        · exact ⟨_, rfl, .released rfl (by rw [GateAct.thread, hstage]; rfl) rfl, .inl rfl,
            fun h => nomatch h⟩
      · cases h
  | startProbe t =>
      simp only [gateStep] at h
      split at h <;> cases h
      rename_i hstage
      exact ⟨_, rfl, .kept rfl (by rw [GateAct.thread, hstage]; rfl), .inl rfl, fun _ => .inl rfl⟩
  | endProbe t remediation completed =>
      simp only [gateStep] at h
      split at h <;> cases h
      rename_i hstage
      refine ⟨_, rfl, .kept rfl (by rw [GateAct.thread, hstage]; rfl), .inl rfl, fun _ => .inr ?_⟩
      exact ⟨by rw [GateAct.thread, hstage]; rfl, .inl ⟨remediation, completed, rfl⟩⟩
  | publish t =>
      simp only [gateStep] at h
      split at h <;> cases h
      all_goals
        rename_i hstage
        exact ⟨_, rfl, .kept rfl (by simp [GateAct.thread, hstage, GateStage.holds]),
          .inr (.inl rfl), fun _ => .inr ⟨by rw [GateAct.thread, hstage]; rfl, .inr rfl⟩⟩
  | finish t =>
      simp only [gateStep] at h
      split at h <;> cases h
      rename_i hstage
      exact ⟨_, rfl, .released rfl (by rw [GateAct.thread, hstage]; rfl) rfl, .inl rfl,
        fun h => nomatch h⟩
  | setFlag t =>
      simp only [gateStep] at h
      split at h <;> cases h
      rename_i hstage
      exact ⟨_, rfl, .kept rfl (by rw [GateAct.thread, hstage]; rfl), .inl rfl,
        fun h => nomatch h⟩
  | abandon t =>
      simp only [gateStep] at h
      split at h <;> cases h
      exact ⟨_, moved_leave⟩
  | refuse t stamp =>
      simp only [gateStep] at h
      split at h <;> cases h
      rename_i hstage
      exact ⟨_, rfl, .kept rfl (by rw [GateAct.thread, hstage]; rfl), .inl rfl,
        fun h => nomatch h⟩
  | awaitLock t =>
      simp only [gateStep] at h
      split at h
      · split at h <;> cases h
        rename_i hfree
        exact ⟨_, rfl, .taken hfree rfl rfl, .inl rfl, fun h => nomatch h⟩
      · cases h
  | commitRefusal t =>
      simp only [gateStep] at h
      split at h <;> cases h
      rename_i stamp hstage
      exact ⟨_, rfl, .released rfl (by rw [GateAct.thread, hstage]; rfl) rfl,
        .inr (.inr ⟨stamp, rfl⟩), fun h => nomatch h⟩
  | rollbackRefusal t =>
      simp only [gateStep] at h
      split at h <;> cases h
      all_goals exact ⟨_, moved_leave⟩

/-! ### The lock -/

/-- **The lock is held by the thread whose transaction took it.** -/
def LockHeld (w : GateWorld τ) : Prop := ∀ t, (w.stage t).holds = true ↔ w.lock = some t

lemma lockHeld_step {a : GateAct τ} (h : LockHeld w) (hstep : gateStep pid w a = some w') :
    LockHeld w' := by
  obtain ⟨stage, hmoved⟩ := exists_moved hstep
  intro u
  rw [hmoved.stage_eq]
  by_cases hu : u = a.thread
  · rw [hu, Function.update_self]
    cases hmoved.lock with
    | kept hlock hholds => rw [hlock, hholds, h]
    | released hlock _ hholds => simp [hlock, hholds]
    | taken _ hlock hholds => simp [hlock, hholds]
  · rw [Function.update_of_ne hu, h u]
    cases hmoved.lock with
    | kept hlock _ => rw [hlock]
    | released hlock hheld _ => simp [hlock, (h _).mp hheld, Ne.symm hu]
    | taken hfree hlock _ => simp [hlock, hfree, Ne.symm hu]

lemma lockHeld_run (h : LockHeld w) (hrun : run (gateStep pid) w as = some w') :
    LockHeld w' :=
  run_induction (fun _ _ _ h hstep => lockHeld_step h hstep) h hrun

/-! ### Publications -/

/-- **The thread has probed since**: the last steps of its call are the start of a probe, and then
nothing but its end and publications. -/
def ProbedSince (u : τ) (as : List (GateAct τ)) : Prop :=
  ∃ before after, as = before ++ .startProbe u :: after ∧ ∀ a ∈ after, a.thread = u →
    (∃ remediation completed, a = .endProbe u remediation completed) ∨ a = .publish u

/-- An outcome that was not there at the start comes from a probe since. -/
lemma probed_of_run (hfresh : ∀ t, (w.stage t).afterProbe = false)
    (hrun : run (gateStep pid) w as = some w') (hu : (w'.stage u).afterProbe) :
    ProbedSince u as := by
  have hinv : ∀ u, (w'.stage u).afterProbe → ProbedSince u as := by
    refine run_induction_history (G := fun _ _ => True)
      (I := fun as w => ∀ u, (w.stage u).afterProbe → ProbedSince u as)
      (fun as w a w' ih _ hstep u hu => ?_) (fun u hu => ?_) ?_ hrun
    · obtain ⟨stage, hmoved⟩ := exists_moved hstep
      rw [hmoved.stage_eq] at hu
      by_cases hthread : u = a.thread
      · rw [hthread, Function.update_self] at hu
        rcases hmoved.probe hu with hstart | ⟨hbefore, hcall⟩
        · refine ⟨as, [], ?_, fun b hb => absurd hb List.not_mem_nil⟩
          rw [hthread, ← hstart]
        · obtain ⟨before, after, rfl, hafter⟩ := ih a.thread hbefore
          refine ⟨before, after ++ [a], by simp [hthread], fun b hb hbu => ?_⟩
          rcases List.mem_append.mp hb with hb | hb
          · rw [hthread] at hbu ⊢
            exact hafter b hb hbu
          · rw [List.mem_singleton.mp hb, hthread]
            exact hcall
      · rw [Function.update_of_ne hthread] at hu
        obtain ⟨before, after, rfl, hafter⟩ := ih u hu
        refine ⟨before, after ++ [a], by simp, fun b hb hbu => ?_⟩
        rcases List.mem_append.mp hb with hb | hb
        · exact hafter b hb hbu
        · rw [List.mem_singleton.mp hb] at hbu
          exact absurd hbu.symm hthread
    · rw [hfresh u] at hu
      cases hu
    · exact (along_iff_forall_step hrun).mpr fun _ _ _ _ _ _ => trivial
  exact hinv u hu

lemma afterProbe_of_publish (h : gateStep pid w (.publish u) = some w') :
    (w.stage u).afterProbe := by
  simp only [gateStep] at h
  split at h <;> cases h
  all_goals
    rename_i hstage
    rw [hstage]
    rfl

lemma status_refusedRow (row : Option GateRow) (stamp : ℤ) :
    (refusedRow row stamp).status = .blocked := by
  unfold refusedRow
  cases row with
  | none => rfl
  | some old =>
      by_cases hold : old.status = .blocked
      · simp [hold]
      · simp [hold]

/-- After a refusal, the row is blocked and no outcome waits to be published. -/
lemma refused_of_commit (hlock : LockHeld w) (h : gateStep pid w (.commitRefusal t) = some w') :
    (snapshot w'.row).status = .blocked ∧ ∀ u, (w'.stage u).afterProbe = false := by
  have hlock' := lockHeld_step hlock h
  simp only [gateStep] at h
  split at h <;> cases h
  refine ⟨status_refusedRow _ _, fun u => ?_⟩
  have hfree : ((w.release t .idle).stage u).holds = false :=
    Bool.eq_false_iff.mpr fun hheld => nomatch (hlock' u).mp hheld
  cases hu : (w.release t .idle).stage u with
  | probing f | publishing f | published f =>
      rw [hu] at hfree
      cases hfree
  | _ => rfl

lemma published_of_ready (hblocked : (snapshot w.row).status ≠ .ready)
    (hrun : run (gateStep pid) w as = some w') (hready : (snapshot w'.row).status = .ready) :
    ∃ before u after v, as = before ++ .publish u :: after ∧
      run (gateStep pid) w (before ++ [.publish u]) = some v ∧
      (snapshot v.row).status = .ready := by
  obtain ⟨before, a, after, x, y, has, hx, hstep, hnot, hyes⟩ :=
    exists_breaking_step (I := fun w => (snapshot w.row).status ≠ .ready) hblocked hrun
      (not_not.mpr hready)
  obtain ⟨stage, hmoved⟩ := exists_moved hstep
  rcases hmoved.row with hrow | hpublish | ⟨stamp, hrow⟩
  · rw [hrow] at hyes
    exact absurd hnot hyes
  · refine ⟨before, a.thread, after, y, hpublish ▸ has, ?_, not_not.mp hyes⟩
    exact run_append.mpr ⟨x, hx, run_cons_eq_some.mpr ⟨y, hpublish ▸ hstep, rfl⟩⟩
  · rw [hrow] at hyes
    refine absurd (not_not.mp hyes) ?_
    rw [snapshot, Option.getD_some, status_refusedRow]
    decide

/-! ### The next probe -/

/-- When the gate waits, its next probe is near. -/
lemma probeDue_eq_false_iff {state : GateRow} {now : ℤ} : probeDue state now = false ↔
    ∃ t, state.nextProbeAt = some t ∧ now < t ∧ t ≤ now + seconds maxReprobeSeconds := by
  unfold probeDue
  cases state.nextProbeAt with
  | none => simp
  | some t =>
      simp only [Bool.not_eq_false', Bool.and_eq_true, decide_eq_true_eq, Option.some.injEq,
        exists_eq_left']
      constructor <;> (rintro ⟨h, h'⟩; exact ⟨by omega, by omega⟩)

/-- A gate that waits is probed from `MAX_REPROBE_SECONDS` later on. -/
lemma probeDue_later {state : GateRow} {now later : ℤ} (h : probeDue state now = false)
    (hlater : now + seconds maxReprobeSeconds ≤ later) : probeDue state later := by
  obtain ⟨t, ht, -, hnear⟩ := probeDue_eq_false_iff.mp h
  refine Bool.eq_true_of_not_eq_false fun hwaits => ?_
  obtain ⟨t', ht', hlate, -⟩ := probeDue_eq_false_iff.mp hwaits
  cases ht.symm.trans ht'
  omega

/-- **Whatever is stored**, the gate is to be probed at some instant within that time. -/
lemma exists_probeDue (state : GateRow) (start : ℤ) :
    ∃ now, start ≤ now ∧ now ≤ start + seconds maxReprobeSeconds ∧ probeDue state now := by
  have hlater : start ≤ start + seconds maxReprobeSeconds :=
    Int.le_add_of_nonneg_right (by decide)
  cases h : probeDue state start with
  | true => exact ⟨start, le_rfl, hlater, h⟩
  | false => exact ⟨_, hlater, le_rfl, probeDue_later h le_rfl⟩

lemma reprobeSeconds_pos (failures : ℤ) :
    0 < reprobeSeconds failures ∧ reprobeSeconds failures ≤ maxReprobeSeconds := by
  refine ⟨lt_min (by decide) ?_, min_le_left _ _⟩
  exact Int.mul_pos (by decide) (Int.pow_pos (by decide))

/-- What a publication stores is at most that far ahead of the clock it has read. -/
lemma probeDue_outcomeRow (failureCount : ℤ) (remediation : Option String) {completed now : ℤ}
    (h : completed + seconds maxReprobeSeconds ≤ now) :
    probeDue (outcomeRow failureCount remediation completed) now := by
  refine Bool.eq_true_of_not_eq_false fun hwaits => ?_
  obtain ⟨t, ht, hlate, -⟩ := probeDue_eq_false_iff.mp hwaits
  cases ht
  have hbound : seconds (if remedied remediation then reprobeSeconds (if remedied remediation then
      failureCount + 1 else 0) else maxReprobeSeconds) ≤ seconds maxReprobeSeconds := by
    refine Int.mul_le_mul_of_nonneg_right ?_ (by decide)
    split
    · exact (reprobeSeconds_pos _).2
    · exact le_rfl
  omega

/-! ### Refusals -/

/-- **A refusal stands** in what follows it: every publication is of a probe that started after
it, the row is ready only when one of them made it so, and until then nothing is dispatched. -/
structure RefusalStands (pid : ℕ) (w : GateWorld τ) (as : List (GateAct τ)) (w' : GateWorld τ) :
    Prop where
  publications : ∀ before u after, as = before ++ .publish u :: after → ProbedSince u before
  reopened : (snapshot w'.row).status = .ready → ∃ before u after v,
    as = before ++ .publish u :: after ∧ ProbedSince u before ∧
      run (gateStep pid) w (before ++ [.publish u]) = some v ∧
      (snapshot v.row).status = .ready
  closed : (∀ before u after v, as = before ++ .publish u :: after → ProbedSince u before →
      run (gateStep pid) w (before ++ [.publish u]) = some v →
      (snapshot v.row).status ≠ .ready) →
    ∀ readyPid now, dispatchReady readyPid pid (snapshot w'.row) now = false

/-- **The gate is probed again in time**, whatever next probe is stored: within
`MAX_REPROBE_SECONDS` of any instant there is one at which a `check` goes for the probe, both
times it decides; who waits, waits no longer; and what a publication stores is due by then. -/
structure ReprobedInTime (pid : ℕ) (w : GateWorld τ) : Prop where
  first : ∀ t state, w.stage t = .seen state → ∀ start, ∃ now w', start ≤ now ∧
    now ≤ start + seconds maxReprobeSeconds ∧
    gateStep pid w (.decideFirst t now) = some w' ∧ w'.stage t = .decided
  again : ∀ t state, w.stage t = .reread state → ∀ start, ∃ now w', start ≤ now ∧
    now ≤ start + seconds maxReprobeSeconds ∧
    gateStep pid w (.decideAgain t now) = some w' ∧ w'.stage t = .clear state.failureCount
  waits : ∀ now later, probeDue (snapshot w.row) now = false →
    now + seconds maxReprobeSeconds ≤ later → probeDue (snapshot w.row) later = true
  stored : ∀ failureCount remediation completed now,
    w.row = some (outcomeRow failureCount remediation completed) →
    completed + seconds maxReprobeSeconds ≤ now → probeDue (snapshot w.row) now = true

lemma wantsProbe_of_probeDue {readyPid : Option ℕ} {state : GateRow} {now : ℤ}
    (h : probeDue state now) : wantsProbe readyPid pid state now := by
  rw [wantsProbe, h, Bool.or_true]

lemma reprobedInTime (pid : ℕ) (w : GateWorld τ) : ReprobedInTime pid w where
  first t state hstage start := by
    obtain ⟨now, hstart, hend, hdue⟩ := exists_probeDue state start
    refine ⟨now, w.move t .decided, hstart, hend, ?_, Function.update_self _ _ _⟩
    simp [gateStep, hstage, wantsProbe_of_probeDue hdue]
  again t state hstage start := by
    obtain ⟨now, hstart, hend, hdue⟩ := exists_probeDue state start
    refine ⟨now, w.move t (.clear state.failureCount), hstart, hend, ?_,
      Function.update_self _ _ _⟩
    simp [gateStep, hstage, wantsProbe_of_probeDue hdue]
  waits _ _ h hlater := probeDue_later h hlater
  stored failureCount remediation completed now hrow h := by
    rw [hrow]
    exact probeDue_outcomeRow failureCount remediation h

/-- **An older probe never overrides a refusal**: when an `invalidate` has committed, after any
steps of any threads, it stands in all that follows; and the gate is always probed again in
time. -/
theorem refusal_stands {w₀ : GateWorld τ} (hlock : LockHeld w₀)
    (hrun : run (gateStep pid) w₀ as = some w₁)
    (hcommit : gateStep pid w₁ (.commitRefusal t) = some w₂)
    (hafter : run (gateStep pid) w₂ bs = some w₃) :
    RefusalStands pid w₂ bs w₃ ∧ ReprobedInTime pid w₃ := by
  obtain ⟨hblocked, hfresh⟩ := refused_of_commit (lockHeld_run hlock hrun) hcommit
  have hclosed : (snapshot w₂.row).status ≠ .ready := by
    rw [hblocked]
    decide
  have hprobed : ∀ before u after, bs = before ++ .publish u :: after → ProbedSince u before := by
    rintro before u after rfl
    obtain ⟨v, hv, hrest⟩ := run_append.mp hafter
    obtain ⟨v', hpublish, -⟩ := run_cons_eq_some.mp hrest
    exact probed_of_run hfresh hv (afterProbe_of_publish hpublish)
  refine ⟨⟨hprobed, fun hready => ?_, fun hnone readyPid now => ?_⟩, reprobedInTime pid w₃⟩
  · obtain ⟨before, u, after, v, hbs, hv, hopen⟩ := published_of_ready hclosed hafter hready
    exact ⟨before, u, after, v, hbs, hprobed before u after hbs, hv, hopen⟩
  · have hstatus : (snapshot w₃.row).status ≠ .ready := by
      intro hready
      obtain ⟨before, u, after, v, hbs, hv, hopen⟩ := published_of_ready hclosed hafter hready
      exact hnone before u after v hbs (hprobed before u after hbs) hv hopen
    simp [dispatchReady, hstatus]

/-- A `check` of a thread, from its first read to its publication. -/
def probeSteps (t : ℕ) (now : ℤ) : List (GateAct ℕ) :=
  [.readFirst t, .decideFirst t now, .tryLock t, .readAgain t, .decideAgain t now, .startProbe t,
    .endProbe t none now, .publish t]

/-- One thread opens the gate, another is refused, and a third opens it again. -/
theorem refusal_stands_reopened : ∃ w₂ w₃, RefusalStands 1 w₂ (probeSteps 2 300) w₃ ∧
    ReprobedInTime 1 w₃ ∧ (snapshot w₂.row).status = .blocked ∧
    (snapshot w₃.row).status = .ready := by
  have hlock : LockHeld (⟨none, none, none, fun _ => .idle⟩ : GateWorld ℕ) := by
    intro t
    simp [GateStage.holds]
  have hrun : run (gateStep 1) ⟨none, none, none, fun _ => .idle⟩ (probeSteps 0 100 ++
      [.finish 0, .refuse 1 200, .setFlag 0, .awaitLock 1]) = some _ := rfl
  have hresult : RefusalStands 1 _ (probeSteps 2 300) _ ∧ ReprobedInTime 1 _ :=
    refusal_stands hlock hrun (t := 1) rfl rfl
  exact ⟨_, _, hresult.1, hresult.2, rfl, rfl⟩

end Frostvault.Preflight
