import Mathlib.Algebra.Order.Group.Nat
import Frostvault.Lib.Runs
import Frostvault.Notifications.Problems

/-!
Problems of unreadable files, and when they are resolved (`report_problem`,
`reconcile_problem_states`, `record_component_health`, `ArchiveCatalog.observe_local_copy`).

A scan or a watcher batch reports a path it cannot read, the catalog keeps the time of the last
observation of each path, and the health of the source keeps that of the last complete scan.
Reading the inbox resolves an open problem when one of the two is newer than the row.  The row
keeps the time of the first report of the episode, so a file that was read once in between and
is unreadable again has evidence that is too old, but newer than its row.

* `Inbox`, `inboxStep`: the tables, and reports, observations, scans and readings of the inbox;
* `RecoveredSince`: a recovery after the most recent report, in the history alone;
* `Attentive`: no report finds its problem open with evidence newer than the row, and no
  observation is of another path with the same text;
* `file_unreadable_resolved_only_after_recovery`: **under that condition a problem is resolved
  only after a recovery**.
-/

namespace Frostvault

open Runs

/-! ### The tables -/

/-- The row `vault_component_health` has for the source. -/
structure SourceHealth where
  lastSuccessAt : Option ℕ
  lastError : Option (List Char)
deriving DecidableEq, Repr

/-- What the inbox of one Vault is computed from.  `problems` has the `file_unreadable` rows by
the path of their key, `observedAt` the column of the local copy whose current path is a text;
`clock` is the last time anything read. -/
structure Inbox where
  problems : PosixName → Option Notification
  observedAt : List Char → Option ℕ
  source : Option SourceHealth
  clock : ℕ

/-- What happens to them, each with the times it reads. -/
inductive InboxEvent
  | report (path : PosixName) (stamp created : ℕ)
  | observe (text : List Char) (stamp : ℕ)
  | scanned (ok : Bool) (error : Option (List Char)) (stamp : ℕ)
  | reconcile (stamp : ℕ)
deriving DecidableEq, Repr

/-- `error or "unknown error"`. -/
def errorText (error : Option (List Char)) : List Char :=
  match error with
  | some (c :: text) => c :: text
  | _ => "unknown error".toList

/-- `record_component_health` on the row of the source. -/
def recordSourceHealth (ok : Bool) (error : Option (List Char)) (stamp : ℕ)
    (existing : Option SourceHealth) : SourceHealth where
  lastSuccessAt := if ok then some stamp else existing.bind (·.lastSuccessAt)
  lastError := if ok then none else some (errorText error)

/-- The two `EXISTS` of `reconcile_problem_states` for `file_unreadable`. -/
def Inbox.provesReadable (s : Inbox) (n : Notification) : Bool :=
  (s.source.any fun h => h.lastError.isNone && h.lastSuccessAt.any fun t => n.createdAt < t) ||
    (s.observedAt n.path).any fun t => n.createdAt < t

/-- The row after `reconcile_problem_states`. -/
def Inbox.reconciled (s : Inbox) (stamp : ℕ) (n : Notification) : Notification :=
  if n.isOpen && s.provesReadable n then n.resolve stamp else n

/-- One event, at times that are not before the last one. -/
def inboxStep (s : Inbox) : InboxEvent → Option Inbox
  | .report path stamp created => do
      guard (s.clock ≤ stamp ∧ stamp ≤ created)
      let row := setProblem (displayPath path) stamp created (s.problems path)
      return { s with problems := Function.update s.problems path (some row), clock := created }
  | .observe text stamp => do
      guard (s.clock ≤ stamp)
      let observedAt := Function.update s.observedAt text (some stamp)
      return { s with observedAt := observedAt, clock := stamp }
  | .scanned ok error stamp => do
      guard (s.clock ≤ stamp)
      return { s with source := some (recordSourceHealth ok error stamp s.source), clock := stamp }
  | .reconcile stamp => do
      guard (s.clock ≤ stamp)
      return { s with problems := fun path => (s.problems path).map (s.reconciled stamp),
                      clock := stamp }

/-- The problem of the path is open. -/
def Inbox.IsOpen (s : Inbox) (path : PosixName) : Prop :=
  ∃ n, s.problems path = some n ∧ n.isOpen

/-- Reading the inbox would resolve the problem of the path. -/
def Inbox.Resolvable (s : Inbox) (path : PosixName) : Prop :=
  ∃ n, s.problems path = some n ∧ n.isOpen ∧ s.provesReadable n

instance (s : Inbox) (path : PosixName) : Decidable (s.IsOpen path) :=
  decidable_of_iff ((s.problems path).any (·.isOpen) = true)
    (by simp [Inbox.IsOpen, Option.any_eq_true])

/-! ### What the history says -/

/-- The event reports the path. -/
def InboxEvent.Reports (path : PosixName) : InboxEvent → Prop
  | .report q _ _ => q = path
  | _ => False

/-- The event is a successful observation of the path or a successful complete scan. -/
def InboxEvent.Recovers (path : PosixName) : InboxEvent → Prop
  | .observe text _ => .ofText text = path
  | .scanned ok _ _ => ok
  | _ => False

/-- **A recovery of the path after its most recent report.** -/
def RecoveredSince (path : PosixName) (as : List InboxEvent) : Prop :=
  ∃ bs e cs, as = bs ++ e :: cs ∧ e.Recovers path ∧ ∀ r ∈ cs, ¬r.Reports path

variable {as : List InboxEvent} {e : InboxEvent} {n : Notification} {path : PosixName}
  {s s' : Inbox}

lemma recoveredSince_of_recovers (h : e.Recovers path) : RecoveredSince path (as ++ [e]) :=
  ⟨as, e, [], rfl, h, by simp⟩

/-- What is recovered stays so until the next report. -/
lemma RecoveredSince.snoc (h : RecoveredSince path as) (he : ¬e.Reports path) :
    RecoveredSince path (as ++ [e]) := by
  obtain ⟨bs, x, cs, rfl, hx, hcs⟩ := h
  refine ⟨bs, x, cs ++ [e], by simp, hx, fun r hr => ?_⟩
  rcases List.mem_append.mp hr with hr | hr
  · exact hcs r hr
  · obtain rfl : r = e := by simpa using hr
    exact he

/-- A report is not followed by a recovery yet. -/
lemma not_recoveredSince_report (path : PosixName) (as : List InboxEvent) (stamp created : ℕ) :
    ¬RecoveredSince path (as ++ [.report path stamp created]) := by
  rintro ⟨bs, e, cs, hsplit, he, hcs⟩
  rcases List.eq_nil_or_concat cs with rfl | ⟨ds, r, rfl⟩
  · obtain ⟨-, hlast⟩ := List.append_inj' hsplit rfl
    obtain rfl := List.singleton_inj.mp hlast
    exact he
  · have hsplit' : as ++ [.report path stamp created] = (bs ++ e :: ds) ++ [r] := by
      simpa using hsplit
    obtain ⟨-, hlast⟩ := List.append_inj' hsplit' rfl
    obtain rfl := List.singleton_inj.mp hlast
    exact hcs (.report path stamp created) (by simp) rfl

/-! ### The condition -/

/-- **What a run has to meet.**  A report does not find its problem still open with evidence
newer than its row.  An observation is not read as one of another path that has the same text
and an open, older problem. -/
def Attentive (s : Inbox) : InboxEvent → Prop
  | .report path _ _ => ¬s.Resolvable path
  | .observe text stamp => ∀ path n, s.problems path = some n → n.isOpen → n.path = text →
      n.createdAt < stamp → .ofText text = path ∨ s.provesReadable n
  | _ => True

/-! ### What holds in every run -/

/-- Times already written are not in the future, and a row is the row of its path. -/
structure Inbox.Sound (s : Inbox) : Prop where
  observed : ∀ text t, s.observedAt text = some t → t ≤ s.clock
  scanned : ∀ h t, s.source = some h → h.lastSuccessAt = some t → t ≤ s.clock
  path : ∀ path n, s.problems path = some n → n.path = displayPath path
  status : ∀ path n, s.problems path = some n → n.problemStatus.isSome

/-- Before any report: no problem yet, whatever was observed and scanned. -/
structure Inbox.Fresh (s : Inbox) : Prop where
  problems : ∀ path, s.problems path = none
  observed : ∀ text t, s.observedAt text = some t → t ≤ s.clock
  scanned : ∀ h t, s.source = some h → h.lastSuccessAt = some t → t ≤ s.clock

lemma Inbox.Fresh.sound (h : s.Fresh) : s.Sound where
  observed := h.observed
  scanned := h.scanned
  path path n hn := by simp [h.problems path] at hn
  status path n hn := by simp [h.problems path] at hn

lemma provesReadable_iff : s.provesReadable n ↔
    (∃ h t, s.source = some h ∧ h.lastError = none ∧ h.lastSuccessAt = some t ∧
      n.createdAt < t) ∨ ∃ t, s.observedAt n.path = some t ∧ n.createdAt < t := by
  simp [Inbox.provesReadable, Option.any_eq_true]

/-- A row as new as the clock has no newer evidence. -/
lemma Inbox.Sound.not_provesReadable (hs : s.Sound) (h : s.clock ≤ n.createdAt) :
    ¬s.provesReadable n := by
  rw [provesReadable_iff]
  rintro (⟨x, t, hx, -, ht, hlt⟩ | ⟨t, ht, hlt⟩)
  · have := hs.scanned x t hx ht
    omega
  · have := hs.observed _ t ht
    omega

lemma provesReadable_congr {n' : Notification} (hsource : s'.source = s.source)
    (hobserved : s'.observedAt = s.observedAt) (hpath : n'.path = n.path)
    (hcreated : n'.createdAt = n.createdAt) : s'.provesReadable n' = s.provesReadable n := by
  simp only [Inbox.provesReadable, hsource, hobserved, hpath, hcreated]

/-- A failed scan is evidence for nothing, a successful one for every path. -/
lemma provesReadable_of_failed {error : Option (List Char)} {stamp : ℕ} (h : Inbox.provesReadable
      { s with source := some (recordSourceHealth false error stamp s.source), clock := stamp }
      n) : s.provesReadable n := by
  rw [provesReadable_iff] at h ⊢
  rcases h with ⟨x, t, hx, herror, -, -⟩ | h
  · cases hx
    simp [recordSourceHealth] at herror
  · exact .inr h

lemma provesReadable_of_observed_ne {text : List Char} {stamp : ℕ} (hne : n.path ≠ text)
    (h : Inbox.provesReadable
      { s with observedAt := Function.update s.observedAt text (some stamp), clock := stamp }
      n) : s.provesReadable n := by
  rw [provesReadable_iff] at h ⊢
  simpa [Function.update_of_ne hne] using h

/-- The status of a row that is not open was set by a resolution. -/
lemma Inbox.Sound.resolved_of_not_open (hs : s.Sound) (hn : s.problems path = some n)
    (h : n.isOpen = false) :
    n.problemStatus = some .resolved := by
  have hstatus := hs.status path n hn
  cases hp : n.problemStatus with
  | none => simp [hp] at hstatus
  | some status =>
      cases status with
      | «open» => simp [Notification.isOpen, hp] at h
      | resolved => rfl

/-! ### One event -/

/-- An event leads to these tables, at a time that is not before the clock. -/
inductive Occurred (s : Inbox) : InboxEvent → Inbox → Prop
  | report {path : PosixName} {stamp created : ℕ} (hclock : s.clock ≤ stamp)
      (hcreated : stamp ≤ created) : Occurred s (.report path stamp created)
        { s with
          problems := Function.update s.problems path
            (some (setProblem (displayPath path) stamp created (s.problems path)))
          clock := created }
  | observe {text : List Char} {stamp : ℕ} (hclock : s.clock ≤ stamp) :
      Occurred s (.observe text stamp)
        { s with observedAt := Function.update s.observedAt text (some stamp), clock := stamp }
  | scanned {ok : Bool} {error : Option (List Char)} {stamp : ℕ} (hclock : s.clock ≤ stamp) :
      Occurred s (.scanned ok error stamp)
        { s with source := some (recordSourceHealth ok error stamp s.source), clock := stamp }
  | reconcile {stamp : ℕ} (hclock : s.clock ≤ stamp) : Occurred s (.reconcile stamp)
        { s with problems := fun path => (s.problems path).map (s.reconciled stamp),
                 clock := stamp }

lemma occurred_of_inboxStep (h : inboxStep s e = some s') :
    Occurred s e s' := by
  cases e with
  | report path stamp created =>
      obtain ⟨⟨hclock, hcreated⟩, rfl⟩ := checked_eq_some.mp h
      exact .report hclock hcreated
  | observe text stamp =>
      obtain ⟨hclock, rfl⟩ := checked_eq_some.mp h
      exact .observe hclock
  | scanned ok error stamp =>
      obtain ⟨hclock, rfl⟩ := checked_eq_some.mp h
      exact .scanned hclock
  | reconcile stamp =>
      obtain ⟨hclock, rfl⟩ := checked_eq_some.mp h
      exact .reconcile hclock

lemma reconciled_row (s : Inbox) (stamp : ℕ) (n : Notification) :
    (s.reconciled stamp n).path = n.path ∧ (s.reconciled stamp n).createdAt = n.createdAt := by
  unfold Inbox.reconciled
  split <;> exact ⟨rfl, rfl⟩

lemma reconciled_open {stamp : ℕ} (h : (s.reconciled stamp n).isOpen) :
    n.isOpen ∧ ¬s.provesReadable n := by
  unfold Inbox.reconciled at h
  split at h
  · cases h
  · rename_i hcond
    exact ⟨h, fun hproof => hcond (by rw [h, hproof]; rfl)⟩

/-- Every event keeps the tables sound. -/
lemma Inbox.Sound.step (hs : s.Sound) (h : Occurred s e s') :
    s'.Sound := by
  cases h with
  | @report path stamp created hclock hcreated =>
      refine ⟨fun text t ht => ?_, fun x t hx ht => ?_, fun q n hn => ?_, fun q n hn => ?_⟩
      · exact (hs.observed text t ht).trans (hclock.trans hcreated)
      · exact (hs.scanned x t hx ht).trans (hclock.trans hcreated)
      · by_cases hq : q = path
        · subst hq
          cases (Function.update_self q _ _).symm.trans hn
          rfl
        · exact hs.path q n ((Function.update_of_ne hq _ _).symm.trans hn)
      · by_cases hq : q = path
        · subst hq
          cases (Function.update_self q _ _).symm.trans hn
          rfl
        · exact hs.status q n ((Function.update_of_ne hq _ _).symm.trans hn)
  | @observe text stamp hclock =>
      refine ⟨fun text' t ht => ?_, fun x t hx ht => (hs.scanned x t hx ht).trans hclock,
        hs.path, hs.status⟩
      by_cases htext : text' = text
      · subst htext
        cases (Function.update_self text' _ _).symm.trans ht
        exact le_rfl
      · exact (hs.observed text' t ((Function.update_of_ne htext _ _).symm.trans ht)).trans hclock
  | @scanned ok error stamp hclock =>
      refine ⟨fun text t ht => (hs.observed text t ht).trans hclock, fun x t hx ht => ?_,
        hs.path, hs.status⟩
      cases hx
      cases ok with
      | true =>
          cases ht
          exact le_rfl
      | false =>
          obtain ⟨y, hy, hyt⟩ := Option.bind_eq_some_iff.mp ht
          exact (hs.scanned y t hy hyt).trans hclock
  | @reconcile stamp hclock =>
      refine ⟨fun text t ht => (hs.observed text t ht).trans hclock,
        fun x t hx ht => (hs.scanned x t hx ht).trans hclock, fun q n hn => ?_, fun q n hn => ?_⟩
      · obtain ⟨m, hm, rfl⟩ := Option.map_eq_some_iff.mp hn
        rw [(reconciled_row s stamp m).1]
        exact hs.path q m hm
      · obtain ⟨m, hm, rfl⟩ := Option.map_eq_some_iff.mp hn
        unfold Inbox.reconciled
        split
        · rfl
        · exact hs.status q m hm

/-- **The step.**  An event that meets the condition makes only such problems resolvable whose
paths were recovered since their most recent report. -/
lemma recoveredSince_step (hs : s.Sound) (hG : Attentive s e) (h : Occurred s e s')
    (hI : ∀ path, s.Resolvable path → RecoveredSince path as) (path : PosixName)
    (hpath : s'.Resolvable path) : RecoveredSince path (as ++ [e]) := by
  obtain ⟨n, hn, hopen, hproof⟩ := hpath
  cases h with
  | @report q stamp created hclock hcreated =>
      by_cases hq : path = q
      · -- its own row: open before, the evidence would have been stale; else it is new
        subst hq
        cases (Function.update_self path _ _).symm.trans hn
        by_cases hprevious : s.IsOpen path
        · obtain ⟨m, hm, hmopen⟩ := hprevious
          refine absurd ⟨m, hm, hmopen, ?_⟩ hG
          rw [hm] at hproof
          rw [← hproof]
          exact (provesReadable_congr rfl rfl (by simp [hs.path path m hm])
            (setProblem_createdAt_of_isOpen hmopen)).symm
        · refine absurd ((provesReadable_congr rfl rfl rfl rfl).symm.trans hproof) ?_
          refine hs.not_provesReadable (hclock.trans (le_setProblem_createdAt hcreated ?_))
          intro m hm
          refine hs.resolved_of_not_open hm ?_
          by_contra hmopen
          exact hprevious ⟨m, hm, by simpa using hmopen⟩
      · have hn' : s.problems path = some n := (Function.update_of_ne hq _ _).symm.trans hn
        refine (hI path ⟨n, hn', hopen, ?_⟩).snoc fun hreports => hq hreports.symm
        rw [← hproof]
        exact provesReadable_congr rfl rfl rfl rfl
  | @observe text stamp hclock =>
      by_cases hown : .ofText text = path
      · exact recoveredSince_of_recovers hown
      · refine (hI path ⟨n, hn, hopen, ?_⟩).snoc (fun h => h)
        by_cases htext : n.path = text
        · rcases provesReadable_iff.mp hproof with hscan | ⟨t, ht, hlt⟩
          · exact provesReadable_iff.mpr (.inl hscan)
          · rw [htext] at ht
            cases (Function.update_self text _ _).symm.trans ht
            exact (hG path n hn hopen htext hlt).resolve_left hown
        · exact provesReadable_of_observed_ne htext hproof
  | @scanned ok error stamp hclock =>
      cases ok with
      | true => exact recoveredSince_of_recovers rfl
      | false =>
          exact (hI path ⟨n, hn, hopen, provesReadable_of_failed hproof⟩).snoc (fun h => h)
  | @reconcile stamp hclock =>
      obtain ⟨m, hm, rfl⟩ := Option.map_eq_some_iff.mp hn
      refine absurd ?_ (reconciled_open hopen).2
      rw [← hproof]
      exact (provesReadable_congr rfl rfl (reconciled_row s stamp m).1
        (reconciled_row s stamp m).2).symm

/-! ### Runs -/

/-- After a run that meets the condition the tables are sound, and a problem that reading the
inbox would resolve is one whose path was recovered since its most recent report. -/
lemma recoveredSince_of_run {s₀ : Inbox} (h₀ : s₀.Fresh) (hG : Along inboxStep Attentive s₀ as)
    (h : run inboxStep s₀ as = some s) :
    s.Sound ∧ ∀ path, s.Resolvable path → RecoveredSince path as := by
  refine run_induction_history
    (I := fun as s => s.Sound ∧ ∀ path, s.Resolvable path → RecoveredSince path as)
    ?_ ⟨h₀.sound, ?_⟩ hG h
  · rintro as s e s' ⟨hs, hI⟩ hstep hs'
    have hoccurred := occurred_of_inboxStep hs'
    exact ⟨hs.step hoccurred, recoveredSince_step hs hstep hoccurred hI⟩
  · rintro path ⟨n, hn, -, -⟩
    simp [h₀.problems path] at hn

/-- Reading the inbox resolves what is resolvable and nothing else. -/
lemma resolvable_of_reconcile {stamp : ℕ} (h : inboxStep s (.reconcile stamp) = some s')
    (hopen : s.IsOpen path) (hresolved : ¬s'.IsOpen path) : s.Resolvable path := by
  obtain ⟨n, hn, hnopen⟩ := hopen
  refine ⟨n, hn, hnopen, ?_⟩
  cases occurred_of_inboxStep h
  by_contra hproof
  refine hresolved ⟨n, ?_, hnopen⟩
  simp [hn, Inbox.reconciled, hproof]

/-- **A problem is resolved only after a recovery.**  In every run that meets the condition,
reading the inbox resolves the problem of a path only if the path was observed, or a complete
scan succeeded, after the most recent report of the path. -/
theorem file_unreadable_resolved_only_after_recovery {s₀ t t' : Inbox} {as : List InboxEvent}
    (h₀ : s₀.Fresh) (hG : Along inboxStep Attentive s₀ as) {bs cs : List InboxEvent} {stamp : ℕ}
    (has : as = bs ++ .reconcile stamp :: cs) (ht : run inboxStep s₀ bs = some t)
    (ht' : inboxStep t (.reconcile stamp) = some t') {path : PosixName} (hopen : t.IsOpen path)
    (hresolved : ¬t'.IsOpen path) :
    RecoveredSince path bs := by
  have hfirst : Along inboxStep Attentive s₀ bs := (has ▸ hG).of_append
  exact (recoveredSince_of_run h₀ hfirst ht).2 path (resolvable_of_reconcile ht' hopen hresolved)

/-- No report yet, nothing observed, and no scan. -/
def Inbox.blank : Inbox where
  problems := fun _ => none
  observedAt := fun _ => none
  source := none
  clock := 0

lemma Inbox.fresh_blank : Inbox.blank.Fresh where
  problems _ := rfl
  observed _ t ht := by simp [Inbox.blank] at ht
  scanned h t hh _ := by simp [Inbox.blank] at hh

/-- The path `a`. -/
def pathA : PosixName := .ofText ['a']

/-- The path is reported and then read. -/
def recoveredRun : List InboxEvent := [.report pathA 1 1, .observe ['a'] 2]

/-- The run meets the condition: the only problem is that of the path itself. -/
lemma along_recoveredRun :
    Along inboxStep Attentive Inbox.blank (recoveredRun ++ [.reconcile 3]) := by
  refine ⟨?_, fun s₁ h₁ => ⟨?_, fun s₂ _ => ⟨trivial, fun _ _ => trivial⟩⟩⟩
  · rintro ⟨n, hn, -⟩
    simp [Inbox.blank] at hn
  · cases h₁
    intro path n hn _ _ _
    by_cases hpath : path = pathA
    · exact .inl hpath.symm
    · have hnone : none = some n := (Function.update_of_ne hpath _ _).symm.trans hn
      cases hnone

/-- The problem of a path that was read after its report. -/
theorem file_unreadable_resolved_only_after_recovery_observed :
    RecoveredSince pathA recoveredRun :=
  file_unreadable_resolved_only_after_recovery Inbox.fresh_blank along_recoveredRun rfl rfl rfl
    (by decide) (by decide)

/-! ### The failing runs -/

/-- The path is reported, read, and reported again while its problem is still open. -/
def staleRun : List InboxEvent :=
  [.report pathA 1 1, .observe ['a'] 2, .report pathA 3 3]

/-- The problem is resolved although the last that happened was a report. -/
theorem reconcile_hides_unreadable_file : ¬∀ (s₀ t t' : Inbox) (bs : List InboxEvent)
    (stamp : ℕ) (path : PosixName), s₀.Fresh → run inboxStep s₀ bs = some t →
    inboxStep t (.reconcile stamp) = some t' → t.IsOpen path → ¬t'.IsOpen path →
    RecoveredSince path bs := by
  intro hall
  have hrecovered := hall Inbox.blank _ _ staleRun 4 pathA Inbox.fresh_blank rfl rfl
    (by decide) (by decide)
  exact not_recoveredSince_report pathA [.report pathA 1 1, .observe ['a'] 2] 3 3 hrecovered

end Frostvault
