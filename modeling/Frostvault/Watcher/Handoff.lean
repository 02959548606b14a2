import Frostvault.Lib.Observers
import Frostvault.Lib.Runs

/-!
The handoff of the filesystem watcher (`_watch_vault_filesystem` and `_new_watcher_directories`
in `storage.py`, native mode).

One observer is live.  When a batch reports new directories, a successor registers before the old
observer is drained for the last time.  A directory that came to be meanwhile may be unknown to
the successor, so the loop hands over once more before it applies the batch, unless every addition
of the handoff is one of the `new_directories` it started from.

That last comparison is one of path names.  A directory that started the handoff may be removed
and made again after the successor registered and before its first yield: the path is not new,
the batch is applied, and the live observer does not watch the directory.

* `Loop`, `work`: the loop, one await after the other; `step` interleaves it with operations on
  the directories;
* `Lossless`: nothing is lost when a batch is applied;
* `Distinguished`: no directory the successor missed is hidden by the comparison;
* `Loop.Sound`: the invariant, with what each phase knows of its observers;
* `handoff_loses_nothing`: **no change is lost in a run whose comparisons hide nothing**;
* `handoff_loses_a_directory`: a directory made again during a handoff is lost.

Names are those the watch filter lets through.
-/

namespace Frostvault

open List Observers

variable {ν : Type*}

/-! ### The loop -/

/-- Where the loop is.  `newDirectories` is what started the handoff, `successor` the observer
that takes over, `first` what it yielded first, `tail` the last batch of the old observer. -/
inductive Handoff (ν : Type*)
  | waiting
  | listing (nativeChanges : List (Event ν))
  | opening (newDirectories : List (Event ν))
  | registered (newDirectories : List (Event ν)) (successor : Observer ν)
  | yielded (newDirectories first : List (Event ν)) (successor : Observer ν)
  | checking (newDirectories first tail : List (Event ν))
  | reconciling

/-- The loop and the directories it watches; `changes` is everything that happened since the first
observer registered, and `applied` has every applied batch with the number of changes before. -/
structure Loop (ν : Type*) where
  tree : Observers.Tree ν
  watcher : Observer ν
  pendingReconcile : List (Event ν)
  rearmRequired : Bool
  phase : Handoff ν
  changes : List (Event ν)
  applied : List (List (Event ν) × ℕ)

/-- The first observer has registered. -/
def Loop.start (t : Observers.Tree ν) : Loop ν where
  tree := t
  watcher := register t
  pendingReconcile := []
  rearmRequired := false
  phase := .waiting
  changes := []
  applied := []

section Work

variable [DecidableEq ν]

/-- `_new_watcher_directories`: the additions of what is a directory now. -/
def newWatcherDirectories (t : Observers.Tree ν) (changes : List (Event ν)) : List (Event ν) :=
  changes.filter fun ev => ev.kind = .added ∧ t.IsDir ev.path

/-- One await of the loop. -/
def Loop.work (s : Loop ν) : Loop ν :=
  match s.phase with
  | .waiting =>
      if s.rearmRequired then { s with phase := .opening [] }
      else
        { s with
          watcher := s.watcher.drain
          pendingReconcile := s.pendingReconcile ++ s.watcher.queue
          phase := .listing s.watcher.queue }
  | .listing nativeChanges =>
      let newDirectories := newWatcherDirectories s.tree nativeChanges
      if newDirectories = [] then { s with phase := .reconciling }
      else { s with phase := .opening newDirectories }
  | .opening newDirectories =>
      { s with phase := .registered newDirectories (register s.tree) }
  | .registered newDirectories successor =>
      { s with
        pendingReconcile := s.pendingReconcile ++ successor.queue
        phase := .yielded newDirectories successor.queue successor.drain }
  | .yielded newDirectories first successor =>
      { s with
        watcher := successor
        pendingReconcile := s.pendingReconcile ++ s.watcher.queue
        phase := .checking newDirectories first s.watcher.queue }
  | .checking newDirectories first tail =>
      let additions := newWatcherDirectories s.tree (first ++ tail)
      { s with
        rearmRequired := additions.any fun ev => ev ∉ newDirectories
        phase := .reconciling }
  | .reconciling =>
      if s.pendingReconcile ≠ [] ∧ s.rearmRequired = false then
        { s with
          applied := s.applied ++ [(s.pendingReconcile, s.changes.length)]
          pendingReconcile := []
          phase := .waiting }
      else { s with phase := .waiting }

/-- The successor sees what happens once it has registered. -/
def Handoff.see (p : Handoff ν) (evs : List (ℕ × Event ν)) : Handoff ν :=
  match p with
  | .registered newDirectories successor => .registered newDirectories (successor.see evs)
  | .yielded newDirectories first successor => .yielded newDirectories first (successor.see evs)
  | p => p

/-- Something happened in the directories: every registered observer sees it. -/
def Loop.happened (s : Loop ν) (t : Observers.Tree ν) (evs : List (ℕ × Event ν)) : Loop ν :=
  { s with
    tree := t
    watcher := s.watcher.see evs
    phase := s.phase.see evs
    changes := s.changes ++ evs.map Prod.snd }

/-- The loop goes on, or somebody does something in the directories. -/
inductive WatchAct (ν : Type*)
  | work
  | change (op : Op ν)
deriving Repr

/-- One step of the loop or of the others. -/
def Loop.step (s : Loop ν) : WatchAct ν → Option (Loop ν)
  | .work => some s.work
  | .change op => (s.tree.perform op).map fun r => s.happened r.1 r.2

end Work

/-! ### Nothing is lost -/

/-- `_apply_watcher_changes` is about to be called. -/
def Loop.Applying (s : Loop ν) : Prop :=
  s.phase = .reconciling ∧ s.pendingReconcile ≠ [] ∧ s.rearmRequired = false

/-- A change is in a batch, or the batch walks a directory above it. -/
def Accounted (batch : List (Event ν)) (ev : Event ν) : Prop := ev ∈ batch ∨ Announced batch ev.path

/-- **Nothing is lost**: every change so far is accounted for by a batch applied after it, by the
batch applied now, or by what the live observer has queued; and every directory there is whose
addition, or the addition of one above it, is in this batch and is not queued is the directory
that was there when the live observer registered. -/
structure Lossless (s : Loop ν) : Prop where
  changes : ∀ i ev, s.changes[i]? = some ev →
    (∃ b ∈ s.applied ++ [(s.pendingReconcile, s.changes.length)], i < b.2 ∧ Accounted b.1 ev) ∨
      Accounted s.watcher.queue ev
  directories : ∀ e ∈ s.tree.dirs, Announced s.pendingReconcile e.1 →
    ¬ Announced s.watcher.queue e.1 → e.2 ∈ s.watcher.watched

section Run

variable [DecidableEq ν]

/-- When a handoff is checked, every directory the successor does not watch lies at or below a
path whose addition is still queued, or was yielded first and did not start the handoff. -/
def Handoff.Distinguished (p : Handoff ν) (t : Observers.Tree ν) (watcher : Observer ν) : Prop :=
  match p with
  | .checking newDirectories first _ =>
      ∀ e ∈ t.dirs, e.2 ∈ watcher.watched ∨
        Announced ((first.filter fun ev => ev ∉ newDirectories) ++ watcher.queue) e.1
  | _ => True

/-- The comparison of a handoff hides no directory the successor missed. -/
def Distinguished (s : Loop ν) : WatchAct ν → Prop
  | .work => s.phase.Distinguished s.tree s.watcher
  | .change _ => True

instance Handoff.decidableDistinguished (t : Observers.Tree ν) (watcher : Observer ν) :
    ∀ p : Handoff ν, Decidable (p.Distinguished t watcher)
  | .checking newDirectories first _ =>
      inferInstanceAs (Decidable (∀ e ∈ t.dirs, e.2 ∈ watcher.watched ∨
        Announced ((first.filter fun ev => ev ∉ newDirectories) ++ watcher.queue) e.1))
  | .waiting | .listing _ | .opening _ | .registered _ _ | .yielded _ _ _ | .reconciling =>
      isTrue trivial

instance decidableDistinguished (s : Loop ν) : ∀ a, Decidable (Distinguished s a)
  | .work => inferInstanceAs (Decidable (s.phase.Distinguished s.tree s.watcher))
  | .change _ => isTrue trivial

end Run

/-! ### The invariant -/

lemma Accounted.mono {batch batch' : List (Event ν)} {ev : Event ν}
    (hsub : ∀ ev ∈ batch, ev ∈ batch') (h : Accounted batch ev) : Accounted batch' ev :=
  h.imp (hsub ev) (Announced.mono hsub)

lemma Accounted.of_append {batch batch' : List (Event ν)} {ev : Event ν}
    (h : Accounted (batch ++ batch') ev) : Accounted batch ev ∨ Accounted batch' ev := by
  rcases h with hmem | ⟨above, hmem, hadded, hpath⟩
  · exact (mem_append.mp hmem).imp .inl .inl
  · refine (mem_append.mp hmem).imp ?_ ?_
    · exact fun h => .inr ⟨above, h, hadded, hpath⟩
    · exact fun h => .inr ⟨above, h, hadded, hpath⟩

/-- What the loop knows of its observers in each phase. -/
def Loop.Knows (s : Loop ν) : Prop :=
  match s.phase with
  | .waiting => s.rearmRequired = false → s.pendingReconcile = []
  | .listing nativeChanges => s.pendingReconcile = nativeChanges
  | .opening _ => True
  | .registered _ successor => Observers.Covers successor s.tree []
  | .yielded _ first successor =>
      Observers.Covers successor s.tree first ∧ ∀ ev ∈ first, ev ∈ s.pendingReconcile
  | .checking _ first _ => Observers.Covers s.watcher s.tree first
  | .reconciling => s.rearmRequired = false → Observers.Covers s.watcher s.tree []

/-- **The invariant of the loop.**  Every directory is covered by the live observer and the
pending batch, and so is every change that no applied batch accounts for. -/
structure Loop.Sound (s : Loop ν) : Prop where
  covers : Observers.Covers s.watcher s.tree s.pendingReconcile
  heard : ∀ i ev, s.changes[i]? = some ev →
    (∃ b ∈ s.applied, i < b.2 ∧ Accounted b.1 ev) ∨
      Accounted (s.pendingReconcile ++ s.watcher.queue) ev
  knows : s.Knows

lemma Loop.sound_start (t : Observers.Tree ν) : (Loop.start t).Sound where
  covers := covers_register t
  heard := by simp [Loop.start]
  knows := fun _ => rfl

variable {s : Loop ν} {t : Observers.Tree ν}

lemma Loop.Knows.happened (h : s.Knows)
    {evs : List (ℕ × Event ν)} (heff : Effect s.tree t evs) : (s.happened t evs).Knows := by
  obtain ⟨tree, watcher, pendingReconcile, rearmRequired, phase, changes, applied⟩ := s
  cases phase with
  | waiting => exact h
  | listing nativeChanges => exact h
  | opening newDirectories => trivial
  | registered newDirectories successor => exact Observers.Covers.perform h heff
  | yielded newDirectories first successor => exact ⟨h.1.perform heff, h.2⟩
  | checking newDirectories first tail => exact Observers.Covers.perform h heff
  | reconciling => exact fun hrearm => (h hrearm).perform heff

/-- The invariant survives what happens in the directories. -/
lemma Loop.Sound.happened (h : s.Sound)
    {evs : List (ℕ × Event ν)} (heff : Effect s.tree t evs) : (s.happened t evs).Sound where
  covers := h.covers.perform heff
  heard := by
    intro i ev hi
    have hsub := subset_queue_see s.pendingReconcile s.watcher evs
    rcases lt_or_ge i s.changes.length with hlt | hge
    · have hold : s.changes[i]? = some ev := by
        rwa [Loop.happened, getElem?_append_left hlt] at hi
      exact (h.heard i ev hold).imp_right (Accounted.mono hsub)
    · have hnew : ev ∈ evs.map Prod.snd := by
        rw [Loop.happened, getElem?_append_right hge] at hi
        exact mem_of_getElem? hi
      obtain ⟨x, hx, rfl⟩ := mem_map.mp hnew
      right
      exact (h.covers.heard heff hx).imp_left (mem_append_right _)
  knows := h.knows.happened heff

/-- When the invariant holds, the batch that is applied loses nothing. -/
lemma Loop.Sound.lossless (h : s.Sound) (happly : s.Applying) : Lossless s where
  changes := by
    intro i ev hi
    rcases h.heard i ev hi with ⟨b, hb, hlt, hacc⟩ | hacc
    · exact .inl ⟨b, mem_append_left _ hb, hlt, hacc⟩
    · refine hacc.of_append.imp_left fun hbatch => ?_
      have hlt : i < s.changes.length := (List.getElem?_eq_some_iff.mp hi).1
      exact ⟨_, mem_append_right _ (mem_singleton.mpr rfl), hlt, hbatch⟩
  directories := by
    intro e he _ hqueue
    have hknows := h.knows
    rw [Loop.Knows, happly.1] at hknows
    exact (hknows happly.2.2 e he).resolve_right hqueue

/-! ### One await of the loop -/

section Run

variable [DecidableEq ν]

lemma mem_newWatcherDirectories {changes : List (Event ν)} {ev : Event ν} :
    ev ∈ newWatcherDirectories t changes ↔
      ev ∈ changes ∧ ev.kind = .added ∧ t.IsDir ev.path := by
  simp [newWatcherDirectories]

/-- A handoff whose comparison hides nothing ends with every directory covered by the live
observer alone, or with another handoff. -/
lemma covers_of_distinguished {newDirectories first tail : List (Event ν)}
    (hdist : ∀ e ∈ s.tree.dirs, e.2 ∈ s.watcher.watched ∨
      Announced ((first.filter fun ev => ev ∉ newDirectories) ++ s.watcher.queue) e.1)
    (hrearm : ((newWatcherDirectories s.tree (first ++ tail)).any fun ev => ev ∉ newDirectories)
      = false) : Observers.Covers s.watcher s.tree [] := by
  intro e he
  refine (hdist e he).imp_right fun hann => ?_
  obtain ⟨ev, hev, hadded, hpath⟩ := hann
  rcases mem_append.mp hev with hfirst | hqueue
  · -- such an addition would have made the loop hand over again
    obtain ⟨hmem, hnew⟩ := mem_filter.mp hfirst
    have hdir : s.tree.IsDir ev.path := Observers.Tree.isDir_of_below hpath ⟨e, he, rfl⟩
    have hlisted : ev ∈ newWatcherDirectories s.tree (first ++ tail) :=
      mem_newWatcherDirectories.mpr ⟨mem_append_left _ hmem, hadded, hdir⟩
    exact absurd hnew (any_eq_false.mp hrearm ev hlisted)
  · exact ⟨ev, hqueue, hadded, hpath⟩

/-- Without new directories among what was drained, the queue alone covers. -/
lemma covers_of_no_new {o : Observer ν} {nativeChanges : List (Event ν)}
    (h : Observers.Covers o t nativeChanges) (hnone : newWatcherDirectories t nativeChanges = []) :
    Observers.Covers o t [] := by
  intro e he
  refine (h e he).imp_right fun hann => ?_
  obtain ⟨ev, hev, hadded, hpath⟩ := hann
  rcases mem_append.mp hev with hnative | hqueue
  · have hdir : t.IsDir ev.path := Observers.Tree.isDir_of_below hpath ⟨e, he, rfl⟩
    have hlisted := mem_newWatcherDirectories.mpr ⟨hnative, hadded, hdir⟩
    rw [hnone] at hlisted
    exact absurd hlisted (not_mem_nil)
  · exact ⟨ev, hqueue, hadded, hpath⟩

/-- **The invariant survives every await** whose comparison hides nothing. -/
lemma Loop.Sound.work (h : s.Sound) (hdist : Distinguished s .work) :
    s.work.Sound := by
  obtain ⟨tree, watcher, pendingReconcile, rearmRequired, phase, changes, applied⟩ := s
  obtain ⟨hcovers, hheard, hknows⟩ := h
  have hmono : ∀ {batch : List (Event ν)}, (∀ ev ∈ pendingReconcile ++ watcher.queue, ev ∈ batch) →
      ∀ i ev, changes[i]? = some ev →
        (∃ b ∈ applied, i < b.2 ∧ Accounted b.1 ev) ∨ Accounted batch ev :=
    fun hsub i ev hi => (hheard i ev hi).imp_right (Accounted.mono hsub)
  cases phase with
  | waiting =>
      cases rearmRequired with
      | true => exact ⟨hcovers, hheard, trivial⟩
      | false =>
          obtain rfl : pendingReconcile = [] := hknows rfl
          exact ⟨hcovers.drain, hmono fun _ => mem_append_left _, rfl⟩
  | listing nativeChanges =>
      obtain rfl : pendingReconcile = nativeChanges := hknows
      by_cases hnew : newWatcherDirectories tree pendingReconcile = []
      · have hwork : Loop.work ⟨tree, watcher, pendingReconcile, rearmRequired,
            .listing pendingReconcile, changes, applied⟩ = ⟨tree, watcher, pendingReconcile,
              rearmRequired, .reconciling, changes, applied⟩ := if_pos hnew
        rw [hwork]
        exact ⟨hcovers, hheard, fun _ => covers_of_no_new hcovers hnew⟩
      · have hwork : Loop.work ⟨tree, watcher, pendingReconcile, rearmRequired,
            .listing pendingReconcile, changes, applied⟩ = ⟨tree, watcher, pendingReconcile,
              rearmRequired, .opening (newWatcherDirectories tree pendingReconcile), changes,
              applied⟩ := if_neg hnew
        rw [hwork]
        exact ⟨hcovers, hheard, trivial⟩
  | opening newDirectories => exact ⟨hcovers, hheard, covers_register tree⟩
  | registered newDirectories successor =>
      refine ⟨hcovers.mono fun _ => mem_append_left _, hmono fun ev hev => ?_, ?_, ?_⟩
      · rcases mem_append.mp hev with hev | hev
        · exact mem_append_left _ (mem_append_left _ hev)
        · exact mem_append_right _ hev
      · exact Observers.Covers.drain hknows
      · exact fun _ => mem_append_right _
  | yielded newDirectories first successor =>
      refine ⟨hknows.1.mono fun ev hev => ?_, hmono fun _ => mem_append_left _, hknows.1⟩
      exact mem_append_left _ (hknows.2 ev hev)
  | checking newDirectories first tail =>
      exact ⟨hcovers, hheard, fun hrearm => covers_of_distinguished hdist hrearm⟩
  | reconciling =>
      by_cases hcall : pendingReconcile ≠ [] ∧ rearmRequired = false
      · have hwork : Loop.work ⟨tree, watcher, pendingReconcile, rearmRequired, .reconciling,
            changes, applied⟩ = ⟨tree, watcher, [], rearmRequired, .waiting, changes,
              applied ++ [(pendingReconcile, changes.length)]⟩ := if_pos hcall
        rw [hwork]
        refine ⟨hknows hcall.2, fun i ev hi => ?_, fun _ => rfl⟩
        rcases hheard i ev hi with ⟨b, hb, hlt, hacc⟩ | hacc
        · exact .inl ⟨b, mem_append_left _ hb, hlt, hacc⟩
        · refine hacc.of_append.imp_left fun hbatch => ?_
          have hlt : i < changes.length := (List.getElem?_eq_some_iff.mp hi).1
          exact ⟨_, mem_append_right _ (mem_singleton.mpr rfl), hlt, hbatch⟩
      · have hwork : Loop.work ⟨tree, watcher, pendingReconcile, rearmRequired, .reconciling,
            changes, applied⟩ = ⟨tree, watcher, pendingReconcile, rearmRequired, .waiting, changes,
              applied⟩ := if_neg hcall
        rw [hwork]
        refine ⟨hcovers, hheard, fun hrearm => ?_⟩
        by_contra hpending
        exact hcall ⟨hpending, hrearm⟩

lemma Loop.Sound.step {s' : Loop ν} {a : WatchAct ν} (h : s.Sound) (hdist : Distinguished s a)
    (hstep : s.step a = some s') : s'.Sound := by
  cases a with
  | work =>
      cases hstep
      exact h.work hdist
  | change op =>
      obtain ⟨r, hr, rfl⟩ := Option.map_eq_some_iff.mp hstep
      exact h.happened (Observers.Tree.perform_effect hr)

/-! ### Runs -/

/-- **A handoff loses nothing that its comparison does not hide**: in every run of the loop and
of operations on the directories, in which no directory the successor missed is hidden behind a
path that started the handoff, nothing is lost whenever a batch is applied. -/
theorem handoff_loses_nothing (t : Observers.Tree ν) (as : List (WatchAct ν)) (s : Loop ν)
    (hrun : Runs.run Loop.step (Loop.start t) as = some s)
    (hdist : Runs.Along Loop.step Distinguished (Loop.start t) as) (happly : s.Applying) :
    Lossless s := by
  have hsound : s.Sound :=
    Runs.run_induction_along (fun _ _ _ h hG hs => h.step hG hs) (Loop.sound_start t) hdist hrun
  exact hsound.lossless happly

end Run

/-- A directory is made during a handoff that another one started. -/
def madeDuringHandoff : List (WatchAct String) :=
  [.change (.mkdir [] "photos"), .work, .work, .work, .change (.mkdir [] "scans"), .work, .work,
    .work, .work, .work, .work, .work, .work, .work]

/-- The second directory is named by the handoff, which is followed by another one. -/
theorem handoff_loses_nothing_made : ∃ s,
    Runs.run Loop.step (Loop.start Observers.Tree.empty) madeDuringHandoff = some s ∧ Lossless s :=
  ⟨_, rfl, handoff_loses_nothing Observers.Tree.empty madeDuringHandoff _ rfl (by decide)
    ⟨rfl, by decide, rfl⟩⟩

/-- A directory starts a handoff, and is removed and made again between the registration of the
successor and its first yield. -/
def madeAgainDuringHandoff : List (WatchAct String) :=
  [.change (.mkdir [] "photos"), .work, .work, .work, .change (.rmdir [] "photos"),
    .change (.mkdir [] "photos"), .work, .work, .work]

/-- **A directory made again during a handoff is lost**: its addition is in the batch that is
applied and is not queued, and the live observer watches the directory that was there before. -/
theorem handoff_loses_a_directory : ¬ ∀ (t : Observers.Tree String) (as : List (WatchAct String)) s,
    Runs.run Loop.step (Loop.start t) as = some s → s.Applying → Lossless s := by
  intro h
  have hlossless := h Observers.Tree.empty madeAgainDuringHandoff _ rfl ⟨rfl, by decide, rfl⟩
  have hwatched := hlossless.directories (["photos"], 2) (by decide) (by decide) (by decide)
  revert hwatched
  decide

end Frostvault
