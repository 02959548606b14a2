import Frostvault.Events.Stream

/-!
What a stream of invalidations delivers (`iter_catalog_event_sse` and
`coalesced_catchup_from_connection` of `app/services/catalog_event_stream.py`).

Between any two statements of a stream others append and prune, and its session changes.

* `StreamMove`, `StreamWorld.Consistent`: the moves, and the invariant they keep;
* `Describes`: a signal covers every revision after a cursor, up to its own;
* `spec_coalescedCatchup`: **a tick describes what was committed when it read the mark**;
* `FrameLaw`, `spec_iterCatalogEventSse`: what holds of every frame;
* `stream_never_skips`: **every revision `last_seen` passes is covered by a frame**.
-/

namespace Frostvault

open Checks List Effects Window

/-! ### The others -/

/-- What may happen between two statements of a stream. -/
inductive StreamMove
  | journal (op : JournalOp)
  | rest (session : Option SessionRow) (now : Stamp) (shutdown disconnected : Bool)

/-- The events a call commits. -/
def JournalTables.added (t : JournalTables) : JournalOp → List CatalogEvent
  | .append v args =>
      match t.appendEvent v args with
      | .ok r => [r.1]
      | .error _ => []
  | .prune _ _ _ => []

/-- One move. -/
def StreamMove.apply : StreamMove → StreamWorld → StreamWorld
  | .journal op, w => { w with
      journal := w.journal.step op
      committed := w.committed ++ w.journal.added op }
  | .rest session now shutdown disconnected, w => { w with
      session := session
      now := now
      shutdown := shutdown
      disconnected := disconnected }

/-- Some moves. -/
def moveStream (ms : List StreamMove) (w : StreamWorld) : StreamWorld :=
  ms.foldl (fun w m => m.apply w) w

/-- An installation whose Vaults have published nothing. -/
def StreamWorld.initial (vaults : List VaultId) : StreamWorld :=
  ⟨.initial vaults, [], none, 0, false, false⟩

/-- What was committed for a Vault has the revisions from one on, and what is stored is some of
it. -/
structure StreamWorld.Consistent (w : StreamWorld) : Prop where
  wellFormed : w.journal.WellFormed
  committed : ∀ v, (w.committed.filter fun e => e.vaultId = v).map CatalogEvent.revision =
    window 1 (w.journal.current v + 1)
  stored : ∀ e ∈ w.journal.events, e ∈ w.committed

variable {loads : String → Option Invalidations} {args : StreamArgs} {v : VaultId}
  {w w' : StreamWorld} {h : List StreamEvent} {resume seen after : ℕ} {s : Signal}

/-- **What a call commits**: the next revisions, and nothing else is stored after it. -/
lemma added_spec (t : JournalTables) (op : JournalOp) :
    (∀ v, t.current v ≤ (t.step op).current v ∧
      ((t.added op).filter fun e => e.vaultId = v).map CatalogEvent.revision =
        window (t.current v + 1) ((t.step op).current v + 1)) ∧
    ∀ e ∈ (t.step op).events, e ∈ t.events ∨ e ∈ t.added op := by
  have hnone (v : VaultId) : ([] : List ℕ) = window (t.current v + 1) (t.current v + 1) :=
    (window_of_le (Nat.le_refl _)).symm
  cases op with
  | append u args =>
      rw [JournalTables.step, JournalTables.added]
      cases happend : t.appendEvent u args with
      | error e => exact ⟨fun v => ⟨Nat.le_refl _, hnone v⟩, fun e he => .inl he⟩
      | ok r =>
          obtain ⟨e, t'⟩ := r
          obtain ⟨_, _, _, hlocked⟩ := JournalTables.exists_appendLocked happend
          have hspec := JournalTables.appendLocked_spec hlocked
          obtain ⟨-, hrow⟩ := require_bind_eq_ok_iff.mp hlocked
          cases pure_eq_ok_iff.mp hrow
          refine ⟨fun v => ?_, fun e he => ?_⟩
          · obtain ⟨-, hcurrent, -⟩ := hspec v
            dsimp only
            rw [hcurrent]
            by_cases hv : v = u
            · subst hv
              refine ⟨by rw [if_pos rfl]; exact Nat.le_succ _, ?_⟩
              rw [if_pos rfl, ← window_concat (Nat.le_refl _), ← hnone]
              simp [JournalTables.ensureRevisionRow_revision]
            · refine ⟨by rw [if_neg hv], ?_⟩
              rw [if_neg hv, ← hnone]
              simp [Ne.symm hv]
          · exact mem_append.mp he
  | prune u retainFrom updatedAt =>
      rw [JournalTables.step, JournalTables.added]
      cases hprune : t.pruneEvents u retainFrom updatedAt with
      | error e => exact ⟨fun v => ⟨Nat.le_refl _, hnone v⟩, fun e he => .inl he⟩
      | ok r =>
          obtain ⟨r, t'⟩ := r
          have hevents : ∀ e ∈ t'.events, e ∈ t.events := by
            obtain ⟨-, hrest⟩ := require_bind_eq_ok_iff.mp hprune
            obtain ⟨-, hrest⟩ := require_bind_eq_ok_iff.mp hrest
            obtain ⟨_, -, hrest⟩ := bind_eq_ok_iff.mp hrest
            cases hrow : t.revisions u with
            | none =>
                rw [hrow] at hrest
                obtain ⟨-, hrest⟩ := require_bind_eq_ok_iff.mp hrest
                cases pure_eq_ok_iff.mp hrest
                exact fun e he => he
            | some row =>
                rw [hrow] at hrest
                obtain ⟨-, hrest⟩ := require_bind_eq_ok_iff.mp hrest
                cases pure_eq_ok_iff.mp hrest
                exact fun e he => mem_of_mem_filter he
          refine ⟨fun v => ?_, fun e he => .inl (hevents e he)⟩
          have hcurrent : t'.current v = t.current v := by
            rcases JournalTables.pruneEvents_spec hprune with rfl | ⟨-, hspec⟩
            · rfl
            · exact (hspec v).2.1
          dsimp only
          rw [hcurrent]
          exact ⟨Nat.le_refl _, hnone v⟩

lemma consistent_initial (vaults : List VaultId) : (StreamWorld.initial vaults).Consistent where
  wellFormed := JournalTables.wellFormed_initial vaults
  committed _ := rfl
  stored _ he := nomatch he

/-- **One move keeps the invariant**, and what was committed. -/
lemma StreamWorld.Consistent.apply (hw : w.Consistent) (m : StreamMove) :
    (m.apply w).Consistent ∧ w.committed ⊆ (m.apply w).committed := by
  cases m with
  | rest session now shutdown disconnected =>
      exact ⟨⟨hw.wellFormed, hw.committed, hw.stored⟩, fun _ he => he⟩
  | journal op =>
      obtain ⟨hcommits, hstored⟩ := added_spec w.journal op
      refine ⟨⟨hw.wellFormed.step op, fun v => ?_, fun e he => ?_⟩, subset_append_left _ _⟩
      · obtain ⟨hle, hadded⟩ := hcommits v
        have hcur : window 1 (w.journal.current v + 1) ++
            window (w.journal.current v + 1) ((w.journal.step op).current v + 1) =
            window 1 ((w.journal.step op).current v + 1) := window_append (by omega) (by omega)
        rw [StreamMove.apply, filter_append, map_append, hw.committed v, hadded, hcur]
      · rcases hstored e he with he | he
        · exact mem_append_left _ (hw.stored e he)
        · exact mem_append_right _ he

/-- The others may make any moves. -/
def StreamMoves (w w' : StreamWorld) : Prop := ∃ ms, w' = moveStream ms w

/-- **Moves keep the invariant.** -/
lemma StreamWorld.Consistent.moved (hw : w.Consistent) (hm : StreamMoves w w') :
    w'.Consistent ∧ w.committed ⊆ w'.committed := by
  obtain ⟨ms, rfl⟩ := hm
  induction ms generalizing w with
  | nil => exact ⟨hw, fun _ he => he⟩
  | cons m ms ih =>
      obtain ⟨hnext, hsub⟩ := hw.apply m
      obtain ⟨hlast, hsub'⟩ := ih hnext
      exact ⟨hlast, fun _ he => hsub' (hsub he)⟩

/-- Every revision up to the current one was committed. -/
lemma StreamWorld.Consistent.exists_committed (hw : w.Consistent) {r : ℕ} (hr : 0 < r)
    (hle : r ≤ w.journal.current v) : ∃ e ∈ w.committed, e.vaultId = v ∧ e.revision = r := by
  have hmem : r ∈ (w.committed.filter fun e => e.vaultId = v).map CatalogEvent.revision := by
    rw [hw.committed v, mem_window]
    omega
  obtain ⟨e, he, hrevision⟩ := mem_map.mp hmem
  obtain ⟨he, hvault⟩ := mem_filter.mp he
  exact ⟨e, he, by simpa using hvault, hrevision⟩

/-! ### A tick -/

/-- The signal covers a committed revision: everything is to be read again, or all the domains of
its event are listed. -/
def Signal.Covers (loads : String → Option Invalidations) (v : VaultId) (w : StreamWorld) (r : ℕ)
    (s : Signal) : Prop :=
  r ≤ s.revision ∧ ∃ e ∈ w.committed, e.vaultId = v ∧ e.revision = r ∧
    (s.hasGap = true ∨ ∀ d ∈ e.invalidates loads, d ∈ s.domains)

/-- **A signal covers what is after the cursor**, up to its revision, and is not older than the
mark. -/
structure Describes (loads : String → Option Invalidations) (v : VaultId) (after mark : ℕ)
    (s : Signal) (w : StreamWorld) : Prop where
  covers : ∀ r, after < r → r ≤ s.revision → s.Covers loads v w r
  mark : mark ≤ s.revision
  gap : s.hasGap = true → after < s.revision

lemma Describes.mono {mark : ℕ} (hs : Describes loads v after mark s w)
    (hsub : w.committed ⊆ w'.committed) : Describes loads v after mark s w' where
  covers r hr hle := by
    obtain ⟨hrevision, e, he, hevent⟩ := hs.covers r hr hle
    exact ⟨hrevision, e, hsub he, hevent⟩
  mark := hs.mark
  gap := hs.gap

lemma describes_invalidateAll (hw : w.Consistent) (hafter : after < w.journal.current v) :
    Describes loads v after (w.journal.current v)
      (invalidateAllSignal v (w.journal.current v)) w where
  covers r hr hle := by
    obtain ⟨e, he, hvault, hrevision⟩ := hw.exists_committed (by omega) hle
    exact ⟨hle, e, he, hvault, hrevision, .inl rfl⟩
  mark := Nat.le_refl _
  gap _ := hafter

lemma rowsAfter_committed (hw : w.Consistent) {limit : ℕ} {e : CatalogEvent}
    (he : e ∈ w.journal.rowsAfter v after limit) : e ∈ w.committed ∧ e.vaultId = v := by
  have hsorted := mem_of_mem_take he
  rw [mem_insertionSort] at hsorted
  obtain ⟨hstored, hvault⟩ := mem_filter.mp (mem_of_mem_filter hsorted)
  exact ⟨hw.stored e hstored, by simpa using hvault⟩

/-- **A whole page that goes on after the cursor** describes it. -/
lemma describes_merged (hw : w.Consistent) {maxEvents mark : ℕ} {e : CatalogEvent}
    {es : List CatalogEvent} {m : Signal}
    (hrows : w.journal.rowsAfter v after (maxEvents + 1) = e :: es)
    (hall : (e :: es).length ≤ maxEvents) (hfirst : e.revision ≤ after + 1)
    (hmark : mark ≤ w.journal.current v) (hafter : after < mark)
    (hm : Merges v ((e :: es).map (signalFromEvent loads)) m) :
    Describes loads v after mark m w := by
  have hrevs := rowsAfter_revisions hw.wellFormed v after (maxEvents + 1)
  rw [hrows, take_window] at hrevs
  -- the page starts right after the cursor
  have hstart : max (w.journal.retained v) (after + 1) = after + 1 := by
    have hhead : e.revision ∈ window (max (w.journal.retained v) (after + 1))
        (min (w.journal.current v + 1)
          (max (w.journal.retained v) (after + 1) + (maxEvents + 1))) := by
      rw [← hrevs]
      exact mem_cons_self
    rw [mem_window] at hhead
    omega
  -- and ends with the current revision
  have hend : (e :: es).map CatalogEvent.revision =
      window (after + 1) (w.journal.current v + 1) := by
    have hlength := congrArg List.length hrevs
    rw [length_map, length_window, hstart] at hlength
    rw [hrevs, hstart]
    congr 1
    omega
  have hrow (r : ℕ) (hr : after < r) (hle : r ≤ w.journal.current v) :
      ∃ x ∈ e :: es, x.revision = r := by
    have hmem : r ∈ (e :: es).map CatalogEvent.revision := by
      rw [hend, mem_window]
      omega
    exact mem_map.mp hmem
  obtain ⟨s₀, hs₀, hnewest⟩ := hm.newest
  obtain ⟨x₀, hx₀, rfl⟩ := mem_map.mp hs₀
  have hnewest_le : m.revision ≤ w.journal.current v := by
    have hmem : x₀.revision ∈ (e :: es).map CatalogEvent.revision := mem_map_of_mem hx₀
    rw [hend, mem_window] at hmem
    have heq : m.revision = x₀.revision := hnewest
    omega
  refine ⟨fun r hr hle => ?_, ?_, fun hgap => ?_⟩
  · obtain ⟨x, hx, rfl⟩ := hrow r hr (by omega)
    obtain ⟨hcommitted, hvault⟩ := rowsAfter_committed hw (hrows ▸ hx)
    exact ⟨hle, x, hcommitted, hvault, rfl, .inr (hm.domains _ (mem_map_of_mem hx))⟩
  · obtain ⟨x, hx, hx'⟩ := hrow (w.journal.current v) (by omega) (Nat.le_refl _)
    have hbound : x.revision ≤ m.revision := hm.bound _ (mem_map_of_mem hx)
    omega
  · cases hgap.symm.trans hm.gap

lemma catchupPage_spec {maxEvents mark retained : ℕ} (hw : w.Consistent)
    (hmark : mark ≤ w.journal.current v) (hretained : retained ≤ after + 1) (hafter : after < mark)
    (hall : Describes loads v after mark (invalidateAllSignal v mark) w) :
    ∃ s, catchupPage loads v after maxEvents mark retained
        (w.journal.rowsAfter v after (maxEvents + 1)) = .ok s ∧
      Describes loads v after mark s w := by
  rw [catchupPage]
  cases htake : (w.journal.rowsAfter v after (maxEvents + 1)).take maxEvents with
  | nil => exact ⟨_, if_pos hafter, hall⟩
  | cons e es =>
      dsimp only
      split
      · exact ⟨_, rfl, hall⟩
      · rename_i hfirst
        split
        · exact ⟨_, rfl, hall⟩
        · rename_i hwhole
          have hrows : w.journal.rowsAfter v after (maxEvents + 1) = e :: es := by
            rw [← htake, take_of_length_le (by omega)]
          have hspec : ∃ m, coalesceSignals ((e :: es).map (signalFromEvent loads)) = .ok (some m) ∧
              Merges v ((e :: es).map (signalFromEvent loads)) m := by
            have hrow : ∀ t ∈ (e :: es).map (signalFromEvent loads),
                ∃ x ∈ e :: es, signalFromEvent loads x = t := fun t ht => mem_map.mp ht
            refine coalesceSignals_spec (fun t ht => ?_) (fun t ht => ?_) fun t ht => ?_
            · obtain ⟨x, hx, rfl⟩ := hrow t ht
              exact (rowsAfter_committed hw (hrows ▸ hx)).2
            · obtain ⟨x, -, rfl⟩ := hrow t ht
              rfl
            · obtain ⟨x, -, rfl⟩ := hrow t ht
              exact clean_invalidates loads x
          obtain ⟨m, hm, hmerges⟩ := hspec
          refine ⟨m, by rw [hm]; rfl, ?_⟩
          exact describes_merged hw hrows (by rw [← hrows]; omega) (by omega) hmark hafter hmerges

/-! ### Frames -/

/-- The frames of a history. -/
def framesOf (h : List StreamEvent) : List SseFrame :=
  h.filterMap fun
    | .sent f _ => some f
    | _ => none

/-- `last_seen` after a history. -/
def lastSeen (resume : ℕ) (h : List StreamEvent) : ℕ :=
  h.foldl (fun n ev => match ev with
    | .sent _ seen => seen
    | _ => n) resume

/-- The last high-water mark that was read. -/
def markOf (h : List StreamEvent) : ℕ :=
  h.foldl (fun n ev => match ev with
    | .marked current => current
    | _ => n) 0

/-- A tick is over with this frame. -/
def SseFrame.Settles (seen : ℕ) : SseFrame → Prop
  | .hello _ revision => revision ≤ seen
  | .catalog _ | .keepalive => True
  | .error _ _ _ => False

/-- **What holds of a frame**, sent after the history `h` with `last_seen` at `seen`. -/
structure FrameLaw (loads : String → Option Invalidations) (v : VaultId) (resume : ℕ)
    (h : List StreamEvent) (f : SseFrame) (seen : ℕ) (w : StreamWorld) : Prop where
  forward : lastSeen resume h ≤ seen
  covered : ∀ r, lastSeen resume h < r → r ≤ seen → ∃ s, f = .catalog s ∧ s.Covers loads v w r
  increasing : ∀ s, f = .catalog s → s.hasGap = false → lastSeen resume h < s.revision
  reached : ∀ s, f = .catalog s → s.revision ≤ seen
  settled : f.Settles seen → markOf h ≤ seen
  hello : ∀ u r, f = .hello u r → u = v ∧ seen = resume ∧ framesOf h = []
  pending : ∀ u r, framesOf h = [.hello u r] → resume < r → ∃ s, f = .catalog s

/-- What holds of an action. -/
def StreamLaw (loads : String → Option Invalidations) (v : VaultId) (resume : ℕ)
    (h : List StreamEvent) (ev : StreamEvent) (w w' : StreamWorld) : Prop :=
  w'.Consistent ∧ match ev with
    | .sent f seen => FrameLaw loads v resume h f seen w
    | .looked | .marked _ => True

@[simp] lemma framesOf_looked : framesOf (h ++ [.looked]) = framesOf h := by simp [framesOf]

@[simp] lemma framesOf_marked (n : ℕ) : framesOf (h ++ [.marked n]) = framesOf h := by
  simp [framesOf]

@[simp] lemma framesOf_sent (f : SseFrame) (n : ℕ) :
    framesOf (h ++ [.sent f n]) = framesOf h ++ [f] := by simp [framesOf]

@[simp] lemma lastSeen_looked : lastSeen resume (h ++ [.looked]) = lastSeen resume h := by
  simp [lastSeen]

@[simp] lemma lastSeen_marked (n : ℕ) : lastSeen resume (h ++ [.marked n]) = lastSeen resume h := by
  simp [lastSeen]

@[simp] lemma lastSeen_sent (f : SseFrame) (n : ℕ) : lastSeen resume (h ++ [.sent f n]) = n := by
  simp [lastSeen]

@[simp] lemma markOf_looked : markOf (h ++ [.looked]) = markOf h := by simp [markOf]

@[simp] lemma markOf_marked (n : ℕ) : markOf (h ++ [.marked n]) = n := by simp [markOf]

@[simp] lemma markOf_sent (f : SseFrame) (n : ℕ) : markOf (h ++ [.sent f n]) = markOf h := by
  simp [markOf]

/-- The specifications of this module. -/
abbrev StreamSpec {α : Type} (loads : String → Option Invalidations) (v : VaultId) (resume : ℕ)
    (Q : α → List StreamEvent → StreamWorld → Prop) (p : Streaming α) (h : List StreamEvent)
    (w : StreamWorld) : Prop :=
  Wp StreamMoves (StreamLaw loads v resume) Q (fun _ _ _ => False) p h w

lemma spec_peek {α : Type} {Q : α → List StreamEvent → StreamWorld → Prop} {f : StreamWorld → α}
    (hw : w.Consistent)
    (hQ : ∀ w', w'.Consistent → w.committed ⊆ w'.committed → Q (f w') (h ++ [.looked]) w') :
    StreamSpec loads v resume Q (peek f) h w := by
  refine wp_ask.mpr fun w' hm => ?_
  obtain ⟨hw', hsub⟩ := hw.moved hm
  refine ⟨⟨hw', trivial⟩, fun a ha => ?_, fun _ he => nomatch he⟩
  cases ha
  exact hQ w' hw' hsub

lemma spec_goOnUnless {stop : StreamWorld → Bool} {next : Streaming Unit} (hw : w.Consistent)
    (hnext : ∀ w', w'.Consistent → w.committed ⊆ w'.committed →
      StreamSpec loads v resume (fun _ _ _ => True) next (h ++ [.looked]) w') :
    StreamSpec loads v resume (fun _ _ _ => True) (goOnUnless stop next) h w := by
  refine wp_bind.mpr (spec_peek hw fun w' hw' hsub => ?_)
  cases stop w' with
  | true => exact trivial
  | false => exact hnext w' hw' hsub

lemma spec_send {f : SseFrame} {Q : Unit → List StreamEvent → StreamWorld → Prop}
    (hw : w.Consistent) (hlaw : ∀ w', w'.Consistent → w.committed ⊆ w'.committed →
      FrameLaw loads v resume h f seen w' ∧ Q () (h ++ [.sent f seen]) w') :
    StreamSpec loads v resume Q (send f seen) h w := by
  intro w' hm
  obtain ⟨hw', hsub⟩ := hw.moved hm
  obtain ⟨hframe, hQ⟩ := hlaw w' hw' hsub
  exact ⟨⟨hw', hframe⟩, hQ⟩

/-- What a history has in common with a longer one without frames. -/
structure Silent (resume : ℕ) (h h' : List StreamEvent) : Prop where
  frames : framesOf h' = framesOf h
  seen : lastSeen resume h' = lastSeen resume h

/-- **A tick of the journal** describes what was committed when it read the mark. -/
lemma spec_coalescedCatchup (hw : w.Consistent) (maxEvents : ℕ) :
    StreamSpec loads v resume (fun s h' w' => w'.Consistent ∧ Silent resume h h' ∧
      Describes loads v after (markOf h') s w') (coalescedCatchup loads v after maxEvents) h w := by
  refine wp_bind.mpr fun w₁ hm => ?_
  obtain ⟨hw₁, -⟩ := hw.moved hm
  refine ⟨⟨hw₁, trivial⟩, ?_⟩
  have hpos := hw₁.wellFormed.retained_pos v
  have hle := hw₁.wellFormed.retained_le v
  have hsilent : Silent resume h (h ++ [.marked (w₁.journal.current v)]) :=
    ⟨framesOf_marked _, lastSeen_marked _⟩
  simp only [wp_ret]
  split
  · rename_i hnothing
    refine ⟨hw₁, hsilent, fun r hr hle => ?_, by rw [markOf_marked], fun hgap => ?_⟩
    · exact absurd (hr.trans_le hle) (Nat.not_lt.mpr hnothing.1)
    · cases hgap
  · rename_i hsome
    split
    · rename_i hgap
      refine ⟨hw₁, hsilent, ?_⟩
      rw [markOf_marked]
      exact describes_invalidateAll hw₁ (by omega)
    · rename_i hnogap
      have hafter : after < w₁.journal.current v := by omega
      have hall : Describes loads v after (w₁.journal.current v)
          (invalidateAllSignal v (w₁.journal.current v)) w₁ := describes_invalidateAll hw₁ hafter
      refine wp_bind.mpr (spec_peek hw₁ fun w₂ hw₂ hsub => ?_)
      have hcurrent : w₁.journal.current v ≤ w₂.journal.current v := by
        obtain ⟨e, he, hvault, hrevision⟩ :=
          hw₁.exists_committed (v := v) (by omega) (Nat.le_refl _)
        have hmem : e.revision ∈ (w₂.committed.filter fun e => e.vaultId = v).map
            CatalogEvent.revision :=
          mem_map_of_mem (mem_filter.mpr ⟨hsub he, by simpa using hvault⟩)
        rw [hw₂.committed v, mem_window] at hmem
        omega
      obtain ⟨s, hs, hdescribes⟩ : ∃ s, catchupPage loads v after
          (max 1 (min maxEvents maxEventPageSize)) (w₁.journal.current v) (w₁.journal.retained v)
          (w₂.journal.rowsAfter v after (max 1 (min maxEvents maxEventPageSize) + 1)) = .ok s ∧
          Describes loads v after (w₁.journal.current v) s w₂ :=
        catchupPage_spec hw₂ hcurrent (by omega) hafter (hall.mono hsub)
      rw [hs]
      refine ⟨hw₂, ⟨?_, ?_⟩, ?_⟩
      · rw [framesOf_looked, framesOf_marked]
      · rw [lastSeen_looked, lastSeen_marked]
      · rwa [markOf_looked, markOf_marked]

lemma spec_streamTickSnapshot (hw : w.Consistent) :
    StreamSpec loads args.vaultId resume (fun r h' w' => w'.Consistent ∧ Silent resume h h' ∧
      ∀ s, r = .ok s → Describes loads args.vaultId after (markOf h') s w')
      (streamTickSnapshot loads args after) h w := by
  refine wp_bind.mpr (spec_peek hw fun w₁ hw₁ _ => ?_)
  cases authorizeStream w₁.session w₁.now args.vaultId args.explicitVault with
  | error e => exact ⟨hw₁, ⟨framesOf_looked, lastSeen_looked⟩, fun s hs => nomatch hs⟩
  | ok u =>
      refine wp_bind.mpr ((spec_coalescedCatchup hw₁ args.maxEvents).mono
        (fun s h' w' hs => ?_) fun _ _ _ hR => hR)
      obtain ⟨hw', hsilent, hdescribes⟩ := hs
      refine ⟨hw', ⟨?_, ?_⟩, fun s' hs' => ?_⟩
      · rw [hsilent.frames, framesOf_looked]
      · rw [hsilent.seen, lastSeen_looked]
      · cases hs'
        exact hdescribes

/-! ### The stream -/

lemma frameLaw_quiet {f : SseFrame} (hcatalog : ∀ s, f ≠ .catalog s)
    (hhello : ∀ u r, f ≠ .hello u r) (hpending : ∀ u r, framesOf h = [.hello u r] → r ≤ resume)
    (hseen : lastSeen resume h = seen) (hsettled : f.Settles seen → markOf h ≤ seen) :
    FrameLaw loads v resume h f seen w where
  forward := hseen.le
  covered _ hr hle := absurd (hseen ▸ hr.trans_le hle) (Nat.lt_irrefl _)
  increasing s hs := (hcatalog s hs).elim
  reached s hs := (hcatalog s hs).elim
  settled := hsettled
  hello u r hf := (hhello u r hf).elim
  pending u r hf hr := absurd (hpending u r hf) (Nat.not_le.mpr hr)

/-- **A catalog frame** brings `last_seen` to its revision. -/
lemma frameLaw_catalog (hseen : lastSeen resume h = seen)
    (hs : Describes loads v seen (markOf h) s w) (hnew : seen < s.revision ∨ s.hasGap) :
    FrameLaw loads v resume h (.catalog s) (max seen s.revision) w where
  forward := hseen ▸ le_max_left _ _
  covered r hr hle := by
    rw [hseen] at hr
    refine ⟨s, rfl, hs.covers r hr ?_⟩
    omega
  increasing t ht hgap := by
    obtain rfl := SseFrame.catalog.inj ht
    rcases hnew with hlt | hyes
    · exact hseen ▸ hlt
    · cases hyes.symm.trans hgap
  reached t ht := SseFrame.catalog.inj ht ▸ le_max_right _ _
  settled _ := hs.mark.trans (le_max_right _ _)
  hello u r hf := nomatch hf
  pending _ _ _ _ := ⟨s, rfl⟩

/-- The stream is past its first frames. -/
structure Going (resume seen : ℕ) (h : List StreamEvent) : Prop where
  seen : lastSeen resume h = seen
  greeted : framesOf h ≠ []
  settled : ∀ u r, framesOf h = [.hello u r] → r ≤ resume

lemma Going.silent {h' : List StreamEvent} (hg : Going resume seen h) (hh : Silent resume h h') :
    Going resume seen h' where
  seen := hh.seen.trans hg.seen
  greeted := hh.frames ▸ hg.greeted
  settled := hh.frames ▸ hg.settled

lemma Going.looked (hg : Going resume seen h) : Going resume seen (h ++ [.looked]) :=
  hg.silent ⟨framesOf_looked, lastSeen_looked⟩

lemma Going.sent (hg : Going resume seen h) (f : SseFrame) (n : ℕ) :
    Going resume n (h ++ [.sent f n]) := by
  refine ⟨lastSeen_sent f n, by simp, fun u r hf => ?_⟩
  rw [framesOf_sent] at hf
  have hlength := congrArg List.length hf
  simp only [length_append, length_cons, length_nil] at hlength
  exact (hg.greeted (length_eq_zero_iff.mp (by omega))).elim

/-- **The loop.** -/
lemma spec_pollCatalog (polls : ℕ) (hw : w.Consistent) (hg : Going resume seen h) :
    StreamSpec loads args.vaultId resume (fun _ _ _ => True) (pollCatalog loads args polls seen)
      h w := by
  induction polls generalizing seen h w with
  | zero => exact trivial
  | succ polls ih =>
      refine spec_goOnUnless hw fun w₁ hw₁ _ => spec_goOnUnless hw₁ fun w₂ hw₂ _ => ?_
      refine spec_goOnUnless hw₂ fun w₃ hw₃ _ => spec_goOnUnless hw₃ fun w₄ hw₄ _ => ?_
      have hg := hg.looked.looked.looked.looked
      refine wp_bind.mpr ((spec_streamTickSnapshot hw₄).mono (fun r h' w' hr => ?_)
        fun _ _ _ hR => hR)
      obtain ⟨hw', hsilent, hdescribes⟩ := hr
      have hg := (hg.silent hsilent).looked
      refine spec_goOnUnless hw' fun w₅ hw₅ hsub => ?_
      cases r with
      | error e =>
          refine spec_send hw₅ fun w₆ _ _ => ⟨?_, trivial⟩
          exact frameLaw_quiet (fun _ hf => nomatch hf) (fun _ _ hf => nomatch hf) hg.settled
            hg.seen fun hf => hf.elim
      | ok s =>
          have hs := (hdescribes s rfl).mono hsub
          rw [← markOf_looked] at hs
          dsimp only
          split
          · rename_i hquiet
            refine wp_bind.mpr (spec_send hw₅ fun w₆ hw₆ _ => ⟨?_, ih hw₆ (hg.sent _ _)⟩)
            exact frameLaw_quiet (fun _ hf => nomatch hf) (fun _ _ hf => nomatch hf) hg.settled
              hg.seen fun _ => hs.mark.trans hquiet.1
          · rename_i hnew
            refine wp_bind.mpr (spec_send hw₅ fun w₆ hw₆ hsub' => ⟨?_, ih hw₆ (hg.sent _ _)⟩)
            refine frameLaw_catalog hg.seen (hs.mono hsub') ?_
            by_contra hno
            push Not at hno
            exact hnew ⟨hno.1, by simpa using hno.2⟩

/-- **The first frames.** -/
lemma spec_greet (polls : ℕ) (hw : w.Consistent) (hframes : framesOf h = [])
    (hseen : lastSeen resume h = resume) (hs : Describes loads args.vaultId resume (markOf h) s w) :
    StreamSpec loads args.vaultId resume (fun _ _ _ => True) (greet loads args resume polls s)
      h w := by
  have hsubscribed {n : ℕ} {h : List StreamEvent} {w : StreamWorld} (hw : w.Consistent)
      (hg : Going resume n h) : StreamSpec loads args.vaultId resume (fun _ _ _ => True)
        (subscribed loads args polls n) h w := by
    rw [subscribed]
    split
    · exact spec_pollCatalog polls hw hg
    · exact trivial
  refine wp_bind.mpr (spec_send hw fun w₁ hw₁ hsub => ⟨?_, ?_⟩)
  · refine ⟨hseen.le, fun r hr hle => ?_, (fun _ hf => nomatch hf), (fun _ hf => nomatch hf),
      fun hf => hs.mark.trans hf, fun u r hf => ?_, fun u r hf => ?_⟩
    · exact absurd (hseen ▸ hr.trans_le hle) (Nat.lt_irrefl _)
    · obtain ⟨rfl, -⟩ := SseFrame.hello.inj hf
      exact ⟨rfl, rfl, hframes⟩
    · cases hframes.symm.trans hf
  · have hs₁ := hs.mono hsub
    have hlast : lastSeen resume (h ++ [.sent (.hello args.vaultId s.revision) resume]) = resume :=
      lastSeen_sent _ _
    split
    · rename_i hnew
      refine wp_bind.mpr (spec_send hw₁ fun w₂ hw₂ hsub' => ⟨?_, hsubscribed hw₂ ⟨?_, ?_, ?_⟩⟩)
      · refine frameLaw_catalog hlast ?_ hnew
        rw [markOf_sent]
        exact hs₁.mono hsub'
      · exact lastSeen_sent _ _
      · rw [framesOf_sent]
        exact append_ne_nil_of_right_ne_nil _ (cons_ne_nil _ _)
      · intro u r hf
        rw [framesOf_sent, framesOf_sent, hframes] at hf
        cases hf
    · rename_i hquiet
      push Not at hquiet
      refine hsubscribed hw₁ ⟨hlast, by simp, fun u r hf => ?_⟩
      rw [framesOf_sent, hframes] at hf
      obtain ⟨-, rfl⟩ := SseFrame.hello.inj (cons_eq_cons.mp hf).1
      exact hquiet.1

/-- **The stream**: whatever the others do, every frame is lawful. -/
theorem spec_iterCatalogEventSse (loads : String → Option Invalidations) (args : StreamArgs)
    (resume polls : ℕ) (hw : w.Consistent) :
    StreamSpec loads args.vaultId resume (fun _ _ _ => True)
      (iterCatalogEventSse loads args resume polls) [] w := by
  refine spec_goOnUnless hw fun w₁ hw₁ _ => ?_
  refine wp_bind.mpr ((spec_streamTickSnapshot hw₁).mono (fun r h' w' hr => ?_) fun _ _ _ hR => hR)
  obtain ⟨hw', hsilent, hdescribes⟩ := hr
  have hframes : framesOf (h' ++ [.looked]) = [] := by rw [framesOf_looked, hsilent.frames]; rfl
  have hseen : lastSeen resume (h' ++ [.looked]) = resume := by
    rw [lastSeen_looked, hsilent.seen]
    rfl
  refine spec_goOnUnless hw' fun w₂ hw₂ hsub => ?_
  cases r with
  | error e =>
      refine spec_send hw₂ fun w₃ _ _ => ⟨?_, trivial⟩
      refine frameLaw_quiet (fun _ hf => nomatch hf) (fun _ _ hf => nomatch hf) (fun u r hf => ?_)
        hseen fun hf => hf.elim
      cases hframes.symm.trans hf
  | ok s =>
      have hs := (hdescribes s rfl).mono hsub
      rw [← markOf_looked] at hs
      exact spec_greet polls hw₂ hframes hseen hs

/-! ### What is delivered -/

/-- An action of a stream in a run. -/
abbrev StreamStep := Step StreamWorld StreamEvent

/-- A run of a stream. -/
def streamSteps (loads : String → Option Invalidations) (args : StreamArgs) (resume polls : ℕ)
    (w : StreamWorld) (moves : List (List StreamMove)) : List StreamStep :=
  (iterCatalogEventSse loads args resume polls).steps moveStream w moves

variable {ss before rest : List StreamStep} {step : StreamStep} {moves : List (List StreamMove)}
  {polls : ℕ}

lemma frameLaw_of_step (hw : w.Consistent)
    (hsplit : streamSteps loads args resume polls w moves = before ++ step :: rest) {f : SseFrame}
    {n : ℕ} (hsent : step.event = .sent f n) :
    FrameLaw loads args.vaultId resume (before.map Step.event) f n step.before := by
  have hspec : StreamSpec loads args.vaultId resume (fun _ _ _ => True)
      (iterCatalogEventSse loads args resume polls) [] w :=
    spec_iterCatalogEventSse loads args resume polls hw
  have hlaw := hspec.steps (fun ms w => ⟨ms, rfl⟩) hsplit
  rw [hsent] at hlaw
  exact hlaw.2

/-- Every frame of a run is lawful, in the history before it. -/
lemma always_law (hw : w.Consistent) (moves : List (List StreamMove)) :
    History.Always (fun h ev => ∀ f n, ev = .sent f n →
      ∃ w, FrameLaw loads args.vaultId resume h f n w)
      ((streamSteps loads args resume polls w moves).map Step.event) := by
  intro h ev t heq f n hev
  obtain ⟨before, rest, hsteps, rfl, hrest⟩ := map_eq_append_iff.mp heq
  obtain ⟨step, rest', rfl, rfl, -⟩ := map_eq_cons_iff.mp hrest
  exact ⟨step.before, frameLaw_of_step hw hsteps hev⟩

/-- The revision of a frame that is no gap. -/
def SseFrame.gapless : SseFrame → Option ℕ
  | .catalog s => if s.hasGap then none else some s.revision
  | _ => none

/-- Frames without a gap have increasing revisions. -/
lemma gapless_increasing {h : List StreamEvent}
    (hall : History.Always (fun h ev => ∀ f n, ev = .sent f n →
      ∃ w, FrameLaw loads v resume h f n w) h) :
    ((framesOf h).filterMap SseFrame.gapless).Pairwise (· < ·) ∧
      ∀ n ∈ (framesOf h).filterMap SseFrame.gapless, n ≤ lastSeen resume h := by
  induction h using List.reverseRecOn with
  | nil => exact ⟨List.Pairwise.nil, fun _ hn => nomatch hn⟩
  | append_singleton h ev ih =>
      obtain ⟨hbefore, hev⟩ := History.always_concat.mp hall
      obtain ⟨hpairwise, hbound⟩ := ih hbefore
      cases ev with
      | looked =>
          rw [framesOf_looked, lastSeen_looked]
          exact ⟨hpairwise, hbound⟩
      | marked c =>
          rw [framesOf_marked, lastSeen_marked]
          exact ⟨hpairwise, hbound⟩
      | sent f n =>
          obtain ⟨w, hlaw⟩ := hev f n rfl
          rw [framesOf_sent, lastSeen_sent, filterMap_append]
          have hbound' : ∀ m ∈ (framesOf h).filterMap SseFrame.gapless, m ≤ n := fun m hm =>
            (hbound m hm).trans hlaw.forward
          cases hgapless : f.gapless with
          | none =>
              rw [filterMap_cons_none hgapless, filterMap_nil, append_nil]
              exact ⟨hpairwise, hbound'⟩
          | some r =>
              rw [filterMap_cons_some hgapless, filterMap_nil]
              -- the frame is newer than `last_seen`, and the others are not
              obtain ⟨s, rfl, hgap, rfl⟩ : ∃ s, f = .catalog s ∧ s.hasGap = false ∧
                  s.revision = r := by
                cases f with
                | catalog s =>
                    rw [SseFrame.gapless] at hgapless
                    split at hgapless
                    · cases hgapless
                    · rename_i hno
                      exact ⟨s, rfl, by simpa using hno, Option.some.inj hgapless⟩
                | hello u r => cases hgapless
                | error code u current => cases hgapless
                | keepalive => cases hgapless
              have hnew := hlaw.increasing s rfl hgap
              refine ⟨pairwise_append.mpr ⟨hpairwise, pairwise_singleton _ _, ?_⟩, ?_⟩
              · intro m hm r hr
                obtain rfl := mem_singleton.mp hr
                exact (hbound m hm).trans_lt hnew
              · intro m hm
                rcases mem_append.mp hm with hm | hm
                · exact hbound' m hm
                · exact mem_singleton.mp hm ▸ hlaw.reached s rfl

lemma consistent_reached (vaults : List VaultId) (ms : List StreamMove) :
    (moveStream ms (.initial vaults)).Consistent :=
  ((consistent_initial vaults).moved ⟨ms, rfl⟩).1

/-- **The stream never skips a committed revision.**  From any state of the journal and any
`resume_after`, while others append and prune between its statements: where a frame brings
`last_seen` past a revision, it is a catalog frame that is not older and has a gap or lists the
domains of that revision's event; and the frames without a gap have increasing revisions. -/
theorem stream_never_skips (loads : String → Option Invalidations) (vaults : List VaultId)
    (ms : List StreamMove) (args : StreamArgs) (resume polls : ℕ) (moves : List (List StreamMove)) :
    let ss := streamSteps loads args resume polls (moveStream ms (.initial vaults)) moves
    (∀ before step rest, ss = before ++ step :: rest → ∀ f seen, step.event = .sent f seen →
      lastSeen resume (before.map Step.event) ≤ seen ∧
      ∀ r, lastSeen resume (before.map Step.event) < r → r ≤ seen →
        ∃ s, f = .catalog s ∧ s.Covers loads args.vaultId step.before r) ∧
    ((framesOf (ss.map Step.event)).filterMap SseFrame.gapless).Pairwise (· < ·) := by
  intro ss
  have hw := consistent_reached vaults ms
  refine ⟨fun before step rest hsplit f seen hsent => ?_, (gapless_increasing (always_law hw moves)).1⟩
  have hlaw := frameLaw_of_step hw hsplit hsent
  exact ⟨hlaw.forward, hlaw.covered⟩

end Frostvault
