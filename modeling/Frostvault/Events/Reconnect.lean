import Frostvault.Events.Delivery

/-!
Clients that reconnect (`iter_catalog_event_sse` of `app/services/catalog_event_stream.py` and
`catalog_events_stream` of `app/main.py`).

A connection breaks after any of its frames.  The client reconnects with the id of the last frame
that had one; the id of the first frame is the revision of the catalog frame that follows it.

* `lastEventId`, `lastCatalog`: what a client keeps;
* `Recovers`: the property of the second connection;
* `lastEventId_le`: the id is not ahead of the catalog frames, unless the first frame was the last;
* `covered_up_to_lastSeen`: a run covers every revision up to `last_seen`;
* `reconnect_loses_nothing_iff`: **nothing is lost** exactly when the connection did not break between
  the first frame and the catalog frame it announces;
* `reconnect_after_hello_skips`: a break where revisions are lost.
-/

namespace Frostvault

open Checks List Effects History

/-! ### The client -/

/-- The id a client keeps. -/
def lastEventId (fs : List SseFrame) : Option ℕ := (fs.filterMap SseFrame.id).getLast?

/-- The revision of a catalog frame. -/
def SseFrame.catalogRevision : SseFrame → Option ℕ
  | .catalog s => some s.revision
  | _ => none

/-- The revision of the last catalog frame, or where the connection started. -/
def lastCatalog (resume : ℕ) (fs : List SseFrame) : ℕ :=
  (fs.filterMap SseFrame.catalogRevision).getLast?.getD resume

/-- In a run: when a tick is over, every revision above `base` that was committed when it read the
mark is covered by a catalog frame of the run. -/
def Recovers (loads : String → Option Invalidations) (v : VaultId) (base : ℕ)
    (ss : List StreamStep) : Prop :=
  ∀ before step rest, ss = before ++ step :: rest → ∀ f seen, step.event = .sent f seen →
    f.Settles seen → ∀ r, base < r → r ≤ markOf (before.map Step.event) →
      ∃ q ∈ before ++ [step], ∃ s n, q.event = .sent (.catalog s) n ∧ s.Covers loads v q.before r

/-! ### Where the client goes on -/

variable {loads : String → Option Invalidations} {args : StreamArgs} {v : VaultId}
  {w : StreamWorld} {h : List StreamEvent} {resume polls : ℕ} {moves : List (List StreamMove)}
  {fs : List SseFrame} {f : SseFrame}

lemma lastEventId_concat : lastEventId (fs ++ [f]) = f.id.or (lastEventId fs) := by
  rw [lastEventId, lastEventId, filterMap_append]
  cases hid : f.id with
  | none => rw [filterMap_cons_none hid, filterMap_nil, append_nil, Option.none_or]
  | some n => rw [filterMap_cons_some hid, filterMap_nil, getLast?_concat,
      Option.some_or]

lemma lastCatalog_concat :
    lastCatalog resume (fs ++ [f]) = f.catalogRevision.getD (lastCatalog resume fs) := by
  rw [lastCatalog, lastCatalog, filterMap_append]
  cases hrevision : f.catalogRevision with
  | none => rw [filterMap_cons_none hrevision, filterMap_nil, append_nil,
      Option.getD_none]
  | some n => rw [filterMap_cons_some hrevision, filterMap_nil, getLast?_concat,
      Option.getD_some, Option.getD_some]

/-- **The id is not ahead of the catalog frames**, unless all that was received is a first frame that
announces one. -/
lemma lastEventId_le {L : ℕ}
    (hall : Always (fun h ev => ∀ f n, ev = .sent f n →
      ∃ w, FrameLaw loads v resume h f n w) h) (hL : lastEventId (framesOf h) = some L) :
    L ≤ lastCatalog resume (framesOf h) ∨
      ∃ r, framesOf h = [.hello v r] ∧ resume < r := by
  induction h using List.reverseRecOn generalizing L with
  | nil => cases hL
  | append_singleton h ev ih =>
      obtain ⟨hbefore, hev⟩ := always_concat.mp hall
      cases ev with
      | looked =>
          rw [framesOf_looked] at hL ⊢
          exact ih hbefore hL
      | marked c =>
          rw [framesOf_marked] at hL ⊢
          exact ih hbefore hL
      | sent f n =>
          obtain ⟨w, hlaw⟩ := hev f n rfl
          rw [framesOf_sent] at hL ⊢
          rw [lastEventId_concat] at hL
          rw [lastCatalog_concat]
          have hearlier (hno : ∀ s, f ≠ .catalog s) (hL : lastEventId (framesOf h) = some L) :
              L ≤ lastCatalog resume (framesOf h) := by
            rcases ih hbefore hL with hle | ⟨r, hframes, hr⟩
            · exact hle
            · obtain ⟨s, hs⟩ := hlaw.pending v r hframes hr
              exact (hno s hs).elim
          cases f with
          | catalog s =>
              cases hL
              exact .inl (Nat.le_refl _)
          | keepalive => exact .inl (hearlier (fun _ hf => nomatch hf) hL)
          | error code u current => exact .inl (hearlier (fun _ hf => nomatch hf) hL)
          | hello u r =>
              obtain ⟨rfl, -, hframes⟩ := hlaw.hello u r rfl
              rw [hframes] at hL ⊢
              rcases Nat.lt_or_ge resume r with hr | hr
              · exact .inr ⟨r, rfl, hr⟩
              · refine .inl (le_trans ?_ hr)
                rw [SseFrame.id] at hL
                split at hL
                · exact (Option.some.inj hL).ge
                · cases hL

/-- **A run covers every revision up to `last_seen`.** -/
lemma covered_up_to_lastSeen {before rest : List StreamStep} (hw : w.Consistent)
    (hsplit : streamSteps loads args resume polls w moves = before ++ rest) {r : ℕ}
    (hr : resume < r) (hle : r ≤ lastSeen resume (before.map Step.event)) :
    ∃ q ∈ before, ∃ s n, q.event = .sent (.catalog s) n ∧
      s.Covers loads args.vaultId q.before r := by
  induction before using List.reverseRecOn generalizing rest with
  | nil => exact absurd (hr.trans_le hle) (Nat.lt_irrefl _)
  | append_singleton before step ih =>
      have hsplit' : streamSteps loads args resume polls w moves = before ++ step :: rest := by
        rw [hsplit, append_assoc, singleton_append]
      have hearlier (hle : r ≤ lastSeen resume (before.map Step.event)) :
          ∃ q ∈ before ++ [step], ∃ s n, q.event = .sent (.catalog s) n ∧
            s.Covers loads args.vaultId q.before r := by
        obtain ⟨q, hq, hcovers⟩ := ih hsplit' hle
        exact ⟨q, mem_append_left _ hq, hcovers⟩
      rw [map_append, map_cons, map_nil] at hle
      cases hevent : step.event with
      | looked =>
          rw [hevent, lastSeen_looked] at hle
          exact hearlier hle
      | marked c =>
          rw [hevent, lastSeen_marked] at hle
          exact hearlier hle
      | sent f n =>
          rw [hevent, lastSeen_sent] at hle
          rcases Nat.lt_or_ge (lastSeen resume (before.map Step.event)) r with hlt | hge
          · obtain ⟨s, rfl, hcovers⟩ := (frameLaw_of_step hw hsplit' hevent).covered r hlt hle
            exact ⟨step, mem_append_right _ mem_cons_self, s, n, hevent, hcovers⟩
          · exact hearlier hge

/-- **A connection that starts at or below `base` recovers.** -/
lemma recovers_of_le {base : ℕ} (hw : w.Consistent) (hle : resume ≤ base) :
    Recovers loads args.vaultId base (streamSteps loads args resume polls w moves) := by
  intro before step rest hsplit f seen hsent hsettles r hr hmark
  have hlaw := frameLaw_of_step hw hsplit hsent
  have hsplit' : streamSteps loads args resume polls w moves = (before ++ [step]) ++ rest := by
    rw [hsplit, append_assoc, singleton_append]
  refine covered_up_to_lastSeen hw hsplit' (hle.trans_lt hr) ?_
  rw [map_append, map_cons, map_nil, hsent, lastSeen_sent]
  exact hmark.trans (hlaw.settled hsettles)

/-! ### A journal that was pruned -/

/-- An append of nothing in particular. -/
def plainEvent : EventArgs := ⟨some "files", none, none, none, 0⟩

/-- The session of a client of a Vault. -/
def sessionOf (v : VaultId) : SessionRow := ⟨some v, none, some 1, some 1, 0, 0, true⟩

/-- Some appends, all of them pruned, and a session. -/
def publishedMoves (v : VaultId) (c : ℕ) : List StreamMove :=
  List.replicate c (.journal (.append v plainEvent)) ++
    [.journal (.prune v (c + 1) 0), .rest (some (sessionOf v)) 0 false false]

lemma step_append_plain {t : JournalTables} (ht : t.WellFormed) (hv : v ≠ 0) (hmem : v ∈ t.vaults) :
    (t.step (.append v plainEvent)).current v = t.current v + 1 ∧
      v ∈ (t.step (.append v plainEvent)).vaults := by
  obtain ⟨⟨e, t'⟩, hlocked⟩ := JournalTables.appendLocked_ok ht v "files" "" "{}" 0
  have happend : t.appendEvent v plainEvent = .ok (e, t') := by
    rw [JournalTables.appendEvent, require_bind_eq_ok_iff]
    refine ⟨hv, bind_eq_ok_iff.mpr ⟨("files", "", "{}"), by decide, ?_⟩⟩
    exact bind_eq_ok_iff.mpr ⟨(), if_pos hmem, hlocked⟩
  have hspec := (JournalTables.appendLocked_spec hlocked v).2.1
  obtain ⟨-, hrow⟩ := require_bind_eq_ok_iff.mp hlocked
  rw [JournalTables.step, happend]
  refine ⟨by rw [hspec, if_pos rfl], ?_⟩
  cases pure_eq_ok_iff.mp hrow
  exact hmem

lemma run_appends {t : JournalTables} (ht : t.WellFormed) (hv : v ≠ 0) (hmem : v ∈ t.vaults)
    (c : ℕ) : (t.run (List.replicate c (.append v plainEvent))).WellFormed ∧
      v ∈ (t.run (List.replicate c (.append v plainEvent))).vaults ∧
      (t.run (List.replicate c (.append v plainEvent))).current v = t.current v + c := by
  induction c generalizing t with
  | zero => exact ⟨ht, hmem, rfl⟩
  | succ c ih =>
      obtain ⟨hcurrent, hmem'⟩ := step_append_plain ht hv hmem
      obtain ⟨hwf, hvaults, hlast⟩ := ih (ht.step (.append v plainEvent)) hmem'
      refine ⟨hwf, hvaults, hlast.trans ?_⟩
      rw [hcurrent]
      omega

lemma step_prune_all {t : JournalTables} (ht : t.WellFormed) (hv : v ≠ 0) (hmem : v ∈ t.vaults) :
    (t.step (.prune v (t.current v + 1) 0)).current v = t.current v ∧
      (t.step (.prune v (t.current v + 1) 0)).retained v = t.current v + 1 := by
  have hle := ht.retained_le v
  cases hprune : t.pruneEvents v (t.current v + 1) 0 with
  | error e =>
      -- every check of the call holds
      rw [JournalTables.pruneEvents, JournalTables.lockVault] at hprune
      simp only [require, hv, hmem, ne_eq, not_false_eq_true, Nat.succ_ne_zero, if_pos,
        bind, Except.bind] at hprune
      cases hrow : t.revisions v with
      | none =>
          have hzero : t.current v = 0 := by rw [JournalTables.current, hrow]; rfl
          simp [hrow, hzero, pure, Except.pure] at hprune
      | some row =>
          have hcurrent : t.current v = row.revision := by rw [JournalTables.current, hrow]; rfl
          simp [hrow, hcurrent, pure, Except.pure] at hprune
  | ok r =>
      obtain ⟨r, t'⟩ := r
      rw [JournalTables.step, hprune]
      cases hrow : t.revisions v with
      | none =>
          have hzero : t.current v = 0 := by rw [JournalTables.current, hrow]; rfl
          have hone : t.retained v = 1 := by rw [JournalTables.retained, hrow]; rfl
          rcases JournalTables.pruneEvents_spec hprune with rfl | ⟨-, hspec⟩
          · exact ⟨rfl, by rw [hone, hzero]⟩
          · obtain ⟨-, hcurrent, hretained⟩ := hspec v
            rw [if_pos rfl] at hretained
            exact ⟨hcurrent, hretained.trans (max_eq_right hle)⟩
      | some row =>
          rw [JournalTables.pruneEvents] at hprune
          obtain ⟨-, hprune⟩ := require_bind_eq_ok_iff.mp hprune
          obtain ⟨-, hprune⟩ := require_bind_eq_ok_iff.mp hprune
          obtain ⟨_, -, hprune⟩ := bind_eq_ok_iff.mp hprune
          rw [hrow] at hprune
          obtain ⟨-, hprune⟩ := require_bind_eq_ok_iff.mp hprune
          cases pure_eq_ok_iff.mp hprune
          have hretained : t.retained v = row.retainedFrom := by
            rw [JournalTables.retained, hrow]
            rfl
          refine ⟨by simp [JournalTables.current, hrow], ?_⟩
          rw [← max_eq_right hle, hretained]
          simp [JournalTables.retained]

/-- **The world** after them: nothing is stored, and the client is authorized. -/
lemma publishedMoves_spec (hv : v ≠ 0) (c : ℕ) :
    let w := moveStream (publishedMoves v c) (.initial [v])
    w.journal.current v = c ∧ w.journal.retained v = c + 1 ∧ w.session = some (sessionOf v) ∧
      w.now = 0 ∧ w.shutdown = false ∧ w.disconnected = false := by
  intro w
  have hjournal (w₀ : StreamWorld) (n : ℕ) :
      (moveStream (List.replicate n (.journal (.append v plainEvent))) w₀).journal =
        w₀.journal.run (List.replicate n (.append v plainEvent)) := by
    induction n generalizing w₀ with
    | zero => rfl
    | succ n ih => exact ih _
  obtain ⟨hwf, hmem, hcurrent⟩ := run_appends (JournalTables.wellFormed_initial [v]) hv
    (mem_cons_self (a := v) (l := [])) c
  have hzero : (JournalTables.initial [v]).current v = 0 := rfl
  rw [hzero, Nat.zero_add] at hcurrent
  have hpruned := step_prune_all hwf hv hmem
  rw [hcurrent] at hpruned
  have hw : w.journal = ((JournalTables.initial [v]).run
      (List.replicate c (.append v plainEvent))).step (.prune v (c + 1) 0) := by
    have hsplit : w.journal = ((moveStream (List.replicate c (.journal (.append v plainEvent)))
        (.initial [v])).journal).step (.prune v (c + 1) 0) := by
      change (moveStream (_ ++ _) _).journal = _
      rw [moveStream, foldl_append]
      rfl
    rw [hsplit, hjournal]
    rfl
  rw [hw]
  refine ⟨hpruned.1, hpruned.2, ?_, ?_, ?_, ?_⟩ <;>
    · rw [show w = _ from foldl_append]
      rfl

/-- The first actions of a stream of that world: the first frame has the revision. -/
lemma steps_of_pruned {c : ℕ} (hv : v ≠ 0) (hcurrent : w.journal.current v = c)
    (hretained : w.journal.retained v = c + 1) (hsession : w.session = some (sessionOf v))
    (hnow : w.now = 0) (hshutdown : w.shutdown = false) :
    streamSteps loads ⟨v, hv, 1, true, false⟩ resume 0 w (List.replicate 5 []) =
      [⟨.looked, w, w⟩, ⟨.looked, w, w⟩, ⟨.marked c, w, w⟩, ⟨.looked, w, w⟩,
        ⟨.sent (.hello v c) resume, w, w⟩] := by
  have hmove : moveStream [] w = w := rfl
  have hauth : authorizeStream w.session w.now v true = .ok () := by
    rw [hsession, hnow]
    rfl
  rcases Nat.lt_or_ge resume c with hlt | hge
  · simp [streamSteps, iterCatalogEventSse, goOnUnless, peek, streamTickSnapshot,
      coalescedCatchup, readMark, greet, send, bind, Prog.bind, Prog.ask, Prog.ofExcept, pure,
      Prog.steps, hmove, hauth, hcurrent, hretained, hshutdown, hlt,
      Nat.not_le.mpr hlt, invalidateAllSignal]
  · simp [streamSteps, iterCatalogEventSse, goOnUnless, peek, streamTickSnapshot,
      coalescedCatchup, readMark, greet, send, bind, Prog.bind, Prog.ask, Prog.ofExcept, pure,
      Prog.steps, hmove, hauth, hcurrent, hretained, hshutdown, hge,
      Nat.not_lt.mpr hge, subscribed, Prog.steps]

/-- The world a connection leaves. -/
def leftBy (loads : String → Option Invalidations) (args : StreamArgs) (resume polls : ℕ)
    (w : StreamWorld) (moves : List (List StreamMove)) : StreamWorld :=
  ((iterCatalogEventSse loads args resume polls).play moveStream w moves).world

/-- **Reconnecting loses nothing** after a break where `fs` was received: whatever happens to the
journal during the two connections, and whatever smaller `after_revision` the client names. -/
def ReconnectsWell (loads : String → Option Invalidations) (resume : ℕ) (fs : List SseFrame) :
    Prop :=
  ∀ (vaults : List VaultId) (ms : List StreamMove) (args : StreamArgs) (polls : ℕ)
    (moves : List (List StreamMove)),
    let w := moveStream ms (.initial vaults)
    fs <+: framesOf ((streamSteps loads args resume polls w moves).map Step.event) →
    ∀ L, lastEventId fs = some L → ∀ after ≤ L, ∀ (polls' : ℕ) (moves' : List (List StreamMove)),
      Recovers loads args.vaultId (lastCatalog resume fs)
        (streamSteps loads args (resumeAfter after (some L)) polls'
          (leftBy loads args resume polls w moves) moves')

/-- A break after a first frame that announces a catalog frame. -/
lemma lost_after_hello {c : ℕ} (hv : v ≠ 0) (hlt : resume < c) :
    ¬ReconnectsWell loads resume [.hello v c] := by
  intro hwell
  obtain ⟨hcurrent, hretained, hsession, hnow, hshutdown, -⟩ := publishedMoves_spec hv c
  generalize hw : moveStream (publishedMoves v c) (.initial [v]) = w at *
  have hsteps {after : ℕ} : streamSteps loads ⟨v, hv, 1, true, false⟩ after 0 w (List.replicate 5 []) =
      [⟨.looked, w, w⟩, ⟨.looked, w, w⟩, ⟨.marked c, w, w⟩, ⟨.looked, w, w⟩,
        ⟨.sent (.hello v c) after, w, w⟩] :=
    steps_of_pruned hv hcurrent hretained hsession hnow hshutdown
  have hleft : leftBy loads ⟨v, hv, 1, true, false⟩ resume 0 w (List.replicate 5 []) = w := by
    have hworld := Prog.play_world moveStream (iterCatalogEventSse loads ⟨v, hv, 1, true, false⟩ resume 0)
      w (List.replicate 5 [])
    rw [← streamSteps, hsteps] at hworld
    exact hworld
  have hid : lastEventId [.hello v c] = some c := by
    have hpos : 0 < c := by omega
    simp [lastEventId, SseFrame.id, hpos]
  have hrecovers := hwell [v] (publishedMoves v c) ⟨v, hv, 1, true, false⟩ 0 (List.replicate 5 [])
    (by rw [hw, hsteps]; exact prefix_refl _) c hid c (Nat.le_refl c) 0 (List.replicate 5 [])
  rw [hw, hleft, hsteps] at hrecovers
  have hresume : resumeAfter c (some c) = c := max_self c
  -- the second connection has nothing to tell
  obtain ⟨q, hq, s, n, hsent, -⟩ := hrecovers
    [⟨.looked, w, w⟩, ⟨.looked, w, w⟩, ⟨.marked c, w, w⟩, ⟨.looked, w, w⟩]
    ⟨.sent (.hello v c) (resumeAfter c (some c)), w, w⟩ [] rfl _ _ rfl hresume.ge c hlt
    (Nat.le_refl c)
  simp only [cons_append, nil_append, mem_cons, not_mem_nil, or_false] at hq
  rcases hq with rfl | rfl | rfl | rfl | rfl <;> cases hsent

/-- **Nothing is lost when a client reconnects**, whatever the journal does, exactly when it had not
received just the first frame of a connection that announces a catalog frame. -/
theorem reconnect_loses_nothing_iff (loads : String → Option Invalidations) (resume : ℕ)
    (fs : List SseFrame) :
    ReconnectsWell loads resume fs ↔ ¬∃ v r, v ≠ 0 ∧ resume < r ∧ fs = [.hello v r] := by
  constructor
  · rintro hwell ⟨v, r, hv, hr, rfl⟩
    exact lost_after_hello hv hr hwell
  · intro hbreak vaults ms args polls moves w hreceived L hL after hafter polls' moves'
    have hw : w.Consistent := consistent_reached vaults ms
    have hleft : (leftBy loads args resume polls w moves).Consistent :=
      Wp.world (fun ms w => ⟨ms, rfl⟩) (fun _ _ _ _ hlaw => hlaw.1)
        (spec_iterCatalogEventSse loads args resume polls hw) hw moves
    refine recovers_of_le hleft ?_
    have hresume : resumeAfter after (some L) = L := max_eq_right hafter
    rw [hresume]
    -- what was received is what a shorter history sent
    obtain ⟨h, hh, rfl⟩ := prefix_filterMap_iff.mp hreceived
    have hlaw : Always (fun h ev => ∀ f n, ev = .sent f n →
        ∃ w, FrameLaw loads args.vaultId resume h f n w) h := (always_law hw moves).initial hh
    rcases lastEventId_le hlaw hL with hle | ⟨r, hframes, hr⟩
    · exact hle
    · exact (hbreak ⟨args.vaultId, r, args.vault_ne, hr, hframes⟩).elim

/-! ### A break that loses a revision -/

/-- A Vault with one committed event, and a session for it. -/
def oneEvent : List StreamMove :=
  [.journal (.append 1 plainEvent), .rest (some (sessionOf 1)) 0 false false]

/-- **The revision that the first frame announces is lost** when the connection breaks after it: the
client received nothing but that frame, and the second connection sends no catalog frame. -/
theorem reconnect_after_hello_skips :
    ¬ReconnectsWell (fun _ => none) 0 [.hello 1 1] := by
  intro hwell
  have hrecovers := hwell [1] oneEvent ⟨1, by decide, 64, true, false⟩ 0 (List.replicate 6 [])
    (by decide) 1 rfl 1 (Nat.le_refl 1) 0 (List.replicate 5 [])
  have hevents : (streamSteps (fun _ => none) ⟨1, by decide, 64, true, false⟩ 1 0
      (leftBy (fun _ => none) ⟨1, by decide, 64, true, false⟩ 0 0
        (moveStream oneEvent (.initial [1])) (List.replicate 6 [])) (List.replicate 5 [])).map
          Step.event = [.looked, .looked, .marked 1, .looked] ++ [.sent (.hello 1 1) 1] := by
    decide
  obtain ⟨before, last, hsplit, hbefore, hlast⟩ := map_eq_append_iff.mp hevents
  obtain ⟨step, rfl, hstep⟩ := map_eq_singleton_iff.mp hlast
  obtain ⟨q, hq, s, n, hsent, -⟩ := hrecovers before step [] hsplit _ _ hstep (Nat.le_refl 1) 1
    Nat.one_pos (by rw [hbefore]; decide)
  have hmem : StreamEvent.sent (.catalog s) n ∈
      [.looked, .looked, .marked 1, .looked] ++ [.sent (.hello 1 1) 1] := by
    rw [← hevents, hsplit, ← hsent]
    exact mem_map_of_mem hq
  simp at hmem

end Frostvault
