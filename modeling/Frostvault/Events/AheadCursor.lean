import Frostvault.Events.Reconnect

/-!
Cursors that are ahead of the journal (`read_events` of `app/services/catalog_events.py`,
`coalesced_catchup_from_connection` and `iter_catalog_event_sse` of
`app/services/catalog_event_stream.py`).

A client may keep a cursor that the journal has not reached, as when older metadata were restored.
Reader and stream take it for one that has seen everything.

* `ReadsTell`: a reader that reads to the end gets what was appended, or is told of a gap;
* `StreamTells`: so does a stream, at the end of every tick;
* `readsTell_of_le`, `streamTells_of_le`: **it is so below the current revision**;
* `not_readsTell`, `not_streamTells`: above it the next revision is passed over in silence;
* `cursor_told_iff`: **a cursor is told what is appended exactly if it is not ahead**.
-/

namespace Frostvault

open Checks Effects History Window

/-! ### Appends -/

/-- Some appends. -/
def JournalTables.appendAll (t : JournalTables) (as : List (VaultId × EventArgs)) :
    JournalTables :=
  t.run (as.map fun a => .append a.1 a.2)

/-- No call of this move prunes. -/
def StreamMove.Appending : StreamMove → Prop
  | .journal (.append _ _) => True
  | .journal (.prune _ _ _) => False
  | .rest _ _ _ _ => True

variable {t t' : JournalTables} {v : VaultId} {c : ℕ} {loads : String → Option Invalidations}
  {w : StreamWorld}

lemma step_append (t : JournalTables) (u : VaultId) (args : EventArgs) (v : VaultId) :
    (t.step (.append u args)).retained v = t.retained v := by
  rw [JournalTables.step]
  cases happend : t.appendEvent u args with
  | error e => rfl
  | ok r =>
      obtain ⟨_, _, _, hlocked⟩ := JournalTables.exists_appendLocked happend
      exact (JournalTables.appendLocked_spec hlocked v).2.2

lemma retained_appendAll (t : JournalTables) (as : List (VaultId × EventArgs)) (v : VaultId) :
    (t.appendAll as).retained v = t.retained v := by
  induction as generalizing t with
  | nil => rfl
  | cons a as ih => exact (ih (t.step (.append a.1 a.2))).trans (step_append t a.1 a.2 v)

lemma vaults_step (t : JournalTables) (op : JournalOp) : (t.step op).vaults = t.vaults := by
  cases op with
  | append u args =>
      rw [JournalTables.step]
      cases happend : t.appendEvent u args with
      | error e => rfl
      | ok r =>
          obtain ⟨_, _, _, hlocked⟩ := JournalTables.exists_appendLocked happend
          obtain ⟨-, hrow⟩ := require_bind_eq_ok_iff.mp hlocked
          obtain ⟨-, hr⟩ := Prod.mk.inj (pure_eq_ok_iff.mp hrow)
          have hvaults := congrArg JournalTables.vaults hr.symm
          exact hvaults
  | prune u retainFrom updatedAt =>
      rw [JournalTables.step]
      cases hprune : t.pruneEvents u retainFrom updatedAt with
      | error e => rfl
      | ok r =>
          obtain ⟨-, hrest⟩ := require_bind_eq_ok_iff.mp hprune
          obtain ⟨-, hrest⟩ := require_bind_eq_ok_iff.mp hrest
          obtain ⟨_, -, hrest⟩ := bind_eq_ok_iff.mp hrest
          cases hrow : t.revisions u with
          | none =>
              rw [hrow] at hrest
              obtain ⟨-, hrest⟩ := require_bind_eq_ok_iff.mp hrest
              obtain ⟨-, hr⟩ := Prod.mk.inj (pure_eq_ok_iff.mp hrest)
              exact congrArg JournalTables.vaults hr.symm
          | some row =>
              rw [hrow] at hrest
              obtain ⟨-, hrest⟩ := require_bind_eq_ok_iff.mp hrest
              obtain ⟨-, hr⟩ := Prod.mk.inj (pure_eq_ok_iff.mp hrest)
              have hvaults := congrArg JournalTables.vaults hr.symm
              exact hvaults

lemma vaults_moveStream (ms : List StreamMove) (w : StreamWorld) :
    (moveStream ms w).journal.vaults = w.journal.vaults := by
  induction ms generalizing w with
  | nil => rfl
  | cons m ms ih =>
      refine (ih (m.apply w)).trans ?_
      cases m with
      | journal op => exact vaults_step w.journal op
      | rest session now shutdown disconnected => rfl

/-! ### The reader -/

/-- **A reader that starts at `c`** and has read to the end, while others append before and between
its statements, has received every revision that was appended, or was told of a gap. -/
def ReadsTell (t : JournalTables) (v : VaultId) (c : ℕ) : Prop :=
  ∀ (as : List (VaultId × EventArgs)) (limits : List ℕ) (moves : List (List (VaultId × EventArgs)))
    (h : List JournalReading),
    h <+: ((followEvents v c limits).play (fun as t => t.appendAll as) (t.appendAll as)
      moves).events →
    ∀ before after t' page, h = before ++ [.page after t' page] → page.hasMore = false →
      ∀ r, t.current v < r → r ≤ t'.current v → r ∈ received h ∨ ¬Gapless h

/-- Others append between two statements. -/
def Appends (t t' : JournalTables) : Prop := ∃ as, t' = t.appendAll as

/-- What holds of a page while others append. -/
def PageLaw (v : VaultId) (retained : ℕ) : JournalReading → Prop
  | .looked => True
  | .page after t page => t.WellFormed ∧ t.retained v = retained ∧ ∃ state limit,
      page = eventPage state after limit (t.rowsAfter v after (limit + 1))

lemma Appends.keeps (h : Appends t t') (ht : t.WellFormed) :
    t'.WellFormed ∧ t'.retained v = t.retained v := by
  obtain ⟨as, rfl⟩ := h
  exact ⟨ht.run _, retained_appendAll t as v⟩

/-- **The pages of a reader.** -/
lemma spec_followPages (limits : List ℕ) {after retained : ℕ} {h : List JournalReading}
    (ht : t.WellFormed) (hretained : t.retained v = retained) :
    Wp Appends (fun _ r _ _ => PageLaw v retained r) (fun _ _ _ => True) (fun _ _ _ => True)
      (followEvents v after limits) h t := by
  induction limits generalizing after h t with
  | nil => exact trivial
  | cons limit limits ih =>
      refine wp_bind.mpr (wp_bind.mpr (wp_require.mpr ⟨fun _ => ?_, fun _ => trivial⟩))
      refine wp_bind.mpr (wp_require.mpr ⟨fun _ => ?_, fun _ => trivial⟩)
      refine wp_bind.mpr (wp_ask.mpr fun t₁ ht₁ => ⟨trivial, fun state _ => ?_, fun _ _ => trivial⟩)
      obtain ⟨hwf₁, hret₁⟩ := ht₁.keeps (v := v) ht
      refine fun t₂ ht₂ => ?_
      obtain ⟨hwf₂, hret₂⟩ := ht₂.keeps (v := v) hwf₁
      have hret := hret₂.trans (hret₁.trans hretained)
      refine ⟨⟨hwf₂, hret, state, min limit maxEventPageSize, rfl⟩, ?_⟩
      exact wp_bind.mpr ((ih hwf₂ hret).mono (fun _ _ _ _ => trivial) fun _ _ _ _ => trivial)

/-- A page after which there is no more has every stored revision behind its cursor. -/
lemma mem_page_of_last {after limit r : ℕ} {state : Option RevisionRow} {page : EventPage}
    (ht : t.WellFormed)
    (hpage : page = eventPage state after limit (t.rowsAfter v after (limit + 1)))
    (hlast : page.hasMore = false) (hretained : t.retained v ≤ r) (hafter : after < r)
    (hr : r ≤ t.current v) : r ∈ page.revisions := by
  have hlen : (t.rowsAfter v after (limit + 1)).length ≤ limit := by
    rw [hpage, eventPage] at hlast
    exact Nat.le_of_not_lt (of_decide_eq_false hlast)
  have hall := rowsAfter_revisions ht v after (limit + 1)
  have hwindow : (window (max (t.retained v) (after + 1)) (t.current v + 1)).length ≤ limit := by
    have hlength := congrArg List.length hall
    rw [List.length_map, List.length_take] at hlength
    omega
  rw [hpage, eventPage_revisions_take, hall, List.take_take, List.take_of_length_le (by omega),
    mem_window]
  omega

/-- **Below the current revision** the reader is told. -/
lemma readsTell_of_le (ht : t.WellFormed) (hle : c ≤ t.current v) : ReadsTell t v c := by
  intro as limits moves h hprefix before after t' page hh hlast r hr hcurrent
  by_cases hgap : Gapless h
  · refine .inl ?_
    have hstart : (t.appendAll as).WellFormed := ht.run _
    have hpages : Always (fun _ r => PageLaw v (t.retained v) r) h := by
      refine Always.initial (fun h₁ r h₂ hr => ?_) hprefix
      have hspec : Wp Appends (fun _ r _ _ => PageLaw v (t.retained v) r) (fun _ _ _ => True)
          (fun _ _ _ => True) (followEvents v c limits) [] (t.appendAll as) :=
        spec_followPages limits hstart (retained_appendAll t as v)
      obtain ⟨_, _, hG⟩ := (hspec.play (fun as _ => ⟨as, rfl⟩) moves).2.2 h₁ r h₂ hr
      exact hG
    have hreads : Always (ReadsOn v c) h := by
      refine Always.initial (fun h₁ r h₂ hr => ?_) hprefix
      have hspec : ReadSpec v c (fun pages h _ => pagesOf h = pagesOf [] ++ pages)
          (followEvents v c limits) [] (t.appendAll as) :=
        spec_followEvents limits hstart fun _ => rfl
      obtain ⟨_, _, hG⟩ := (hspec.play (fun as _ => ⟨_, rfl⟩) moves).2.2 h₁ r h₂ hr
      simpa using hG
    have hreceived := received_of_readsOn hreads hgap
    subst hh
    obtain ⟨hwf, hretained, state, limit, hpage⟩ := hpages before _ [] rfl
    obtain ⟨hafter, hrevs, -⟩ := hreads before _ [] rfl
    have hbound := ht.retained_le v
    rcases Nat.lt_or_ge after r with hlt | hge
    · -- the last page has it
      have hmem := mem_page_of_last hwf hpage hlast (by omega) hlt hcurrent
      rw [received_concat]
      exact List.mem_append_right _ (by simpa [received] using hmem)
    · -- it was received before
      rw [hreceived, mem_window, received_concat, List.length_append]
      have hafter := hafter hgap.of_concat
      omega
  · exact .inr hgap

lemma rowsAfter_of_ahead (ht : t.WellFormed) (hle : t.current v ≤ c) (n : ℕ) :
    t.rowsAfter v c n = [] := by
  have hrows := rowsAfter_revisions ht v c n
  rw [window_of_le (by omega), List.take_nil, List.map_eq_nil_iff] at hrows
  exact hrows

/-- **Above it** the next revision is passed over: the page is empty and tells of no gap. -/
lemma not_readsTell (ht : t.WellFormed) (hv : v ≠ 0) (hmem : v ∈ t.vaults)
    (hlt : t.current v < c) : ¬ReadsTell t v c := by
  intro htells
  have hcurrent := (step_append_plain ht hv hmem).1
  have hretained := step_append t v plainEvent v
  have hwf := ht.step (.append v plainEvent)
  have hbound := ht.retained_le v
  have hafter : t.appendAll [(v, plainEvent)] = t.step (.append v plainEvent) := rfl
  generalize t.step (.append v plainEvent) = t' at *
  have hrows : t'.rowsAfter v c (1 + 1) = [] := rowsAfter_of_ahead hwf (by omega) _
  have hevents : ((followEvents v c [1]).play (fun as t => t.appendAll as) t' [[], []]).events =
      [.looked] ++ [.page c t' (eventPage (t'.revisions v) c 1 [])] := by
    have hmove : t'.appendAll [] = t' := rfl
    simp [followEvents, readEvents, bind, Prog.bind, Prog.require, Prog.ask, Prog.ofExcept,
      Prog.play, hv, hmove, maxEventPageSize, hrows, pure]
  have hpage : (eventPage (t'.revisions v) c 1 []).hasGap = false := by
    have hcur : ((t'.revisions v).map RevisionRow.revision).getD 0 ≤ c := by
      rw [← JournalTables.current]
      omega
    have hret : ((t'.revisions v).map RevisionRow.retainedFrom).getD 1 - 1 ≤ c := by
      rw [← JournalTables.retained]
      omega
    simp only [eventPage, List.take_nil, List.head?_nil, Option.any_none, List.isEmpty_nil,
      Bool.true_and, Bool.or_false, Bool.or_eq_false_iff, decide_eq_false_iff_not, not_lt]
    exact ⟨hret, hcur⟩
  rcases htells [(v, plainEvent)] [1] [[], []] _ (by rw [hafter, hevents]) [.looked] c t' _ rfl rfl
    (t.current v + 1) (Nat.lt_succ_self _) hcurrent.ge with hreceived | hgap
  · simp [received, eventPage, EventPage.revisions] at hreceived
  · refine hgap fun r hr => ?_
    rcases List.mem_append.mp hr with hr | hr
    · rw [List.mem_singleton.mp hr]
      trivial
    · rw [List.mem_singleton.mp hr]
      exact hpage

/-! ### The stream -/

/-- **A stream that starts at `c`**, while others append: when a tick is over, every revision that
was appended before it read the mark is covered by a catalog frame, or one told of a gap. -/
def StreamTells (loads : String → Option Invalidations) (w : StreamWorld) (v : VaultId) (c : ℕ) :
    Prop :=
  ∀ (args : StreamArgs), args.vaultId = v → ∀ (ms : List StreamMove) (polls : ℕ)
    (moves : List (List StreamMove)), (∀ m ∈ ms, m.Appending) → (∀ ms ∈ moves, ∀ m ∈ ms, m.Appending) →
    ∀ before step rest, streamSteps loads args c polls (moveStream ms w) moves =
      before ++ step :: rest → ∀ f seen, step.event = .sent f seen → f.Settles seen →
      ∀ r, w.journal.current v < r → r ≤ markOf (before.map Step.event) →
        ∃ q ∈ before ++ [step], ∃ s n, q.event = .sent (.catalog s) n ∧
          (s.hasGap = true ∨ s.Covers loads v q.before r)

/-- **Below the current revision** the stream tells. -/
lemma streamTells_of_le (hw : w.Consistent) (hle : c ≤ w.journal.current v) :
    StreamTells loads w v c := by
  rintro args rfl ms polls moves - - before step rest hsplit f seen hsent hsettles r hr hmark
  have hstart : (moveStream ms w).Consistent := (hw.moved ⟨ms, rfl⟩).1
  obtain ⟨q, hq, s, n, hsent, hcovers⟩ :=
    recovers_of_le hstart hle before step rest hsplit f seen hsent hsettles r hr hmark
  exact ⟨q, hq, s, n, hsent, .inr hcovers⟩

lemma steps_of_ahead {n : ℕ} (hv : v ≠ 0) (hcurrent : w.journal.current v = n)
    (hretained : w.journal.retained v ≤ n + 1) (hsession : w.session = some (sessionOf v))
    (hnow : w.now = 0) (hshutdown : w.shutdown = false) (hle : n ≤ c) :
    streamSteps loads ⟨v, hv, 1, true, false⟩ c 0 w (List.replicate 5 []) =
      [⟨.looked, w, w⟩, ⟨.looked, w, w⟩, ⟨.marked n, w, w⟩, ⟨.looked, w, w⟩,
        ⟨.sent (.hello v n) c, w, w⟩] := by
  have hmove : moveStream [] w = w := rfl
  have hauth : authorizeStream w.session w.now v true = .ok () := by
    rw [hsession, hnow]
    rfl
  have hquiet : w.journal.retained v ≤ c + 1 := by omega
  simp [streamSteps, iterCatalogEventSse, goOnUnless, peek, streamTickSnapshot,
    coalescedCatchup, readMark, greet, send, bind, Prog.bind, Prog.ask, Prog.ofExcept, pure,
    Prog.steps, hmove, hauth, hcurrent, hquiet, hshutdown, hle,
    Nat.not_lt.mpr hle, subscribed, Prog.steps]

/-- **Above it** the next revision is passed over: the tick is over with the first frame. -/
lemma not_streamTells (hw : w.Consistent) (hv : v ≠ 0) (hmem : v ∈ w.journal.vaults)
    (hlt : w.journal.current v < c) : ¬StreamTells loads w v c := by
  intro htells
  have hcurrent := (step_append_plain hw.wellFormed hv hmem).1
  have hretained := (step_append w.journal v plainEvent v).trans_le (hw.wellFormed.retained_le v)
  obtain ⟨w', hw'⟩ : ∃ w', w' = moveStream
      [.journal (.append v plainEvent), .rest (some (sessionOf v)) 0 false false] w := ⟨_, rfl⟩
  have hsteps : streamSteps loads ⟨v, hv, 1, true, false⟩ c 0 w' (List.replicate 5 []) =
      [⟨.looked, w', w'⟩, ⟨.looked, w', w'⟩, ⟨.marked (w.journal.current v + 1), w', w'⟩,
        ⟨.looked, w', w'⟩, ⟨.sent (.hello v (w.journal.current v + 1)) c, w', w'⟩] := by
    subst hw'
    exact steps_of_ahead hv hcurrent (hretained.trans (Nat.le_succ _)) rfl rfl rfl hlt
  obtain ⟨q, hq, s, n, hsent, -⟩ := htells ⟨v, hv, 1, true, false⟩ rfl
    [.journal (.append v plainEvent), .rest (some (sessionOf v)) 0 false false] 0
    (List.replicate 5 []) (by simp [StreamMove.Appending]) (by simp)
    [⟨.looked, w', w'⟩, ⟨.looked, w', w'⟩, ⟨.marked (w.journal.current v + 1), w', w'⟩,
      ⟨.looked, w', w'⟩] ⟨.sent (.hello v (w.journal.current v + 1)) c, w', w'⟩ []
    (hw' ▸ hsteps) _ _ rfl hlt (w.journal.current v + 1) (Nat.lt_succ_self _) (Nat.le_refl _)
  simp only [List.cons_append, List.nil_append, List.mem_cons, List.not_mem_nil, or_false] at hq
  rcases hq with rfl | rfl | rfl | rfl | rfl <;> cases hsent

/-! ### Cursors -/

/-- **A cursor is told what is appended**, by the reader and by the stream, exactly if it is not
ahead of the journal. -/
theorem cursor_told_iff (loads : String → Option Invalidations) (vaults : List VaultId)
    (ms : List StreamMove) (v : VaultId) (hv : v ≠ 0) (hmem : v ∈ vaults) (c : ℕ) :
    let w := moveStream ms (.initial vaults)
    (ReadsTell w.journal v c ↔ c ≤ w.journal.current v) ∧
      (StreamTells loads w v c ↔ c ≤ w.journal.current v) := by
  intro w
  have hw : w.Consistent := consistent_reached vaults ms
  have hthere : v ∈ w.journal.vaults := by
    rw [vaults_moveStream]
    exact hmem
  refine ⟨⟨fun h => ?_, readsTell_of_le hw.wellFormed⟩, ⟨fun h => ?_, streamTells_of_le hw⟩⟩
  · by_contra hlt
    exact not_readsTell hw.wellFormed hv hthere (Nat.lt_of_not_le hlt) h
  · by_contra hlt
    exact not_streamTells hw hv hthere (Nat.lt_of_not_le hlt) h

/-- A journal with one event: the cursor 1 has seen it, the cursor 2 is ahead. -/
theorem cursor_told_iff_one_event :
    let w := moveStream oneEvent (.initial [1])
    (ReadsTell w.journal 1 2 ↔ 2 ≤ w.journal.current 1) ∧
      (StreamTells (fun _ => none) w 1 2 ↔ 2 ≤ w.journal.current 1) :=
  cursor_told_iff (fun _ => none) [1] oneEvent 1 (by decide) (by decide) 2

/-- A journal without events and a cursor that was kept from a longer one: the event that is
appended next is told neither by a read nor by a stream. -/
theorem exists_cursor_not_told :
    ¬ReadsTell (StreamWorld.initial [1]).journal 1 2 ∧
      ¬StreamTells (fun _ => none) (StreamWorld.initial [1]) 1 2 :=
  ⟨not_readsTell (JournalTables.wellFormed_initial [1]) (by decide) (by decide) (by decide),
    not_streamTells (consistent_initial [1]) (by decide) (by decide) (by decide)⟩

end Frostvault
