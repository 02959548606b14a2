import Frostvault.Events.Journal
import Frostvault.Lib.Effects
import Frostvault.Lib.History

/-!
Reading the journal of catalog revisions (`CatalogEventStore.read_events` of
`app/services/catalog_events.py`).

A read is two statements, the revision row and the page; appends and prunes may commit before
and between them.  A reader reads again from the last revision it received.

* `eventPage`: what a read makes of the two statements;
* `readEvents`, `followEvents`: a read, and the reader;
* `eventPage_revisions`: a page without a gap goes on right after the cursor;
* `journal_without_silent_gap`: **nothing is skipped in silence**.
-/

namespace Frostvault

open List Checks Effects History Window

/-! ### Reads -/

/-- The reply to a read. -/
structure EventPage where
  currentRevision : ℕ
  retainedFrom : ℕ
  hasGap : Bool
  hasMore : Bool
  events : List CatalogEvent
deriving DecidableEq, Repr

/-- The revisions of a page. -/
def EventPage.revisions (page : EventPage) : List ℕ := page.events.map CatalogEvent.revision

/-- `SELECT .. WHERE vault_id=%s AND revision>%s ORDER BY revision LIMIT %s`. -/
def JournalTables.rowsAfter (t : JournalTables) (v : VaultId) (after limit : ℕ) :
    List CatalogEvent :=
  (((t.eventsOf v).filter fun e => after < e.revision).insertionSort
    fun a b => a.revision ≤ b.revision).take limit

/-- The reply, from the revision row and the page after it. -/
def eventPage (state : Option RevisionRow) (after limit : ℕ) (rows : List CatalogEvent) :
    EventPage :=
  let current := (state.map RevisionRow.revision).getD 0
  let retainedFrom := (state.map RevisionRow.retainedFrom).getD 1
  let visible := rows.take limit
  let expected := max (after + 1) retainedFrom
  { currentRevision := current
    retainedFrom := retainedFrom
    hasGap := decide (after < retainedFrom - 1) ||
      visible.head?.any (fun e => expected < e.revision) ||
      (visible.isEmpty && decide (after < current))
    hasMore := limit < rows.length
    events := visible }

/-- What a reader records: a page with the tables it was read from. -/
inductive JournalReading
  | looked
  | page (after : ℕ) (t : JournalTables) (page : EventPage)

/-- `read_events`. -/
def readEvents (v : VaultId) (after limit : ℕ) :
    Prog JournalTables JournalReading JournalError EventPage := do
  .require (v ≠ 0) .vaultNotPositive
  .require (0 < limit) .limitNotPositive
  let limit := min limit maxEventPageSize
  let state ← .ask (fun _ => .looked) fun t => .ok (t.revisions v)
  let reply := fun t : JournalTables =>
    eventPage state after limit (t.rowsAfter v after (limit + 1))
  .act (fun t => .page after t (reply t)) id fun t => .ret (reply t)

/-- The cursor after a page: the last revision received. -/
def EventPage.cursor (after : ℕ) (page : EventPage) : ℕ := page.revisions.getLast?.getD after

/-- A reader that reads with the given limits. -/
def followEvents (v : VaultId) :
    ℕ → List ℕ → Prog JournalTables JournalReading JournalError (List EventPage)
  | _, [] => pure []
  | after, limit :: limits => do
      let page ← readEvents v after limit
      let pages ← followEvents v (page.cursor after) limits
      pure (page :: pages)

/-! ### Pages -/

variable {t : JournalTables} {v : VaultId} {state : Option RevisionRow} {after limit : ℕ}

/-- The rows after a cursor are the first of a window. -/
lemma rowsAfter_revisions (h : t.WellFormed) (v : VaultId) (after limit : ℕ) :
    (t.rowsAfter v after limit).map CatalogEvent.revision =
      (window (max (t.retained v) (after + 1)) (t.current v + 1)).take limit := by
  have hrows : ((t.eventsOf v).filter fun e => after < e.revision).map CatalogEvent.revision =
      window (max (t.retained v) (after + 1)) (t.current v + 1) := by
    rw [← window_after, ← h.stored v, JournalTables.stored, filter_map]
    rfl
  have hsorted : ((t.eventsOf v).filter fun e => after < e.revision).Pairwise
      fun a b => a.revision ≤ b.revision := by
    rw [← pairwise_map, hrows]
    exact window_pairwise.imp Nat.le_of_lt
  rw [JournalTables.rowsAfter, hsorted.insertionSort_eq, map_take, hrows]

lemma eventPage_revisions_take (rows : List CatalogEvent) :
    (eventPage state after limit rows).revisions =
      (rows.map CatalogEvent.revision).take limit := by
  rw [EventPage.revisions, eventPage, map_take]

@[simp] lemma EventPage.length_revisions (page : EventPage) :
    page.revisions.length = page.events.length := length_map _

/-- **A page without a gap goes on right after the cursor**, whatever happened between its two
statements. -/
lemma eventPage_revisions (h : t.WellFormed) {page : EventPage}
    (hpage : page = eventPage state after limit (t.rowsAfter v after (limit + 1)))
    (hgap : page.hasGap = false) :
    page.revisions = window (after + 1) (after + 1 + page.events.length) := by
  have hrevs : page.revisions =
      (window (max (t.retained v) (after + 1)) (t.current v + 1)).take limit := by
    rw [hpage, eventPage_revisions_take, rowsAfter_revisions h, take_take,
      Nat.min_eq_left (Nat.le_succ limit)]
  cases hevents : page.events with
  | nil =>
      rw [EventPage.revisions, hevents]
      exact (window_of_le (Nat.le_refl _)).symm
  | cons e es =>
      -- no gap is told, so the first row is the next revision
      have hfirst : e.revision ≤ after + 1 := by
        have hvisible : ((t.rowsAfter v after (limit + 1)).take limit) = e :: es := by
          rw [← hevents, hpage, eventPage]
        rw [hpage, eventPage] at hgap
        simp only [hvisible, Bool.or_eq_false_iff, decide_eq_false_iff_not, head?_cons,
          Option.any_some] at hgap
        omega
      have hhead : e.revision ∈ window (max (t.retained v) (after + 1)) (t.current v + 1) := by
        refine mem_of_mem_take (i := limit) (hrevs ▸ ?_)
        exact mem_map_of_mem (hevents ▸ mem_cons_self)
      rw [mem_window] at hhead
      have hstart : max (t.retained v) (after + 1) = after + 1 := by omega
      have hlength : page.events.length =
          min (t.current v + 1) (after + 1 + limit) - (after + 1) := by
        rw [← EventPage.length_revisions, hrevs, hstart, take_window, length_window]
      rw [← hevents, hrevs, hstart, take_window, hlength]
      congr 1
      omega

/-- An empty page without a gap is all there is after the cursor. -/
lemma eventPage_empty (h : t.WellFormed) (hlimit : 0 < limit) {page : EventPage}
    (hpage : page = eventPage state after limit (t.rowsAfter v after (limit + 1)))
    (hempty : page.events = []) : ∀ n ∈ t.stored v, n ≤ after := by
  have hrevs : page.revisions =
      (window (max (t.retained v) (after + 1)) (t.current v + 1)).take limit := by
    rw [hpage, eventPage_revisions_take, rowsAfter_revisions h, take_take,
      Nat.min_eq_left (Nat.le_succ limit)]
  intro n hn
  rw [h.stored v, mem_window] at hn
  by_contra hlt
  have hin : n ∈ window (max (t.retained v) (after + 1)) (t.current v + 1) := by
    rw [mem_window]
    omega
  rw [EventPage.revisions, hempty, map_nil, eq_comm, take_eq_nil_iff] at hrevs
  rcases hrevs with hzero | hnone
  · omega
  · rw [hnone] at hin
    cases hin

/-! ### The reader -/

/-- The revisions received in a history. -/
def received (h : List JournalReading) : List ℕ :=
  h.flatMap fun
    | .looked => []
    | .page _ _ page => page.revisions

/-- The pages of a history. -/
def pagesOf (h : List JournalReading) : List EventPage :=
  h.flatMap fun
    | .looked => []
    | .page _ _ page => [page]

/-- No page has told of a gap. -/
def Gapless (h : List JournalReading) : Prop :=
  ∀ r ∈ h, match r with
    | .looked => True
    | .page _ _ page => page.hasGap = false

/-- **A page of a reader that started at `cursor`**: it is read from where the pages so far
end, goes on from there unless it tells of a gap, and is empty only when nothing is stored
behind it. -/
def ReadsOn (v : VaultId) (cursor : ℕ) (h : List JournalReading) : JournalReading → Prop
  | .looked => True
  | .page after t page =>
      (Gapless h → after = cursor + (received h).length) ∧
        (page.hasGap = false →
          page.revisions = window (after + 1) (after + 1 + page.events.length)) ∧
        (page.events = [] → ∀ n ∈ t.stored v, n ≤ after)

/-- Between two statements others append and prune. -/
def Journals (t t' : JournalTables) : Prop := ∃ ops, t' = t.run ops

lemma Journals.wellFormed {t' : JournalTables} (hmoves : Journals t t') (h : t.WellFormed) :
    t'.WellFormed := by
  obtain ⟨ops, rfl⟩ := hmoves
  exact h.run ops

lemma received_concat (h : List JournalReading) (r : JournalReading) :
    received (h ++ [r]) = received h ++ received [r] := flatMap_append

lemma Gapless.of_concat {h : List JournalReading} {r : JournalReading} (hgap : Gapless (h ++ [r])) :
    Gapless h :=
  fun s hs => hgap s (mem_append_left _ hs)

lemma EventPage.cursor_eq {page : EventPage}
    (hpage : page.revisions = window (after + 1) (after + 1 + page.events.length)) :
    page.cursor after = after + page.events.length := by
  rw [EventPage.cursor, hpage]
  cases page.events.length with
  | zero => simp [window_of_le]
  | succ k =>
      rw [← Nat.add_assoc, ← window_concat (Nat.le_add_right _ k), getLast?_concat]
      simp only [Option.getD_some]
      omega

variable {cursor : ℕ} {h : List JournalReading}

/-- The specifications of this module. -/
abbrev ReadSpec {α : Type} (v : VaultId) (cursor : ℕ)
    (Q : α → List JournalReading → JournalTables → Prop)
    (p : Prog JournalTables JournalReading JournalError α) (h : List JournalReading)
    (t : JournalTables) : Prop :=
  Wp Journals (fun h r _ _ => ReadsOn v cursor h r) Q (fun _ _ _ => True) p h t

/-- **One read.** -/
lemma spec_readEvents (ht : t.WellFormed)
    (hcursor : Gapless h → after = cursor + (received h).length)
    {Q : EventPage → List JournalReading → JournalTables → Prop} (hQ : ∀ page h' t', t'.WellFormed →
      (Gapless h' → page.cursor after = cursor + (received h').length) →
      pagesOf h' = pagesOf h ++ [page] → Q page h' t') :
    ReadSpec v cursor Q (readEvents v after limit) h t := by
  refine wp_bind.mpr (wp_require.mpr ⟨fun _ => ?_, fun _ => trivial⟩)
  refine wp_bind.mpr (wp_require.mpr ⟨fun hlimit => ?_, fun _ => trivial⟩)
  refine wp_bind.mpr (wp_ask.mpr fun t₁ ht₁ => ⟨trivial, fun state _ => ?_, fun _ _ => trivial⟩)
  refine fun t₂ ht₂ => ?_
  have hwf : t₂.WellFormed := ht₂.wellFormed (ht₁.wellFormed ht)
  have hlooked : Gapless (h ++ [.looked]) →
      after = cursor + (received (h ++ [.looked])).length := by
    intro hgap
    rw [received_concat, length_append, hcursor hgap.of_concat]
    rfl
  refine ⟨⟨hlooked, eventPage_revisions hwf rfl, eventPage_empty hwf ?_ rfl⟩, hQ _ _ t₂ hwf ?_ ?_⟩
  · exact Nat.lt_min.mpr ⟨hlimit, by decide⟩
  · intro hgap
    have hpage := eventPage_revisions hwf rfl (hgap _ (mem_append_right _ mem_cons_self))
    rw [EventPage.cursor_eq hpage, received_concat, length_append, hlooked hgap.of_concat]
    simp [received]
    omega
  · simp only [pagesOf, flatMap_append]
    exact congrArg (· ++ _) (append_nil _)

/-- **The reader** returns the pages it records. -/
lemma spec_followEvents (limits : List ℕ) {after : ℕ} {h : List JournalReading} {t : JournalTables}
    (ht : t.WellFormed) (hcursor : Gapless h → after = cursor + (received h).length) :
    ReadSpec v cursor (fun pages h' _ => pagesOf h' = pagesOf h ++ pages)
      (followEvents v after limits) h t := by
  induction limits generalizing after h t with
  | nil => exact (append_nil _).symm
  | cons limit limits ih =>
      refine wp_bind.mpr (spec_readEvents ht hcursor fun page h' t' ht' hcursor' hpages => ?_)
      refine wp_bind.mpr ((ih ht' hcursor').mono (fun pages h'' _ hmore => ?_) fun _ _ _ => id)
      change pagesOf h'' = pagesOf h ++ page :: pages
      rw [hmore, hpages, append_assoc, singleton_append]

/-- As long as no gap is told, what was received is consecutive. -/
lemma received_of_readsOn (hall : Always (ReadsOn v cursor) h) (hgap : Gapless h) :
    received h = window (cursor + 1) (cursor + 1 + (received h).length) := by
  induction h using List.reverseRecOn with
  | nil => exact (window_of_le (Nat.le_refl _)).symm
  | append_singleton h r ih =>
      obtain ⟨hall, hr⟩ := always_concat.mp hall
      have hbefore := ih hall hgap.of_concat
      rw [received_concat]
      cases r with
      | looked => simpa [received] using hbefore
      | page after t page =>
          obtain ⟨hafter, hpage, -⟩ := hr
          have hrevs := hpage (hgap _ (mem_append_right _ mem_cons_self))
          have hafter := hafter hgap.of_concat
          have hsingle : received [.page after t page] = page.revisions := append_nil _
          rw [hsingle, length_append, EventPage.length_revisions, hrevs, hafter]
          calc received h ++ window (cursor + (received h).length + 1)
                (cursor + (received h).length + 1 + page.events.length)
              = window (cursor + 1) (cursor + 1 + (received h).length) ++
                  window (cursor + 1 + (received h).length)
                    (cursor + 1 + (received h).length + page.events.length) := by
                rw [← hbefore, Nat.add_right_comm cursor]
            _ = window (cursor + 1) (cursor + 1 + ((received h).length + page.events.length)) := by
                rw [window_append (Nat.le_add_right _ _) (Nat.le_add_right _ _), Nat.add_assoc]

/-- **No silent gap.**  After any appends and prunes the stored revisions of every Vault are the
numbers from its retention marker to its current revision.  A reader, from any cursor and with
any limits, while others append and prune before and between its statements, has received, as
long as no page told of a gap, exactly the revisions after its cursor, once and in order; a page
is empty only when nothing is stored behind its cursor; and the pages it returns are those it has
received. -/
theorem journal_without_silent_gap (vaults : List VaultId) (ops : List JournalOp) :
    let t := (JournalTables.initial vaults).run ops
    (∀ v, t.stored v = window (t.retained v) (t.current v + 1)) ∧
    ∀ v cursor limits (moves : List (List JournalOp)),
      let run := (followEvents v cursor limits).play (fun ops t => t.run ops) t moves
      (∀ h, h <+: run.events → Gapless h →
        received h = window (cursor + 1) (cursor + 1 + (received h).length) ∧
        ∀ after t' page, .page after t' page ∈ h → page.events = [] →
          ∀ n ∈ t'.stored v, n ≤ after) ∧
      ∀ pages, run.ending = .returned pages → pagesOf run.events = pages := by
  intro t
  have ht : t.WellFormed := (JournalTables.wellFormed_initial vaults).run ops
  refine ⟨ht.stored, fun v cursor limits moves => ?_⟩
  have hspec : ReadSpec v cursor (fun pages h _ => pagesOf h = pagesOf [] ++ pages)
      (followEvents v cursor limits) [] t := spec_followEvents limits ht fun _ => rfl
  obtain ⟨hreturned, -, hsteps⟩ := hspec.play (fun ops _ => ⟨ops, rfl⟩) moves
  refine ⟨fun h hprefix hgap => ?_, hreturned⟩
  have hall : Always (ReadsOn v cursor) h := by
    refine Always.initial (fun h₁ r h₂ hr => ?_) hprefix
    obtain ⟨_, _, hG⟩ := hsteps h₁ r h₂ hr
    simpa using hG
  refine ⟨received_of_readsOn hall hgap, fun after t' page hmem hempty => ?_⟩
  obtain ⟨h₁, h₂, rfl⟩ := append_of_mem hmem
  exact (hall h₁ _ h₂ rfl).2.2 hempty

end Frostvault
