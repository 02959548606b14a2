import Frostvault.Catalog
import Frostvault.Lib.Checks
import Frostvault.Lib.Windows

/-!
The journal of catalog revisions (`app/services/catalog_events.py`,
`migrations/versions/0036_catalog_events.py`).

Appends and prunes of a Vault update its row first, so they follow each other; their
transactions are steps.  A function that raises leaves the tables as they were.  A payload is
its canonical text.

* `prepareEvent`, `appendEvent`, `pruneEvents`: the writers;
* `JournalTables.WellFormed`: the stored revisions of a Vault are a window;
* `appendLocked_ok`: an append of a well-formed journal never fails.
-/

namespace Frostvault

open Checks Window

/-! ### Errors and rows -/

/-- What the journal raises. -/
inductive JournalError
  | empty (name : String)
  | containsNul (name : String)
  | tooLong (name : String) (maximum : ℕ)
  | domainsDisagree
  | unsupportedDomain
  | payloadTooLarge
  | vaultNotPositive
  | vaultMissing (vault : VaultId)
  | limitNotPositive
  | retainNotPositive
  | retainUninitialised
  | retainFuture
  /-- `catalog_events_vault_revision_uq`. -/
  | revisionTaken
deriving DecidableEq, Repr

/-- A row of `vault_catalog_revisions`. -/
structure RevisionRow where
  revision : ℕ
  retainedFrom : ℕ
  updatedAt : Stamp
deriving DecidableEq, Repr

/-- A row of `catalog_events`. -/
structure CatalogEvent where
  id : ℕ
  vaultId : VaultId
  revision : ℕ
  domain : String
  scope : String
  payload : String
  createdAt : Stamp
deriving DecidableEq, Repr

/-- The tables of the journal. -/
structure JournalTables where
  vaults : List VaultId
  revisions : VaultId → Option RevisionRow
  events : List CatalogEvent
  nextId : ℕ

/-! ### Checks -/

/-- `MAX_EVENT_DOMAIN_LENGTH`. -/
def maxEventDomainLength : ℕ := 64

/-- `MAX_EVENT_SCOPE_LENGTH`. -/
def maxEventScopeLength : ℕ := 512

/-- `MAX_EVENT_PAYLOAD_BYTES`. -/
def maxEventPayloadBytes : ℕ := 4096

/-- `MAX_EVENT_PAGE_SIZE`. -/
def maxEventPageSize : ℕ := 100

/-- `_bounded_text`, of a text.  White space beyond ASCII counts as text here; the only caller
that forbids blank texts matches them against a pattern next. -/
def boundedText (value : Option String) (name : String) (maximum : ℕ) (allowEmpty : Bool) :
    Except JournalError String := do
  let text := value.getD ""
  require (allowEmpty = true ∨ ¬text.toList.all Char.isWhitespace) (.empty name)
  require (Char.ofNat 0 ∉ text.toList) (.containsNul name)
  require (text.length ≤ maximum) (.tooLong name maximum)
  pure text

/-- `_DOMAIN_RE`: a small letter, then small letters, digits, `_`, `.` and `-`. -/
def domainMatches : List Char → Bool
  | [] => false
  | c :: cs => ('a' ≤ c && c ≤ 'z') &&
      cs.all fun d => ('a' ≤ d && d ≤ 'z') || ('0' ≤ d && d ≤ '9') || d = '_' || d = '.' || d = '-'

/-- `_domain`. -/
def eventDomain (value eventType : Option String) : Except JournalError String := do
  require (value = none ∨ eventType = none ∨ value = eventType) .domainsDisagree
  let text ← boundedText (value.or eventType) "domain" maxEventDomainLength false
  require (domainMatches text.toList = true) .unsupportedDomain
  pure text

/-- The arguments of `append_event`; a payload that is not given is empty. -/
structure EventArgs where
  domain : Option String
  eventType : Option String
  scope : Option String
  payload : Option String
  createdAt : Stamp
deriving DecidableEq, Repr

/-- `_prepare_event`. -/
def prepareEvent (args : EventArgs) : Except JournalError (String × String × String) := do
  let domain ← eventDomain args.domain args.eventType
  let scope ← boundedText args.scope "scope" maxEventScopeLength true
  let payload := args.payload.getD "{}"
  require (payload.utf8ByteSize ≤ maxEventPayloadBytes) .payloadTooLarge
  pure (domain, scope, payload)

/-! ### Writers -/

namespace JournalTables

/-- `_lock_vault`: the Vault row is there. -/
def lockVault (t : JournalTables) (v : VaultId) : Except JournalError Unit :=
  require (v ∈ t.vaults) (.vaultMissing v)

/-- `_ensure_revision_row`. -/
def ensureRevisionRow (t : JournalTables) (v : VaultId) (at_ : Stamp) : RevisionRow :=
  (t.revisions v).getD ⟨0, 1, at_⟩

/-- `_append_locked`. -/
def appendLocked (t : JournalTables) (v : VaultId) (domain scope payload : String)
    (createdAt : Stamp) : Except JournalError (CatalogEvent × JournalTables) := do
  let row := t.ensureRevisionRow v createdAt
  let event : CatalogEvent := ⟨t.nextId, v, row.revision + 1, domain, scope, payload, createdAt⟩
  require (∀ e ∈ t.events, ¬(e.vaultId = v ∧ e.revision = row.revision + 1)) .revisionTaken
  pure (event, { t with
    revisions := fun u =>
      if u = v then some ⟨row.revision + 1, row.retainedFrom, createdAt⟩ else t.revisions u
    events := t.events ++ [event]
    nextId := t.nextId + 1 })

/-- `append_event`. -/
def appendEvent (t : JournalTables) (v : VaultId) (args : EventArgs) :
    Except JournalError (CatalogEvent × JournalTables) := do
  require (v ≠ 0) .vaultNotPositive
  let (domain, scope, payload) ← prepareEvent args
  t.lockVault v
  t.appendLocked v domain scope payload args.createdAt

/-- What `prune_events` returns. -/
structure PruneResult where
  vaultId : VaultId
  deleted : ℕ
  revision : ℕ
  retainedFrom : ℕ
deriving DecidableEq, Repr

/-- `prune_events`. -/
def pruneEvents (t : JournalTables) (v : VaultId) (retainFrom : ℕ) (updatedAt : Stamp) :
    Except JournalError (PruneResult × JournalTables) := do
  require (v ≠ 0) .vaultNotPositive
  require (retainFrom ≠ 0) .retainNotPositive
  t.lockVault v
  match t.revisions v with
  | none => do
      require (retainFrom = 1) .retainUninitialised
      pure (⟨v, 0, 0, 1⟩, t)
  | some row => do
      require (retainFrom ≤ row.revision + 1) .retainFuture
      let gone := fun e : CatalogEvent => decide (e.vaultId = v) && decide (e.revision < retainFrom)
      let retained := max row.retainedFrom retainFrom
      pure (⟨v, t.events.countP gone, row.revision, retained⟩, { t with
        events := t.events.filter fun e => !gone e
        revisions := fun u =>
          if u = v then some ⟨row.revision, retained, updatedAt⟩ else t.revisions u })

/-! ### Runs -/

/-- The tables of an installation whose Vaults have published nothing. -/
def initial (vaults : List VaultId) : JournalTables := ⟨vaults, fun _ => none, [], 1⟩

end JournalTables

/-- A call of a writer, in a transaction of its own. -/
inductive JournalOp
  | append (v : VaultId) (args : EventArgs)
  | prune (v : VaultId) (retainFrom : ℕ) (updatedAt : Stamp)
deriving DecidableEq, Repr

namespace JournalTables

/-- The tables after a call; one that raises is rolled back. -/
def step (t : JournalTables) : JournalOp → JournalTables
  | .append v args =>
      match t.appendEvent v args with
      | .ok r => r.2
      | .error _ => t
  | .prune v retainFrom updatedAt =>
      match t.pruneEvents v retainFrom updatedAt with
      | .ok r => r.2
      | .error _ => t

/-- The tables after some calls. -/
def run (t : JournalTables) (ops : List JournalOp) : JournalTables := ops.foldl step t

/-! ### The window of a Vault -/

/-- `current_revision`. -/
def current (t : JournalTables) (v : VaultId) : ℕ :=
  ((t.revisions v).map RevisionRow.revision).getD 0

/-- The retention marker. -/
def retained (t : JournalTables) (v : VaultId) : ℕ :=
  ((t.revisions v).map RevisionRow.retainedFrom).getD 1

/-- The events of a Vault. -/
def eventsOf (t : JournalTables) (v : VaultId) : List CatalogEvent :=
  t.events.filter fun e => e.vaultId = v

/-- The stored revisions of a Vault. -/
def stored (t : JournalTables) (v : VaultId) : List ℕ := (t.eventsOf v).map CatalogEvent.revision

/-- The invariant of the journal. -/
structure WellFormed (t : JournalTables) : Prop where
  stored : ∀ v, t.stored v = window (t.retained v) (t.current v + 1)
  retained_pos : ∀ v, 1 ≤ t.retained v
  retained_le : ∀ v, t.retained v ≤ t.current v + 1

variable {t t' : JournalTables} {v : VaultId}

lemma ensureRevisionRow_revision (t : JournalTables) (v : VaultId) (at_ : Stamp) :
    (t.ensureRevisionRow v at_).revision = t.current v := by
  unfold ensureRevisionRow current
  cases t.revisions v <;> rfl

lemma ensureRevisionRow_retainedFrom (t : JournalTables) (v : VaultId) (at_ : Stamp) :
    (t.ensureRevisionRow v at_).retainedFrom = t.retained v := by
  unfold ensureRevisionRow retained
  cases t.revisions v <;> rfl

lemma wellFormed_initial (vaults : List VaultId) : (initial vaults).WellFormed where
  stored := fun _ => rfl
  retained_pos := fun _ => Nat.le_refl 1
  retained_le := fun _ => Nat.le_refl 1

/-- The next revision is not taken, so an append does not fail. -/
lemma appendLocked_ok (h : t.WellFormed) (v : VaultId) (domain scope payload : String)
    (createdAt : Stamp) : ∃ r, t.appendLocked v domain scope payload createdAt = .ok r := by
  refine ⟨_, require_bind_eq_ok_iff.mpr ⟨?_, rfl⟩⟩
  rintro e he ⟨hv, hrev⟩
  have hmem : e.revision ∈ t.stored v :=
    List.mem_map_of_mem (List.mem_filter.mpr ⟨he, by simpa using hv⟩)
  rw [h.stored v, mem_window, hrev, ensureRevisionRow_revision] at hmem
  omega

/-- An append that returns wrote its row under the lock. -/
lemma exists_appendLocked {args : EventArgs} {r : CatalogEvent × JournalTables}
    (h : t.appendEvent v args = .ok r) : ∃ domain scope payload,
      t.appendLocked v domain scope payload args.createdAt = .ok r := by
  obtain ⟨-, hrest⟩ := require_bind_eq_ok_iff.mp h
  obtain ⟨_, -, hrest⟩ := bind_eq_ok_iff.mp hrest
  obtain ⟨_, -, hlocked⟩ := bind_eq_ok_iff.mp hrest
  exact ⟨_, _, _, hlocked⟩

/-- What an append does to the revisions: the Vault gets one more. -/
lemma appendLocked_spec {domain scope payload : String} {createdAt : Stamp} {e : CatalogEvent}
    (h : t.appendLocked v domain scope payload createdAt = .ok (e, t')) (u : VaultId) :
    t'.stored u = (if u = v then t.stored u ++ [t.current u + 1] else t.stored u) ∧
      t'.current u = (if u = v then t.current u + 1 else t.current u) ∧
      t'.retained u = t.retained u := by
  obtain ⟨-, h⟩ := require_bind_eq_ok_iff.mp h
  cases pure_eq_ok_iff.mp h
  by_cases hu : u = v
  · subst hu
    refine ⟨?_, ?_, ?_⟩
    · simp [stored, eventsOf, ensureRevisionRow_revision]
    · rw [if_pos rfl, ← ensureRevisionRow_revision t u createdAt]
      simp [current]
    · rw [← ensureRevisionRow_retainedFrom t u createdAt]
      simp [retained]
  · refine ⟨?_, ?_, ?_⟩
    · simp [stored, eventsOf, hu, Ne.symm hu]
    · simp [current, hu]
    · simp [retained, hu]

/-- What a prune does to the revisions: the Vault keeps those from a marker on. -/
lemma pruneEvents_spec {retainFrom : ℕ} {updatedAt : Stamp} {r : PruneResult}
    (h : t.pruneEvents v retainFrom updatedAt = .ok (r, t')) :
    t' = t ∨ (retainFrom ≤ t.current v + 1 ∧ ∀ u,
      t'.stored u = (if u = v then (t.stored u).filter fun n => !decide (n < retainFrom)
        else t.stored u) ∧
      t'.current u = t.current u ∧
      t'.retained u = if u = v then max (t.retained u) retainFrom else t.retained u) := by
  obtain ⟨-, h⟩ := require_bind_eq_ok_iff.mp h
  obtain ⟨-, h⟩ := require_bind_eq_ok_iff.mp h
  obtain ⟨_, -, h⟩ := bind_eq_ok_iff.mp h
  cases hrow : t.revisions v with
  | none =>
      rw [hrow] at h
      obtain ⟨-, h⟩ := require_bind_eq_ok_iff.mp h
      exact .inl (Prod.mk.inj (pure_eq_ok_iff.mp h)).2.symm
  | some row =>
      rw [hrow] at h
      obtain ⟨hle, h⟩ := require_bind_eq_ok_iff.mp h
      cases pure_eq_ok_iff.mp h
      refine .inr ⟨by simpa [current, hrow] using hle, fun u => ?_⟩
      by_cases hu : u = v
      · subst hu
        refine ⟨?_, ?_, ?_⟩
        · simp only [stored, eventsOf, List.filter_map, List.filter_filter, ↓reduceIte]
          congr 1
          refine List.filter_congr fun e _ => ?_
          by_cases hv : e.vaultId = u <;> simp [hv]
        · simp [current, hrow]
        · simp [retained, hrow]
      · refine ⟨?_, ?_, ?_⟩
        · simp only [stored, eventsOf, List.filter_filter, if_neg hu]
          congr 1
          refine List.filter_congr fun e _ => ?_
          by_cases hv : e.vaultId = u <;> simp [hv, hu]
        · simp [current, hu]
        · simp [retained, hu]

/-- **One call keeps the windows.** -/
lemma WellFormed.step (h : t.WellFormed) (op : JournalOp) : (t.step op).WellFormed := by
  cases op with
  | append v args =>
      rw [JournalTables.step]
      cases happend : t.appendEvent v args with
      | error e => exact h
      | ok r =>
          obtain ⟨_, _, _, hlocked⟩ := exists_appendLocked happend
          have hspec := appendLocked_spec hlocked
          refine ⟨fun u => ?_, fun u => ?_, fun u => ?_⟩
          · obtain ⟨hstored, hcurrent, hretained⟩ := hspec u
            rw [hstored, hcurrent, hretained, h.stored u]
            split
            · exact window_concat (h.retained_le u)
            · rfl
          · exact (hspec u).2.2 ▸ h.retained_pos u
          · have hle := h.retained_le u
            rw [(hspec u).2.2, (hspec u).2.1]
            split <;> omega
  | prune v retainFrom updatedAt =>
      rw [JournalTables.step]
      cases hprune : t.pruneEvents v retainFrom updatedAt with
      | error e => exact h
      | ok r =>
          rcases pruneEvents_spec hprune with heq | ⟨hmarker, hspec⟩
          · exact heq ▸ h
          refine ⟨fun u => ?_, fun u => ?_, fun u => ?_⟩
          · obtain ⟨hstored, hcurrent, hretained⟩ := hspec u
            rw [hstored, hcurrent, hretained, h.stored u]
            split
            · exact window_prune
            · rfl
          · have hpos := h.retained_pos u
            rw [(hspec u).2.2]
            split <;> omega
          · have hle := h.retained_le u
            rw [(hspec u).2.2, (hspec u).2.1]
            split
            · next hu =>
              subst hu
              omega
            · exact hle

lemma WellFormed.run (h : t.WellFormed) (ops : List JournalOp) : (t.run ops).WellFormed := by
  induction ops generalizing t with
  | nil => exact h
  | cons op ops ih => exact ih (h.step op)

end JournalTables

end Frostvault
