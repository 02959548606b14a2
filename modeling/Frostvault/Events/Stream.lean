import Frostvault.Aggregates.Rollup
import Frostvault.Events.Reader

/-!
The stream of catalog invalidations (`app/services/catalog_event_stream.py`,
`app/services/catalog_event_hub.py` and the events route of `app/main.py`).

A stream reads the journal in ticks of three statements (the session, the revision row, a page of
events); between two statements others append, prune and change the session.  What it sends is a
signal: the newest revision, the domains to read again, and whether everything is to be read again.

* `normalizeInvalidateDomains`, `signalFromEvent`, `coalesceSignals`: signals;
* `coalescedCatchup`, `streamTickSnapshot`: a tick;
* `iterCatalogEventSse`: the stream;
* `SseFrame.id`, `resumeAfter`: how a client goes on;
* `coalesceSignals_spec`: **a merged signal lists the domains of all**.
-/

namespace Frostvault

open List Effects

/-! ### Domains -/

/-- `str.strip`. -/
def stripText (s : String) : String := String.ofList (Text.strip isSpace s.toList)

/-- A JSON value, as far as the invalidation domains in it are read: of a mapping two keys, of a
list the texts of its items. -/
inductive Invalidations
  | null
  | text (s : String)
  | mapping (invalidate domains : Invalidations)
  | items (texts : List String)
  | other
deriving DecidableEq, Repr

/-- `DEFAULT_INVALIDATE_DOMAINS`. -/
def defaultInvalidateDomains : List String := ["files", "stats"]

/-- The domains, each once; if there are none, the default ones. -/
def orderedDomains (domains : List String) : List String :=
  match domains.eraseDups with
  | [] => defaultInvalidateDomains
  | d :: ds => d :: ds

/-- The texts that are left when they are stripped. -/
def strippedDomains (texts : List String) : List String :=
  (texts.map stripText).filter fun d => d ≠ ""

/-- `normalize_invalidate_domains`. -/
def normalizeInvalidateDomains : Invalidations → List String
  | .null => orderedDomains defaultInvalidateDomains
  | .text s => orderedDomains (strippedDomains (s.splitOn ","))
  | .mapping .null domains => normalizeInvalidateDomains domains
  | .mapping invalidate _ => normalizeInvalidateDomains invalidate
  | .items texts => orderedDomains (strippedDomains texts)
  | .other => orderedDomains defaultInvalidateDomains

/-! ### Signals -/

/-- A signal. -/
structure Signal where
  vaultId : VaultId
  revision : ℕ
  domains : List String
  hasGap : Bool
deriving DecidableEq, Repr

/-- `coalesce_signals` raises. -/
inductive StreamFault
  | acrossVaults
deriving DecidableEq, Repr

/-- The payload of a row, with `json.loads` as a parameter: one that is no mapping is empty. -/
def decodedPayload (loads : String → Option Invalidations) (payload : String) : Invalidations :=
  match loads (if payload = "" then "{}" else payload) with
  | some (.mapping invalidate domains) => .mapping invalidate domains
  | _ => .mapping .null .null

/-- The invalidation domains of an event. -/
def CatalogEvent.invalidates (loads : String → Option Invalidations) (e : CatalogEvent) :
    List String :=
  let domains := normalizeInvalidateDomains (decodedPayload loads e.payload)
  if domains = [] ∧ e.domain ≠ "" then normalizeInvalidateDomains (.text e.domain) else domains

/-- `signal_from_event`, of a row. -/
def signalFromEvent (loads : String → Option Invalidations) (e : CatalogEvent) : Signal :=
  ⟨e.vaultId, e.revision, e.invalidates loads, false⟩

/-- One more signal. -/
def coalesceInto (merged : Option Signal) (s : Signal) : Except StreamFault (Option Signal) :=
  let domains := normalizeInvalidateDomains (.items s.domains)
  match merged with
  | none => .ok (some { s with domains := domains })
  | some m =>
      if s.vaultId ≠ m.vaultId then .error .acrossVaults
      else .ok (some
        { vaultId := m.vaultId
          revision := max m.revision s.revision
          domains := normalizeInvalidateDomains (.items (m.domains ++ domains))
          hasGap := m.hasGap || s.hasGap })

/-- `coalesce_signals`. -/
def coalesceSignals (signals : List Signal) : Except StreamFault (Option Signal) :=
  signals.foldlM coalesceInto none

/-- `_invalidate_all_signal`. -/
def invalidateAllSignal (v : VaultId) (revision : ℕ) : Signal :=
  ⟨v, revision, normalizeInvalidateDomains .null, true⟩

/-! ### The session -/

/-- `StreamErrorCode`. -/
inductive StreamErrorCode
  | sessionRevoked | sessionExpired | sessionVersionMismatch | vaultAccessRevoked | vaultSwitched
deriving DecidableEq, Repr

/-- What the authorization statement of a tick finds; a time that does not parse is absent. -/
structure SessionRow where
  sessionVaultId : Option VaultId
  revokedAt : Option Stamp
  idleExpiresAt : Option Stamp
  absoluteExpiresAt : Option Stamp
  sessionVersion : ℕ
  userVersion : ℕ
  vaultAvailable : Bool
deriving DecidableEq, Repr

/-- The authorization of `stream_tick_snapshot`: an error, with the Vault of the session. -/
def authorizeStream (row : Option SessionRow) (now : Stamp) (v : VaultId) (explicitVault : Bool) :
    Except (StreamErrorCode × Option VaultId) Unit :=
  match row with
  | none => .error (.sessionRevoked, none)
  | some row =>
      if row.revokedAt.isSome then .error (.sessionRevoked, none)
      else if row.sessionVersion ≠ row.userVersion then .error (.sessionVersionMismatch, none)
      else if row.absoluteExpiresAt.all (· ≤ now) ∨ row.idleExpiresAt.all (· ≤ now) then
        .error (.sessionExpired, none)
      else if explicitVault = false ∧ row.sessionVaultId ≠ some v then
        .error (.vaultSwitched, row.sessionVaultId)
      else if row.vaultAvailable = false then .error (.vaultAccessRevoked, row.sessionVaultId)
      else .ok ()

/-! ### The stream -/

/-- A frame. -/
inductive SseFrame
  | hello (v : VaultId) (revision : ℕ)
  | catalog (s : Signal)
  | error (code : StreamErrorCode) (v : VaultId) (current : Option VaultId)
  | keepalive
deriving DecidableEq, Repr

/-- The `id` of a frame. -/
def SseFrame.id : SseFrame → Option ℕ
  | .hello _ revision => if 0 < revision then some revision else none
  | .catalog s => some s.revision
  | .error _ _ _ | .keepalive => none

/-- What a stream shares with the others. -/
structure StreamWorld where
  journal : JournalTables
  /-- Every event that was ever committed. -/
  committed : List CatalogEvent
  session : Option SessionRow
  now : Stamp
  /-- `shutdown_state.requested`. -/
  shutdown : Bool
  /-- `is_disconnected`. -/
  disconnected : Bool

/-- What is recorded of a stream: a look, the high-water mark a tick reads, and a frame with the
value of `last_seen` once it is sent. -/
inductive StreamEvent
  | looked
  | marked (current : ℕ)
  | sent (f : SseFrame) (seen : ℕ)
deriving DecidableEq, Repr

/-- The programs of a stream. -/
abbrev Streaming := Prog StreamWorld StreamEvent StreamFault

/-- A statement, or a look. -/
def peek {α : Type} (f : StreamWorld → α) : Streaming α :=
  .ask (fun _ => .looked) fun w => .ok (f w)

/-- Go on unless something is so. -/
def goOnUnless (stop : StreamWorld → Bool) (next : Streaming Unit) : Streaming Unit := do
  let stopped ← peek stop
  if stopped then pure () else next

/-- `yield`. -/
def send (f : SseFrame) (seen : ℕ) : Streaming Unit :=
  .act (fun _ => .sent f seen) id fun _ => .ret ()

/-- `SELECT revision, retained_from_revision`. -/
def readMark (v : VaultId) : Streaming (ℕ × ℕ) :=
  .act (fun w => .marked (w.journal.current v)) id fun w =>
    .ret (w.journal.current v, w.journal.retained v)

/-- What `coalesced_catchup_from_connection` makes of its page. -/
def catchupPage (loads : String → Option Invalidations) (v : VaultId)
    (after maxEvents current retained : ℕ) (rows : List CatalogEvent) :
    Except StreamFault Signal :=
  match rows.take maxEvents with
  | [] =>
      if after < current then .ok (invalidateAllSignal v current)
      else .ok ⟨v, current, [], false⟩
  | e :: es =>
      if max (after + 1) retained < e.revision then .ok (invalidateAllSignal v current)
      else if maxEvents < rows.length then .ok (invalidateAllSignal v current)
      else (coalesceSignals ((e :: es).map (signalFromEvent loads))).map fun merged =>
        merged.getD ⟨v, current, [], false⟩

/-- `coalesced_catchup_from_connection`. -/
def coalescedCatchup (loads : String → Option Invalidations) (v : VaultId)
    (after maxEvents : ℕ) : Streaming Signal := do
  let (current, retained) ← readMark v
  if current ≤ after ∧ retained - 1 ≤ after then pure ⟨v, current, [], false⟩
  else if after < retained - 1 then pure (invalidateAllSignal v current)
  else do
    let maxEvents := max 1 (min maxEvents maxEventPageSize)
    let rows ← peek fun w => w.journal.rowsAfter v after (maxEvents + 1)
    .ofExcept (catchupPage loads v after maxEvents current retained rows)

/-- The arguments of a stream; the Vault is one there is. -/
structure StreamArgs where
  vaultId : VaultId
  vault_ne : vaultId ≠ 0
  maxEvents : ℕ
  explicitVault : Bool
  subscribe : Bool

/-- `stream_tick_snapshot`. -/
def streamTickSnapshot (loads : String → Option Invalidations) (args : StreamArgs) (after : ℕ) :
    Streaming (Except (StreamErrorCode × Option VaultId) Signal) := do
  let authorized ← peek fun w =>
    authorizeStream w.session w.now args.vaultId args.explicitVault
  match authorized with
  | .error e => pure (.error e)
  | .ok () => do
      let s ← coalescedCatchup loads args.vaultId after args.maxEvents
      pure (.ok s)

/-- The loop of `iter_catalog_event_sse`, for a number of ticks. -/
def pollCatalog (loads : String → Option Invalidations) (args : StreamArgs) :
    ℕ → ℕ → Streaming Unit
  | 0, _ => pure ()
  | polls + 1, seen =>
      goOnUnless StreamWorld.shutdown <| goOnUnless StreamWorld.disconnected <|
      -- the wait for a notification
      goOnUnless StreamWorld.shutdown <| goOnUnless StreamWorld.disconnected do
        let tick ← streamTickSnapshot loads args seen
        goOnUnless StreamWorld.shutdown <| match tick with
          | .error (code, current) => send (.error code args.vaultId current) seen
          | .ok s =>
              if s.revision ≤ seen ∧ s.hasGap = false then do
                send .keepalive seen
                pollCatalog loads args polls seen
              else do
                send (.catalog s) (max seen s.revision)
                pollCatalog loads args polls (max seen s.revision)

/-- The loop, when the client subscribes. -/
def subscribed (loads : String → Option Invalidations) (args : StreamArgs) (polls seen : ℕ) :
    Streaming Unit :=
  if args.subscribe then pollCatalog loads args polls seen else pure ()

/-- The first frames of a stream. -/
def greet (loads : String → Option Invalidations) (args : StreamArgs) (resumeAfter polls : ℕ)
    (s : Signal) : Streaming Unit := do
  send (.hello args.vaultId s.revision) resumeAfter
  if resumeAfter < s.revision ∨ s.hasGap then do
    send (.catalog s) (max resumeAfter s.revision)
    subscribed loads args polls (max resumeAfter s.revision)
  else subscribed loads args polls resumeAfter

/-- `iter_catalog_event_sse`, for a number of ticks. -/
def iterCatalogEventSse (loads : String → Option Invalidations) (args : StreamArgs)
    (resumeAfter polls : ℕ) : Streaming Unit :=
  goOnUnless StreamWorld.shutdown do
    let initial ← streamTickSnapshot loads args resumeAfter
    goOnUnless StreamWorld.shutdown <| match initial with
      | .error (code, current) => send (.error code args.vaultId current) resumeAfter
      | .ok s => greet loads args resumeAfter polls s

/-- `catalog_events_stream`: where a stream starts. -/
def resumeAfter (afterRevision : ℕ) (lastEventId : Option ℕ) : ℕ :=
  max afterRevision (lastEventId.getD 0)

/-! ### What a merged signal lists -/

/-- A domain as it is sent. -/
def CleanDomain (d : String) : Prop := stripText d = d ∧ d ≠ ""

lemma stripText_stripText (s : String) : stripText (stripText s) = stripText s := by
  rw [stripText, stripText, String.toList_ofList, Text.strip_strip]

lemma mem_orderedDomains {ds : List String} {d : String} (hd : d ∈ ds) : d ∈ orderedDomains ds := by
  have hmem : d ∈ ds.eraseDups := mem_eraseDups.mpr hd
  rw [orderedDomains]
  split
  · rename_i hnil
    rw [hnil] at hmem
    cases hmem
  · rename_i e es hcons
    rwa [hcons] at hmem

lemma clean_orderedDomains {ds : List String} (hds : ∀ d ∈ ds, CleanDomain d) :
    ∀ d ∈ orderedDomains ds, CleanDomain d := by
  rw [orderedDomains]
  split
  · intro d hd
    have hdefault : ∀ d ∈ defaultInvalidateDomains, CleanDomain d := by
      unfold CleanDomain
      decide
    exact hdefault d hd
  · rename_i e es heq
    exact fun d hd => hds d (mem_eraseDups.mp (heq ▸ hd))

lemma clean_strippedDomains (texts : List String) : ∀ d ∈ strippedDomains texts, CleanDomain d := by
  intro d hd
  obtain ⟨hmem, hne⟩ := mem_filter.mp hd
  obtain ⟨s, -, rfl⟩ := mem_map.mp hmem
  exact ⟨stripText_stripText s, by simpa using hne⟩

lemma clean_normalize (value : Invalidations) :
    ∀ d ∈ normalizeInvalidateDomains value, CleanDomain d := by
  have hdefault : ∀ d ∈ orderedDomains defaultInvalidateDomains, CleanDomain d :=
    clean_orderedDomains (by unfold CleanDomain; decide)
  fun_induction normalizeInvalidateDomains value with
  | case1 => exact hdefault
  | case2 s => exact clean_orderedDomains (clean_strippedDomains _)
  | case3 domains ih => exact ih
  | case4 invalidate _ _ ih => exact ih
  | case5 texts => exact clean_orderedDomains (clean_strippedDomains _)
  | case6 => exact hdefault

lemma mem_normalize_items {ds : List String} {d : String} (hd : d ∈ ds) (hclean : CleanDomain d) :
    d ∈ normalizeInvalidateDomains (.items ds) := by
  refine mem_orderedDomains (mem_filter.mpr ⟨?_, by simpa using hclean.2⟩)
  exact mem_map.mpr ⟨d, hd, hclean.1⟩

/-- What merging has come to: the revision is one of the signals', none is newer, and the domains
of all are listed. -/
structure Merges (v : VaultId) (ss : List Signal) (m : Signal) : Prop where
  vault : m.vaultId = v
  newest : ∃ s ∈ ss, m.revision = s.revision
  bound : ∀ s ∈ ss, s.revision ≤ m.revision
  domains : ∀ s ∈ ss, ∀ d ∈ s.domains, d ∈ m.domains
  clean : ∀ d ∈ m.domains, CleanDomain d
  gap : m.hasGap = false

lemma Merges.snoc {v : VaultId} {ss : List Signal} {m s : Signal} (h : Merges v ss m)
    (hvault : s.vaultId = v) (hgap : s.hasGap = false) (hclean : ∀ d ∈ s.domains, CleanDomain d) :
    ∃ m', coalesceInto (some m) s = .ok (some m') ∧ Merges v (ss ++ [s]) m' := by
  refine ⟨_, if_neg fun hne => hne (hvault.trans h.vault.symm), h.vault, ?_, ?_, ?_, ?_, ?_⟩
  · obtain ⟨s₀, hs₀, hrevision⟩ := h.newest
    rcases Nat.le_total m.revision s.revision with hle | hle
    · exact ⟨s, mem_append_right _ mem_cons_self, max_eq_right hle⟩
    · exact ⟨s₀, mem_append_left _ hs₀, (max_eq_left hle).trans hrevision⟩
  · intro s₀ hs₀
    rcases mem_append.mp hs₀ with hs₀ | hs₀
    · exact (h.bound s₀ hs₀).trans (le_max_left _ _)
    · exact mem_singleton.mp hs₀ ▸ le_max_right _ _
  · intro s₀ hs₀ d hd
    rcases mem_append.mp hs₀ with hs₀ | hs₀
    · have hmem := h.domains s₀ hs₀ d hd
      exact mem_normalize_items (mem_append_left _ hmem) (h.clean d hmem)
    · obtain rfl := mem_singleton.mp hs₀
      have hmem := mem_normalize_items hd (hclean d hd)
      exact mem_normalize_items (mem_append_right _ hmem) (hclean d hd)
  · exact clean_normalize _
  · change (m.hasGap || s.hasGap) = false
    rw [h.gap, hgap]
    rfl

/-- **A merged signal lists the domains of all**, at the newest revision. -/
theorem coalesceSignals_spec {v : VaultId} {s : Signal} {ss : List Signal}
    (hvault : ∀ t ∈ s :: ss, t.vaultId = v) (hgap : ∀ t ∈ s :: ss, t.hasGap = false)
    (hclean : ∀ t ∈ s :: ss, ∀ d ∈ t.domains, CleanDomain d) :
    ∃ m, coalesceSignals (s :: ss) = .ok (some m) ∧ Merges v (s :: ss) m := by
  have hfold (seen rest : List Signal) (m : Signal) (h : Merges v seen m)
      (hrest : ∀ t ∈ rest, t ∈ s :: ss) :
      ∃ m', rest.foldlM coalesceInto (some m) = .ok (some m') ∧ Merges v (seen ++ rest) m' := by
    induction rest generalizing seen m with
    | nil => exact ⟨m, rfl, by rwa [append_nil]⟩
    | cons t rest ih =>
        have ht := hrest t mem_cons_self
        obtain ⟨m₁, hm₁, hmerges⟩ := h.snoc (hvault t ht) (hgap t ht) (hclean t ht)
        obtain ⟨m', hm', hall⟩ := ih (seen ++ [t]) m₁ hmerges fun u hu =>
          hrest u (mem_cons_of_mem _ hu)
        refine ⟨m', ?_, by simpa using hall⟩
        rw [foldlM_cons, hm₁]
        exact hm'
  have hs := mem_cons_self (a := s) (l := ss)
  have hfirst : Merges v [s]
      { s with domains := normalizeInvalidateDomains (.items s.domains) } := by
    refine ⟨hvault s hs, ⟨s, mem_cons_self, rfl⟩, ?_, ?_, clean_normalize _, hgap s hs⟩
    · exact fun t ht => mem_singleton.mp ht ▸ Nat.le_refl _
    · intro t ht d hd
      obtain rfl := mem_singleton.mp ht
      exact mem_normalize_items hd (hclean t hs d hd)
  obtain ⟨m, hm, hmerges⟩ := hfold [s] ss _ hfirst fun t ht => mem_cons_of_mem _ ht
  exact ⟨m, hm, hmerges⟩

/-- The domains of an event are clean. -/
lemma clean_invalidates (loads : String → Option Invalidations) (e : CatalogEvent) :
    ∀ d ∈ e.invalidates loads, CleanDomain d := by
  rw [CatalogEvent.invalidates]
  split
  · exact clean_normalize _
  · exact clean_normalize _

end Frostvault
