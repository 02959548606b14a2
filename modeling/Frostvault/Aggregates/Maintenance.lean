import Frostvault.Catalog
import Frostvault.Lib.FairRuns

/-!
Who maintains which Vault (`app/services/directory_aggregates.py`): the registry of maintenance
calls under `_maintenance_lock`.

A call of `process_directory_aggregate_maintenance` claims a Vault before it flushes it, and gives
all of its claims back when it ends, whether it raises or not.  A request for a Vault that is
claimed, or that has a worker already, is written down as pending.  The call that gives the Vault
back takes it down and schedules the Vault again, and so does a worker that leaves its slot.

Every action is what one thread does while it holds the lock, or between two times it does.

* `tryClaimVaultMaintenance`, `releaseVaultMaintenance`, `scheduleMaintenance`, `leaveSlot`: the
  registry;
* `MaintenanceAct`, `maintain`: the calls and their threads;
* `Registry.Moves`: what an action does, case by case;
* `Registry.Ok`: what is owned is held by a call, and what is pending has an owner or a worker;
* `Registry.maintain_ok`: **every action keeps it**.
-/

namespace Frostvault

/-! ### The registry -/

/-- A call of `process_directory_aggregate_maintenance`; its number stands for its `owner` and,
if it was scheduled, for its thread. -/
abbrev CallId := ℕ

/-- Where a call is. -/
inductive CallPhase
  /-- In the `try`: whether it has tried to claim a Vault, `claimed`, and the Vault it flushes. -/
  | running (tried : Bool) (claimed : List VaultId) (flushing : Option VaultId)
  /-- In the first loop of the `finally`, with `pending_vaults`. -/
  | releasing (claimed pendingVaults : List VaultId)
  /-- In the second one. -/
  | rescheduling (pendingVaults : List VaultId)
  /-- Back in `_run_scheduled_maintenance`. -/
  | epilogue
  /-- Out of its slot, with `follow_up_vault`. -/
  | followUp (vault : Option VaultId)
  | done
deriving DecidableEq, Repr

/-- A call: for one Vault or for all of them, in a thread of its own or not. -/
structure MaintenanceCall where
  vaultId : Option VaultId
  scheduled : Bool
  phase : CallPhase
deriving DecidableEq, Repr

/-- `_maintenance_inflight`, `_vault_maintenance_owners` and `_vault_maintenance_pending`, with
the calls so far. -/
structure Registry where
  calls : List MaintenanceCall
  inflight : Option VaultId → Option CallId
  owners : VaultId → Option CallId
  pending : Finset VaultId

/-- A process that has just started. -/
def Registry.empty : Registry := ⟨[], fun _ => none, fun _ => none, ∅⟩

namespace Registry

variable (r : Registry)

/-- `thread.is_alive()`. -/
def isAlive (t : CallId) : Bool := r.calls[t]?.any fun c => c.phase ≠ .done

/-- The call goes on. -/
def goTo (t : CallId) (phase : CallPhase) : Registry :=
  { r with calls := r.calls.modify t fun c => { c with phase := phase } }

/-- A call that begins. -/
def begin (vaultId : Option VaultId) (scheduled : Bool) : Registry :=
  { r with calls := r.calls ++ [⟨vaultId, scheduled, .running false [] none⟩] }

/-- `_vault_maintenance_pending.add(vault_id)`. -/
def askAgain (v : VaultId) : Registry := { r with pending := insert v r.pending }

/-- `_try_claim_vault_maintenance`. -/
def tryClaimVaultMaintenance (v : VaultId) (owner : CallId) : Registry × Bool :=
  if ∃ current ∈ r.owners v, current ≠ owner then (r.askAgain v, false)
  else ({ r with owners := Function.update r.owners v (some owner) }, true)

/-- `_release_vault_maintenance`. -/
def releaseVaultMaintenance (v : VaultId) (owner : CallId) : Registry × Bool :=
  ({ r with
    owners := if r.owners v = some owner then Function.update r.owners v none else r.owners
    pending := r.pending.erase v }, decide (v ∈ r.pending))

/-- A worker in its slot. -/
def startWorker (vaultId : Option VaultId) : Registry :=
  { r.begin vaultId true with
    inflight := Function.update r.inflight vaultId (some r.calls.length) }

/-- `schedule_directory_aggregate_maintenance`. -/
def scheduleMaintenance (vaultId : Option VaultId) : Registry × Bool :=
  match vaultId with
  | some v =>
      if (r.owners v).isSome then (r.askAgain v, false)
      else if (r.inflight (some v)).any r.isAlive then (r.askAgain v, false)
      else (r.startWorker (some v), true)
  | none =>
      if (r.inflight none).any r.isAlive then (r, false) else (r.startWorker none, true)

/-- The `finally` of `_run_scheduled_maintenance`, under the lock. -/
def leaveSlot (vaultId : Option VaultId) (thread : CallId) : Registry × Option VaultId :=
  if r.inflight vaultId = some thread then
    let left := { r with inflight := Function.update r.inflight vaultId none }
    match vaultId with
    | some v =>
        if v ∈ r.pending then ({ left with pending := r.pending.erase v }, some v)
        else (left, none)
    | none => (left, none)
  else (r, none)

end Registry

/-! ### Calls -/

/-- What happens next, and in which call. -/
inductive MaintenanceAct
  /-- Some thread calls `process_directory_aggregate_maintenance`. -/
  | call (vaultId : Option VaultId)
  /-- Some thread calls `schedule_directory_aggregate_maintenance`. -/
  | request (vaultId : Option VaultId)
  | claim (t : CallId) (v : VaultId)
  /-- A flush has returned. -/
  | flushed (t : CallId)
  /-- The `try` is left, by an exception or not. -/
  | leave (t : CallId) (raised : Bool)
  | release (t : CallId)
  | reschedule (t : CallId)
  | leaveSlot (t : CallId)
  | followUp (t : CallId)
deriving DecidableEq, Repr

/-- What an action reports. -/
inductive MaintenanceEvent
  | quiet
  /-- A request for the Vault finds it busy. -/
  | refused (v : VaultId)
  /-- A call owns the Vault and flushes it. -/
  | claimed (v : VaultId)
  /-- A call for the Vault raised before it came to it. -/
  | failed (v : VaultId)
deriving DecidableEq, Repr

/-- What a caller of `schedule_directory_aggregate_maintenance` is told. -/
def scheduleEvent (vaultId : Option VaultId) (started : Bool) : MaintenanceEvent :=
  match vaultId, started with
  | some v, false => .refused v
  | _, _ => .quiet

namespace Registry

/-- A call to `schedule_directory_aggregate_maintenance`, with what it reports. -/
def schedule (r : Registry) (vaultId : Option VaultId) : Registry × MaintenanceEvent :=
  ((r.scheduleMaintenance vaultId).1,
    scheduleEvent vaultId (r.scheduleMaintenance vaultId).2)

end Registry

/-- What a call reports that leaves the `try` by an exception. -/
def raiseEvent (vaultId : Option VaultId) (tried raised : Bool) : MaintenanceEvent :=
  match vaultId, tried, raised with
  | some v, false, true => .failed v
  | _, _, _ => .quiet

/-- `if vid not in claimed: claimed.append(vid)`. -/
def addClaim (claimed : List VaultId) (v : VaultId) : List VaultId :=
  if v ∈ claimed then claimed else claimed ++ [v]

/-- **One action.** -/
def maintain (r : Registry) : MaintenanceAct → Option (Registry × MaintenanceEvent)
  | .call vaultId => some (r.begin vaultId false, .quiet)
  | .request vaultId => some (r.schedule vaultId)
  | .claim t v => r.calls[t]?.bind fun c =>
      match c.phase with
      | .running _ claimed none =>
          -- a call for one Vault claims this one only
          if c.vaultId = none ∨ c.vaultId = some v then
            match r.tryClaimVaultMaintenance v t with
            | (r', true) => some (r'.goTo t (.running true (addClaim claimed v) (some v)),
                .claimed v)
            | (r', false) => some (r'.goTo t (.running true claimed none), .refused v)
          else none
      | _ => none
  | .flushed t => r.calls[t]?.bind fun c =>
      match c.phase with
      | .running tried claimed (some _) => some (r.goTo t (.running tried claimed none), .quiet)
      | _ => none
  | .leave t raised => r.calls[t]?.bind fun c =>
      match c.phase with
      | .running tried claimed flushing =>
          if raised ∨ flushing = none ∧ (c.vaultId = none ∨ tried) then
            some (r.goTo t (.releasing claimed []), raiseEvent c.vaultId tried raised)
          else none
      | _ => none
  | .release t => r.calls[t]?.bind fun c =>
      match c.phase with
      | .releasing (v :: claimed) pendingVaults =>
          match r.releaseVaultMaintenance v t with
          | (r', true) => some (r'.goTo t (.releasing claimed (pendingVaults ++ [v])), .quiet)
          | (r', false) => some (r'.goTo t (.releasing claimed pendingVaults), .quiet)
      | .releasing [] pendingVaults => some (r.goTo t (.rescheduling pendingVaults), .quiet)
      | _ => none
  | .reschedule t => r.calls[t]?.bind fun c =>
      match c.phase with
      | .rescheduling (v :: pendingVaults) =>
          some ((r.goTo t (.rescheduling pendingVaults)).schedule (some v))
      | .rescheduling [] => some (r.goTo t (if c.scheduled then .epilogue else .done), .quiet)
      | _ => none
  | .leaveSlot t => r.calls[t]?.bind fun c =>
      match c.phase with
      | .epilogue =>
          match r.leaveSlot c.vaultId t with
          | (r', vault) => some (r'.goTo t (.followUp vault), .quiet)
      | _ => none
  | .followUp t => r.calls[t]?.bind fun c =>
      match c.phase with
      | .followUp (some v) => some ((r.goTo t (.followUp none)).schedule (some v))
      | .followUp none => some (r.goTo t .done, .quiet)
      | _ => none

/-! ### The invariant -/

namespace CallPhase

/-- The Vaults a call has claimed and not given back. -/
def held : CallPhase → List VaultId
  | running _ claimed _ => claimed
  | releasing claimed _ => claimed
  | _ => []

/-- The Vault a call flushes. -/
def flushes : CallPhase → Option VaultId
  | running _ _ flushing => flushing
  | _ => none

/-- A worker is in its slot until it has left it. -/
def inSlot : CallPhase → Bool
  | followUp _ => false
  | done => false
  | _ => true

end CallPhase

namespace Registry

/-- **The invariant.**  What is owned is held by one call, a slot has a worker that has not left
it, and what is pending has an owner or a worker. -/
structure Ok (r : Registry) : Prop where
  owned : ∀ v t, r.owners v = some t ↔ ∃ c, r.calls[t]? = some c ∧ v ∈ c.phase.held
  nodup : ∀ (t : CallId) (c : MaintenanceCall), r.calls[t]? = some c → c.phase.held.Nodup
  flushes : ∀ (t : CallId) (c : MaintenanceCall) (v : VaultId), r.calls[t]? = some c →
    c.phase.flushes = some v → v ∈ c.phase.held
  slots : ∀ k t, r.inflight k = some t → ∃ c, r.calls[t]? = some c ∧ c.vaultId = k ∧
    c.scheduled = true ∧ c.phase.inSlot = true
  asked : ∀ v ∈ r.pending, r.owners v ≠ none ∨ r.inflight (some v) ≠ none

lemma ok_empty : Registry.empty.Ok := by
  refine ⟨fun v t => iff_of_false nofun ?_, ?_, ?_, nofun, fun v hv => ?_⟩
  · rintro ⟨c, hc, -⟩
    exact absurd hc (by simp [Registry.empty])
  · exact fun t c hc => absurd hc (by simp [Registry.empty])
  · exact fun t c v hc => absurd hc (by simp [Registry.empty])
  · exact absurd hv (Finset.notMem_empty v)

variable {r r' : Registry} {t : CallId} {c : MaintenanceCall} {p : CallPhase}

lemma calls_goTo_self (hc : r.calls[t]? = some c) :
    (r.goTo t p).calls[t]? = some { c with phase := p } := by
  show (r.calls.modify t _)[t]? = _
  rw [List.getElem?_modify_eq, hc]
  rfl

lemma calls_goTo_of_ne {u : CallId} (hu : u ≠ t) : (r.goTo t p).calls[u]? = r.calls[u]? := by
  show (r.calls.modify t _)[u]? = _
  exact List.getElem?_modify_ne _ _ hu.symm

/-- **A call goes on**, and the registry with it. -/
lemma Ok.update (h : r.Ok) (hc : r.calls[t]? = some c) (hcalls : r'.calls = (r.goTo t p).calls)
    (howners : ∀ v u, r'.owners v = some u ↔
      if u = t then v ∈ p.held else r.owners v = some u) (hslots : ∀ k u, r'.inflight k = some u →
      r.inflight k = some u ∧ (u = t → p.inSlot)) (hnodup : p.held.Nodup)
    (hflushes : ∀ v, p.flushes = some v → v ∈ p.held)
    (hasked : ∀ v ∈ r'.pending, r'.owners v ≠ none ∨ r'.inflight (some v) ≠ none) : r'.Ok := by
  have hself : r'.calls[t]? = some { c with phase := p } := hcalls ▸ calls_goTo_self hc
  have hother : ∀ u, u ≠ t → r'.calls[u]? = r.calls[u]? := fun u hu =>
    hcalls ▸ calls_goTo_of_ne hu
  refine ⟨fun v u => ?_, fun u d hd => ?_, fun u d v hd hv => ?_, fun k u hu => ?_, hasked⟩
  · rw [howners]
    by_cases hu : u = t
    · subst hu
      rw [if_pos rfl, hself]
      simp
    · rw [if_neg hu, hother u hu, h.owned]
  · by_cases hu : u = t
    · subst hu
      cases hself.symm.trans hd
      exact hnodup
    · exact h.nodup u d (hother u hu ▸ hd)
  · by_cases hu : u = t
    · subst hu
      cases hself.symm.trans hd
      exact hflushes v hv
    · exact h.flushes u d v (hother u hu ▸ hd) hv
  · obtain ⟨hold, hin⟩ := hslots k u hu
    obtain ⟨d, hd, hkey, hscheduled, hslot⟩ := h.slots k u hold
    by_cases hut : u = t
    · subst hut
      cases hc.symm.trans hd
      exact ⟨_, hself, hkey, hscheduled, hin rfl⟩
    · exact ⟨d, (hother u hut).trans hd, hkey, hscheduled, hslot⟩

/-- A call goes on with the Vaults it holds. -/
lemma Ok.goTo (h : r.Ok) (hc : r.calls[t]? = some c) (hheld : p.held = c.phase.held)
    (hflushes : ∀ v, p.flushes = some v → v ∈ p.held)
    (hslot : p.inSlot ∨ ∀ k, r.inflight k ≠ some t) : (r.goTo t p).Ok := by
  refine h.update hc rfl (fun v u => ?_) (fun k u hu => ⟨hu, ?_⟩) (hheld ▸ h.nodup t c hc)
    hflushes h.asked
  · by_cases hut : u = t
    · subst hut
      rw [if_pos rfl, hheld]
      show r.owners v = some u ↔ _
      rw [h.owned, hc]
      simp
    · rw [if_neg hut]
      rfl
  · rintro rfl
    exact hslot.resolve_right fun hnone => hnone k hu

lemma Ok.askAgain (h : r.Ok) {v : VaultId} (hv : r.owners v ≠ none ∨ r.inflight (some v) ≠ none) :
    (r.askAgain v).Ok := by
  refine ⟨h.owned, h.nodup, h.flushes, h.slots, fun w hw => ?_⟩
  rcases Finset.mem_insert.mp hw with rfl | hw
  · exact hv
  · exact h.asked w hw

lemma calls_begin_eq_some {vaultId : Option VaultId} {scheduled : Bool} {u : CallId}
    {d : MaintenanceCall} (hd : (r.begin vaultId scheduled).calls[u]? = some d) :
    r.calls[u]? = some d ∨
      u = r.calls.length ∧ d = ⟨vaultId, scheduled, .running false [] none⟩ := by
  rw [begin, List.getElem?_append] at hd
  split at hd
  · exact .inl hd
  · rename_i hu
    obtain ⟨hlt, hget⟩ := List.getElem?_eq_some_iff.mp hd
    have hle : u ≤ r.calls.length := Nat.sub_eq_zero_iff_le.mp (Nat.lt_one_iff.mp hlt)
    refine .inr ⟨Nat.le_antisymm hle (Nat.le_of_not_lt hu), ?_⟩
    rw [← hget, List.getElem_singleton]

lemma calls_begin_of_some {vaultId : Option VaultId} {scheduled : Bool} {u : CallId}
    {d : MaintenanceCall} (hd : r.calls[u]? = some d) :
    (r.begin vaultId scheduled).calls[u]? = some d := by
  rw [begin, List.getElem?_append_left (List.getElem?_eq_some_iff.mp hd).1]
  exact hd

/-- **A call begins** with nothing in its hands. -/
lemma Ok.begin (h : r.Ok) (vaultId : Option VaultId) (scheduled : Bool) :
    (r.begin vaultId scheduled).Ok := by
  refine ⟨fun v u => ?_, fun u d hd => ?_, fun u d v hd hv => ?_, fun k u hu => ?_, h.asked⟩
  · refine (h.owned v u).trans ⟨?_, ?_⟩
    · rintro ⟨d, hd, hv⟩
      exact ⟨d, calls_begin_of_some hd, hv⟩
    · rintro ⟨d, hd, hv⟩
      rcases calls_begin_eq_some hd with hd | ⟨-, rfl⟩
      · exact ⟨d, hd, hv⟩
      · cases hv
  · rcases calls_begin_eq_some hd with hd | ⟨-, rfl⟩
    · exact h.nodup u d hd
    · exact List.nodup_nil
  · rcases calls_begin_eq_some hd with hd | ⟨-, rfl⟩
    · exact h.flushes u d v hd hv
    · exact absurd hv (by simp [CallPhase.flushes])
  · obtain ⟨d, hd, hrest⟩ := h.slots k u hu
    exact ⟨d, calls_begin_of_some hd, hrest⟩

lemma inflight_startWorker (r : Registry) (vaultId : Option VaultId) :
    (r.startWorker vaultId).inflight =
      Function.update r.inflight vaultId (some r.calls.length) := rfl

/-- **A worker starts** in its slot. -/
lemma Ok.startWorker (h : r.Ok) (vaultId : Option VaultId) : (r.startWorker vaultId).Ok := by
  have hbegin := h.begin vaultId true
  refine ⟨hbegin.owned, hbegin.nodup, hbegin.flushes, fun k u hu => ?_, fun v hv => ?_⟩
  · by_cases hk : k = vaultId
    · subst hk
      rw [inflight_startWorker, Function.update_self] at hu
      cases hu
      refine ⟨⟨k, true, .running false [] none⟩, ?_, rfl, rfl, rfl⟩
      show (r.calls ++ _)[r.calls.length]? = _
      rw [List.getElem?_concat_length]
    · rw [inflight_startWorker, Function.update_of_ne hk] at hu
      exact hbegin.slots k u hu
  · refine (h.asked v hv).imp_right fun hslot => ?_
    rw [inflight_startWorker]
    by_cases hk : some v = vaultId
    · rw [hk, Function.update_self]
      exact Option.some_ne_none _
    · rw [Function.update_of_ne hk]
      exact hslot

/-- **A request** is written down, or starts a worker. -/
lemma Ok.scheduleMaintenance (h : r.Ok) (vaultId : Option VaultId) :
    (r.scheduleMaintenance vaultId).1.Ok := by
  unfold Registry.scheduleMaintenance
  split
  · split
    · rename_i v howner
      exact h.askAgain (.inl (Option.isSome_iff_ne_none.mp howner))
    · split
      · rename_i v _ halive
        refine h.askAgain (.inr fun hnone => ?_)
        rw [hnone] at halive
        cases halive
      · exact h.startWorker _
  · split
    · exact h
    · exact h.startWorker _

/-! ### What an action does -/

/-- The actions that are possible, one by one. -/
inductive Moves (r : Registry) : MaintenanceAct → Registry → MaintenanceEvent → Prop
  | call (vaultId : Option VaultId) : Moves r (.call vaultId) (r.begin vaultId false) .quiet
  | request (vaultId : Option VaultId) :
      Moves r (.request vaultId) (r.schedule vaultId).1 (r.schedule vaultId).2
  | claimed {t : CallId} {c : MaintenanceCall} {v : VaultId} {tried : Bool} {claimed : List VaultId}
      (hc : r.calls[t]? = some c)
      (hp : c.phase = .running tried claimed none) (hkey : c.vaultId = none ∨ c.vaultId = some v)
      (hfree : ∀ u, r.owners v = some u → u = t) :
      Moves r (.claim t v)
        ({ r with owners := Function.update r.owners v (some t) }.goTo t
          (.running true (addClaim claimed v) (some v))) (.claimed v)
  | refused {t : CallId} {c : MaintenanceCall} {v : VaultId} {tried : Bool} {claimed : List VaultId}
      (hc : r.calls[t]? = some c)
      (hp : c.phase = .running tried claimed none) (hkey : c.vaultId = none ∨ c.vaultId = some v)
      (hbusy : r.owners v ≠ none) :
      Moves r (.claim t v) ((r.askAgain v).goTo t (.running true claimed none)) (.refused v)
  | flushed {t : CallId} {c : MaintenanceCall} {v : VaultId} {tried : Bool} {claimed : List VaultId}
      (hc : r.calls[t]? = some c)
      (hp : c.phase = .running tried claimed (some v)) :
      Moves r (.flushed t) (r.goTo t (.running tried claimed none)) .quiet
  | leave {t : CallId} {c : MaintenanceCall} {tried : Bool} {claimed : List VaultId}
      {flushing : Option VaultId} (raised : Bool)
      (hc : r.calls[t]? = some c)
      (hp : c.phase = .running tried claimed flushing)
      (hend : raised = true ∨ flushing = none ∧ (c.vaultId = none ∨ tried = true)) :
      Moves r (.leave t raised) (r.goTo t (.releasing claimed []))
        (raiseEvent c.vaultId tried raised)
  | release {t : CallId} {c : MaintenanceCall} {v : VaultId} {claimed pendingVaults : List VaultId}
      (hc : r.calls[t]? = some c)
      (hp : c.phase = .releasing (v :: claimed) pendingVaults) :
      Moves r (.release t)
        ((r.releaseVaultMaintenance v t).1.goTo t (.releasing claimed
          (if v ∈ r.pending then pendingVaults ++ [v] else pendingVaults))) .quiet
  | released {t : CallId} {c : MaintenanceCall} {pendingVaults : List VaultId}
      (hc : r.calls[t]? = some c)
      (hp : c.phase = .releasing [] pendingVaults) :
      Moves r (.release t) (r.goTo t (.rescheduling pendingVaults)) .quiet
  | reschedule {t : CallId} {c : MaintenanceCall} {v : VaultId} {pendingVaults : List VaultId}
      (hc : r.calls[t]? = some c)
      (hp : c.phase = .rescheduling (v :: pendingVaults)) :
      Moves r (.reschedule t) ((r.goTo t (.rescheduling pendingVaults)).schedule (some v)).1
        ((r.goTo t (.rescheduling pendingVaults)).schedule (some v)).2
  | rescheduled {t : CallId} {c : MaintenanceCall}
      (hc : r.calls[t]? = some c) (hp : c.phase = .rescheduling []) :
      Moves r (.reschedule t) (r.goTo t (if c.scheduled then .epilogue else .done)) .quiet
  | leaveSlot {t : CallId} {c : MaintenanceCall}
      (hc : r.calls[t]? = some c) (hp : c.phase = .epilogue) :
      Moves r (.leaveSlot t)
        ((r.leaveSlot c.vaultId t).1.goTo t (.followUp (r.leaveSlot c.vaultId t).2)) .quiet
  | followUp {t : CallId} {c : MaintenanceCall} {v : VaultId}
      (hc : r.calls[t]? = some c) (hp : c.phase = .followUp (some v)) :
      Moves r (.followUp t) ((r.goTo t (.followUp none)).schedule (some v)).1
        ((r.goTo t (.followUp none)).schedule (some v)).2
  | finish {t : CallId} {c : MaintenanceCall}
      (hc : r.calls[t]? = some c) (hp : c.phase = .followUp none) :
      Moves r (.followUp t) (r.goTo t .done) .quiet

end Registry

open Registry

variable {r r' : Registry} {a : MaintenanceAct} {e : MaintenanceEvent}

/-- **An action is one of these.** -/
lemma moves_of_maintain (h : maintain r a = some (r', e)) : Moves r a r' e := by
  cases a with
  | call vaultId =>
      cases h
      exact .call vaultId
  | request vaultId =>
      cases h
      exact .request vaultId
  | claim t v =>
      obtain ⟨c, hc, h⟩ := Option.bind_eq_some_iff.mp h
      split at h
      · rename_i tried claimed hp
        obtain ⟨hkey, h⟩ := Option.ite_none_right_eq_some.mp h
        rw [tryClaimVaultMaintenance] at h
        split_ifs at h with hbusy
        · cases h
          obtain ⟨u, hu, -⟩ := hbusy
          exact .refused hc hp hkey (Option.ne_none_iff_exists'.mpr ⟨u, hu⟩)
        · cases h
          refine .claimed hc hp hkey fun u hu => ?_
          by_contra hne
          exact hbusy ⟨u, hu, hne⟩
      · cases h
  | flushed t =>
      obtain ⟨c, hc, h⟩ := Option.bind_eq_some_iff.mp h
      split at h
      · cases h
        exact .flushed hc ‹_›
      · cases h
  | leave t raised =>
      obtain ⟨c, hc, h⟩ := Option.bind_eq_some_iff.mp h
      split at h
      · obtain ⟨hend, h⟩ := Option.ite_none_right_eq_some.mp h
        cases h
        exact .leave raised hc ‹_› hend
      · cases h
  | release t =>
      obtain ⟨c, hc, h⟩ := Option.bind_eq_some_iff.mp h
      split at h
      · rename_i v claimed pendingVaults hp
        have hmove := Moves.release hc hp
        rw [releaseVaultMaintenance] at h
        by_cases hv : v ∈ r.pending
        · rw [decide_eq_true hv] at h
          rw [if_pos hv] at hmove
          cases h
          exact hmove
        · rw [decide_eq_false hv] at h
          rw [if_neg hv] at hmove
          cases h
          exact hmove
      · cases h
        exact .released hc ‹_›
      · cases h
  | reschedule t =>
      obtain ⟨c, hc, h⟩ := Option.bind_eq_some_iff.mp h
      split at h
      · cases h
        exact .reschedule hc ‹_›
      · cases h
        exact .rescheduled hc ‹_›
      · cases h
  | leaveSlot t =>
      obtain ⟨c, hc, h⟩ := Option.bind_eq_some_iff.mp h
      split at h
      · cases h
        exact .leaveSlot hc ‹_›
      · cases h
  | followUp t =>
      obtain ⟨c, hc, h⟩ := Option.bind_eq_some_iff.mp h
      split at h
      · cases h
        exact .followUp hc ‹_›
      · cases h
        exact .finish hc ‹_›
      · cases h

namespace Registry

lemma Ok.claimed {t : CallId} {c : MaintenanceCall} {v : VaultId} {tried : Bool}
    {claimed : List VaultId} (h : r.Ok) (hc : r.calls[t]? = some c)
    (hp : c.phase = .running tried claimed none) (hfree : ∀ u, r.owners v = some u → u = t) :
    ({ r with owners := Function.update r.owners v (some t) }.goTo t
      (.running true (addClaim claimed v) (some v))).Ok := by
  have hheld : ∀ w, r.owners w = some t ↔ w ∈ claimed := by
    intro w
    rw [h.owned, hc]
    simp [hp, CallPhase.held]
  have hadd : ∀ w, w ∈ addClaim claimed v ↔ w ∈ claimed ∨ w = v := by
    intro w
    rw [addClaim]
    split
    · rename_i hv
      exact ⟨.inl, fun hw => hw.elim id fun heq => heq ▸ hv⟩
    · rw [List.mem_append, List.mem_singleton]
  refine h.update (p := .running true (addClaim claimed v) (some v)) hc rfl (fun w u => ?_)
    (fun k u hu => ⟨hu, fun _ => rfl⟩) ?_ (fun w hw => ?_) (fun w hw => ?_)
  · show Function.update r.owners v (some t) w = some u ↔ if u = t then w ∈ addClaim claimed v
      else r.owners w = some u
    by_cases hw : w = v
    · subst hw
      rw [Function.update_self, Option.some.injEq]
      split
      · rename_i hu
        exact iff_of_true hu.symm ((hadd w).mpr (.inr rfl))
      · rename_i hu
        exact iff_of_false (Ne.symm hu) fun howner => hu (hfree u howner)
    · rw [Function.update_of_ne hw]
      split
      · rename_i hu
        rw [hu, hheld, hadd, or_iff_left hw]
      · rfl
  · have hnodup : claimed.Nodup := by
      have := h.nodup t c hc
      rwa [hp] at this
    show (addClaim claimed v).Nodup
    rw [addClaim]
    split
    · exact hnodup
    · rename_i hv
      exact List.nodup_append.mpr ⟨hnodup, List.nodup_singleton v, fun a ha b hb hab =>
        hv (List.mem_singleton.mp hb ▸ hab ▸ ha)⟩
  · cases hw
    exact (hadd v).mpr (.inr rfl)
  · refine (h.asked w hw).imp_left fun howner => ?_
    show Function.update r.owners v (some t) w ≠ none
    by_cases hwv : w = v
    · rw [hwv, Function.update_self]
      exact Option.some_ne_none _
    · rwa [Function.update_of_ne hwv]

lemma Ok.release {t : CallId} {c : MaintenanceCall} {v : VaultId}
    {claimed pendingVaults again : List VaultId} (h : r.Ok) (hc : r.calls[t]? = some c)
    (hp : c.phase = .releasing (v :: claimed) pendingVaults) :
    ((r.releaseVaultMaintenance v t).1.goTo t (.releasing claimed again)).Ok := by
  have hheld : ∀ w, r.owners w = some t ↔ w = v ∨ w ∈ claimed := by
    intro w
    rw [h.owned, hc]
    simp [hp, CallPhase.held]
  have hnodup : (v :: claimed).Nodup := by
    have := h.nodup t c hc
    rwa [hp] at this
  have howner : r.owners v = some t := (hheld v).mpr (.inl rfl)
  have howners : (r.releaseVaultMaintenance v t).1.owners = Function.update r.owners v none :=
    if_pos howner
  refine h.update (p := .releasing claimed again) hc rfl (fun w u => ?_)
    (fun k u hu => ⟨hu, fun _ => rfl⟩) (List.nodup_cons.mp hnodup).2 nofun (fun w hw => ?_)
  · show (r.releaseVaultMaintenance v t).1.owners w = some u ↔ if u = t then w ∈ claimed
      else r.owners w = some u
    rw [howners]
    by_cases hw : w = v
    · subst hw
      rw [Function.update_self]
      refine iff_of_false nofun ?_
      split
      · exact (List.nodup_cons.mp hnodup).1
      · rename_i hu
        exact fun hother => hu (Option.some.inj (hother.symm.trans howner))
    · rw [Function.update_of_ne hw]
      split
      · rename_i hu
        rw [hu, hheld, or_iff_right hw]
      · rfl
  · obtain ⟨hwv, hw⟩ := Finset.mem_erase.mp hw
    refine (h.asked w hw).imp_left fun hother => ?_
    show (r.releaseVaultMaintenance v t).1.owners w ≠ none
    rwa [howners, Function.update_of_ne hwv]

lemma Ok.inflight_ne {t : CallId} {c : MaintenanceCall} (h : r.Ok) (hc : r.calls[t]? = some c)
    (hout : c.scheduled = false ∨ c.phase.inSlot = false) (k : Option VaultId) :
    r.inflight k ≠ some t := by
  intro hslot
  obtain ⟨d, hd, -, hscheduled, hin⟩ := h.slots k t hslot
  cases hc.symm.trans hd
  rcases hout with hout | hout
  · cases hscheduled.symm.trans hout
  · cases hin.symm.trans hout

/-- What is left in the slots and of the requests. -/
lemma leaveSlot_spec (r : Registry) (k : Option VaultId) (t : CallId) :
    (r.leaveSlot k t).1.calls = r.calls ∧ (r.leaveSlot k t).1.owners = r.owners ∧
      (r.leaveSlot k t).1.inflight =
        (if r.inflight k = some t then Function.update r.inflight k none else r.inflight) ∧
      ∀ v, v ∈ (r.leaveSlot k t).1.pending ↔
        v ∈ r.pending ∧ ¬(r.inflight k = some t ∧ k = some v) := by
  unfold Registry.leaveSlot
  by_cases hslot : r.inflight k = some t
  · rw [if_pos hslot, if_pos hslot]
    cases k with
    | none => exact ⟨rfl, rfl, rfl, fun v => by simp⟩
    | some w =>
        dsimp only
        split
        · refine ⟨rfl, rfl, rfl, fun v => ?_⟩
          rw [Finset.mem_erase, and_comm, and_iff_right hslot, Option.some.injEq, ne_comm]
        · rename_i hw
          refine ⟨rfl, rfl, rfl, fun v => ?_⟩
          refine (and_iff_left_of_imp fun hv => ?_).symm
          rintro ⟨-, hwv⟩
          exact hw (Option.some.inj hwv ▸ hv)
  · rw [if_neg hslot, if_neg hslot]
    exact ⟨rfl, rfl, rfl, fun v => by simp [hslot]⟩

/-- A worker leaves its slot, if it is still its own, with what was asked meanwhile. -/
lemma Ok.leaveSlot {t : CallId} {c : MaintenanceCall} (h : r.Ok) (hc : r.calls[t]? = some c)
    (hp : c.phase = .epilogue) (vault : Option VaultId) :
    ((r.leaveSlot c.vaultId t).1.goTo t (.followUp vault)).Ok := by
  obtain ⟨hcalls, howners, hinflight, hpending⟩ := leaveSlot_spec r c.vaultId t
  have hmine : ∀ k, r.inflight k = some t → k = c.vaultId := by
    intro k hk
    obtain ⟨d, hd, hkey, -⟩ := h.slots k t hk
    cases hc.symm.trans hd
    exact hkey.symm
  refine h.update (p := .followUp vault) hc ?_ (fun w u => ?_) (fun k u hu => ?_) List.nodup_nil
    (fun v hv => (Option.some_ne_none v hv.symm).elim) (fun w hw => ?_)
  · show (r.leaveSlot c.vaultId t).1.calls.modify t _ = _
    rw [hcalls]
    rfl
  · show (r.leaveSlot c.vaultId t).1.owners w = some u ↔ _
    rw [howners]
    split
    · rename_i hu
      rw [hu, h.owned, hc]
      simp [hp, CallPhase.held]
    · rfl
  · have hu : (r.leaveSlot c.vaultId t).1.inflight k = some u := hu
    rw [hinflight] at hu
    by_cases hslot : r.inflight c.vaultId = some t
    · rw [if_pos hslot] at hu
      by_cases hk : k = c.vaultId
      · rw [hk, Function.update_self] at hu
        cases hu
      · rw [Function.update_of_ne hk] at hu
        exact ⟨hu, fun hut => absurd (hmine k (hut ▸ hu)) hk⟩
    · rw [if_neg hslot] at hu
      refine ⟨hu, fun hut => absurd ?_ hslot⟩
      rw [← hmine k (hut ▸ hu), ← hut]
      exact hu
  · obtain ⟨hw, hnot⟩ := (hpending w).mp hw
    show (r.leaveSlot c.vaultId t).1.owners w ≠ none ∨
      (r.leaveSlot c.vaultId t).1.inflight (some w) ≠ none
    rw [howners, hinflight]
    refine (h.asked w hw).imp_right fun hworker => ?_
    split
    · rename_i hslot
      rw [Function.update_of_ne fun hkey => hnot ⟨hslot, hkey.symm⟩]
      exact hworker
    · exact hworker

/-- **Every action keeps the invariant.** -/
theorem Moves.ok (h : r.Ok) (hmove : Moves r a r' e) : r'.Ok := by
  have hquiet : ∀ v, (none : Option VaultId) ≠ some v := fun v => (Option.some_ne_none v).symm
  cases hmove with
  | call vaultId => exact h.begin vaultId false
  | request vaultId => exact h.scheduleMaintenance vaultId
  | claimed hc hp hkey hfree => exact h.claimed hc hp hfree
  | refused hc hp hkey hbusy =>
      exact (h.askAgain (.inl hbusy)).goTo hc (by rw [hp]; rfl)
        (fun v hv => absurd hv (hquiet v)) (.inl rfl)
  | flushed hc hp =>
      exact h.goTo hc (by rw [hp]; rfl) (fun v hv => absurd hv (hquiet v)) (.inl rfl)
  | leave raised hc hp hend =>
      exact h.goTo hc (by rw [hp]; rfl) (fun v hv => absurd hv (hquiet v)) (.inl rfl)
  | release hc hp => exact h.release hc hp
  | released hc hp =>
      exact h.goTo hc (by rw [hp]; rfl) (fun v hv => absurd hv (hquiet v)) (.inl rfl)
  | @reschedule t c v pendingVaults hc hp =>
      have hgo : (r.goTo t (.rescheduling pendingVaults)).Ok :=
        h.goTo hc (by rw [hp]; rfl) (fun v hv => absurd hv (hquiet v)) (.inl rfl)
      exact hgo.scheduleMaintenance _
  | @rescheduled t c hc hp =>
      cases hscheduled : c.scheduled with
      | true =>
          rw [if_pos rfl]
          exact h.goTo hc (by rw [hp]; rfl) (fun v hv => absurd hv (hquiet v)) (.inl rfl)
      | false =>
          rw [if_neg Bool.false_ne_true]
          exact h.goTo hc (by rw [hp]; rfl) (fun v hv => absurd hv (hquiet v))
            (.inr (h.inflight_ne hc (.inl hscheduled)))
  | leaveSlot hc hp => exact h.leaveSlot hc hp _
  | @followUp t c v hc hp =>
      have hgo : (r.goTo t (.followUp none)).Ok :=
        h.goTo hc (by rw [hp]; rfl) (fun v hv => absurd hv (hquiet v))
          (.inr (h.inflight_ne hc (.inr (by rw [hp]; rfl))))
      exact hgo.scheduleMaintenance _
  | finish hc hp =>
      exact h.goTo hc (by rw [hp]; rfl) (fun v hv => absurd hv (hquiet v))
        (.inr (h.inflight_ne hc (.inr (by rw [hp]; rfl))))

lemma maintain_ok (h : r.Ok) (hrun : maintain r a = some (r', e)) : r'.Ok :=
  (moves_of_maintain hrun).ok h

end Registry

end Frostvault
