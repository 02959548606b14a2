import Frostvault.Aggregates.Maintenance

/-!
Requests for a busy Vault are not forgotten (`app/services/directory_aggregates.py`).

A request that finds its Vault busy is carried on: it is pending, or a call has taken it down and
will schedule the Vault again, or a worker for the Vault has started that has not tried to claim
it yet.  What carries it changes only by actions of calls that have not ended, so that it comes to
an end with them.

* `Registry.Carried`: who carries a request;
* `Registry.Moves.carried`: **it is carried on until a call comes to the Vault**;
* `eventually_served`: if every call ends, a call comes to it;
* `maintenance_not_stranded`: the result.
-/

namespace Frostvault

open List

namespace CallPhase

/-- The Vaults a call will schedule again. -/
def tokens : CallPhase → List VaultId
  | releasing _ pendingVaults => pendingVaults
  | rescheduling pendingVaults => pendingVaults
  | followUp (some v) => [v]
  | _ => []

/-- The call has not tried to claim a Vault. -/
def untried : CallPhase → Bool
  | running tried _ _ => !tried
  | _ => false

end CallPhase

/-- A maintenance run of the Vault: a call has come to own it and flushes it, or one that was
called for this Vault has ended in an exception before it could try. -/
def MaintenanceEvent.Serves (e : MaintenanceEvent) (v : VaultId) : Prop :=
  e = .claimed v ∨ e = .failed v

namespace Registry

/-- A worker for the Vault that has not tried to claim it, or another call for it. -/
def Untried (r : Registry) (t : CallId) (v : VaultId) : Prop :=
  ∃ c, r.calls[t]? = some c ∧ c.vaultId = some v ∧ c.phase.untried = true

/-- A call that will schedule the Vault again. -/
def WillSchedule (r : Registry) (t : CallId) (v : VaultId) : Prop :=
  ∃ c, r.calls[t]? = some c ∧ v ∈ c.phase.tokens

/-- **Who carries a request.** -/
def Carried (r : Registry) (v : VaultId) : Prop :=
  v ∈ r.pending ∨ (∃ t, r.WillSchedule t v) ∨ ∃ t, r.Untried t v

/-- The call has ended. -/
def IsOver (r : Registry) (t : CallId) : Prop :=
  ∃ c, r.calls[t]? = some c ∧ c.phase = .done

variable {r r' : Registry} {t u : CallId} {c : MaintenanceCall} {p : CallPhase} {v : VaultId}
  {a : MaintenanceAct} {e : MaintenanceEvent} {k : Option VaultId}

/-! ### Registries that agree -/

lemma scheduleMaintenance_cases (r : Registry) (k : Option VaultId) :
    (∃ v, k = some v ∧ r.scheduleMaintenance k = (r.askAgain v, false)) ∨
      (k = none ∧ r.scheduleMaintenance k = (r, false)) ∨
      r.scheduleMaintenance k = (r.startWorker k, true) := by
  unfold scheduleMaintenance
  cases k with
  | none =>
      dsimp only
      split
      · exact .inr (.inl ⟨rfl, rfl⟩)
      · exact .inr (.inr rfl)
  | some v =>
      dsimp only
      split
      · exact .inl ⟨v, rfl, rfl⟩
      · split
        · exact .inl ⟨v, rfl, rfl⟩
        · exact .inr (.inr rfl)

/-- A call that was there is there after a request. -/
lemma calls_schedule_of_some (hc : r.calls[t]? = some c) :
    (r.schedule k).1.calls[t]? = some c := by
  rw [schedule]
  rcases scheduleMaintenance_cases r k with ⟨v, -, h⟩ | ⟨-, h⟩ | h
  · rw [h]
    exact hc
  · rw [h]
    exact hc
  · rw [h]
    exact calls_begin_of_some hc

lemma pending_schedule (r : Registry) (k : Option VaultId) :
    r.pending ⊆ (r.schedule k).1.pending := by
  rw [schedule]
  rcases scheduleMaintenance_cases r k with ⟨v, -, h⟩ | ⟨-, h⟩ | h
  · rw [h]
    exact Finset.subset_insert v r.pending
  · rw [h]
  · rw [h]
    exact Finset.Subset.refl _

lemma carried_schedule (r : Registry) (v : VaultId) : (r.schedule (some v)).1.Carried v := by
  rw [schedule]
  rcases scheduleMaintenance_cases r (some v) with ⟨w, hw, h⟩ | ⟨hnone, -⟩ | h
  · rw [h]
    cases hw
    exact .inl (Finset.mem_insert_self v r.pending)
  · cases hnone
  · rw [h]
    refine .inr (.inr ⟨r.calls.length, ⟨some v, true, .running false [] none⟩, ?_, rfl, rfl⟩)
    show (r.calls ++ _)[r.calls.length]? = _
    rw [getElem?_concat_length]

/-- Only a request for the Vault reports that it is busy. -/
lemma eq_of_schedule_refused (h : (r.schedule k).2 = .refused v) : k = some v := by
  rw [schedule] at h
  rcases scheduleMaintenance_cases r k with ⟨w, rfl, hs⟩ | ⟨rfl, hs⟩ | hs
  · rw [hs] at h
    injection h with h
    rw [h]
  · rw [hs] at h
    cases h
  · rw [hs] at h
    cases k with
    | none => cases h
    | some w => cases h

/-- Who carries a request, in a registry with the same calls and requests. -/
lemma Carried.mono (h : r.Carried v) (hpending : v ∈ r.pending → v ∈ r'.pending)
    (hcalls : ∀ (t : CallId) (c : MaintenanceCall), r.calls[t]? = some c →
      r'.calls[t]? = some c) : r'.Carried v := by
  rcases h with h | ⟨t, c, hc, h⟩ | ⟨t, c, hc, h⟩
  · exact .inl (hpending h)
  · exact .inr (.inl ⟨t, c, hcalls t c hc, h⟩)
  · exact .inr (.inr ⟨t, c, hcalls t c hc, h⟩)

lemma Carried.schedule (h : r.Carried v) (k : Option VaultId) : (r.schedule k).1.Carried v :=
  h.mono (fun hv => pending_schedule r k hv) fun _ _ => calls_schedule_of_some

lemma Carried.goTo (h : r.Carried v) (hc : r.calls[t]? = some c)
    (hcalls : r'.calls = (r.goTo t p).calls)
    (hpending : v ∈ r.pending → v ∈ r'.pending ∨ v ∈ p.tokens)
    (htokens : v ∈ c.phase.tokens → v ∈ p.tokens ∨ r'.Carried v)
    (huntried : c.vaultId = some v → c.phase.untried → p.untried ∨ r'.Carried v) :
    r'.Carried v := by
  have hself : r'.calls[t]? = some { c with phase := p } := hcalls ▸ calls_goTo_self hc
  have hother : ∀ u, u ≠ t → r'.calls[u]? = r.calls[u]? := fun u hu =>
    hcalls ▸ calls_goTo_of_ne hu
  rcases h with h | ⟨u, d, hd, h⟩ | ⟨u, d, hd, hkey, h⟩
  · rcases hpending h with h | h
    · exact .inl h
    · exact .inr (.inl ⟨t, _, hself, h⟩)
  · by_cases hu : u = t
    · subst hu
      cases hc.symm.trans hd
      rcases htokens h with h | h
      · exact .inr (.inl ⟨u, _, hself, h⟩)
      · exact h
    · exact .inr (.inl ⟨u, d, (hother u hu).trans hd, h⟩)
  · by_cases hu : u = t
    · subst hu
      cases hc.symm.trans hd
      rcases huntried hkey h with h | h
      · exact .inr (.inr ⟨u, _, hself, hkey, h⟩)
      · exact h
    · exact .inr (.inr ⟨u, d, (hother u hu).trans hd, hkey, h⟩)

/-- What a worker takes along when it leaves its slot. -/
lemma leaveSlot_taken (r : Registry) (k : Option VaultId) (t : CallId) (v : VaultId) :
    (r.leaveSlot k t).2 = some v ↔ r.inflight k = some t ∧ k = some v ∧ v ∈ r.pending := by
  unfold leaveSlot
  by_cases hslot : r.inflight k = some t
  · rw [if_pos hslot]
    cases k with
    | none => simp
    | some w =>
        dsimp only
        split
        · rename_i hw
          constructor
          · intro h
            cases h
            exact ⟨hslot, rfl, hw⟩
          · rintro ⟨-, h, -⟩
            exact h
        · rename_i hw
          refine iff_of_false nofun ?_
          rintro ⟨-, h, hv⟩
          exact hw (Option.some.inj h ▸ hv)
  · rw [if_neg hslot]
    exact iff_of_false nofun fun h => hslot h.1

/-! ### One action -/

/-- **A request is carried on** until a call comes to the Vault. -/
theorem Moves.carried (hmove : Moves r a r' e) (h : r.Carried v ∨ e = .refused v)
    (hserves : ¬e.Serves v) : r'.Carried v := by
  -- a call that goes on without a report, and without a request of its own
  have hquiet : ∀ {e' : MaintenanceEvent}, r.Carried v ∨ e' = .refused v →
      e' ≠ .refused v → r.Carried v := fun h hne => h.resolve_right hne
  cases hmove with
  | call k =>
      exact (hquiet h nofun).mono id fun _ _ => calls_begin_of_some
  | request k =>
      rcases h with h | h
      · exact h.schedule k
      · rw [eq_of_schedule_refused h]
        exact carried_schedule r v
  | @claimed t c w tried claimed hc hp hkey hfree =>
      have hne : c.vaultId ≠ some v := by
        intro hv
        rcases hkey with hkey | hkey
        · cases hkey.symm.trans hv
        · exact hserves (.inl (congrArg _ (Option.some.inj (hkey.symm.trans hv))))
      refine (hquiet h nofun).goTo (p := .running true (addClaim claimed w) (some w)) hc rfl .inl
        (fun hv => ?_) fun hv => absurd hv hne
      rw [hp] at hv
      cases hv
  | @refused t c w tried claimed hc hp hkey hbusy =>
      by_cases hw : w = v
      · exact .inl (hw ▸ Finset.mem_insert_self w r.pending)
      · have hne : c.vaultId ≠ some v := by
          intro hv
          rcases hkey with hkey | hkey
          · cases hkey.symm.trans hv
          · exact hw (Option.some.inj (hkey.symm.trans hv))
        have h := hquiet h (fun heq => hw (MaintenanceEvent.refused.inj heq))
        refine h.goTo (p := .running true claimed none) hc rfl
          (fun hv => .inl (Finset.mem_insert_of_mem hv)) (fun hv => ?_) fun hv => absurd hv hne
        rw [hp] at hv
        cases hv
  | @flushed t c w tried claimed hc hp =>
      refine (hquiet h nofun).goTo (p := .running tried claimed none) hc rfl .inl (fun hv => ?_)
        fun _ hv => .inl ?_
      · rw [hp] at hv
        cases hv
      · rw [hp] at hv
        exact hv
  | @leave t c tried claimed flushing raised hc hp hend =>
      have hr : r.Carried v := by
        refine hquiet h ?_
        unfold raiseEvent
        split <;> nofun
      refine hr.goTo (p := .releasing claimed []) hc rfl .inl (fun hv => ?_) fun hv huntried => ?_
      · rw [hp] at hv
        cases hv
      · -- a call for the Vault that has not tried to claim it has raised
        have htried : tried = false := by
          rw [hp] at huntried
          exact Bool.not_eq_true' tried ▸ huntried
        subst htried
        rw [hv] at hend
        have hraised : raised := by
          rcases hend with hend | ⟨-, hend | hend⟩
          · exact hend
          · cases hend
          · cases hend
        rw [hv, hraised] at hserves
        exact absurd (.inr rfl) hserves
  | @release t c w claimed pendingVaults hc hp =>
      refine (hquiet h nofun).goTo (p := .releasing claimed
        (if w ∈ r.pending then pendingVaults ++ [w] else pendingVaults)) hc rfl (fun hv => ?_)
        (fun hv => .inl ?_) fun _ hv => ?_
      · by_cases hw : v = w
        · subst hw
          rw [if_pos hv]
          exact .inr (mem_append_right _ (mem_singleton_self v))
        · exact .inl (Finset.mem_erase.mpr ⟨hw, hv⟩)
      · rw [hp] at hv
        show v ∈ (if w ∈ r.pending then pendingVaults ++ [w] else pendingVaults)
        split
        · exact mem_append_left _ hv
        · exact hv
      · rw [hp] at hv
        cases hv
  | @released t c pendingVaults hc hp =>
      refine (hquiet h nofun).goTo (p := .rescheduling pendingVaults) hc rfl .inl
        (fun hv => .inl ?_) fun _ hv => ?_
      · rw [hp] at hv
        exact hv
      · rw [hp] at hv
        cases hv
  | @reschedule t c w pendingVaults hc hp =>
      by_cases hw : w = v
      · rw [hw]
        exact carried_schedule _ v
      · have hr := hquiet h fun heq => hw (Option.some.inj (eq_of_schedule_refused heq))
        refine Carried.schedule (hr.goTo (p := .rescheduling pendingVaults) hc rfl .inl
          (fun hv => .inl ?_) fun _ hv => ?_) _
        · rw [hp] at hv
          exact (mem_cons.mp hv).resolve_left (Ne.symm hw)
        · rw [hp] at hv
          cases hv
  | @rescheduled t c hc hp =>
      refine (hquiet h nofun).goTo hc rfl .inl (fun hv => ?_) fun _ hv => ?_
      · rw [hp] at hv
        cases hv
      · rw [hp] at hv
        cases hv
  | @leaveSlot t c hc hp =>
      obtain ⟨hcalls, -, -, hpending⟩ := leaveSlot_spec r c.vaultId t
      refine (hquiet h nofun).goTo (p := .followUp (r.leaveSlot c.vaultId t).2) hc ?_
        (fun hv => ?_) (fun hv => ?_) fun _ hv => ?_
      · show (r.leaveSlot c.vaultId t).1.calls.modify t _ = _
        rw [hcalls]
        rfl
      · by_cases htaken : r.inflight c.vaultId = some t ∧ c.vaultId = some v
        · rw [(leaveSlot_taken r c.vaultId t v).mpr ⟨htaken.1, htaken.2, hv⟩]
          exact .inr (mem_singleton_self v)
        · exact .inl ((hpending v).mpr ⟨hv, htaken⟩)
      · rw [hp] at hv
        cases hv
      · rw [hp] at hv
        cases hv
  | @followUp t c w hc hp =>
      by_cases hw : w = v
      · rw [hw]
        exact carried_schedule _ v
      · have hr := hquiet h fun heq => hw (Option.some.inj (eq_of_schedule_refused heq))
        refine Carried.schedule (hr.goTo (p := .followUp none) hc rfl .inl
          (fun hv => ?_) fun _ hv => ?_) _
        · rw [hp] at hv
          exact absurd (mem_singleton.mp hv).symm hw
        · rw [hp] at hv
          cases hv
  | @finish t c hc hp =>
      refine (hquiet h nofun).goTo (p := .done) hc rfl .inl (fun hv => ?_) fun _ hv => ?_
      · rw [hp] at hv
        cases hv
      · rw [hp] at hv
        cases hv

/-! ### Calls that come to rest -/

/-- A property of one call, in a registry in which another one goes on. -/
lemma calls_of_goTo {P : MaintenanceCall → Prop} (h : ∃ d, r.calls[u]? = some d ∧ P d)
    (hc : r.calls[t]? = some c) (hcalls : r'.calls = (r.goTo t p).calls)
    (hp : u = t → P c → P { c with phase := p }) : ∃ d, r'.calls[u]? = some d ∧ P d := by
  obtain ⟨d, hd, h⟩ := h
  by_cases hu : u = t
  · subst hu
    cases hc.symm.trans hd
    exact ⟨_, hcalls ▸ calls_goTo_self hc, hp rfl h⟩
  · exact ⟨d, hcalls ▸ (calls_goTo_of_ne hu).trans hd, h⟩

lemma Moves.isOver (hmove : Moves r a r' e) (h : r.IsOver u) : r'.IsOver u := by
  -- a call that goes on has not ended
  have hgo : ∀ {r' : Registry} {t : CallId} {c : MaintenanceCall} {p q : CallPhase},
      r.calls[t]? = some c → c.phase = q → q ≠ .done → r'.calls = (r.goTo t p).calls →
      r'.IsOver u := fun hc hp hq hcalls =>
    calls_of_goTo h hc hcalls fun _ hdone => absurd (hp.symm.trans hdone) hq
  have hschedule : ∀ {r : Registry} (k : Option VaultId), r.IsOver u →
      (r.schedule k).1.IsOver u := fun k ⟨d, hd, hdone⟩ => ⟨d, calls_schedule_of_some hd, hdone⟩
  cases hmove with
  | call k =>
      obtain ⟨d, hd, hdone⟩ := h
      exact ⟨d, calls_begin_of_some hd, hdone⟩
  | request k => exact hschedule k h
  | claimed hc hp => exact hgo hc hp nofun rfl
  | refused hc hp => exact hgo hc hp nofun rfl
  | flushed hc hp => exact hgo hc hp nofun rfl
  | leave raised hc hp => exact hgo hc hp nofun rfl
  | release hc hp => exact hgo hc hp nofun rfl
  | released hc hp => exact hgo hc hp nofun rfl
  | reschedule hc hp => exact hschedule _ (hgo hc hp nofun rfl)
  | rescheduled hc hp => exact hgo hc hp nofun rfl
  | @leaveSlot t c hc hp =>
      refine hgo (p := .followUp (r.leaveSlot c.vaultId t).2) hc hp nofun ?_
      show (r.leaveSlot c.vaultId t).1.calls.modify t _ = _
      rw [(leaveSlot_spec r c.vaultId t).1]
      rfl
  | followUp hc hp => exact hschedule _ (hgo hc hp nofun rfl)
  | finish hc hp => exact hgo hc hp nofun rfl

lemma Moves.owner (hmove : Moves r a r' e) (h : r'.owners v = some u) :
    r.owners v = some u ∨ e = .claimed v := by
  have hschedule : ∀ (r : Registry) (k : Option VaultId), (r.schedule k).1.owners = r.owners := by
    intro r k
    rw [schedule]
    rcases scheduleMaintenance_cases r k with ⟨w, -, hs⟩ | ⟨-, hs⟩ | hs
    · rw [hs]
      rfl
    · rw [hs]
    · rw [hs]
      rfl
  cases hmove with
  | request k => exact .inl (hschedule r k ▸ h)
  | @claimed t c w tried claimed hc hp hkey hfree =>
      have h : Function.update r.owners w (some t) v = some u := h
      by_cases hw : v = w
      · exact .inr (by rw [hw])
      · rw [Function.update_of_ne hw] at h
        exact .inl h
  | @release t c w claimed pendingVaults hc hp =>
      have h : (if r.owners w = some t then Function.update r.owners w none else r.owners) v =
        some u := h
      split at h
      · by_cases hw : v = w
        · rw [hw, Function.update_self] at h
          cases h
        · rw [Function.update_of_ne hw] at h
          exact .inl h
      · exact .inl h
  | @reschedule t c w pendingVaults hc hp =>
      rw [hschedule] at h
      exact .inl h
  | @leaveSlot t c hc hp => exact .inl ((leaveSlot_spec r c.vaultId t).2.1 ▸ h)
  | @followUp t c w hc hp =>
      rw [hschedule] at h
      exact .inl h
  | _ => exact .inl h

/-- **A call for a Vault that nobody owns** does nothing before it comes to it. -/
lemma Moves.untried (hmove : Moves r a r' e) (hfree : r.owners v = none) (hserves : ¬e.Serves v)
    (h : r.Untried u v) : r'.Untried u v := by
  have hgo : ∀ {r' : Registry} {t : CallId} {c : MaintenanceCall} {p : CallPhase},
      r.calls[t]? = some c → r'.calls = (r.goTo t p).calls →
      (c.vaultId = some v → c.phase.untried → p.untried) → r'.Untried u v :=
    fun hc hcalls hp => calls_of_goTo h hc hcalls fun _ hd => ⟨hd.1, hp hd.1 hd.2⟩
  have hschedule : ∀ {r : Registry} (k : Option VaultId), r.Untried u v →
      (r.schedule k).1.Untried u v := fun k ⟨d, hd, hdone⟩ =>
    ⟨d, calls_schedule_of_some hd, hdone⟩
  have htried : ∀ {c : MaintenanceCall} {p q : CallPhase}, c.phase = q → q.untried = false →
      c.vaultId = some v → c.phase.untried → p.untried := by
    intro c p q hp hq _ hcu
    rw [hp, hq] at hcu
    cases hcu
  cases hmove with
  | call k =>
      obtain ⟨d, hd, hrest⟩ := h
      exact ⟨d, calls_begin_of_some hd, hrest⟩
  | request k => exact hschedule k h
  | @claimed t c w tried claimed hc hp hkey =>
      refine hgo hc rfl fun hv _ => ?_
      rcases hkey with hkey | hkey
      · cases hkey.symm.trans hv
      · exact absurd (.inl (congrArg _ (Option.some.inj (hkey.symm.trans hv)))) hserves
  | @refused t c w tried claimed hc hp hkey hbusy =>
      refine hgo hc rfl fun hv _ => ?_
      rcases hkey with hkey | hkey
      · cases hkey.symm.trans hv
      · exact absurd (Option.some.inj (hkey.symm.trans hv) ▸ hfree) hbusy
  | @flushed t c w tried claimed hc hp =>
      refine hgo hc rfl fun _ hcu => ?_
      rw [hp] at hcu
      exact hcu
  | @leave t c tried claimed flushing raised hc hp hend =>
      refine hgo hc rfl fun hv hcu => ?_
      have hfalse : tried = false := by
        rw [hp] at hcu
        exact Bool.not_eq_true' tried ▸ hcu
      subst hfalse
      rw [hv] at hend hserves
      rcases hend with hend | ⟨-, hend | hend⟩
      · rw [hend] at hserves
        exact absurd (.inr rfl) hserves
      · cases hend
      · cases hend
  | release hc hp => exact hgo hc rfl (htried hp rfl)
  | released hc hp => exact hgo hc rfl (htried hp rfl)
  | reschedule hc hp => exact hschedule _ (hgo hc rfl (htried hp rfl))
  | rescheduled hc hp => exact hgo hc rfl (htried hp rfl)
  | @leaveSlot t c hc hp =>
      refine hgo (p := .followUp (r.leaveSlot c.vaultId t).2) hc ?_ (htried hp rfl)
      show (r.leaveSlot c.vaultId t).1.calls.modify t _ = _
      rw [(leaveSlot_spec r c.vaultId t).1]
      rfl
  | followUp hc hp => exact hschedule _ (hgo hc rfl (htried hp rfl))
  | finish hc hp => exact hgo hc rfl (htried hp rfl)

/-- A call that has nothing to do with a Vault. -/
structure Clear (v : VaultId) (c : MaintenanceCall) : Prop where
  other : c.vaultId ≠ some v
  held : v ∉ c.phase.held
  tokens : v ∉ c.phase.tokens

/-- The calls from some number on have nothing to do with the Vault. -/
def AllClear (r : Registry) (first : CallId) (v : VaultId) : Prop :=
  ∀ (t : CallId) (c : MaintenanceCall), first ≤ t → r.calls[t]? = some c → Clear v c

/-- A call that has just begun, and that nobody takes for one that is to come to the Vault. -/
lemma clear_new {c : MaintenanceCall} (hc : r.calls[t]? = some c)
    (hphase : c.phase = .running false [] none) (hnew : ∀ u, ¬r.Untried u v) : Clear v c := by
  refine ⟨fun hv => hnew t ⟨c, hc, hv, by rw [hphase]; rfl⟩, ?_, ?_⟩
  · rw [hphase]
    exact not_mem_nil
  · rw [hphase]
    exact not_mem_nil

variable {first : CallId}

lemma AllClear.begin {scheduled : Bool} (h : r.AllClear first v)
    (hnew : ∀ u, ¬(r.begin k scheduled).Untried u v) :
    (r.begin k scheduled).AllClear first v := by
  intro u d hu hd
  rcases calls_begin_eq_some hd with hold | ⟨-, hd'⟩
  · exact h u d hu hold
  · exact clear_new hd (by rw [hd']) hnew

lemma AllClear.schedule (h : r.AllClear first v)
    (hnew : ∀ u, ¬(r.schedule k).1.Untried u v) : (r.schedule k).1.AllClear first v := by
  rw [Registry.schedule] at hnew ⊢
  rcases scheduleMaintenance_cases r k with ⟨w, -, hs⟩ | ⟨-, hs⟩ | hs
  · rw [hs]
    exact h
  · rw [hs]
    exact h
  · rw [hs] at hnew ⊢
    exact AllClear.begin h hnew

lemma AllClear.goTo (h : r.AllClear first v) (hc : r.calls[t]? = some c)
    (hcalls : r'.calls = (r.goTo t p).calls)
    (hp : Clear v c → v ∉ p.held ∧ v ∉ p.tokens) : r'.AllClear first v := by
  intro u d hu hd
  rw [hcalls] at hd
  by_cases hut : u = t
  · subst hut
    cases (calls_goTo_self hc).symm.trans hd
    have hclear := h u c hu hc
    exact ⟨hclear.other, (hp hclear).1, (hp hclear).2⟩
  · exact h u d hu ((calls_goTo_of_ne hut).symm.trans hd)

/-- **Later calls** have nothing to do with a Vault that no call comes to. -/
lemma Moves.allClear (hmove : Moves r a r' e) (hserves : ¬e.Serves v)
    (hnew : ∀ u, ¬r'.Untried u v) (h : r.AllClear first v) : r'.AllClear first v := by
  -- a call that goes on with less in its hands
  have hless : ∀ {t : CallId} {c : MaintenanceCall} {p q : CallPhase},
      r.calls[t]? = some c → c.phase = q → p.held ⊆ q.held → p.tokens ⊆ q.tokens →
      (r.goTo t p).AllClear first v := by
    intro t c p q hc hp hheld htokens
    refine h.goTo hc rfl fun hclear => ⟨fun hv => hclear.held ?_, fun hv => hclear.tokens ?_⟩
    · rw [hp]
      exact hheld hv
    · rw [hp]
      exact htokens hv
  cases hmove with
  | call k => exact h.begin hnew
  | request k => exact h.schedule hnew
  | @claimed t c w tried claimed hc hp =>
      refine h.goTo (p := .running true (addClaim claimed w) (some w)) hc rfl fun hclear =>
        ⟨fun hv => ?_, not_mem_nil⟩
      have hv : v ∈ addClaim claimed w := hv
      rw [addClaim] at hv
      have hheld : v ∉ claimed := fun hv => hclear.held (by rw [hp]; exact hv)
      split at hv
      · exact hheld hv
      · rcases mem_append.mp hv with hv | hv
        · exact hheld hv
        · exact hserves (.inl (congrArg _ (mem_singleton.mp hv).symm))
  | @refused t c w tried claimed hc hp =>
      have hless := hless (p := .running true claimed none) hc hp (List.Subset.refl _)
        (List.Subset.refl _)
      exact hless
  | flushed hc hp => exact hless hc hp (List.Subset.refl _) (List.Subset.refl _)
  | leave raised hc hp => exact hless hc hp (List.Subset.refl _) (List.Subset.refl _)
  | @release t c w claimed pendingVaults hc hp =>
      refine h.goTo (p := .releasing claimed
        (if w ∈ r.pending then pendingVaults ++ [w] else pendingVaults)) hc rfl fun hclear => ?_
      have hheld : v ∉ w :: claimed := fun hv => hclear.held (by rw [hp]; exact hv)
      have htokens : v ∉ pendingVaults := fun hv => hclear.tokens (by rw [hp]; exact hv)
      refine ⟨fun hv => hheld (mem_cons_of_mem _ hv), fun hv => ?_⟩
      have hv : v ∈ (if w ∈ r.pending then pendingVaults ++ [w] else pendingVaults) := hv
      split at hv
      · rcases mem_append.mp hv with hv | hv
        · exact htokens hv
        · exact hheld (mem_singleton.mp hv ▸ mem_cons_self)
      · exact htokens hv
  | released hc hp => exact hless hc hp (List.Subset.refl _) (List.Subset.refl _)
  | reschedule hc hp =>
      exact AllClear.schedule (hless hc hp (List.Subset.refl _) (subset_cons_self _ _)) hnew
  | @rescheduled t c hc hp =>
      refine hless hc hp ?_ ?_
      · split <;> exact nil_subset _
      · split <;> exact nil_subset _
  | @leaveSlot t c hc hp =>
      refine h.goTo (p := .followUp (r.leaveSlot c.vaultId t).2) hc ?_ fun hclear =>
        ⟨not_mem_nil, fun hv => hclear.other ?_⟩
      · show (r.leaveSlot c.vaultId t).1.calls.modify t _ = _
        rw [(leaveSlot_spec r c.vaultId t).1]
        rfl
      · cases htaken : (r.leaveSlot c.vaultId t).2 with
        | none =>
            rw [htaken] at hv
            cases hv
        | some w =>
            rw [htaken] at hv
            obtain rfl := mem_singleton.mp hv
            exact ((leaveSlot_taken r c.vaultId t v).mp htaken).2.1
  | followUp hc hp =>
      exact AllClear.schedule (hless hc hp (List.Subset.refl _) (nil_subset _)) hnew
  | finish hc hp => exact hless hc hp (List.Subset.refl _) (nil_subset _)

end Registry

/-! ### Runs -/

open Registry

/-- What happens to the registry of a process, for as long as it lives. -/
abbrev MaintenanceRun := FairRuns.Run maintain Registry.empty

variable {run : MaintenanceRun} {v : VaultId}

/-- Every call comes to its end: flushes return, and threads get the lock. -/
def EveryCallEnds (run : MaintenanceRun) : Prop :=
  ∀ (n : ℕ) (t : CallId), t < (run.state n).calls.length → ∃ m, n ≤ m ∧ (run.state m).IsOver t

/-- No call comes to the Vault after some time. -/
def NeverServed (run : MaintenanceRun) (v : VaultId) (n : ℕ) : Prop :=
  ∀ (m : ℕ) (e : MaintenanceEvent), n ≤ m → run.Reports m e → ¬e.Serves v

lemma run_ok (run : MaintenanceRun) (n : ℕ) : (run.state n).Ok :=
  run.invariant ok_empty (fun _ _ _ _ => maintain_ok) n

/-- A property that every action keeps that does not come to the Vault. -/
lemma NeverServed.from_on {n : ℕ} (hnever : NeverServed run v n) {P : Registry → Prop} {m : ℕ}
    (hm : n ≤ m) (h : P (run.state m))
    (hstep : ∀ k, m ≤ k → ∀ a e, Moves (run.state k) a (run.state (k + 1)) e → ¬e.Serves v →
      P (run.state k) → P (run.state (k + 1))) : ∀ k, m ≤ k → P (run.state k) :=
  FairRuns.Run.from_on run h fun k hk hP a e ha he =>
    hstep k hk a e (moves_of_maintain he) (hnever k e (hm.trans hk) ⟨a, ha, he⟩) hP

/-- A Vault that no call comes to has no owner in the end. -/
lemma NeverServed.exists_free {n : ℕ} (hnever : NeverServed run v n) (hends : EveryCallEnds run) :
    ∃ m, n ≤ m ∧ ∀ k, m ≤ k → (run.state k).owners v = none := by
  have hclaimed : ∀ {e : MaintenanceEvent}, ¬e.Serves v → e ≠ .claimed v := fun h heq =>
    h (.inl heq)
  have hstay : ∀ m, n ≤ m → (run.state m).owners v = none →
      ∀ k, m ≤ k → (run.state k).owners v = none := by
    intro m hm hfree
    refine hnever.from_on (P := fun r => r.owners v = none) hm hfree
      fun k _ a e hmove hserves hfree => ?_
    refine Option.eq_none_iff_forall_ne_some.mpr fun u hu => ?_
    rcases hmove.owner hu with hold | hnew
    · cases hfree.symm.trans hold
    · exact hclaimed hserves hnew
  cases howner : (run.state n).owners v with
  | none => exact ⟨n, le_rfl, hstay n le_rfl howner⟩
  | some t =>
      -- the owner ends, and nobody else comes to own the Vault
      obtain ⟨c, hc, -⟩ := ((run_ok run n).owned v t).mp howner
      obtain ⟨m, hm, d, hd, hdone⟩ := hends n t (List.getElem?_eq_some_iff.mp hc).1
      have honly : ∀ k, n ≤ k → ∀ u, (run.state k).owners v = some u → u = t := by
        refine hnever.from_on (P := fun r => ∀ u, r.owners v = some u → u = t) le_rfl
          (fun u hu => Option.some.inj (hu.symm.trans howner)) ?_
        intro k _ a e hmove hserves hP u hu
        exact hP u ((hmove.owner hu).resolve_right (hclaimed hserves))
      refine ⟨m, hm, hstay m hm (Option.eq_none_iff_forall_ne_some.mpr fun u hu => ?_)⟩
      obtain rfl := honly m hm u hu
      obtain ⟨c', hc', hheld⟩ := ((run_ok run m).owned v u).mp hu
      cases hd.symm.trans hc'
      rw [hdone] at hheld
      cases hheld

/-- **A request is served**: a call comes to the Vault after it. -/
theorem eventually_served (hends : EveryCallEnds run) {n : ℕ}
    (hrefused : run.Reports n (.refused v)) :
    ∃ m e, n < m ∧ run.Reports m e ∧ e.Serves v := by
  by_contra hnone
  have hnever : NeverServed run v (n + 1) := fun m e hm he hserves =>
    hnone ⟨m, e, hm, he, hserves⟩
  -- the request is carried on forever
  have hcarried : ∀ m, n + 1 ≤ m → (run.state m).Carried v := by
    obtain ⟨a, -, he⟩ := hrefused
    have hfirst := (moves_of_maintain he).carried (.inr rfl) (by rintro (h | h) <;> cases h)
    exact hnever.from_on (P := fun r => r.Carried v) le_rfl hfirst
      fun k _ a e hmove hserves h => hmove.carried (.inl h) hserves
  obtain ⟨m₁, hm₁, hfree⟩ := hnever.exists_free hends
  -- from then on, no call is there that is to come to the Vault
  have hnew : ∀ m, m₁ ≤ m → ∀ u, ¬(run.state m).Untried u v := by
    intro m hm u huntried
    have hforever : ∀ k, m ≤ k → (run.state k).Untried u v :=
      hnever.from_on (P := fun r => r.Untried u v) (hm₁.trans hm) huntried
        fun k hk a e hmove hserves h => hmove.untried (hfree k (hm.trans hk)) hserves h
    obtain ⟨c, hc, -⟩ := huntried
    obtain ⟨k, hk, d, hd, hdone⟩ := hends m u (List.getElem?_eq_some_iff.mp hc).1
    obtain ⟨c', hc', -, hu⟩ := hforever k hk
    cases hd.symm.trans hc'
    rw [hdone] at hu
    cases hu
  -- nor any later one that has to do with it
  have hclear : ∀ m, m₁ ≤ m →
      (run.state m).AllClear (run.state m₁).calls.length v := by
    refine hnever.from_on (P := fun r => r.AllClear (run.state m₁).calls.length v) hm₁
      (fun t c ht hc => ?_) fun k hk a e hmove hserves h =>
      hmove.allClear hserves (hnew (k + 1) (Nat.le_succ_of_le hk)) h
    exact absurd (List.getElem?_eq_some_iff.mp hc).1 (Nat.not_lt.mpr ht)
  -- and the earlier ones come to their ends
  obtain ⟨m₂, hover⟩ := FairRuns.eventually_forall_lt (P := fun t m => (run.state m).IsOver t)
    (k := (run.state m₁).calls.length) fun t ht => by
      obtain ⟨m, hm, hdone⟩ := hends m₁ t ht
      exact ⟨m, hnever.from_on (P := fun r => r.IsOver t) (hm₁.trans hm) hdone
        fun k _ a e hmove _ h => hmove.isOver h⟩
  have hm₁' : m₁ ≤ max m₁ m₂ := le_max_left _ _
  have hdone : ∀ (t : CallId) (c : MaintenanceCall),
      (run.state (max m₁ m₂)).calls[t]? = some c → c.phase = .done ∨ Clear v c := by
    intro t c hc
    by_cases ht : t < (run.state m₁).calls.length
    · obtain ⟨d, hd, hphase⟩ := hover _ (le_max_right m₁ m₂) t ht
      cases hd.symm.trans hc
      exact .inl hphase
    · exact .inr (hclear _ hm₁' t c (Nat.le_of_not_lt ht) hc)
  rcases hcarried _ (hm₁.trans hm₁') with hpending | ⟨t, c, hc, htoken⟩ | ⟨t, huntried⟩
  · rcases (run_ok run _).asked v hpending with howner | hworker
    · exact howner (hfree _ hm₁')
    · obtain ⟨t, ht⟩ := Option.ne_none_iff_exists'.mp hworker
      obtain ⟨c, hc, hkey, -, hslot⟩ := (run_ok run _).slots _ t ht
      rcases hdone t c hc with hphase | hother
      · rw [hphase] at hslot
        cases hslot
      · exact hother.other hkey
  · rcases hdone t c hc with hphase | hother
    · rw [hphase] at htoken
      cases htoken
    · exact hother.tokens htoken
  · exact hnew _ hm₁' t huntried

/-- The registries a process can come to. -/
def Registry.Reachable (r : Registry) : Prop :=
  ∃ acts, Runs.run (FairRuns.silent maintain) Registry.empty acts = some r

lemma Registry.Reachable.ok {r : Registry} (h : r.Reachable) : r.Ok := by
  obtain ⟨acts, hrun⟩ := h
  refine Runs.run_induction (fun s a s' hok hs => ?_) ok_empty hrun
  obtain ⟨⟨s'', e⟩, hstep, rfl⟩ := Option.map_eq_some_iff.mp hs
  exact maintain_ok hok hstep

/-- **Maintenance requests are never stranded.**  For any number of calls and whatever the order
of their actions: no two calls flush a Vault at a time; a Vault that is pending is held by a call
that has still to give it back, or has a worker that has still to leave its slot; and if every
call comes to its end, then after a request that found its Vault busy a call comes to the
Vault. -/
theorem maintenance_not_stranded :
    (∀ r : Registry, r.Reachable → ∀ (t u : CallId) (c d : MaintenanceCall) (v : VaultId),
      r.calls[t]? = some c → r.calls[u]? = some d → c.phase.flushes = some v →
      d.phase.flushes = some v → t = u) ∧
    (∀ r : Registry, r.Reachable → ∀ v ∈ r.pending,
      (∃ t c, r.owners v = some t ∧ r.calls[t]? = some c ∧ v ∈ c.phase.held) ∨
      ∃ t c, r.inflight (some v) = some t ∧ r.calls[t]? = some c ∧ c.vaultId = some v ∧
        c.scheduled = true ∧ c.phase.inSlot = true) ∧
    ∀ run : MaintenanceRun, EveryCallEnds run → ∀ n v, run.Reports n (.refused v) →
      ∃ m e, n < m ∧ run.Reports m e ∧ e.Serves v := by
  refine ⟨fun r hr t u c d v hc hd hcv hdv => ?_, fun r hr v hv => ?_,
    fun run hends n v hrefused => eventually_served hends hrefused⟩
  · have ht := (hr.ok.owned v t).mpr ⟨c, hc, hr.ok.flushes t c v hc hcv⟩
    have hu := (hr.ok.owned v u).mpr ⟨d, hd, hr.ok.flushes u d v hd hdv⟩
    exact Option.some.inj (ht.symm.trans hu)
  · rcases hr.ok.asked v hv with howner | hworker
    · obtain ⟨t, ht⟩ := Option.ne_none_iff_exists'.mp howner
      obtain ⟨c, hc, hheld⟩ := (hr.ok.owned v t).mp ht
      exact .inl ⟨t, c, ht, hc, hheld⟩
    · obtain ⟨t, ht⟩ := Option.ne_none_iff_exists'.mp hworker
      obtain ⟨c, hc, hrest⟩ := hr.ok.slots _ t ht
      exact .inr ⟨t, c, ht, hc, hrest⟩

/-- A sweep of all Vaults owns one of them when it is requested; the worker that the sweep starts
comes to it. -/
def sweepActs : List MaintenanceAct :=
  [.call none, .claim 0 5, .request (some 5), .flushed 0, .leave 0 false, .release 0, .release 0,
    .reschedule 0, .reschedule 0, .claim 1 5, .flushed 1, .leave 1 false, .release 1, .release 1,
    .reschedule 1, .leaveSlot 1, .followUp 1]

/-- The run of the sweep. -/
def sweepRun : MaintenanceRun := FairRuns.Run.ofList sweepActs (by decide)

lemma sweepRun_ends : EveryCallEnds sweepRun := by
  intro n t ht
  refine ⟨max n 17, le_max_left _ _, ?_⟩
  have hfinal : ∀ m, 17 ≤ m → sweepRun.state m = sweepRun.state 17 := fun m hm =>
    (FairRuns.Run.ofList_state _ hm).trans (FairRuns.Run.ofList_state _ le_rfl).symm
  have hlength : ∀ m ≤ 17, (sweepRun.state m).calls.length ≤ 2 := by decide
  have hlt : t < 2 := by
    refine lt_of_lt_of_le ht ?_
    by_cases hn : n ≤ 17
    · exact hlength n hn
    · rw [hfinal n (Nat.le_of_not_le hn)]
      exact hlength 17 le_rfl
  rw [hfinal _ (le_max_right _ _)]
  match t, hlt with
  | 0, _ => exact ⟨_, rfl, rfl⟩
  | 1, _ => exact ⟨_, rfl, rfl⟩

/-- The request in the middle of the sweep is served, and nobody else flushes meanwhile. -/
theorem maintenance_not_stranded_sweep :
    (∀ (u : CallId) (d : MaintenanceCall), (sweepRun.state 2).calls[u]? = some d →
      d.phase.flushes = some 5 → u = 0) ∧
    (∃ m e, 2 < m ∧ sweepRun.Reports m e ∧ e.Serves 5) ∧
      ∃ r : Registry, r.Reachable ∧ 5 ∈ r.pending ∧
        ((∃ t c, r.owners 5 = some t ∧ r.calls[t]? = some c ∧ 5 ∈ c.phase.held) ∨
          ∃ t c, r.inflight (some 5) = some t ∧ r.calls[t]? = some c ∧ c.vaultId = some 5 ∧
            c.scheduled = true ∧ c.phase.inSlot = true) := by
  refine ⟨fun u d hd hv => maintenance_not_stranded.1 _ ⟨sweepActs.take 2, rfl⟩ u 0 d _ 5 hd rfl
      hv rfl,
    maintenance_not_stranded.2.2 sweepRun sweepRun_ends 2 5 ⟨.request (some 5), rfl, rfl⟩,
    sweepRun.state 3, ⟨sweepActs.take 3, rfl⟩, by decide, ?_⟩
  exact maintenance_not_stranded.2.1 _ ⟨sweepActs.take 3, rfl⟩ 5 (by decide)

end Frostvault
