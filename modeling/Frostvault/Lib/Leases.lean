import Frostvault.Lib.Runs
import Mathlib.Order.Lattice

/-!
Leases with fencing tokens.

A lease is held under a token until its term ends or the leased work is over.  A token is
handed out once, and only while no token is live; whoever writes under a token must hold
the live one.

* `Lease.live_unique`: at a time at most one token is live;
* `Move.not_live`: a token that is not live any more does not come back to life with a step;
* `not_live_run`: nor in a whole run of a system whose steps are such moves.
-/

namespace Leases

variable {τ T : Type*} [LinearOrder T]

/-- A lease, with the tokens handed out so far and the time of the last step. -/
structure Lease (τ T : Type*) where
  holder : Option τ
  expiry : Option T
  /-- The leased work is over. -/
  closed : Bool
  issued : List τ
  clock : T

/-- The token holds the lease at a time. -/
structure Lease.Live (l : Lease τ T) (x : τ) (now : T) : Prop where
  opened : l.closed = false
  holds : l.holder = some x
  inTerm : ∃ e, l.expiry = some e ∧ now < e

variable {l : Lease τ T}

/-- **One holder.**  The lease has one holder, so two live tokens are the same. -/
theorem Lease.live_unique {x y : τ} {t u : T} (hx : l.Live x t) (hy : l.Live y u) : x = y :=
  Option.some.inj (hx.holds.symm.trans hy.holds)

lemma Lease.Live.earlier {x : τ} {t u : T} (h : l.Live x u) (htu : t ≤ u) :
    l.Live x t := by
  obtain ⟨e, he, hlt⟩ := h.inTerm
  exact ⟨h.opened, h.holds, e, he, lt_of_le_of_lt htu hlt⟩

/-- What one step may do to a lease; the clock of the second one is the time of the step. -/
inductive Move (l l' : Lease τ T) : Prop
  /-- The lease is left as it is, or its work ends. -/
  | idle (hholder : l'.holder = l.holder) (hexpiry : l'.expiry = l.expiry)
      (hclosed : l'.closed = false → l.closed = false) (hissued : l.issued ⊆ l'.issued)
  /-- A new token gets a lease nobody holds. -/
  | grant (x : τ) (hnew : x ∉ l.issued) (hfree : ∀ y, ¬ l.Live y l'.clock)
      (hholder : l'.holder = some x) (hissued : l'.issued = x :: l.issued)
  /-- The live holder extends its term, gives the lease back or ends the work. -/
  | use (x : τ) (hlive : l.Live x l'.clock) (hholder : l'.holder = some x ∨ l'.holder = none)
      (hissued : l'.issued = l.issued)
  /-- The lease is taken from whoever held it. -/
  | drop (hholder : l'.holder = none) (hissued : l'.issued = l.issued)

lemma Move.issued {l' : Lease τ T} (h : Move l l') {x : τ} (hx : x ∈ l.issued) :
    x ∈ l'.issued := by
  cases h with
  | idle _ _ _ hissued => exact hissued hx
  | grant y _ _ _ hissued => exact hissued ▸ List.mem_cons_of_mem y hx
  | use _ _ _ hissued => rwa [hissued]
  | drop _ hissued => rwa [hissued]

/-- **No way back.**  A token that is handed out and not live is not live after a step. -/
theorem Move.not_live {l' : Lease τ T} (h : Move l l') (hclock : l.clock ≤ l'.clock) {x : τ}
    (hx : x ∈ l.issued) (hdead : ¬ l.Live x l.clock) : ¬ l'.Live x l'.clock := by
  intro hlive
  have hholds := hlive.holds
  cases h with
  | idle hholder hexpiry hclosed _ =>
      have hl : l.Live x l'.clock :=
        ⟨hclosed hlive.opened, hholder ▸ hholds, hexpiry ▸ hlive.inTerm⟩
      exact hdead (hl.earlier hclock)
  | grant y hnew _ hholder _ =>
      cases hholder.symm.trans hholds
      exact hnew hx
  | use y hy hholder _ =>
      obtain hholder | hholder := hholder
      · cases hholder.symm.trans hholds
        exact hdead (hy.earlier hclock)
      · rw [hholder] at hholds
        cases hholds
  | drop hholder _ =>
      rw [hholder] at hholds
      cases hholds

/-- **Fencing.**  In a system whose clock does not go back and whose steps are moves of a
lease, a token that is not live any more is never live again. -/
theorem not_live_run {σ α : Type*} {step : σ → α → Option σ} (L : σ → Lease τ T)
    (hclock : ∀ s a s', step s a = some s' → (L s).clock ≤ (L s').clock)
    (hmove : ∀ s a s', step s a = some s' → Move (L s) (L s'))
    {s t : σ} {as : List α} (hrun : Runs.run step s as = some t) {x : τ}
    (hx : x ∈ (L s).issued) (hdead : ¬ (L s).Live x (L s).clock) :
    x ∈ (L t).issued ∧ ¬ (L t).Live x (L t).clock := by
  refine Runs.run_induction
    (I := fun u => x ∈ (L u).issued ∧ ¬ (L u).Live x (L u).clock)
    (fun u a u' hu hstep => ?_) ⟨hx, hdead⟩ hrun
  have hm := hmove u a u' hstep
  exact ⟨hm.issued hu.1, hm.not_live (hclock u a u' hstep) hu.1 hu.2⟩

end Leases
