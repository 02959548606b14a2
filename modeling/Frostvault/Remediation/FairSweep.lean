import Frostvault.Lib.Turns

/-!
The Vaults that a sweep takes (`_fair_vaults` and the loop of `sweep` in
`app/services/upload_remediation.py`).

Each queue has a row with a cursor of its own, and is swept alone.  A sweep reads the Vaults that
are due then, from the cursor on and round again, and writes each of them to the cursor before it
is worked on.  The deadline ends the sweep after any number of them.  Which Vaults are due is
read anew by every sweep, and may be anything.

* `fairVaults`, `sweepQueue`: one sweep of a queue;
* `sweepQueues`: consecutive sweeps, with the values that are written to the cursor;
* `advances_sweepQueues`: no sweep passes over a Vault that is due;
* `sweep_starves_none`: **a Vault that is due at every start has its turn within as many
  candidates as there are Vaults**.
-/

namespace Frostvault

open Turns

/-- `VAULT_BATCH`. -/
def vaultBatch : ℕ := 10

variable {ν : Type} [LinearOrder ν]

/-- A sweep of one queue: the Vaults that are due at its start, and how many candidates are taken
before the deadline. -/
structure QueueSweep (ν : Type) where
  due : ν → Bool
  taken : ℕ

/-- `_fair_vaults`: `WHERE .. ORDER BY (v.id > last_vault_id) DESC, v.id LIMIT VAULT_BATCH`. -/
def fairVaults (vaults : List ν) (due : ν → Bool) (lastVaultId : ν) : List ν :=
  ((vaults.filter due).insertionSort (NoLater lastVaultId)).take vaultBatch

/-- `for candidate in vaults`: the cursor after the loop, and the values written to it.  Each
candidate is written before the work on it, whatever becomes of that. -/
def takeCandidates : ℕ → ν → List ν → ν × List ν
  | taken + 1, _, candidate :: vaults =>
      let rest := takeCandidates taken candidate vaults
      (rest.1, candidate :: rest.2)
  | _, lastVaultId, _ => (lastVaultId, [])

/-- One queue's part of `sweep`. -/
def sweepQueue (vaults : List ν) (sweep : QueueSweep ν) (lastVaultId : ν) : ν × List ν :=
  takeCandidates sweep.taken lastVaultId (fairVaults vaults sweep.due lastVaultId)

/-- Consecutive sweeps of one queue: the cursor after them, and the values written to it, which
are the candidates that were selected. -/
def sweepQueues (vaults : List ν) : ν → List (QueueSweep ν) → ν × List ν
  | lastVaultId, [] => (lastVaultId, [])
  | lastVaultId, sweep :: sweeps =>
      let first := sweepQueue vaults sweep lastVaultId
      let rest := sweepQueues vaults first.1 sweeps
      (rest.1, first.2 ++ rest.2)

/-! ### One sweep -/

variable {vaults : List ν} {cursor v : ν} {sweep : QueueSweep ν} {sweeps : List (QueueSweep ν)}

omit [LinearOrder ν] in
/-- The loop takes the first candidates, and leaves the last of them in the cursor. -/
lemma takeCandidates_eq (taken : ℕ) (cursor : ν) (candidates : List ν) :
    takeCandidates taken cursor candidates =
      ((candidates.take taken).getLast?.getD cursor, candidates.take taken) := by
  induction taken generalizing cursor candidates with
  | zero => cases candidates <;> rfl
  | succ taken ih =>
      cases candidates with
      | nil => rfl
      | cons candidate candidates =>
          simp only [takeCandidates, ih, List.take_succ_cons]
          rw [List.getLast?_cons, Option.getD_some]

lemma sweepQueue_snd : (sweepQueue vaults sweep cursor).2 =
    ((vaults.filter sweep.due).insertionSort (NoLater cursor)).take
      (min sweep.taken vaultBatch) := by
  rw [sweepQueue, takeCandidates_eq, fairVaults, List.take_take]

lemma advances_sweepQueue (hkey : vaults.Nodup) (hv : v ∈ vaults) (hdue : sweep.due v) :
    Advances v cursor (sweepQueue vaults sweep cursor).2 := by
  rw [sweepQueue_snd]
  refine advances_take_of_pairwise (List.pairwise_insertionSort _ _) ?_ ?_ _
  · exact (List.perm_insertionSort _ _).nodup_iff.mpr (hkey.filter _)
  · exact (List.mem_insertionSort _).mpr (List.mem_filter.mpr ⟨hv, hdue⟩)

/-! ### Consecutive sweeps -/

lemma mem_of_mem_sweepQueues {a : ν} (h : a ∈ (sweepQueues vaults cursor sweeps).2) :
    a ∈ vaults := by
  induction sweeps generalizing cursor with
  | nil => cases h
  | cons sweep sweeps ih =>
      rcases List.mem_append.mp h with h | h
      · rw [sweepQueue_snd] at h
        exact (List.mem_filter.mp ((List.mem_insertionSort _).mp (List.mem_of_mem_take h))).1
      · exact ih h

/-- **No sweep passes over a Vault that is due** at the start of each. -/
lemma advances_sweepQueues (hkey : vaults.Nodup) (hv : v ∈ vaults)
    (hdue : ∀ sweep ∈ sweeps, sweep.due v) :
    Advances v cursor (sweepQueues vaults cursor sweeps).2 := by
  induction sweeps generalizing cursor with
  | nil => exact trivial
  | cons sweep sweeps ih =>
      obtain ⟨hfirst, hrest⟩ := List.forall_mem_cons.mp hdue
      -- the next sweep starts from the last candidate of this one
      have hcursor : (sweepQueue vaults sweep cursor).1 =
          (sweepQueue vaults sweep cursor).2.getLast?.getD cursor := by
        rw [sweepQueue, takeCandidates_eq]
      rw [sweepQueues, advances_append, ← hcursor]
      exact ⟨advances_sweepQueue hkey hv hfirst, ih hrest⟩

/-- **The sweep starves no Vault.**  Among as many consecutive candidates as there are Vaults, a
Vault that is due at the start of every sweep is selected, and the cursor set to it. -/
theorem sweep_starves_none (hkey : vaults.Nodup) (hv : v ∈ vaults) (cursor : ν)
    (hdue : ∀ sweep ∈ sweeps, sweep.due v = true) {i : ℕ}
    (hi : i + vaults.length ≤ (sweepQueues vaults cursor sweeps).2.length) :
    v ∈ ((sweepQueues vaults cursor sweeps).2.drop i).take vaults.length :=
  mem_take_drop_of_advances hv (fun _ ha => mem_of_mem_sweepQueues ha)
    (advances_sweepQueues hkey hv hdue) hi

/-- Vault 2 of three, from a cursor above them all, with the others leaving the due set. -/
theorem sweep_starves_none_wrapped :
    2 ∈ ((sweepQueues [1, 2, 3] 7 [⟨fun _ => true, 1⟩, ⟨fun v => v ≠ 3, 2⟩,
      ⟨fun v => v = 2, 5⟩]).2.drop 1).take 3 := by
  have hkey : [1, 2, 3].Nodup := by decide
  have hv : 2 ∈ [1, 2, 3] := by decide
  have hdue : ∀ sweep ∈ ([⟨fun _ => true, 1⟩, ⟨fun v => v ≠ 3, 2⟩,
      ⟨fun v => v = 2, 5⟩] : List (QueueSweep ℕ)), sweep.due 2 = true := by simp
  exact sweep_starves_none hkey hv 7 hdue (by decide)

end Frostvault
