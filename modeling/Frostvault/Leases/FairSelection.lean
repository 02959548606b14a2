import Frostvault.Lib.RoundRobin
import Mathlib.Data.List.Sort
import Mathlib.Data.Prod.Lex
import Mathlib.Data.String.Basic

/-!
The Jobs a worker takes next (`select_fair_jobs` of `app/services/job_scheduler.py`).

The candidates are sorted by age and put in one queue for each Vault.  The Vaults are asked in
turn, the one with the oldest Job first; a Vault whose queue has run out drops out, and the others
keep their order.

* `selectFairJobs`: the function, with its loops as they are;
* `selectFairJobs_eq`: it takes the first turns of a round robin over the sorted queues;
* `fair_selection`: **it takes as many distinct Jobs as it may, every Vault's oldest first, and no
  Vault falls behind another by more than a turn**;
* `oldest_first_iff`: **a round is served oldest first exactly when the Vaults that take part in
  it are as old in that round as in the first**.
-/

namespace Frostvault

open RoundRobin
open List hiding count

/-! ### Candidates -/

/-- A candidate Job: what the function reads of the mapping. -/
structure FairJob (ν : Type) where
  id : Option ℤ
  requestedAt : Option String
  vaultId : ν
deriving DecidableEq, Repr

/-- `(str(item.get("requested_at") or ""), int(item.get("id") or 0))`. -/
def FairJob.age {ν : Type} (j : FairJob ν) : String ×ₗ ℤ :=
  toLex (j.requestedAt.getD "", j.id.getD 0)

/-- `by_vault`: a queue for each Vault, in the order of insertion. -/
abbrev Queues (ν : Type) := List (ν × List (FairJob ν))

variable {ν : Type} [LinearOrder ν]

namespace Queues

/-- `by_vault.get(vault_id)`. -/
def get (d : Queues ν) (v : ν) : Option (List (FairJob ν)) :=
  (d.find? fun e => e.1 = v).map Prod.snd

/-- `by_vault.pop(vault_id, None)`. -/
def pop (d : Queues ν) (v : ν) : Queues ν := d.filter fun e => e.1 ≠ v

/-- A queue that is rewritten in its place. -/
def put (d : Queues ν) (v : ν) (js : List (FairJob ν)) : Queues ν :=
  d.map fun e => if e.1 = v then (v, js) else e

/-- `by_vault[item_vault_id(job)].append(job)` on a `defaultdict`. -/
def append (d : Queues ν) (j : FairJob ν) : Queues ν :=
  match d.get j.vaultId with
  | some js => d.put j.vaultId (js ++ [j])
  | none => d ++ [(j.vaultId, [j])]

end Queues

/-- `sorted(jobs, key=..)`. -/
def byAge (jobs : List (FairJob ν)) : List (FairJob ν) :=
  jobs.insertionSort fun a b => a.age ≤ b.age

/-- The first loop: the queues of all Vaults. -/
def byVault (jobs : List (FairJob ν)) : Queues ν := (byAge jobs).foldl Queues.append []

/-- The sort key of a Vault: the age of its next Job, and its id. -/
def vaultKey (e : ν × List (FairJob ν)) : (String ×ₗ ℤ) ×ₗ ν :=
  toLex (((e.2.head?).map FairJob.age).getD (toLex ("", 0)), e.1)

/-- `sorted(by_vault.keys(), key=..)`. -/
def vaultOrder (d : Queues ν) : List ν :=
  (d.insertionSort fun a b => vaultKey a ≤ vaultKey b).map Prod.fst

/-! ### The loops -/

/-- What a round works on. -/
structure RoundState (ν : Type) where
  queues : Queues ν
  selected : List (FairJob ν)
  nextOrder : List ν
  progressed : Bool

/-- One turn of a Vault that has a Job left. -/
def RoundState.take (s : RoundState ν) (v : ν) (j : FairJob ν) (js : List (FairJob ν)) :
    RoundState ν where
  queues := if js = [] then s.queues.pop v else s.queues.put v js
  selected := s.selected ++ [j]
  nextOrder := if js = [] then s.nextOrder else s.nextOrder ++ [v]
  progressed := true

/-- `for vault_id in vault_order`. -/
def fairRound (limit : ℤ) : List ν → RoundState ν → RoundState ν
  | [], s => s
  | v :: vs, s =>
      match s.queues.get v with
      | some (j :: js) =>
          if limit ≤ (s.take v j js).selected.length then s.take v j js
          else fairRound limit vs (s.take v j js)
      | _ => fairRound limit vs { s with queues := s.queues.pop v }

/-- `while len(selected) < limit and by_vault`; `none` when the fuel has run out. -/
def fairLoop (limit : ℤ) : ℕ → Queues ν → List ν → List (FairJob ν) →
    Option (List (FairJob ν))
  | 0, _, _, _ => none
  | fuel + 1, d, order, selected =>
      if (selected.length : ℤ) < limit ∧ d ≠ [] then
        let r := fairRound limit order ⟨d, selected, [], false⟩
        if r.progressed = false then some r.selected
        else
          fairLoop limit fuel r.queues
            (if r.nextOrder = [] then vaultOrder r.queues else r.nextOrder) r.selected
      else some selected

/-- `select_fair_jobs`.  A turn of the loop takes one Job at least. -/
def selectFairJobs (jobs : List (FairJob ν)) (limit : ℤ) : Option (List (FairJob ν)) :=
  if limit ≤ 0 ∨ jobs = [] then some []
  else fairLoop limit (limit.toNat + 1) (byVault jobs) (vaultOrder (byVault jobs)) []

/-! ### Queues -/

/-- The dictionary holds the queues that are not empty. -/
def Offers (d : Queues ν) (queue : ν → List (FairJob ν)) : Prop :=
  ∀ v, d.get v = if queue v = [] then none else some (queue v)

lemma Queues.get_pop (d : Queues ν) (v u : ν) :
    (d.pop v).get u = if u = v then none else d.get u := by
  rw [Queues.get, Queues.pop, find?_filter, Queues.get]
  split
  · rename_i huv
    subst huv
    simp
  · rename_i huv
    congr 2
    funext e
    by_cases he : e.1 = u
    · simp [he, huv]
    · simp [he]

lemma Queues.get_put (d : Queues ν) (v : ν) (js : List (FairJob ν)) (u : ν) :
    (d.put v js).get u = if u = v then (d.get v).map fun _ => js else d.get u := by
  induction d with
  | nil => simp [Queues.get, Queues.put]
  | cons e d ih =>
      simp only [Queues.get, Queues.put, map_cons, find?_cons] at ih ⊢
      by_cases hev : e.1 = v
      · by_cases huv : u = v
        · subst huv
          simp [hev]
        · simp only [hev, if_true, Ne.symm huv, decide_false, if_neg huv]
          rw [ih, if_neg huv]
      · by_cases heu : e.1 = u
        · have huv : u ≠ v := fun h => hev (heu.trans h)
          simp [heu, huv]
        · simp only [hev, if_false, heu, decide_false]
          exact ih

variable {jobs js : List (FairJob ν)}

/-- A turn is taken: the queue of the Vault is one Job shorter. -/
lemma Offers.take {s : RoundState ν} {queue : ν → List (FairJob ν)} (h : Offers s.queues queue)
    {v : ν} {j : FairJob ν} (hv : queue v = j :: js) :
    Offers (s.take v j js).queues (Function.update queue v js) := by
  intro u
  have hget : s.queues.get v = some (j :: js) := by
    rw [h v, hv]
    rfl
  rw [RoundState.take]
  by_cases huv : u = v
  · subst huv
    rw [Function.update_self]
    split
    · rw [Queues.get_pop, if_pos rfl]
    · rw [Queues.get_put, if_pos rfl, hget]
      rfl
  · rw [Function.update_of_ne huv]
    split
    · rw [Queues.get_pop, if_neg huv]
      exact h u
    · rw [Queues.get_put, if_neg huv]
      exact h u

/-! ### One round -/

omit [LinearOrder ν] in
lemma round_zero_cons {vs : List ν} {queue : ν → List (FairJob ν)} {v : ν} {j : FairJob ν}
    (hv : queue v = j :: js) :
    round (v :: vs) queue 0 = j :: round vs queue 0 := by
  rw [round_zero, round_zero, filterMap_cons, hv]
  rfl

/-- What a round leaves: everyone's next Job is taken, as far as the limit goes. -/
structure RoundDone (limit : ℕ) (vs : List ν) (queue : ν → List (FairJob ν))
    (s r : RoundState ν) : Prop where
  selected : r.selected = s.selected ++ (round vs queue 0).take (limit - s.selected.length)
  progressed : r.progressed = true ↔ s.progressed = true ∨ vs ≠ []
  serves : s.selected.length + vs.length < limit →
    Offers r.queues fun v => if v ∈ vs then rest queue v else queue v
  nextOrder : s.selected.length + vs.length < limit →
    r.nextOrder = s.nextOrder ++ vs.filter fun v => rest queue v ≠ []

/-- **One round.** -/
lemma fairRound_done {limit : ℕ} {vs : List ν} {queue : ν → List (FairJob ν)} {s : RoundState ν}
    (hnd : vs.Nodup) (hs : Offers s.queues queue) (hq : ∀ v ∈ vs, queue v ≠ [])
    (hlt : s.selected.length < limit) :
    RoundDone limit vs queue s (fairRound limit vs s) := by
  induction vs generalizing s queue with
  | nil =>
      refine ⟨by simp [fairRound, round_zero], by simp [fairRound], fun _ => ?_, by simp [fairRound]⟩
      simpa [fairRound] using hs
  | cons v vs ih =>
      obtain ⟨hv, hnd⟩ := nodup_cons.mp hnd
      obtain ⟨j, js, hj⟩ := exists_cons_of_ne_nil (hq v mem_cons_self)
      have hget : s.queues.get v = some (j :: js) := by
        rw [hs v, hj]
        rfl
      have hother : ∀ u ∈ vs, Function.update queue v js u = queue u := fun u hu =>
        Function.update_of_ne (fun huv : u = v => hv (huv ▸ hu)) _ _
      have hround : round vs (Function.update queue v js) 0 = round vs queue 0 := by
        rw [round_zero, round_zero]
        exact filterMap_congr fun u hu => by rw [hother u hu]
      have hlen : (s.take v j js).selected.length = s.selected.length + 1 := by
        simp [RoundState.take]
      rw [fairRound, hget]
      dsimp only
      split
      · -- the limit is reached with this Job
        rename_i hlim
        have hlast : limit - s.selected.length = 1 := by
          rw [hlen] at hlim
          omega
        refine ⟨?_, by simp [RoundState.take], fun h => ?_, fun h => ?_⟩
        · rw [round_zero_cons hj, hlast]
          rfl
        · rw [length_cons] at h
          omega
        · rw [length_cons] at h
          omega
      · rename_i hlim
        have hmore : (s.take v j js).selected.length < limit := by omega
        obtain ⟨hsel, hprog, hserves, hnext⟩ := ih hnd
          (hs.take hj) (fun u hu => hother u hu ▸ hq u (mem_cons_of_mem v hu)) hmore
        refine ⟨?_, ?_, fun h => ?_, fun h => ?_⟩
        · have htake : limit - s.selected.length =
              limit - (s.take v j js).selected.length + 1 := by omega
          rw [hsel, hround, round_zero_cons hj, htake, take_succ_cons, RoundState.take,
            append_assoc]
          rfl
        · rw [hprog]
          simp [RoundState.take]
        · have hserves := hserves (by rw [hlen]; rw [length_cons] at h; omega)
          intro u
          rw [hserves u]
          by_cases huv : u = v
          · subst huv
            simp [hv, rest, hj]
          · simp [huv, rest]
        · rw [hnext (by rw [hlen]; rw [length_cons] at h; omega)]
          have hfilter : (vs.filter fun u => rest (Function.update queue v js) u ≠ []) =
              vs.filter fun u => rest queue u ≠ [] :=
            filter_congr fun u hu => by rw [rest, rest, hother u hu]
          have hrest : rest queue v = js := by rw [rest, hj]; rfl
          rw [hfilter, filter_cons, hrest, RoundState.take]
          by_cases hjs : js = []
          · simp [hjs]
          · simp [hjs]

/-! ### All rounds -/

lemma Offers.eq_nil_iff {d : Queues ν} {queue : ν → List (FairJob ν)} (h : Offers d queue) :
    d = [] ↔ ∀ v, queue v = [] := by
  constructor
  · rintro rfl v
    by_contra hne
    have := h v
    rw [if_neg hne] at this
    cases this
  · intro hall
    cases d with
    | nil => rfl
    | cons e d =>
        have := h e.1
        rw [if_pos (hall e.1)] at this
        simp [Queues.get] at this

omit [LinearOrder ν] in
/-- Everyone who has a Job has a turn in the first round. -/
lemma length_round_zero {order : List ν} {queue : ν → List (FairJob ν)}
    (h : ∀ v ∈ order, queue v ≠ []) : (round order queue 0).length = order.length := by
  induction order with
  | nil => rfl
  | cons v vs ih =>
      obtain ⟨j, js, hj⟩ := exists_cons_of_ne_nil (h v mem_cons_self)
      rw [round_zero_cons hj, length_cons, length_cons,
        ih fun u hu => h u (mem_cons_of_mem v hu)]

/-- The Vaults that are asked are those that have a Job. -/
def Asks (order : List ν) (queue : ν → List (FairJob ν)) : Prop :=
  ∀ v, v ∈ order ↔ queue v ≠ []

omit [LinearOrder ν] in
/-- After a round, those that have another one. -/
lemma Asks.rest [DecidableEq ν] {order : List ν} {queue : ν → List (FairJob ν)}
    (h : Asks order queue) :
    Asks (order.filter fun v => RoundRobin.rest queue v ≠ []) (RoundRobin.rest queue) := by
  intro v
  rw [mem_filter, h v, decide_eq_true_eq]
  refine and_iff_right_of_imp fun hr hnil => hr ?_
  rw [RoundRobin.rest, hnil]
  rfl

section Round

variable {limit : ℕ} {order : List ν} {queue : ν → List (FairJob ν)} {s r : RoundState ν}

section

variable (h : RoundDone limit order queue s r)

include h

/-- Everyone's queue is one Job shorter. -/
lemma RoundDone.serves_rest (horder : Asks order queue)
    (hmore : s.selected.length + order.length < limit) : Offers r.queues (rest queue) := by
  intro v
  rw [h.serves hmore v]
  by_cases hv : v ∈ order
  · simp [hv]
  · have hnil : queue v = [] := by
      by_contra hne
      exact hv ((horder v).mpr hne)
    simp [hv, hnil, rest]

/-- The order of the next round: `next_order or sorted(..)`. -/
lemma RoundDone.order_eq (horder : Asks order queue)
    (hmore : s.selected.length + order.length < limit) (hs : s.nextOrder = []) :
    (if r.nextOrder = [] then vaultOrder r.queues else r.nextOrder) =
      order.filter fun v => rest queue v ≠ [] := by
  have hnext := h.nextOrder hmore
  rw [hs, nil_append] at hnext
  split
  · rename_i hnil
    rw [hnext] at hnil
    have hempty : r.queues = [] := by
      refine (h.serves_rest horder hmore).eq_nil_iff.mpr fun v => ?_
      by_contra hv
      have hmem := (horder.rest v).mpr hv
      rw [hnil] at hmem
      cases hmem
    rw [hempty, hnil]
    rfl
  · exact hnext

/-- The Jobs that are taken while the limit is not reached. -/
lemma RoundDone.selected_all (horder : Asks order queue)
    (hmore : s.selected.length + order.length < limit) :
    r.selected = s.selected ++ round order queue 0 := by
  have hheads := length_round_zero fun v hv => (horder v).mp hv
  rw [h.selected, take_of_length_le (by omega)]

end

end Round

/-- **The loop takes the turns of a round robin**, and never runs out of fuel. -/
lemma fairLoop_eq {limit fuel : ℕ} {d : Queues ν} {queue : ν → List (FairJob ν)} {order : List ν}
    {selected : List (FairJob ν)} {n : ℕ} (hd : Offers d queue) (hnd : order.Nodup)
    (horder : Asks order queue) (hlen : ∀ v, (queue v).length ≤ n)
    (hsel : selected.length ≤ limit) (hfuel : limit - selected.length < fuel) :
    fairLoop limit fuel d order selected =
      some (selected ++ (rounds order queue n).take (limit - selected.length)) := by
  induction fuel generalizing d queue order selected n with
  | zero => omega
  | succ fuel ih =>
      rw [fairLoop]
      split
      · rename_i hgo
        obtain ⟨hlt, hne⟩ := hgo
        have hlt : selected.length < limit := by omega
        obtain ⟨v, hv⟩ : ∃ v, queue v ≠ [] := by
          by_contra hno
          exact hne (hd.eq_nil_iff.mpr (by simpa using hno))
        have hsome : order ≠ [] := ne_nil_of_mem ((horder v).mpr hv)
        have hpos : 0 < order.length := length_pos_iff.mpr hsome
        obtain ⟨m, rfl⟩ : ∃ m, n = m + 1 := by
          refine ⟨n - 1, ?_⟩
          have := hlen v
          have := length_pos_iff.mpr hv
          omega
        have hdone := fairRound_done (s := ⟨d, selected, [], false⟩) hnd hd
          (fun u hu => (horder u).mp hu) hlt
        have hheads := length_round_zero fun u hu => (horder u).mp hu
        dsimp only
        rw [if_neg (by simp [hdone.progressed.mpr (.inr hsome)]), rounds_succ', take_append,
          hheads]
        by_cases hmore : selected.length + order.length < limit
        · have hnew : (fairRound limit order ⟨d, selected, [], false⟩).selected =
              selected ++ round order queue 0 := hdone.selected_all horder hmore
          have hall : (round order queue 0).take (limit - selected.length) =
              round order queue 0 := take_of_length_le (by omega)
          have hlen' : (selected ++ round order queue 0).length =
              selected.length + order.length := by rw [length_append, hheads]
          have hshort : ∀ u, (rest queue u).length ≤ m := by
            intro u
            have := hlen u
            rw [rest, length_tail]
            omega
          rw [hdone.order_eq horder hmore rfl, hnew,
            ih (hdone.serves_rest horder hmore) (hnd.filter _) horder.rest hshort (by omega)
              (by omega),
            hlen', hall, append_assoc, Nat.sub_add_eq, rounds_filter]
          intro u _ hu
          simpa using hu
        · -- the limit is reached in this round
          have hfull : (fairRound limit order ⟨d, selected, [], false⟩).selected.length = limit := by
            rw [hdone.selected, length_append, length_take, hheads]
            dsimp only
            omega
          obtain ⟨fuel', rfl⟩ : ∃ k, fuel = k + 1 := ⟨fuel - 1, by omega⟩
          have hend : limit - selected.length - order.length = 0 := by omega
          rw [fairLoop, if_neg (by rw [hfull]; simp), hdone.selected, hend, take_zero,
            append_nil]
      · rename_i hstop
        by_cases hlt : selected.length < limit
        · have hnil : d = [] := by
            by_contra hne
            exact hstop ⟨by omega, hne⟩
          have hempty : order = [] := by
            rw [eq_nil_iff_forall_not_mem]
            intro v hv
            exact (horder v).mp hv (hd.eq_nil_iff.mp hnil v)
          have hnone : rounds order queue n = [] := by
            rw [hempty, rounds, flatMap_eq_nil_iff]
            exact fun _ _ => rfl
          rw [hnone, take_nil, append_nil]
        · have hend : limit - selected.length = 0 := by omega
          rw [hend, take_zero, append_nil]

/-! ### The queues at the start -/

/-- The queue of a Vault: its Jobs by age. -/
def queueOf (jobs : List (FairJob ν)) (v : ν) : List (FairJob ν) :=
  (byAge jobs).filter fun j => j.vaultId = v

/-- The Vaults in the order of the first round. -/
def fairOrder (jobs : List (FairJob ν)) : List ν := vaultOrder (byVault jobs)

/-- The age of a Vault: that of its oldest Job, and its id. -/
def vaultAge (jobs : List (FairJob ν)) (v : ν) : (String ×ₗ ℤ) ×ₗ ν :=
  vaultKey (v, queueOf jobs v)

/-- A Job is put in the queue of its Vault. -/
lemma Offers.append {d : Queues ν} {queue : ν → List (FairJob ν)} (h : Offers d queue)
    (j : FairJob ν) : Offers (d.append j)
      (Function.update queue j.vaultId (queue j.vaultId ++ [j])) := by
  intro v
  have hget := h j.vaultId
  rw [Queues.append]
  by_cases hv : v = j.vaultId
  · subst hv
    rw [Function.update_self, if_neg (by simp)]
    split
    · rename_i js hjs
      rw [hjs] at hget
      split at hget
      · cases hget
      · rw [Queues.get_put, if_pos rfl, hjs, Option.some.inj hget]
        rfl
    · rename_i hnone
      rw [hnone] at hget
      split at hget
      · rename_i hnil
        have hfind : d.find? (fun e => e.1 = j.vaultId) = none := by
          simpa [Queues.get] using hnone
        simp [Queues.get, find?_append, hfind, hnil]
      · cases hget
  · rw [Function.update_of_ne hv, ← h v]
    split
    · rw [Queues.get_put, if_neg hv]
    · simp [Queues.get, find?_append, Ne.symm hv]

lemma serves_foldl (js : List (FairJob ν)) :
    Offers (js.foldl Queues.append []) fun v => js.filter fun j => j.vaultId = v := by
  induction js using List.reverseRecOn with
  | nil => exact fun v => rfl
  | append_singleton js j ih =>
      rw [foldl_append]
      intro v
      rw [foldl_cons, foldl_nil, ih.append j v]
      by_cases hv : v = j.vaultId
      · subst hv
        simp
      · simp [Function.update_of_ne hv, Ne.symm hv]

lemma serves_byVault (jobs : List (FairJob ν)) : Offers (byVault jobs) (queueOf jobs) :=
  serves_foldl (byAge jobs)

lemma byVault_keys_nodup (jobs : List (FairJob ν)) : ((byVault jobs).map Prod.fst).Nodup := by
  rw [byVault]
  induction byAge jobs using List.reverseRecOn with
  | nil => exact nodup_nil
  | append_singleton js j ih =>
      rw [foldl_append, foldl_cons, foldl_nil, Queues.append]
      split
      · rename_i ks _
        rw [Queues.put, map_map]
        have hkeys : (Prod.fst ∘ fun e : ν × List (FairJob ν) =>
            if e.1 = j.vaultId then (j.vaultId, ks ++ [j]) else e) = Prod.fst := by
          funext e
          rw [Function.comp_apply]
          split
          · rename_i he
            exact he.symm
          · rfl
        rw [hkeys]
        exact ih
      · rename_i hnone
        rw [map_append, nodup_append]
        refine ⟨ih, by simp, fun v hv w hw hvw => ?_⟩
        obtain ⟨e, he, rfl⟩ := mem_map.mp hv
        rw [map_singleton, mem_singleton] at hw
        have hfind : (js.foldl Queues.append []).find? (fun e => e.1 = j.vaultId) = none := by
          simpa [Queues.get] using hnone
        exact find?_eq_none.mp hfind e he (decide_eq_true (hvw.trans hw))

/-- A queue of the dictionary is the one of its Vault. -/
lemma mem_byVault {e : ν × List (FairJob ν)} (h : e ∈ byVault jobs) :
    e = (e.1, queueOf jobs e.1) ∧ queueOf jobs e.1 ≠ [] := by
  have hget : (byVault jobs).get e.1 = some e.2 := by
    rw [Queues.get, Option.map_eq_some_iff]
    cases hfind : (byVault jobs).find? fun x => x.1 = e.1 with
    | none =>
        exact absurd (decide_eq_true rfl) (find?_eq_none.mp hfind e h)
    | some x =>
        have hx : x.1 = e.1 := by simpa using find?_some hfind
        rw [inj_on_of_nodup_map (byVault_keys_nodup jobs) (mem_of_find?_eq_some hfind) h hx]
        exact ⟨e, rfl, rfl⟩
  have hserve := serves_byVault jobs e.1
  rw [hget] at hserve
  split at hserve
  · cases hserve
  · rename_i hne
    exact ⟨Prod.ext rfl (Option.some.inj hserve), hne⟩

/-- The Vaults that are asked are those with a Job, each once. -/
lemma fairOrder_asks (jobs : List (FairJob ν)) :
    (fairOrder jobs).Nodup ∧ Asks (fairOrder jobs) (queueOf jobs) := by
  have hperm : (fairOrder jobs).Perm ((byVault jobs).map Prod.fst) :=
    (perm_insertionSort _ _).map _
  refine ⟨hperm.nodup_iff.mpr (byVault_keys_nodup jobs), fun v => ?_⟩
  rw [hperm.mem_iff, mem_map]
  constructor
  · rintro ⟨e, he, rfl⟩
    exact (mem_byVault he).2
  · intro hne
    have hserve := serves_byVault jobs v
    rw [if_neg hne, Queues.get, Option.map_eq_some_iff] at hserve
    obtain ⟨e, he, -⟩ := hserve
    exact ⟨e, mem_of_find?_eq_some he, by simpa using find?_some he⟩

lemma fairOrder_sorted (jobs : List (FairJob ν)) :
    (fairOrder jobs).Pairwise fun u w => vaultAge jobs u < vaultAge jobs w := by
  have hsorted : ((byVault jobs).insertionSort fun a b => vaultKey a ≤ vaultKey b).Pairwise
      fun a b => vaultKey a ≤ vaultKey b := by
    have htotal : Std.Total fun a b : ν × List (FairJob ν) => vaultKey a ≤ vaultKey b :=
      ⟨fun a b => le_total _ _⟩
    have htrans : IsTrans (ν × List (FairJob ν)) fun a b => vaultKey a ≤ vaultKey b :=
      ⟨fun a b c => le_trans⟩
    exact pairwise_insertionSort _ _
  have hnd := (fairOrder_asks jobs).1
  rw [fairOrder, vaultOrder] at hnd ⊢
  rw [pairwise_map]
  have hne := pairwise_map.mp hnd
  refine (hsorted.and hne).imp_of_mem fun {a b} ha hb ⟨hle, hab⟩ => ?_
  obtain ⟨ha, -⟩ := mem_byVault ((mem_insertionSort _).mp ha)
  obtain ⟨hb, -⟩ := mem_byVault ((mem_insertionSort _).mp hb)
  rw [vaultAge, vaultAge, ← ha, ← hb]
  refine lt_of_le_of_ne hle fun heq => hab ?_
  have hkey : (ofLex (vaultKey a)).2 = (ofLex (vaultKey b)).2 := by rw [heq]
  exact hkey

/-! ### What is selected -/

omit [LinearOrder ν] in
lemma byAge_perm (jobs : List (FairJob ν)) : (byAge jobs).Perm jobs := perm_insertionSort _ _

lemma owner_queueOf (jobs : List (FairJob ν)) (v : ν) :
    ∀ j ∈ queueOf jobs v, j.vaultId = v := fun _ hj =>
  of_decide_eq_true (mem_filter.mp hj).2

lemma length_queueOf_le (jobs : List (FairJob ν)) (v : ν) :
    (queueOf jobs v).length ≤ jobs.length :=
  (length_filter_le _ _).trans (byAge_perm jobs).length_eq.le

/-- **The selection is a round robin** over the sorted queues, cut at the limit. -/
theorem selectFairJobs_eq (jobs : List (FairJob ν)) (limit : ℤ) :
    selectFairJobs jobs limit =
      some ((rounds (fairOrder jobs) (queueOf jobs) jobs.length).take limit.toNat) := by
  rw [selectFairJobs]
  split
  · rename_i hstop
    rcases hstop with hlim | rfl
    · rw [Int.toNat_of_nonpos hlim, take_zero]
    · rw [length_nil, rounds_zero, take_nil]
  · rename_i hgo
    obtain ⟨hlim, -⟩ := not_or.mp hgo
    obtain ⟨n, rfl⟩ := Int.eq_ofNat_of_zero_le (le_of_not_ge hlim)
    obtain ⟨hnd, hasks⟩ := fairOrder_asks jobs
    exact fairLoop_eq (serves_byVault jobs) hnd hasks (length_queueOf_le jobs) (Nat.zero_le n)
      (Nat.lt_succ_self n)

/-! ### Fair selection -/

omit [LinearOrder ν] in
lemma byAge_cons (j : FairJob ν) (js : List (FairJob ν)) :
    byAge (j :: js) = (byAge js).orderedInsert (fun a b => a.age ≤ b.age) j := rfl

omit [LinearOrder ν] in
lemma byAge_sorted (js : List (FairJob ν)) : (byAge js).Pairwise fun a b => a.age ≤ b.age := by
  have htotal : Std.Total fun a b : FairJob ν => a.age ≤ b.age := ⟨fun a b => le_total _ _⟩
  have htrans : IsTrans (FairJob ν) fun a b => a.age ≤ b.age := ⟨fun a b c => le_trans⟩
  exact pairwise_insertionSort _ _

/-- Inserting a Job at its place, with the Jobs of one Vault in view. -/
lemma filter_orderedInsert (v : ν) (j : FairJob ν)
    (hsorted : js.Pairwise fun a b => a.age ≤ b.age) :
    (js.orderedInsert (fun a b => a.age ≤ b.age) j).filter (fun j => j.vaultId = v) =
      if j.vaultId = v then
        (js.filter fun j => j.vaultId = v).orderedInsert (fun a b => a.age ≤ b.age) j
      else js.filter fun j => j.vaultId = v := by
  induction js with
  | nil => split <;> simp_all
  | cons x xs ih =>
      obtain ⟨hx, hxs⟩ := pairwise_cons.mp hsorted
      rw [orderedInsert_cons]
      by_cases hle : j.age ≤ x.age
      · rw [if_pos hle, filter_cons]
        by_cases hj : j.vaultId = v
        · rw [if_pos (decide_eq_true hj), if_pos hj]
          -- whatever follows is at least as young
          have hall : ∀ y ∈ (x :: xs).filter (fun j => j.vaultId = v), j.age ≤ y.age := by
            intro y hy
            rcases mem_cons.mp (mem_filter.mp hy).1 with rfl | hy
            · exact hle
            · exact hle.trans (hx y hy)
          cases hfilter : (x :: xs).filter (fun j => j.vaultId = v) with
          | nil => rfl
          | cons y ys =>
              rw [orderedInsert_cons, if_pos (hall y (hfilter ▸ mem_cons_self))]
        · rw [if_neg (by simpa using hj), if_neg hj]
      · rw [if_neg hle, filter_cons, ih hxs, filter_cons]
        by_cases hj : j.vaultId = v
        · by_cases hxv : x.vaultId = v
          · simp [hj, hxv, hle]
          · simp [hj, hxv]
        · simp [hj]

/-- Sorting is stable: the Jobs of one Vault are sorted as if there were no others. -/
lemma queueOf_eq (jobs : List (FairJob ν)) (v : ν) :
    queueOf jobs v = byAge (jobs.filter fun j => j.vaultId = v) := by
  induction jobs with
  | nil => rfl
  | cons j js ih =>
      rw [queueOf, byAge_cons, filter_orderedInsert v j (byAge_sorted js), filter_cons]
      simp only [decide_eq_true_eq]
      split
      · rw [byAge_cons, ← ih]
        rfl
      · exact ih

lemma flatMap_filter_perm {order : List ν} (hnd : order.Nodup)
    (hall : ∀ j ∈ js, j.vaultId ∈ order) :
    (order.flatMap fun v => js.filter fun j => j.vaultId = v).Perm js := by
  induction order generalizing js with
  | nil =>
      rw [eq_nil_iff_forall_not_mem.mpr fun j hj => not_mem_nil (hall j hj)]
      exact List.Perm.refl _
  | cons v vs ih =>
      obtain ⟨hv, hnd⟩ := nodup_cons.mp hnd
      have hothers : (vs.flatMap fun u => js.filter fun j => j.vaultId = u) =
          vs.flatMap fun u => (js.filter fun j => !(j.vaultId = v)).filter fun j => j.vaultId = u := by
        refine flatMap_congr fun u hu => ?_
        rw [filter_filter]
        refine filter_congr fun j _ => ?_
        have huv : u ≠ v := fun h => hv (h ▸ hu)
        by_cases hju : j.vaultId = u
        · simp [hju, huv]
        · simp [hju]
      rw [flatMap_cons, hothers]
      refine ((ih hnd fun j hj => ?_).append_left _).trans (filter_append_perm _ js)
      obtain ⟨hj, hne⟩ := mem_filter.mp hj
      exact (mem_cons.mp (hall j hj)).resolve_left (by simpa using hne)

/-- The Jobs of a Vault. -/
def jobsOf (jobs : List (FairJob ν)) (v : ν) : List (FairJob ν) :=
  jobs.filter fun j => j.vaultId = v

lemma length_queueOf (jobs : List (FairJob ν)) (v : ν) :
    (queueOf jobs v).length = (jobsOf jobs v).length := by
  rw [queueOf_eq]
  exact (byAge_perm _).length_eq

lemma flatMap_queueOf_perm (jobs : List (FairJob ν)) :
    ((fairOrder jobs).flatMap (queueOf jobs)).Perm jobs := by
  obtain ⟨hnd, hasks⟩ := fairOrder_asks jobs
  refine (flatMap_filter_perm hnd fun j hj => (hasks _).mpr ?_).trans (byAge_perm jobs)
  exact ne_nil_of_mem (mem_filter.mpr ⟨hj, decide_eq_true rfl⟩)

/-- Who is not asked contributes nothing. -/
lemma filter_eq_nil_of_not_asked {p : List (FairJob ν)} {n : ℕ}
    (hp : p <+: rounds (fairOrder jobs) (queueOf jobs) n) {v : ν} (hv : v ∉ fairOrder jobs) :
    p.filter (fun j => j.vaultId = v) = [] := by
  rw [filter_eq_nil_iff]
  intro j hj hjv
  have hmem := owner_mem_order (owner_queueOf jobs) (hp.subset hj)
  rw [of_decide_eq_true hjv] at hmem
  exact hv hmem

/-- **A fair selection** of some Jobs. -/
structure FairlySelected (jobs : List (FairJob ν)) (limit : ℤ) (out : List (FairJob ν)) : Prop where
  length : out.length = min limit.toNat jobs.length
  distinct : out.Nodup
  mem : ∀ j ∈ out, j ∈ jobs
  oldest : ∀ v, out.filter (fun j => j.vaultId = v) <+: byAge (jobsOf jobs v)
  balanced : ∀ p, p <+: out → ∀ u w, count FairJob.vaultId u p ≤ count FairJob.vaultId w p + 1 ∨
    count FairJob.vaultId w p = (jobsOf jobs w).length

/-- **Fair selection**: as many distinct Jobs as the limit allows, every Vault's oldest first, and
at every moment two Vaults differ by one Job at most, unless the one with fewer has no Job left. -/
theorem fair_selection (jobs : List (FairJob ν)) (hids : (jobs.map FairJob.id).Nodup) (limit : ℤ) :
    ∃ out, selectFairJobs jobs limit = some out ∧ FairlySelected jobs limit out := by
  refine ⟨_, selectFairJobs_eq jobs limit, ?_⟩
  obtain ⟨hnd, hasks⟩ := fairOrder_asks jobs
  have hperm : (rounds (fairOrder jobs) (queueOf jobs) jobs.length).Perm jobs :=
    (rounds_perm fun v _ => length_queueOf_le jobs v).trans (flatMap_queueOf_perm jobs)
  have hnodup := hperm.nodup_iff.mpr (List.Nodup.of_map _ hids)
  have hown := owner_queueOf jobs
  refine ⟨?_, hnodup.sublist (take_sublist _ _),
    fun j hj => hperm.mem_iff.mp (mem_of_mem_take hj), fun v => ?_, fun p hp u w => ?_⟩
  · rw [length_take, hperm.length_eq]
  · rw [jobsOf, ← queueOf_eq]
    by_cases hv : v ∈ fairOrder jobs
    · have hall := filter_rounds (n := jobs.length) hown hnd hv
      rw [take_of_length_le (length_queueOf_le jobs v)] at hall
      rw [← hall]
      exact (List.take_prefix _ _).filter _
    · rw [filter_eq_nil_of_not_asked (List.take_prefix _ _) hv]
      exact nil_prefix
  · have hp := hp.trans (List.take_prefix _ _)
    rw [← length_queueOf]
    by_cases hw : w ∈ fairOrder jobs
    · by_cases hu : u ∈ fairOrder jobs
      · exact rounds_balanced hown hnd hu hw hp
      · refine .inl ?_
        rw [count, filter_eq_nil_of_not_asked hp hu]
        exact Nat.zero_le _
    · have hempty : queueOf jobs w = [] := by
        by_contra hne
        exact hw ((hasks w).mpr hne)
      refine .inr ?_
      rw [count, filter_eq_nil_of_not_asked hp hw, hempty]

/-- Two Vaults, the first of which has two Jobs, and room for two Jobs. -/
theorem fair_selection_two_vaults :
    ∃ out, selectFairJobs (ν := ℕ) [⟨some 1, some "a", 1⟩, ⟨some 2, some "b", 1⟩,
        ⟨some 3, some "c", 2⟩] 2 = some out ∧
      FairlySelected [⟨some 1, some "a", 1⟩, ⟨some 2, some "b", 1⟩, ⟨some 3, some "c", 2⟩] 2 out :=
  fair_selection _ (by decide) 2

/-! ### Oldest first on each round -/

/-- The Jobs of every round are in the order of their ages. -/
def OldestFirst (out : List (FairJob ν)) : Prop :=
  ∀ k, (turns FairJob.vaultId k out).Pairwise fun a b => a.age ≤ b.age

/-- How many Jobs are taken before a Vault has its turn in round `k`: those of the rounds before,
and those of the older Vaults that take part in this one. -/
def turnsBefore (jobs : List (FairJob ν)) (w : ν) (k : ℕ) : ℕ :=
  ((fairOrder jobs).map fun v => min k (queueOf jobs v).length).sum +
    ahead (vaultAge jobs) (fun v => (queueOf jobs v)[k]?) (fairOrder jobs) w

/-- Two Vaults are as old in every round as in the first, as far as the limit goes. -/
def AgesAgree (jobs : List (FairJob ν)) (limit : ℤ) : Prop :=
  ∀ k u w a b, (queueOf jobs u)[k]? = some a → (queueOf jobs w)[k]? = some b →
    vaultAge jobs u < vaultAge jobs w → turnsBefore jobs w k < limit.toNat → a.age ≤ b.age

lemma mem_fairOrder_of_getElem? {v : ν} {k : ℕ} {a : FairJob ν}
    (h : (queueOf jobs v)[k]? = some a) : v ∈ fairOrder jobs :=
  ((fairOrder_asks jobs).2 v).mpr (ne_nil_of_mem (mem_of_getElem? h))

/-- **A round is served oldest first** exactly when the order of the first round is the order of
the ages in that round too. -/
theorem oldest_first_iff (jobs : List (FairJob ν)) (limit : ℤ) :
    ∃ out, selectFairJobs jobs limit = some out ∧ (OldestFirst out ↔ AgesAgree jobs limit) := by
  refine ⟨_, selectFairJobs_eq jobs limit, forall_congr' fun k => ?_⟩
  obtain ⟨hnd, -⟩ := fairOrder_asks jobs
  rw [turns_take_rounds (owner_queueOf jobs) hnd]
  split
  · rw [RoundRobin.round, pairwise_take_filterMap (fairOrder_sorted jobs), length_rounds]
    constructor
    · intro h u w a b ha hb hlt hlim
      rw [turnsBefore] at hlim
      exact h u (mem_fairOrder_of_getElem? ha) w (mem_fairOrder_of_getElem? hb) a b ha hb hlt
        (by omega)
    · intro h u _ w _ a b ha hb hlt hlim
      refine h u w a b ha hb hlt ?_
      rw [turnsBefore]
      omega
  · -- no Vault has so many Jobs
    rename_i hk
    refine iff_of_true List.Pairwise.nil fun u _ a _ ha _ _ _ => ?_
    have hlen := length_queueOf_le jobs u
    rw [getElem?_eq_none (by omega)] at ha
    cases ha

/-- Vault 1 has the oldest Job and the youngest, Vault 2 those between: in the second round the
youngest Job is served first. -/
theorem exists_not_oldest_first :
    ∃ out, selectFairJobs (ν := ℕ) [⟨some 1, some "a", 1⟩, ⟨some 3, some "b", 2⟩,
        ⟨some 4, some "c", 2⟩, ⟨some 2, some "d", 1⟩] 4 = some out ∧ ¬ OldestFirst out := by
  refine ⟨[⟨some 1, some "a", 1⟩, ⟨some 3, some "b", 2⟩, ⟨some 2, some "d", 1⟩,
    ⟨some 4, some "c", 2⟩], by decide +kernel, fun h => ?_⟩
  have hsecond := h 1
  revert hsecond
  decide +kernel

end Frostvault
