import Mathlib.Algebra.BigOperators.Group.List.Basic
import Mathlib.Data.List.Nodup
import Mathlib.Data.List.Infix
import Mathlib.Order.Lattice
import Mathlib.Algebra.GroupWithZero.Nat

/-!
Taking turns.

Sources hold queues, and are asked in a fixed order, round after round.  A source whose queue has
run out is passed over.

* `round`, `rounds`: one round, and the first ones in a row;
* `filter_rounds`: what a source contributes, in its own order;
* `rounds_perm`: after enough rounds everything was taken once;
* `rounds_balanced`: **at every moment a source is one turn behind another at most, unless its
  queue has run out**;
* `turns_take_rounds`: the turns that are the `k`-th of their source are round `k`;
* `pairwise_take_filterMap`: when a round that is cut short is in a given order.
-/

namespace RoundRobin

open List

variable {ν α : Type*}

/-- Round `k`: the `k`-th of every queue that has one. -/
def round (order : List ν) (queue : ν → List α) (k : ℕ) : List α :=
  order.filterMap fun v => (queue v)[k]?

/-- The rounds before round `n`. -/
def rounds (order : List ν) (queue : ν → List α) (n : ℕ) : List α :=
  (List.range n).flatMap (round order queue)

/-- The queues after everyone had a turn. -/
def rest (queue : ν → List α) (v : ν) : List α := (queue v).tail

variable {order : List ν} {queue : ν → List α} {n : ℕ}

@[simp] lemma rounds_zero : rounds order queue 0 = [] := rfl

lemma rounds_succ : rounds order queue (n + 1) = rounds order queue n ++ round order queue n := by
  rw [rounds, range_succ, flatMap_append, flatMap_singleton]
  rfl

lemma round_rest (k : ℕ) : round order (rest queue) k = round order queue (k + 1) := by
  simp only [round, rest, getElem?_tail]

lemma rounds_succ' : rounds order queue (n + 1) =
    round order queue 0 ++ rounds order (rest queue) n := by
  rw [rounds, range_succ_eq_map, flatMap_cons, flatMap_map, rounds,
    show round order (rest queue) = fun k => round order queue (k + 1) from funext round_rest]

/-- Sources without anything left need not be asked. -/
lemma round_filter (p : ν → Bool) (h : ∀ v ∈ order, p v = false → queue v = []) (k : ℕ) :
    round (order.filter p) queue k = round order queue k := by
  rw [round, round, filterMap_filter]
  refine filterMap_congr fun v hv => ?_
  split
  · rfl
  · rename_i hp
    rw [h v hv (Bool.eq_false_iff.mpr hp)]
    rfl

lemma rounds_filter (p : ν → Bool) (h : ∀ v ∈ order, p v = false → queue v = []) :
    rounds (order.filter p) queue n = rounds order queue n := by
  simp only [rounds, show round (order.filter p) queue = round order queue from
    funext (round_filter p h)]

lemma round_zero : round order queue 0 = order.filterMap fun v => (queue v).head? := by
  simp only [round, head?_eq_getElem?]

/-! ### What each source contributes -/

section Owner

variable [DecidableEq ν] {owner : α → ν}

section

variable (hown : ∀ v, ∀ a ∈ queue v, owner a = v)

include hown

/-- Of a round, a source contributes its own turn. -/
lemma filter_round (hnd : order.Nodup) {v : ν} (hv : v ∈ order) (k : ℕ) :
    (round order queue k).filter (fun a => owner a = v) = ((queue v)[k]?).toList := by
  have hnone : ∀ vs : List ν, v ∉ vs → (round vs queue k).filter (fun a => owner a = v) = [] := by
    intro vs hvs
    rw [filter_eq_nil_iff]
    intro a ha hav
    obtain ⟨u, hu, hau⟩ := mem_filterMap.mp ha
    have hmem : a ∈ queue u := mem_of_getElem? hau
    exact hvs (of_decide_eq_true hav ▸ hown u a hmem ▸ hu)
  induction order with
  | nil => cases hv
  | cons u us ih =>
      obtain ⟨hu, hnd⟩ := nodup_cons.mp hnd
      have hcons : round (u :: us) queue k = ((queue u)[k]?).toList ++ round us queue k := by
        rw [round, filterMap_cons]
        cases (queue u)[k]? <;> rfl
      rw [hcons, filter_append]
      by_cases huv : u = v
      · subst huv
        rw [hnone us hu, append_nil, filter_eq_self]
        intro a ha
        have hmem : a ∈ queue u := mem_of_getElem? (Option.mem_toList.mp ha)
        exact decide_eq_true (hown u a hmem)
      · have hhead : (((queue u)[k]?).toList).filter (fun a => owner a = v) = [] := by
          rw [filter_eq_nil_iff]
          intro a ha hav
          have hmem : a ∈ queue u := mem_of_getElem? (Option.mem_toList.mp ha)
          exact huv ((hown u a hmem).symm.trans (of_decide_eq_true hav))
        rw [hhead, nil_append]
        refine ih hnd ?_
        exact (mem_cons.mp hv).resolve_left (Ne.symm huv)

/-- **What a source contributes**: the first of its queue, in order. -/
lemma filter_rounds (hnd : order.Nodup) {v : ν} (hv : v ∈ order) :
    (rounds order queue n).filter (fun a => owner a = v) = (queue v).take n := by
  induction n with
  | zero => rfl
  | succ n ih =>
      rw [rounds_succ, filter_append, ih, filter_round hown hnd hv, take_add_one]

omit [DecidableEq ν] in
lemma owner_mem_order {a : α} (ha : a ∈ rounds order queue n) : owner a ∈ order := by
  obtain ⟨k, -, ha⟩ := mem_flatMap.mp ha
  obtain ⟨v, hv, hav⟩ := mem_filterMap.mp ha
  rw [hown v a (mem_of_getElem? hav)]
  exact hv

end

end Owner

/-! ### Everything is taken -/

/-- **Everything was taken once** after as many rounds as the longest queue has. -/
lemma rounds_perm (h : ∀ v ∈ order, (queue v).length ≤ n) :
    (rounds order queue n).Perm (order.flatMap queue) := by
  induction n generalizing queue with
  | zero =>
      have hnil : order.flatMap queue = [] := by
        rw [flatMap_eq_nil_iff]
        exact fun v hv => length_eq_zero_iff.mp (Nat.le_zero.mp (h v hv))
      rw [rounds_zero, hnil]
  | succ n ih =>
      have hrest : ∀ v ∈ order, (rest queue v).length ≤ n := by
        intro v hv
        have := h v hv
        rw [rest, length_tail]
        omega
      have hheads : ∀ vs : List ν, (vs.flatMap queue).Perm
          (round vs queue 0 ++ vs.flatMap (rest queue)) := by
        intro vs
        induction vs with
        | nil => exact List.Perm.refl _
        | cons v vs ihv =>
            rw [flatMap_cons, flatMap_cons, round_zero, filterMap_cons, rest]
            rw [round_zero] at ihv
            cases hq : queue v with
            | nil => simpa using ihv
            | cons a as =>
                simp only [head?_cons, tail_cons, cons_append]
                refine List.Perm.cons a ?_
                calc (as ++ vs.flatMap queue).Perm _ := ihv.append_left as
                  _ = as ++ (vs.filterMap fun v => (queue v).head?) ++ vs.flatMap (rest queue) :=
                      (append_assoc ..).symm
                  _ |>.Perm _ := (perm_append_comm).append_right _
                  _ = _ := append_assoc ..
      rw [rounds_succ']
      exact ((ih hrest).append_left _).trans (hheads order).symm

/-! ### Balance -/

section Balance

variable [DecidableEq ν] {owner : α → ν}

/-- How many turns of a source there are among some. -/
def count (owner : α → ν) (v : ν) (as : List α) : ℕ :=
  (as.filter fun a => owner a = v).length

lemma count_append (v : ν) (as bs : List α) :
    count owner v (as ++ bs) = count owner v as + count owner v bs := by
  rw [count, filter_append, length_append]
  rfl

lemma count_le_of_prefix (owner : α → ν) (v : ν) {as bs : List α} (h : as <+: bs) :
    count owner v as ≤ count owner v bs :=
  (h.filter _).length_le

lemma count_rounds (hown : ∀ v, ∀ a ∈ queue v, owner a = v) (hnd : order.Nodup) {v : ν}
    (hv : v ∈ order) : count owner v (rounds order queue n) = min n (queue v).length := by
  rw [count, filter_rounds hown hnd hv, length_take]

lemma count_round_zero (hown : ∀ v, ∀ a ∈ queue v, owner a = v) (hnd : order.Nodup) {v : ν}
    (hv : v ∈ order) : count owner v (round order queue 0) = if queue v = [] then 0 else 1 := by
  rw [count, filter_round hown hnd hv]
  cases queue v <;> rfl

/-- A prefix ends in the first list, or goes on in the second. -/
lemma prefix_append_cases {p as bs : List α} (h : p <+: as ++ bs) :
    p <+: as ∨ ∃ q, q <+: bs ∧ p = as ++ q := by
  rcases prefix_or_prefix_of_prefix h (prefix_append as bs) with hp | ⟨q, rfl⟩
  · exact .inl hp
  · exact .inr ⟨q, (prefix_append_right_inj as).mp h, rfl⟩

/-- **Balance**: at every moment a source is one turn ahead of another at most, unless the other
has no turn left. -/
theorem rounds_balanced (hown : ∀ v, ∀ a ∈ queue v, owner a = v) (hnd : order.Nodup) {u w : ν}
    (hu : u ∈ order) (hw : w ∈ order) {p : List α} (hp : p <+: rounds order queue n) :
    count owner u p ≤ count owner w p + 1 ∨ count owner w p = (queue w).length := by
  induction n generalizing queue p with
  | zero =>
      obtain rfl := prefix_nil.mp hp
      exact .inl (Nat.zero_le _)
  | succ n ih =>
      rw [rounds_succ'] at hp
      have hone : count owner u (round order queue 0) ≤ 1 := by
        rw [count_round_zero hown hnd hu]
        split <;> omega
      rcases prefix_append_cases hp with hp | ⟨q, hq, rfl⟩
      · -- still in the first round
        have := count_le_of_prefix owner u hp
        exact .inl (by omega)
      · have hrest : ∀ v, ∀ a ∈ rest queue v, owner a = v :=
          fun v a ha => hown v a (mem_of_mem_tail ha)
        rw [count_append, count_append, count_round_zero hown hnd hw]
        by_cases hempty : queue w = []
        · have hnone : count owner w q = 0 := by
            have hle := count_le_of_prefix owner w hq
            rw [count_rounds hrest hnd hw, rest, hempty] at hle
            simpa using hle
          exact .inr (by simp [hempty, hnone])
        · rw [if_neg hempty]
          rcases ih hrest hq with hle | hlast
          · exact .inl (by omega)
          · refine .inr ?_
            have hpos : 0 < (queue w).length := length_pos_iff.mpr hempty
            rw [hlast, rest, length_tail]
            omega

end Balance

/-! ### The turns of a schedule -/

section Turns

variable [DecidableEq ν] {owner : α → ν}

/-- The turns that are the `k`-th of their source, counted from zero and with those before. -/
def turnsAfter (owner : α → ν) (k : ℕ) (before : List α) : List α → List α
  | [] => []
  | a :: as =>
      if count owner (owner a) before = k then a :: turnsAfter owner k (before ++ [a]) as
      else turnsAfter owner k (before ++ [a]) as

/-- The turns of a schedule that are the `k`-th of their source. -/
def turns (owner : α → ν) (k : ℕ) (as : List α) : List α := turnsAfter owner k [] as

lemma turnsAfter_append (k : ℕ) (before as bs : List α) :
    turnsAfter owner k before (as ++ bs) =
      turnsAfter owner k before as ++ turnsAfter owner k (before ++ as) bs := by
  induction as generalizing before with
  | nil => simp [turnsAfter]
  | cons a as ih =>
      rw [cons_append, turnsAfter, turnsAfter, ih, append_assoc, singleton_append]
      split <;> rfl

/-- Among turns of different sources that are all the `j`-th, either all or none is the `k`-th. -/
lemma turnsAfter_of_count {j : ℕ} (k : ℕ) {before as : List α} (hnd : (as.map owner).Nodup)
    (h : ∀ a ∈ as, count owner (owner a) before = j) :
    turnsAfter owner k before as = if j = k then as else [] := by
  induction as generalizing before with
  | nil => simp [turnsAfter]
  | cons a as ih =>
      obtain ⟨ha, hnd⟩ := nodup_cons.mp hnd
      have hlater : ∀ b ∈ as, count owner (owner b) (before ++ [a]) = j := by
        intro b hb
        have hne : owner a ≠ owner b := fun heq => ha (heq ▸ mem_map_of_mem hb)
        rw [count_append, h b (mem_cons_of_mem a hb)]
        simp [count, hne]
      rw [turnsAfter, h a mem_cons_self, ih hnd hlater]
      split <;> rfl

omit [DecidableEq ν] in
/-- The turns of one round are of different sources. -/
lemma nodup_round (hown : ∀ v, ∀ a ∈ queue v, owner a = v) (hnd : order.Nodup) (k : ℕ) :
    ((round order queue k).map owner).Nodup := by
  have hsub : ((round order queue k).map owner).Sublist order := by
    rw [round, map_filterMap]
    have hfilter : (order.filterMap fun v => ((queue v)[k]?).map owner) =
        order.filter fun v => ((queue v)[k]?).isSome := by
      rw [← filterMap_eq_filter]
      refine filterMap_congr fun v _ => ?_
      cases hk : (queue v)[k]? with
      | none => simp [Option.guard, hk]
      | some a => simp [Option.guard, hk, hown v a (mem_of_getElem? hk)]
    rw [hfilter]
    exact filter_sublist
  exact hnd.sublist hsub

/-- Before round `j` every source that takes part in it had `j` turns. -/
lemma count_of_mem_round (hown : ∀ v, ∀ a ∈ queue v, owner a = v) (hnd : order.Nodup) {j : ℕ}
    {a : α} (ha : a ∈ round order queue j) :
    count owner (owner a) (rounds order queue j) = j := by
  obtain ⟨v, hv, hav⟩ := mem_filterMap.mp ha
  rw [hown v a (mem_of_getElem? hav), count_rounds hown hnd hv]
  exact Nat.min_eq_left (Nat.le_of_lt (List.getElem?_eq_some_iff.mp hav).1)

/-- **The `k`-th turns are round `k`**, as far as the schedule goes. -/
theorem turns_take_rounds (hown : ∀ v, ∀ a ∈ queue v, owner a = v) (hnd : order.Nodup)
    (limit k : ℕ) : turns owner k ((rounds order queue n).take limit) =
      if k < n then (round order queue k).take (limit - (rounds order queue k).length) else [] := by
  induction n with
  | zero => simp [turns, turnsAfter]
  | succ n ih =>
      rw [rounds_succ, take_append, turns, turnsAfter_append, nil_append, ← turns, ih]
      by_cases hlong : limit ≤ (rounds order queue n).length
      · -- the schedule ends before round `n`
        have hend : limit - (rounds order queue n).length = 0 := Nat.sub_eq_zero_of_le hlong
        rw [hend, take_zero, turnsAfter, append_nil]
        rcases Nat.lt_trichotomy k n with hk | rfl | hk
        · rw [if_pos hk, if_pos (Nat.lt_succ_of_lt hk)]
        · rw [if_neg (Nat.lt_irrefl k), if_pos (Nat.lt_succ_self k), hend, take_zero]
        · rw [if_neg (Nat.not_lt_of_gt hk), if_neg (by omega)]
      · rw [take_of_length_le (Nat.le_of_not_le hlong),
          turnsAfter_of_count (j := n) k
            ((nodup_round hown hnd n).sublist ((take_sublist _ _).map owner))
            fun a ha => count_of_mem_round hown hnd (mem_of_mem_take ha)]
        rcases Nat.lt_trichotomy k n with hk | rfl | hk
        · rw [if_pos hk, if_pos (Nat.lt_succ_of_lt hk), if_neg (Nat.ne_of_gt hk), append_nil]
        · rw [if_neg (Nat.lt_irrefl k), if_pos (Nat.lt_succ_self k), if_pos rfl, nil_append]
        · rw [if_neg (Nat.not_lt_of_gt hk), if_neg (Nat.ne_of_lt hk), if_neg (by omega)]
          rfl

end Turns

/-! ### The order within a round -/

/-- How many turns the rounds before round `k` have. -/
lemma length_rounds (k : ℕ) : (rounds order queue k).length =
    (order.map fun v => min k (queue v).length).sum := by
  induction k with
  | zero => simp
  | succ k ih =>
      have hround : ∀ vs : List ν, (round vs queue k).length =
          (vs.map fun v => if k < (queue v).length then 1 else 0).sum := by
        intro vs
        induction vs with
        | nil => rfl
        | cons v vs ihv =>
            rw [map_cons, sum_cons, ← ihv, round, filterMap_cons]
            by_cases hk : k < (queue v).length
            · rw [getElem?_eq_getElem hk, if_pos hk, length_cons, Nat.add_comm, round]
            · rw [getElem?_eq_none (Nat.le_of_not_lt hk), if_neg hk, Nat.zero_add, round]
      rw [rounds_succ, length_append, ih, hround, ← sum_map_add]
      congr 1
      refine map_congr_left fun v _ => ?_
      split <;> omega

section Within

variable {κ : Type*} [LinearOrder κ] {age : ν → κ} {g : ν → Option α}

/-- How many sources have their turn before `w` has it. -/
def ahead (age : ν → κ) (g : ν → Option α) (order : List ν) (w : ν) : ℕ :=
  (order.filter fun v => age v < age w && (g v).isSome).length

lemma ahead_cons {x : ν} {xs : List ν} (w : ν) (hx : age x < age w) :
    ahead age g (x :: xs) w = (if (g x).isSome = true then 1 else 0) + ahead age g xs w := by
  rw [ahead, filter_cons, decide_eq_true hx, Bool.true_and]
  split
  · rw [length_cons, Nat.add_comm, ahead]
  · rw [Nat.zero_add, ahead]

lemma ahead_self {x : ν} {xs : List ν} (hx : ∀ u ∈ xs, age x < age u) :
    ahead age g (x :: xs) x = 0 := by
  rw [ahead, length_eq_zero_iff, filter_eq_nil_iff]
  intro u hu hlt
  rw [Bool.and_eq_true, decide_eq_true_eq] at hlt
  rcases mem_cons.mp hu with rfl | hu
  · exact lt_irrefl _ hlt.1
  · exact lt_asymm (hx u hu) hlt.1

/-- The turns within the first `m` of a round. -/
lemma mem_take_filterMap {order : List ν} (hord : order.Pairwise fun u w => age u < age w) {m : ℕ}
    {b : α} : b ∈ (order.filterMap g).take m ↔
      ∃ w ∈ order, g w = some b ∧ ahead age g order w < m := by
  induction order generalizing m with
  | nil => simp
  | cons x xs ih =>
      obtain ⟨hx, hord⟩ := pairwise_cons.mp hord
      have hself := ahead_self (g := g) hx
      rw [filterMap_cons]
      cases hg : g x with
      | none =>
          simp only [ih hord, mem_cons, exists_eq_or_imp, hg, reduceCtorEq, false_and, false_or]
          refine exists_congr fun w => and_congr_right fun hw => and_congr_right fun _ => ?_
          rw [ahead_cons w (hx w hw), hg]
          simp
      | some c =>
          cases m with
          | zero => simp
          | succ m =>
              simp only [take_succ_cons, mem_cons, exists_eq_or_imp, ih hord, hg, hself,
                Option.some.injEq, Nat.zero_lt_succ, and_true]
              refine or_congr eq_comm ?_
              refine exists_congr fun w => and_congr_right fun hw => and_congr_right fun _ => ?_
              rw [ahead_cons w (hx w hw), hg]
              simp only [Option.isSome_some, if_true]
              omega

/-- **The first turns of a round are in a given order** exactly when that order agrees with the
one in which the sources are asked, on every two sources that have their turn among them. -/
lemma pairwise_take_filterMap {R : α → α → Prop} {order : List ν}
    (hord : order.Pairwise fun u w => age u < age w) {m : ℕ} :
    ((order.filterMap g).take m).Pairwise R ↔ ∀ u ∈ order, ∀ w ∈ order, ∀ a b, g u = some a →
      g w = some b → age u < age w → ahead age g order w < m → R a b := by
  induction order generalizing m with
  | nil => simp
  | cons x xs ih =>
      obtain ⟨hx, hrest⟩ := pairwise_cons.mp hord
      rw [filterMap_cons]
      cases hg : g x with
      | none =>
          rw [ih hrest]
          constructor
          · intro h u hu w hw a b ha hb hlt hlim
            rcases mem_cons.mp hu with rfl | hu
            · cases hg.symm.trans ha
            rcases mem_cons.mp hw with rfl | hw
            · cases hg.symm.trans hb
            rw [ahead_cons w (hx w hw), hg] at hlim
            exact h u hu w hw a b ha hb hlt (by simpa using hlim)
          · intro h u hu w hw a b ha hb hlt hlim
            refine h u (mem_cons_of_mem x hu) w (mem_cons_of_mem x hw) a b ha hb hlt ?_
            rw [ahead_cons w (hx w hw), hg]
            simpa using hlim
      | some c =>
          cases m with
          | zero => simp
          | succ m =>
              have hcount : ∀ w ∈ xs, (ahead age g (x :: xs) w < m + 1 ↔ ahead age g xs w < m) := by
                intro w hw
                rw [ahead_cons w (hx w hw), hg]
                simp only [Option.isSome_some, if_true]
                omega
              rw [take_succ_cons, pairwise_cons, ih hrest]
              constructor
              · rintro ⟨hfirst, hlater⟩ u hu w hw a b ha hb hlt hlim
                rcases mem_cons.mp hw with rfl | hin
                · -- nobody is asked before the first
                  rcases mem_cons.mp hu with rfl | hu
                  · exact absurd hlt (lt_irrefl _)
                  · exact absurd hlt (lt_asymm (hx u hu))
                have hfew := (hcount w hin).mp hlim
                rcases mem_cons.mp hu with rfl | hu
                · cases hg.symm.trans ha
                  exact hfirst b ((mem_take_filterMap hrest).mpr ⟨w, hin, hb, hfew⟩)
                · exact hlater u hu w hin a b ha hb hlt hfew
              · intro h
                refine ⟨fun b hb => ?_, fun u hu w hw a b ha hb hlt hlim => ?_⟩
                · obtain ⟨w, hw, hgw, hlim⟩ := (mem_take_filterMap hrest).mp hb
                  exact h x mem_cons_self w (mem_cons_of_mem x hw) c b hg hgw (hx w hw)
                    ((hcount w hw).mpr hlim)
                · exact h u (mem_cons_of_mem x hu) w (mem_cons_of_mem x hw) a b ha hb hlt
                    ((hcount w hw).mpr hlim)

end Within

end RoundRobin
