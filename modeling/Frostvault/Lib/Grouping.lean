import Frostvault.Lib.FieldMerge
import Mathlib.Data.List.Nodup

/-!
Rows grouped by a key, as a loop that fills a dictionary of lists.

* `groupBy`: `groups.setdefault(key(row), []).append(row)` for every row;
* `get_groupBy`: a group is the rows with its key, in their order;
* `groupBy_keys_nodup`: every key has one group;
* `mem_groupBy_iff`: **the groups are the sets of rows with one key that are not empty**.
-/

namespace Grouping

open FieldMerge

variable {κ α β : Type*} [DecidableEq κ] {key : α → κ}

/-- One row. -/
def addTo (key : α → κ) (groups : Record κ (List α)) (row : α) : Record κ (List α) :=
  set groups (key row) ((get groups (key row)).getD [] ++ [row])

/-- All rows. -/
def groupBy (key : α → κ) (rows : List α) : Record κ (List α) := rows.foldl (addTo key) []

lemma groupBy_concat (rows : List α) (row : α) :
    groupBy key (rows ++ [row]) = addTo key (groupBy key rows) row := by
  rw [groupBy, List.foldl_append]
  rfl

lemma get_groupBy (rows : List α) (k : κ) :
    get (groupBy key rows) k =
      if rows.filter (fun row => key row = k) = [] then none
      else some (rows.filter fun row => key row = k) := by
  induction rows using List.reverseRecOn with
  | nil => rfl
  | append_singleton rows row ih =>
      rw [groupBy_concat, addTo, get_set, List.filter_append]
      by_cases hk : k = key row
      · subst hk
        rw [if_pos rfl, ih]
        have hrow : [row].filter (fun r => key r = key row) = [row] := by simp
        rw [hrow, if_neg (List.append_ne_nil_of_right_ne_nil _ (List.cons_ne_nil _ _))]
        split
        · rename_i hnil
          rw [hnil]
          rfl
        · rfl
      · have hrow : [row].filter (fun r => key r = k) = [] := by simp [Ne.symm hk]
        rw [if_neg hk, ih, hrow, List.append_nil]

lemma keys_set (r : Record κ β) (k : κ) (v : β) :
    (set r k v).map Prod.fst = if k ∈ r.map Prod.fst then r.map Prod.fst
      else r.map Prod.fst ++ [k] := by
  have hmem : (get r k).isSome ↔ k ∈ r.map Prod.fst := by
    rw [FieldMerge.get, Option.isSome_map, List.find?_isSome, List.mem_map]
    simp
  rw [FieldMerge.set]
  by_cases hk : k ∈ r.map Prod.fst
  · rw [if_pos (hmem.mpr hk), if_pos hk, List.map_map]
    refine List.map_congr_left fun e _ => ?_
    rw [Function.comp_apply]
    split
    · rename_i he
      exact he.symm
    · rfl
  · rw [if_neg (fun h => hk (hmem.mp h)), if_neg hk, List.map_append, List.map_singleton]

lemma groupBy_keys_nodup (rows : List α) : ((groupBy key rows).map Prod.fst).Nodup := by
  induction rows using List.reverseRecOn with
  | nil => exact List.nodup_nil
  | append_singleton rows row ih =>
      rw [groupBy_concat, addTo, keys_set]
      split
      · exact ih
      · rename_i hnew
        rw [List.nodup_append]
        refine ⟨ih, List.nodup_singleton _, ?_⟩
        rintro k hk l hl rfl
        exact hnew (List.mem_singleton.mp hl ▸ hk)

lemma get_eq_some_iff {r : Record κ β} (h : (r.map Prod.fst).Nodup) {k : κ} {v : β} :
    get r k = some v ↔ (k, v) ∈ r := by
  induction r with
  | nil => simp
  | cons e r ih =>
      obtain ⟨l, w⟩ := e
      rw [List.map_cons, List.nodup_cons] at h
      rw [get_cons, List.mem_cons, Prod.mk.injEq]
      by_cases hk : l = k
      · subst hk
        rw [if_pos rfl, Option.some.injEq]
        constructor
        · rintro rfl
          exact .inl ⟨rfl, rfl⟩
        · rintro (⟨-, rfl⟩ | hmem)
          · rfl
          · exact absurd (List.mem_map_of_mem hmem) h.1
      · rw [if_neg hk, ih h.2]
        exact (or_iff_right fun heq => hk heq.1.symm).symm

/-- **The groups.** -/
theorem mem_groupBy_iff {rows group : List α} {k : κ} :
    (k, group) ∈ groupBy key rows ↔
      group = rows.filter (fun row => key row = k) ∧ group ≠ [] := by
  rw [← get_eq_some_iff (groupBy_keys_nodup rows), get_groupBy]
  split
  · rename_i hnil
    rw [hnil]
    refine iff_of_false nofun ?_
    rintro ⟨rfl, hne⟩
    exact hne rfl
  · rename_i hne
    rw [Option.some.injEq]
    constructor
    · rintro rfl
      exact ⟨rfl, hne⟩
    · rintro ⟨rfl, -⟩
      rfl

end Grouping
