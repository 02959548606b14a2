import Mathlib.Data.List.Nodup

/-!
Tables as lists of rows, under partial unique indexes.

A statement reports the number of rows it touched.  An index gives every row a key or none;
rows without key are not compared.

* `update`, `delete`: conditional statements with their row counts;
* `Unique`, `conflicts`: what an index promises, and the row it turns away;
* `Unique.map`, `Unique.append_singleton`: statements under the promise;
* `Unique.countP_eq_one`: a statement that touches one row;
* `Unique.forall_of_countP_eq_one`: one row touched is all the rows with its key.
-/

namespace Table

open List

variable {α κ : Type*}

/-- `UPDATE .. SET g WHERE p`. -/
def update (p : α → Bool) (g : α → α) (rows : List α) : List α × ℕ :=
  (rows.map fun r => if p r then g r else r, rows.countP p)

/-- `DELETE .. WHERE p`. -/
def delete (p : α → Bool) (rows : List α) : List α × ℕ :=
  (rows.filter fun r => !p r, rows.countP p)

variable {g : α → α} {p : α → Bool}

lemma mem_update_of_pos {rows : List α} {r : α} (hr : r ∈ rows)
    (hp : p r) : g r ∈ (update p g rows).1 :=
  mem_map.mpr ⟨r, hr, if_pos hp⟩

lemma mem_update_of_neg {rows : List α} {r : α} (hr : r ∈ rows)
    (hp : p r = false) : r ∈ (update p g rows).1 :=
  mem_map.mpr ⟨r, hr, if_neg (ne_true_of_eq_false hp)⟩

/-- An update of other rows than those one looks at. -/
lemma filter_update {keep : α → Bool} {rows : List α}
    (hg : ∀ r, keep (g r) = keep r) (hp : ∀ r, p r → keep r = false) :
    (update p g rows).1.filter keep = rows.filter keep := by
  rw [update]
  induction rows with
  | nil => rfl
  | cons r rows ih =>
      rw [map_cons, filter_cons, filter_cons, ih]
      by_cases hr : p r
      · rw [if_pos hr, hg, hp r hr]
        rfl
      · rw [if_neg hr]

/-- No two rows have the same key. -/
def Unique (key : α → Option κ) (rows : List α) : Prop :=
  (rows.filterMap key).Nodup

instance [DecidableEq κ] (key : α → Option κ) (rows : List α) : Decidable (Unique key rows) :=
  inferInstanceAs (Decidable (List.Nodup _))

/-- The table has a row with the key of this one already. -/
def conflicts [DecidableEq κ] (key : α → Option κ) (r : α) (rows : List α) : Bool :=
  (key r).any fun k => rows.any fun s => key s = some k

variable {key : α → Option κ} {rows : List α} {r : α} {k : κ}

lemma conflicts_eq_false [DecidableEq κ] :
    conflicts key r rows = false ↔ ∀ k, key r = some k → ∀ s ∈ rows, key s ≠ some k := by
  cases hr : key r with
  | none => simp [conflicts, hr]
  | some k => simp [conflicts, hr]

@[simp] lemma unique_nil : Unique key [] := nodup_nil

section

variable (h : Unique key rows)

include h

lemma Unique.sublist {rows' : List α} (hs : rows'.Sublist rows) :
    Unique key rows' :=
  List.Nodup.sublist (hs.filterMap key) h

lemma Unique.eq_of_key_eq {a b : α} (ha : a ∈ rows) (hb : b ∈ rows) (hka : key a = some k)
    (hkb : key b = some k) : a = b := by
  induction rows with
  | nil => cases ha
  | cons r rs ih =>
      have htail : Unique key rs := h.sublist (sublist_cons_self r rs)
      -- a row of the tail does not have the key of the head
      have hhead : ∀ c ∈ rs, key r = some k → key c ≠ some k := by
        intro c hc hr hck
        rw [Unique, filterMap_cons_some hr, nodup_cons] at h
        exact h.1 (mem_filterMap.mpr ⟨c, hc, hck⟩)
      rcases mem_cons.mp ha with rfl | ha'
      · rcases mem_cons.mp hb with rfl | hb'
        · rfl
        · exact absurd hkb (hhead b hb' hka)
      · rcases mem_cons.mp hb with rfl | hb'
        · exact absurd hka (hhead a ha' hkb)
        · exact ih htail ha' hb'

lemma Unique.countP_le_one [DecidableEq κ] (k : κ) :
    rows.countP (fun r => key r = some k) ≤ 1 := by
  have hcount := nodup_iff_count_le_one.mp h k
  rw [count_filterMap] at hcount
  refine le_of_eq_of_le (countP_congr fun r _ => ?_) hcount
  rw [decide_eq_true_eq, beq_iff_eq]

/-- A condition that one row meets, and no row with another key. -/
lemma Unique.countP_eq_one [DecidableEq κ] (hr : r ∈ rows) (hpr : p r)
    (hp : ∀ s ∈ rows, p s → key s = some k) :
    rows.countP p = 1 := by
  refine Nat.le_antisymm ?_ (countP_pos_iff.mpr ⟨r, hr, hpr⟩)
  refine Nat.le_trans (countP_mono_left fun s hs hps => ?_) (h.countP_le_one k)
  exact decide_eq_true (hp s hs hps)

/-- Rows that keep their key, or lose it, stay unique. -/
lemma Unique.map (hg : ∀ r ∈ rows, key (g r) = key r ∨ key (g r) = none) :
    Unique key (rows.map g) := by
  have hsub : ((rows.map g).filterMap key).Sublist (rows.filterMap key) := by
    induction rows with
    | nil => simp
    | cons r rs ih =>
        have ih := ih (h.sublist (sublist_cons_self r rs))
          fun r hr => hg r (mem_cons_of_mem _ hr)
        rw [map_cons]
        rcases hg r mem_cons_self with hkey | hkey
        · cases hr : key r with
          | none =>
              rw [filterMap_cons_none (hkey.trans hr), filterMap_cons_none hr]
              exact ih
          | some k =>
              rw [filterMap_cons_some (hkey.trans hr), filterMap_cons_some hr]
              exact ih.cons_cons k
        · rw [filterMap_cons_none hkey]
          exact ih.trans ((sublist_cons_self r rs).filterMap key)
  exact List.Nodup.sublist hsub h

/-- A row with a key of its own can be inserted. -/
lemma Unique.append_singleton (hr : ∀ k, key r = some k → ∀ s ∈ rows, key s ≠ some k) :
    Unique key (rows ++ [r]) := by
  rw [Unique, filterMap_append]
  cases hkey : key r with
  | none =>
      rw [filterMap_cons_none hkey, filterMap_nil, append_nil]
      exact h
  | some k =>
      rw [filterMap_cons_some hkey, filterMap_nil]
      refine List.Nodup.append h (nodup_singleton k) ?_
      intro k' hk' hmem
      obtain rfl := mem_singleton.mp hmem
      obtain ⟨s, hs, hsk⟩ := mem_filterMap.mp hk'
      exact hr k' hkey s hs hsk

/-- **One row touched is all the rows with its key.** -/
lemma Unique.forall_of_countP_eq_one (hp : ∀ r ∈ rows, p r → key r = some k)
    (hcount : rows.countP p = 1) :
    ∀ r ∈ rows, key r = some k → p r := by
  intro r hr hkey
  obtain ⟨s, hs, hps⟩ := countP_pos_iff.mp (by omega : 0 < rows.countP p)
  rw [h.eq_of_key_eq hr hs hkey (hp s hs hps)]
  exact hps

end

end Table
