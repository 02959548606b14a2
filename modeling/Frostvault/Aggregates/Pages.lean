import Frostvault.Aggregates.Rollup

/-!
Reading a Vault page by page.

The rows of a Vault have pairwise different paths, so ordering them is strict and
selecting them commutes with ordering.  Every statement of the rebuild is therefore a
selection or a keyset page of one list, `orderedRows`.

* `ascending_orderedRows`: the ordered rows strictly ascend;
* `visibleFileSelect_page`: one statement of the rebuild loop is one keyset page;
* `rowsBelow_eq`: the statement of the refresh is a selection of the ordered rows;
* `flatten_contributionBatches`: the batches of any size, put together, are the contributions of
  all visible rows above the keyset.
-/

namespace Frostvault

variable (coll : Collation)

/-! ### Ordered rows -/

/-- The rows of a Vault in path order. -/
def orderedRows (cat : Catalog) (v : VaultId) : List VisibleRow := orderByPath coll (cat.rows v)

lemma fileRow_eq_some {jobs : List Job} {v : VaultId} {f : VaultFile} {r : VisibleRow}
    (h : fileRow jobs v f = some r) :
    f.vaultId = v ∧ f.status = .active ∧ f.currentPath = some r.path ∧ r = rowAt jobs f r.path := by
  unfold fileRow at h
  split at h
  · rename_i hv
    obtain ⟨p, hp, rfl⟩ := Option.map_eq_some_iff.mp h
    exact ⟨hv.1, hv.2, hp, rfl⟩
  · cases h

lemma Catalog.rows_pairwise_path_ne (cat : Catalog) (v : VaultId) :
    (cat.rows v).Pairwise fun a b => a.path ≠ b.path := by
  refine List.Pairwise.filterMap (fileRow cat.jobs v) ?_ cat.paths_unique
  intro f g hfg a ha b hb hab
  obtain ⟨hfv, -, hfp, -⟩ := fileRow_eq_some ha
  obtain ⟨hgv, -, hgp, -⟩ := fileRow_eq_some hb
  exact hfg (hfv.trans hgv.symm) _ hfp (hab ▸ hgp)

variable {coll} in
/-- The order of the sort: not above. -/
lemma Collation.le_trans {p q r : Path} (h₁ : coll.lt q p = false) (h₂ : coll.lt r q = false) :
    coll.lt r p = false := by
  cases hrp : coll.lt r p with
  | false => rfl
  | true =>
      exfalso
      by_cases hqr : q = r
      · subst hqr
        rw [hrp] at h₁
        exact Bool.false_ne_true h₁.symm
      · rcases coll.total q r hqr with h | h
        · have := coll.trans _ _ _ h hrp
          rw [this] at h₁
          exact Bool.false_ne_true h₁.symm
        · rw [h] at h₂
          exact Bool.false_ne_true h₂.symm

/-- Ordering a list of rows with different paths gives a strictly ascending list. -/
lemma ascending_orderByPath {rows : List VisibleRow}
    (h : rows.Pairwise fun a b => a.path ≠ b.path) :
    Keyset.Ascending VisibleRow.path coll.lt (orderByPath coll rows) := by
  have htotal : Std.Total fun a b : VisibleRow => coll.lt b.path a.path = false :=
    ⟨fun a b => by
      cases hab : coll.lt b.path a.path with
      | false => exact Or.inl rfl
      | true =>
          right
          cases hba : coll.lt a.path b.path with
          | false => rfl
          | true =>
              have := coll.trans _ _ _ hab hba
              rw [coll.irrefl] at this
              exact this.symm⟩
  have htrans : IsTrans VisibleRow fun a b => coll.lt b.path a.path = false :=
    ⟨fun a b c => Collation.le_trans⟩
  have hsorted := List.pairwise_insertionSort
    (fun a b : VisibleRow => coll.lt b.path a.path = false) rows
  have hne : (orderByPath coll rows).Pairwise fun a b => a.path ≠ b.path :=
    (List.perm_insertionSort _ rows).symm.pairwise h fun hab => hab.symm
  refine hsorted.imp₂ (fun a b hle hab => ?_) hne
  rcases coll.total _ _ hab with hlt | hlt
  · exact hlt
  · rw [hlt] at hle
    cases hle

/-- **The ordered rows strictly ascend.** -/
lemma ascending_orderedRows (cat : Catalog) (v : VaultId) :
    Keyset.Ascending VisibleRow.path coll.lt (orderedRows coll cat v) :=
  ascending_orderByPath coll (cat.rows_pairwise_path_ne v)

/-- Selecting commutes with ordering. -/
lemma orderByPath_filter {rows : List VisibleRow}
    (h : rows.Pairwise fun a b => a.path ≠ b.path) (q : VisibleRow → Bool) :
    orderByPath coll (rows.filter q) = (orderByPath coll rows).filter q := by
  have hperm : (orderByPath coll (rows.filter q)).Perm ((orderByPath coll rows).filter q) :=
    (List.perm_insertionSort _ _).trans ((List.perm_insertionSort _ rows).filter q).symm
  have h₁ : (orderByPath coll (rows.filter q)).Pairwise
      fun a b => coll.lt a.path b.path = true := ascending_orderByPath coll (h.filter q)
  have h₂ : ((orderByPath coll rows).filter q).Pairwise
      fun a b => coll.lt a.path b.path = true := (ascending_orderByPath coll h).filter q
  refine List.Perm.eq_of_pairwise (fun a b _ _ hab hba => ?_) h₁ h₂ hperm
  have := coll.trans _ _ _ hab hba
  rw [coll.irrefl] at this
  cases this

/-! ### Statements as selections -/

lemma visibleFileSelect_page (cat : Catalog) (v : VaultId) (k : Path) (n : ℕ) :
    visibleFileSelect coll cat v none (some k) (some n) =
      Keyset.page VisibleRow.path coll.lt k n (orderedRows coll cat v) := by
  simp only [visibleFileSelect, Option.all_none, Bool.true_and, Option.all_some,
    orderByPath_filter coll (cat.rows_pairwise_path_ne v), Keyset.page, Keyset.after, orderedRows]

lemma holds_visibleSql (r : VisibleRow) :
    ((Sql.inList r.localPresence [.present, .unsupported]).or
      (Sql.isNotNull r.archiveVersionId)).holds = r.visible := by
  simp only [Sql.Cond.holds_or, Sql.holds_inList, Sql.holds_isNotNull, VisibleRow.visible,
    VisibleRow.localExists]
  cases r.localPresence with
  | none => simp
  | some p => cases p <;> simp

/-- The statement of the refresh selects the visible ordered rows below the directory. -/
lemma rowsBelow_eq (cat : Catalog) (v : VaultId) (d : Path) :
    rowsBelow coll cat v d = (orderedRows coll cat v).filter fun r =>
      r.visible && decide (d ++ ['/'] <+: r.path) := by
  simp only [rowsBelow, visibleFileSelect, Option.all_none, Bool.and_true, Option.all_some,
    orderByPath_filter coll (cat.rows_pairwise_path_ne v), orderedRows, List.filter_filter,
    holds_visibleSql]
  refine List.filter_congr fun r _ => ?_
  rw [Bool.eq_iff_iff]
  simp [Text.like_escapeLike_descendants]

/-! ### All batches -/

/-- The fuel never runs out: a page that is not the last one moves the keyset over at least
one row. -/
lemma flatten_contributionBatches (cat : Catalog) (v : VaultId) {size : ℕ} (hsize : 0 < size)
    (fuel : ℕ) (k : Path)
    (hfuel : (Keyset.after VisibleRow.path coll.lt k (orderedRows coll cat v)).length < fuel) :
    (contributionBatches coll cat v size fuel k).flatten =
      (Keyset.after VisibleRow.path coll.lt k (orderedRows coll cat v)).filterMap
        contributionFromRow := by
  induction fuel generalizing k with
  | zero => omega
  | succ fuel ih =>
      rw [contributionBatches, visibleFileSelect_page]
      set rows := Keyset.page VisibleRow.path coll.lt k size (orderedRows coll cat v) with hrows
      by_cases hnil : rows = []
      · -- an empty page: nothing lies above the keyset
        have hafter : Keyset.after VisibleRow.path coll.lt k (orderedRows coll cat v) = [] := by
          rw [hrows, Keyset.page] at hnil
          rcases List.take_eq_nil_iff.mp hnil with h | h
          · omega
          · exact h
        simp [hnil, hafter]
      · have hbatch : ∀ rest : List (List FileContribution),
            (if rows.filterMap contributionFromRow = [] then rest
              else rows.filterMap contributionFromRow :: rest).flatten =
            rows.filterMap contributionFromRow ++ rest.flatten := by
          intro rest
          split
          · rename_i h
            rw [h, List.nil_append]
          · rw [List.flatten_cons]
        simp only [hnil, if_false, hbatch]
        by_cases hshort : rows.length < size
        · rw [if_pos hshort, List.flatten_nil, List.append_nil, hrows,
            Keyset.page_eq_after_of_short _ _ _ hshort]
        · have hsplit := Keyset.after_eq_page_append coll.trans coll.irrefl
            (ascending_orderedRows coll cat v) k size
          rw [← hrows] at hsplit
          rcases hsplit with hsplit | hsplit
          · have hpos : 0 < rows.length := List.length_pos_iff.mpr hnil
            rw [hsplit, List.length_append] at hfuel
            rw [if_neg hshort, ih _ (by omega)]
            conv_rhs => rw [hsplit]
            rw [List.filterMap_append]
          · exact absurd hsplit hnil

lemma after_nil_eq (rows : List VisibleRow) (h : ∀ r ∈ rows, r.path ≠ []) :
    Keyset.after VisibleRow.path coll.lt [] rows = rows :=
  List.filter_eq_self.mpr fun r hr => coll.nil_lt _ (h r hr)

end Frostvault
