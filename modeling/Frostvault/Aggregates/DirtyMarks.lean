import Frostvault.Aggregates.Flush
import Frostvault.Aggregates.StorageClasses

/-!
Dirty marks across concurrent writers and flushes.

A flush deletes only the mark identities it claimed, and it claims before it reads.  A mark
it did not claim belongs to a transaction that commits later, and survives.  A flush inside the
transaction of a writer (`record_catalog_revision`) sees the changes of the writer with its marks,
and deletes those before anybody else can see them.  So a directory whose row is out of date keeps
a mark, as long as everybody who changes what its row is computed from marks it.

Everything below is about one directory `d` of one Vault `v`.

* `SameBelow`: two catalogs give the directory the same row, by either writer;
* `CountedAlike`: the two writers count the same files of the directory;
* `GoodBeyond`: the row is up to date or a mark outside the given claims is there;
* `FlushOk`, `MarkInv`: the invariant, kept by every step that meets `Covered`;
* `marks_kept`: **a directory that a committed writer marked and whose row is out of date
  still has a mark**, when stripping its name does not change it and both writers count alike;
* `mark_lost_of_trailing_space`: a directory whose name ends with a space loses its mark.
-/

namespace Frostvault

open Runs List

variable (coll : Collation) (v : VaultId) (d : Path)

/-! ### What the row of a directory depends on -/

/-- Both writers of aggregate rows read the same for the directory. -/
def SameBelow (c c' : Catalog) : Prop :=
  rowsBelow coll c v d = rowsBelow coll c' v d ∧ storageRows c v d = storageRows c' v d ∧
    rowsNaming coll c v d = rowsNaming coll c' v d

instance (c c' : Catalog) : Decidable (SameBelow coll v d c c') :=
  inferInstanceAs (Decidable (_ ∧ _))

/-- The stored row is what the refresh or the full rebuild of the directory gives now. -/
def UpToDate (db : Db) : Prop :=
  db.aggregates v d = rollupSql coll db.catalog v d ∨
    db.aggregates v d = rebuildVaultDirectoryAggregates coll db.catalog v none d

/-- The keys of the marks. -/
def Db.markKeys (db : Db) : List (VaultId × Path × TxId) := db.dirty.map DirtyMark.key

/-- The directory has a mark outside the given claims. -/
def MarkedBeyond (claims : List (VaultId × Path × TxId)) (db : Db) : Prop :=
  ∃ i, (v, d, i) ∈ db.markKeys ∧ (v, d, i) ∉ claims

/-- The row is up to date, or a mark outside the claims is there. -/
def GoodBeyond (claims : List (VaultId × Path × TxId)) (db : Db) : Prop :=
  UpToDate coll v d db ∨ MarkedBeyond v d claims db

/-- The second database gives the directory the same row and has at least its marks. -/
structure Extends (db db' : Db) : Prop where
  below : SameBelow coll v d db.catalog db'.catalog
  stored : db'.aggregates v d = db.aggregates v d
  marks : ∀ i, (v, d, i) ∈ db.markKeys → (v, d, i) ∈ db'.markKeys

variable {coll v d}

lemma rollupSql_congr {c c' : Catalog} (h : SameBelow coll v d c c') :
    rollupSql coll c v d = rollupSql coll c' v d := by
  rw [rollupSql, rollupSql, h.1, h.2.1]

lemma rebuild_congr {c c' : Catalog} (h : SameBelow coll v d c c') :
    rebuildVaultDirectoryAggregates coll c v none d =
      rebuildVaultDirectoryAggregates coll c' v none d := by
  rw [rebuildVaultDirectoryAggregates_apply, rebuildVaultDirectoryAggregates_apply, h.2.2]

lemma SameBelow.refl (c : Catalog) : SameBelow coll v d c c := ⟨rfl, rfl, rfl⟩

variable {db : Db} {k : VaultId × Path × TxId} {plan : List Task} {ws : List Write}

lemma UpToDate.extend {db' : Db} (h : UpToDate coll v d db) (he : Extends coll v d db db') :
    UpToDate coll v d db' := by
  rw [UpToDate, he.stored, ← rollupSql_congr he.below, ← rebuild_congr he.below]
  exact h

lemma MarkedBeyond.extend {claims : List (VaultId × Path × TxId)} {db' : Db}
    (h : MarkedBeyond v d claims db) (he : Extends coll v d db db') :
    MarkedBeyond v d claims db' := by
  obtain ⟨i, hi, hk⟩ := h
  exact ⟨i, he.marks i hi, hk⟩

lemma GoodBeyond.extend {claims : List (VaultId × Path × TxId)} {db' : Db}
    (h : GoodBeyond coll v d claims db) (he : Extends coll v d db db') :
    GoodBeyond coll v d claims db' :=
  h.imp (fun hf => hf.extend he) fun hm => hm.extend he

lemma GoodBeyond.of_noClaim {claims claims' : List (VaultId × Path × TxId)}
    (h : GoodBeyond coll v d claims db) (hno : ∀ i, (v, d, i) ∉ claims') :
    GoodBeyond coll v d claims' db := by
  exact h.imp_right fun ⟨i, hi, _⟩ => ⟨i, hi, hno i⟩

variable (v d) in
/-- The two writers count every file of the directory alike: it has the directory among its
ancestors exactly when its path starts with the directory and a slash (which only matters while it
is shown), and if so its newest version was not found missing in favour of an older one, nor is its
class empty. -/
def CountedAlike (cat : Catalog) : Prop :=
  ∀ f ∈ cat.files, (f.visible = true → (f.naming v d = true ↔ f.below v d = true)) ∧
    (f.below v d = true → f.fallsBack = false ∧ f.classRefreshed ≠ some "")

variable (v d) in
instance (cat : Catalog) : Decidable (CountedAlike v d cat) :=
  inferInstanceAs (Decidable (∀ f ∈ cat.files, _))

/-- Where they do, the refresh and the full rebuild give the directory one row. -/
lemma CountedAlike.rollups_eq {cat : Catalog} (h : CountedAlike v d cat) (hd : normalize d = d)
    (hdne : d ≠ []) : rollupSql coll cat v d =
      rebuildVaultDirectoryAggregates coll cat v none d := by
  have hrefresh : rebuildDirectory coll cat v (fun _ => none) d d = rollupSql coll cat v d := by
    rw [rebuildDirectory, hd, if_neg hdne, Function.update_self]
  have hfiled := fun f hf => (h f hf).1
  have hcolumns := refreshAgrees_of_filed coll hd hdne hfiled
  have hclasses := (classesAgree_iff_balance coll none hd hdne).mpr
    ((balance_of_filed hfiled).mpr fun f hf => (h f hf).2)
  have hcols := hcolumns (fun _ => none) none
  have hcls := hclasses fun _ => none
  rw [hrefresh] at hcols hcls
  cases hl : rollupSql coll cat v d with
  | none =>
      rw [hl, Option.map_none, eq_comm, Option.map_eq_none_iff] at hcols
      exact hcols.symm
  | some r =>
      rw [hl] at hcols hcls
      cases hr : rebuildVaultDirectoryAggregates coll cat v none d with
      | none => simp [hr] at hcols
      | some r' =>
          rw [hr] at hcols hcls
          simp only [Option.map_some, Option.some.injEq] at hcols hcls
          obtain ⟨cols, classes⟩ := r
          obtain ⟨cols', classes'⟩ := r'
          dsimp only at hcols hcls
          rw [hcols, hcls]

/-! ### What writes change -/

/-- A write to the catalog. -/
def Write.mutates : Write → Bool
  | .mutate _ => true
  | _ => false

/-- A write of a writer transaction: catalog rows and marks. -/
def Write.isWriter : Write → Bool
  | .mutate _ | .insertMark _ => true
  | _ => false

/-- A write to the aggregates or the marks of a Vault, made under its row lock. -/
def Write.consumes (u : VaultId) : Write → Bool
  | .deleteMarks w _ | .setAggregate w _ _ | .replaceAggregates w _ => w = u
  | _ => false

/-- A write that deletes the mark of a key. -/
def Write.deletes (k : VaultId × Path × TxId) : Write → Bool
  | .deleteMarks w ids => k.1 = w && k.2 ∈ ids
  | _ => false

/-- A write that inserts the mark of a key. -/
def Write.inserts (k : VaultId × Path × TxId) : Write → Bool
  | .insertMark m => m.key = k
  | _ => false

@[simp] lemma applyWrites_nil (db : Db) : applyWrites db [] = db := rfl

lemma applyWrites_append (db : Db) (ws us : List Write) :
    applyWrites db (ws ++ us) = applyWrites (applyWrites db ws) us :=
  foldl_append ..

lemma applyWrites_cons (db : Db) (w : Write) (ws : List Write) :
    applyWrites db (w :: ws) = applyWrites (w.apply db) ws := rfl

lemma applyWrites_catalog (h : ∀ w ∈ ws, w.mutates = false) (db : Db) :
    (applyWrites db ws).catalog = db.catalog := by
  induction ws generalizing db with
  | nil => rfl
  | cons w ws ih =>
      rw [applyWrites_cons, ih fun u hu => h u (mem_cons_of_mem _ hu)]
      have hw := h w mem_cons_self
      cases w <;> first | rfl | simp [Write.mutates] at hw

lemma Write.mutates_eq_false {w : Write} (h : w.isWriter = false) : w.mutates = false := by
  cases w <;> first | rfl | simp [Write.isWriter] at h

/-- Without consuming writes the aggregates of the Vault stay. -/
lemma applyWrites_aggregates {u : VaultId} (h : ∀ w ∈ ws, w.consumes u = false) (db : Db) :
    (applyWrites db ws).aggregates u = db.aggregates u := by
  induction ws generalizing db with
  | nil => rfl
  | cons w ws ih =>
      rw [applyWrites_cons, ih fun x hx => h x (mem_cons_of_mem _ hx)]
      have hw := h w mem_cons_self
      cases w with
      | setAggregate x e row =>
          have hx : u ≠ x := fun e => by simp [Write.consumes, e] at hw
          simp [Write.apply, Function.update_of_ne hx]
      | replaceAggregates x rolled =>
          have hx : u ≠ x := fun e => by simp [Write.consumes, e] at hw
          simp [Write.apply, Function.update_of_ne hx]
      | _ => rfl

/-- The row a transaction sees depends on the committed row only. -/
lemma applyWrites_stored_congr (ws : List Write) {db' : Db} {u : VaultId} {e : Path}
    (h : db.aggregates u e = db'.aggregates u e) :
    (applyWrites db ws).aggregates u e = (applyWrites db' ws).aggregates u e := by
  induction ws generalizing db db' with
  | nil => exact h
  | cons w ws ih =>
      rw [applyWrites_cons, applyWrites_cons]
      refine ih ?_
      cases w with
      | setAggregate x e' row =>
          by_cases hx : u = x
          · subst hx
            by_cases he : e = e'
            · subst he
              simp [Write.apply]
            · simp [Write.apply, he, h]
          · simp [Write.apply, hx, h]
      | replaceAggregates x rolled =>
          by_cases hx : u = x
          · subst hx
            simp [Write.apply]
          · simp [Write.apply, hx, h]
      | _ => exact h

lemma mem_markKeys_apply {w : Write} :
    k ∈ (w.apply db).markKeys ↔
      (k ∈ db.markKeys ∧ w.deletes k = false) ∨ w.inserts k := by
  cases w with
  | insertMark m =>
      by_cases hm : m.key ∈ db.dirty.map DirtyMark.key
      · simp only [Db.markKeys, Write.apply, if_pos hm, Write.deletes, Write.inserts, and_true,
          decide_eq_true_eq]
        exact ⟨Or.inl, fun h => h.elim id fun h => h ▸ hm⟩
      · simp only [Db.markKeys, Write.apply, if_neg hm, Write.deletes, Write.inserts, and_true,
          decide_eq_true_eq, map_append, mem_append, map_cons, map_nil,
          mem_singleton]
        exact or_congr_right eq_comm
  | deleteMarks u ids =>
      simp only [Db.markKeys, Write.apply, Write.deletes, Write.inserts, Bool.false_eq_true,
        or_false, mem_map, mem_filter, decide_eq_true_eq, Bool.and_eq_false_iff,
        decide_eq_false_iff_not]
      constructor
      · rintro ⟨m, ⟨hm, hkept⟩, rfl⟩
        exact ⟨⟨m, hm, rfl⟩, not_and_or.mp hkept⟩
      · rintro ⟨⟨m, hm, rfl⟩, hkept⟩
        exact ⟨m, ⟨hm, not_and_or.mpr hkept⟩, rfl⟩
  | _ => simp [Db.markKeys, Write.apply, Write.deletes, Write.inserts]

/-- A mark survives the writes that do not delete it. -/
lemma mem_markKeys_applyWrites (hk : k ∈ db.markKeys) (h : ∀ w ∈ ws, w.deletes k = false) :
    k ∈ (applyWrites db ws).markKeys := by
  induction ws generalizing db with
  | nil => exact hk
  | cons w ws ih =>
      rw [applyWrites_cons]
      exact ih (mem_markKeys_apply.mpr (Or.inl ⟨hk, h w mem_cons_self⟩))
        fun x hx => h x (mem_cons_of_mem _ hx)

/-- A new mark is there after the writes, when none of them deletes it. -/
lemma mem_markKeys_of_inserts {w : Write}
    (hw : w ∈ ws) (hins : w.inserts k) (hdel : ∀ x ∈ ws, x.deletes k = false) :
    k ∈ (applyWrites db ws).markKeys := by
  induction ws generalizing db with
  | nil => cases hw
  | cons x ws ih =>
      have hdel' : ∀ y ∈ ws, y.deletes k = false := fun y hy => hdel y (mem_cons_of_mem _ hy)
      rw [applyWrites_cons]
      rcases mem_cons.mp hw with rfl | hw
      · exact mem_markKeys_applyWrites (mem_markKeys_apply.mpr (Or.inr hins)) hdel'
      · exact ih hw hdel'

lemma mem_or_inserted (hk : k ∈ (applyWrites db ws).markKeys) :
    k ∈ db.markKeys ∨ ∃ w ∈ ws, w.inserts k := by
  induction ws generalizing db with
  | nil => exact Or.inl hk
  | cons w ws ih =>
      rw [applyWrites_cons] at hk
      rcases ih hk with hk | ⟨x, hx, hins⟩
      · rcases mem_markKeys_apply.mp hk with ⟨hk, -⟩ | hins
        · exact Or.inl hk
        · exact Or.inr ⟨w, mem_cons_self, hins⟩
      · exact Or.inr ⟨x, mem_cons_of_mem _ hx, hins⟩

/-- More marks below the writes are more marks with them. -/
lemma markKeys_applyWrites_mono {db' : Db}
    (h : k ∈ db.markKeys → k ∈ db'.markKeys) (hk : k ∈ (applyWrites db ws).markKeys) :
    k ∈ (applyWrites db' ws).markKeys := by
  induction ws generalizing db db' with
  | nil => exact h hk
  | cons w ws ih =>
      rw [applyWrites_cons] at hk ⊢
      refine ih (fun hk => ?_) hk
      exact mem_markKeys_apply.mpr ((mem_markKeys_apply.mp hk).imp_left fun ⟨hk, hw⟩ => ⟨h hk, hw⟩)

/-- Writes under no lock of the Vault delete none of its marks. -/
lemma Write.deletes_eq_false {w : Write} (h : w.consumes k.1 = false) : w.deletes k = false := by
  cases w with
  | deleteMarks u ids =>
      have hu : u ≠ k.1 := fun heq => by simp [Write.consumes, heq] at h
      simp [Write.deletes, hu.symm]
  | _ => rfl

/-- The same writes on top keep `Extends`, when they leave the rows of the directory alike. -/
lemma Extends.applyWrites {db' : Db} (h : Extends coll v d db db')
    (hbelow : SameBelow coll v d (applyWrites db ws).catalog (applyWrites db' ws).catalog) :
    Extends coll v d (applyWrites db ws) (applyWrites db' ws) where
  below := hbelow
  stored := applyWrites_stored_congr ws h.stored
  marks i := markKeys_applyWrites_mono (h.marks i)

/-- Writes that neither change what the row is computed from nor consume the Vault. -/
lemma extends_applyWrites (hbelow : SameBelow coll v d db.catalog (applyWrites db ws).catalog)
    (hcon : ∀ w ∈ ws, w.consumes v = false) : Extends coll v d db (applyWrites db ws) where
  below := hbelow
  stored := by rw [applyWrites_aggregates hcon]
  marks _ hi := mem_markKeys_applyWrites hi fun w hw => Write.deletes_eq_false (hcon w hw)

lemma extends_of_not_consumes (db : Db) (hws : ∀ w ∈ ws, w.isWriter = false)
    (hcon : ∀ w ∈ ws, w.consumes v = false) : Extends coll v d db (applyWrites db ws) :=
  extends_applyWrites
    (by
      rw [applyWrites_catalog fun w hw => Write.mutates_eq_false (hws w hw)]
      exact SameBelow.refl _)
    hcon

/-! ### The invariant -/

/-- The identity of a transaction that is over. -/
def Sys.over (s : Sys) (i : TxId) : Prop := i < s.nextTx ∧ s.txs i = none

/-- The Vault of a task. -/
def Task.vault : Task → VaultId
  | .rebuild v | .refresh v _ | .finish v => v

/-- The marks a flush has claimed. -/
def Phase.claims : Phase → List (VaultId × Path × TxId)
  | .idle | .statusRead _ _ _ => []
  | .locking run _ _ | .working run _ _ => run.claims

variable (v d) in
/-- The row of the directory is still to be computed by the flush. -/
def Planned (plan : List Task) : Prop := Task.rebuild v ∈ plan ∨ Task.refresh v d ∈ plan

variable (coll v d) in
/-- The batches read so far hold the contributions below the directory up to the keyset. -/
def PagesOk (keyset : Path) (acc : List FileContribution) (c : Catalog) : Prop :=
  (rowsNaming coll c v d).map contributionOf =
    (acc.filter fun x => d ∈ ancestorDirectories x.path) ++
      (Keyset.after VisibleRow.path coll.lt keyset (rowsNaming coll c v d)).map contributionOf

variable (coll v d) in
/-- What a flush secures for the directory, in its own view of the database: it will still
compute the row, or a mark it has not claimed is there, or what it has is right. -/
def FlushOk (db : Db) : Phase → Prop
  | .idle => GoodBeyond coll v d [] db
  | .statusRead _ _ _ => GoodBeyond coll v d [] db
  | .locking run _ plan => Planned v d plan ∨ GoodBeyond coll v d run.claims db
  | .working run none plan => Planned v d plan ∨ GoodBeyond coll v d run.claims db
  | .working run (some (.pages u _ k acc)) plan =>
      Planned v d plan ∨ MarkedBeyond v d run.claims db ∨
        if u = v then PagesOk coll v d k acc db.catalog else UpToDate coll v d db
  | .working run (some (.storage u e cols)) plan =>
      Planned v d plan ∨ MarkedBeyond v d run.claims db ∨
        if u = v ∧ e = d then columnsSql (rowsBelow coll db.catalog v d) = some cols
        else UpToDate coll v d db

/-- The Vault a cursor works on. -/
def Cursor.vault : Cursor → VaultId
  | .pages v _ _ _ | .storage v _ _ => v

variable (v d) in
/-- The Vaults of the plan and of the claims are locked, or about to be. -/
def PlanLocked (s : Sys) (t : TxId) : Phase → Prop
  | .idle | .statusRead _ _ _ => True
  | .locking run toLock plan =>
      (∀ k ∈ plan, k.vault ∈ toLock ∨ s.locks k.vault = some t) ∧
      (∀ c ∈ run.claims, c.1 ∈ toLock ∨ s.locks c.1 = some t) ∧
      (¬ Planned v d plan → ∀ i, (v, d, i) ∉ run.claims)
  | .working run cursor plan =>
      (∀ k ∈ plan, s.locks k.vault = some t) ∧ (∀ c ∈ run.claims, s.locks c.1 = some t) ∧
      ∀ cur, cursor = some cur → s.locks cur.vault = some t

variable (v d) in
/-- What holds of every open transaction. -/
structure TxShape (s : Sys) (t : TxId) (tx : Tx) : Prop where
  marks_own : ∀ m, Write.insertMark m ∈ tx.writes → m.markId = t
  deletes_seen : ∀ w ∈ tx.writes, ∀ k, w.deletes k = true → s.over k.2.2 ∨ k.2.2 = t
  claims_seen : ∀ c ∈ tx.phase.claims, s.over c.2.2 ∨ c.2.2 = t
  consumes_locked : ∀ u, ∀ w ∈ tx.writes, w.consumes u = true → s.locks u = some t
  writer : tx.flushed = false → tx.phase = .idle ∧ ∀ w ∈ tx.writes, ∀ u, w.consumes u = false
  planned : PlanLocked v d s t tx.phase

variable (coll v d) in
/-- The invariant of the system, for one directory. -/
structure MarkInv (s : Sys) : Prop where
  ids : ∀ k ∈ s.db.markKeys, s.over k.2.2
  fresh : ∀ t, s.nextTx ≤ t → s.txs t = none
  txs : ∀ t tx, s.txs t = some tx → TxShape v d s t tx
  good : (v, d) ∈ s.marked → GoodBeyond coll v d [] s.db
  flushes : ∀ t tx, s.txs t = some tx → tx.flushed = true → (v, d) ∈ tx.markedDirs ++ s.marked →
    FlushOk coll v d (tx.view s.db) tx.phase

variable (coll v d) in
/-- The commit of `tx` beside the open flush `ux`: whoever of the two has not marked the directory
leaves its rows alone, also with the writes of the other. -/
def coveredBeside (s : Sys) (tx ux : Tx) : Bool :=
  (decide ((v, d) ∈ tx.markedDirs) ||
      decide (SameBelow coll v d (ux.view s.db).catalog (ux.view (tx.view s.db)).catalog)) &&
    (decide ((v, d) ∈ ux.markedDirs) ||
      decide (SameBelow coll v d (tx.view s.db).catalog (ux.view (tx.view s.db)).catalog))

variable (coll v d) in
/-- The conditions on a step: a transaction that changes what the row of the directory is computed
from marks the directory, before it flushes, after it flushed, and before it commits. -/
def covered (s : Sys) : Act → Bool
  | .write t f marks => (s.txs t).all fun tx =>
      !tx.flushed || decide ((v, d) ∈ marks.map fun q => (q.1, q.2.1)) ||
        decide (SameBelow coll v d (tx.view s.db).catalog (f (tx.view s.db).catalog))
  | .readStatus t _ _ => (s.txs t).all fun tx =>
      tx.flushed || decide ((v, d) ∈ tx.markedDirs) ||
        decide (SameBelow coll v d s.db.catalog (tx.view s.db).catalog)
  | .commit t => (s.txs t).all fun tx =>
      (decide ((v, d) ∈ tx.markedDirs) ||
        decide (SameBelow coll v d s.db.catalog (tx.view s.db).catalog)) &&
      (List.range s.nextTx).all fun u => (s.txs u).all fun ux =>
        decide (u = t) || !ux.flushed || coveredBeside coll v d s tx ux
  | _ => true

variable (coll v d) in
/-- The step meets its conditions. -/
def Covered (s : Sys) (a : Act) : Prop := covered coll v d s a = true

instance (s : Sys) (a : Act) : Decidable (Covered coll v d s a) :=
  inferInstanceAs (Decidable (covered coll v d s a = true))

/-! ### How the invariant moves -/

lemma flushOk_of_marked {ph : Phase} (h : MarkedBeyond v d ph.claims db) :
    FlushOk coll v d db ph := by
  cases ph with
  | idle => exact Or.inr h
  | statusRead scope cutoff rows => exact Or.inr h
  | locking run toLock plan => exact Or.inr (Or.inr h)
  | working run cursor plan =>
      match cursor with
      | none => exact Or.inr (Or.inr h)
      | some (.pages u since k acc) => exact Or.inr (Or.inl h)
      | some (.storage u e cols) => exact Or.inr (Or.inl h)

/-- What a flush has secured stays when the database gives the directory the same row and
keeps its marks. -/
lemma FlushOk.extend {db' : Db} {ph : Phase} (h : FlushOk coll v d db ph)
    (he : Extends coll v d db db') : FlushOk coll v d db' ph := by
  cases ph with
  | idle => exact GoodBeyond.extend h he
  | statusRead scope cutoff rows => exact GoodBeyond.extend h he
  | locking run toLock plan => exact h.imp_right fun hg => hg.extend he
  | working run cursor plan =>
      match cursor with
      | none => exact Or.imp_right (fun hg => GoodBeyond.extend hg he) h
      | some (.pages u since k acc) =>
          refine Or.imp_right (Or.imp (fun hm => MarkedBeyond.extend hm he) fun hr => ?_) h
          split at hr
          · rename_i huv
            rw [if_pos huv, PagesOk, ← he.below.2.2]
            exact hr
          · rename_i huv
            rw [if_neg huv]
            exact hr.extend he
      | some (.storage u e cols) =>
          refine Or.imp_right (Or.imp (fun hm => MarkedBeyond.extend hm he) fun hr => ?_) h
          split at hr
          · rename_i huv
            rw [if_pos huv, ← he.below.1]
            exact hr
          · rename_i huv
            rw [if_neg huv]
            exact hr.extend he

/-- A flush that does not hold the Vault finds the directory as the others left it. -/
lemma flushOk_of_good {s : Sys} {t : TxId} {ph : Phase}
    (hplan : PlanLocked v d s t ph) (hlock : s.locks v ≠ some t)
    (hgood : GoodBeyond coll v d [] db) : FlushOk coll v d db ph := by
  cases ph with
  | idle => exact hgood
  | statusRead scope cutoff rows => exact hgood
  | locking run toLock plan =>
      by_cases hp : Planned v d plan
      · exact Or.inl hp
      · exact Or.inr (hgood.of_noClaim (hplan.2.2 hp))
  | working run cursor plan =>
      obtain ⟨-, hclaims, hcur⟩ := hplan
      have hno : ∀ i, (v, d, i) ∉ run.claims := fun i hi => hlock (hclaims _ hi)
      have hgood' := hgood.of_noClaim hno
      match cursor with
      | none => exact Or.inr hgood'
      | some (.pages u since k acc) =>
          have hu : u ≠ v := fun e => hlock (e ▸ hcur _ rfl)
          refine Or.inr ?_
          rw [if_neg hu]
          exact hgood'.symm
      | some (.storage u e cols) =>
          have hu : u ≠ v := fun e => hlock (e ▸ hcur _ rfl)
          refine Or.inr ?_
          rw [if_neg fun h => hu h.1]
          exact hgood'.symm

/-- The lock discipline survives a step that keeps the locks of the transaction. -/
lemma PlanLocked.mono {s s' : Sys} {t : TxId} {ph : Phase} (h : PlanLocked v d s t ph)
    (hl : ∀ u, s.locks u = some t → s'.locks u = some t) : PlanLocked v d s' t ph := by
  cases ph with
  | idle => trivial
  | statusRead scope cutoff rows => trivial
  | locking run toLock plan =>
      obtain ⟨h1, h2, h3⟩ := h
      exact ⟨fun k hk => (h1 k hk).imp_right (hl _), fun c hc => (h2 c hc).imp_right (hl _), h3⟩
  | working run cursor plan =>
      obtain ⟨h1, h2, h3⟩ := h
      exact ⟨fun k hk => hl _ (h1 k hk), fun c hc => hl _ (h2 c hc),
        fun cur hcur => hl _ (h3 cur hcur)⟩

lemma TxShape.mono {s s' : Sys} {t : TxId} {tx : Tx} (h : TxShape v d s t tx)
    (hover : ∀ i, s.over i → s'.over i)
    (hl : ∀ u, s.locks u = some t → s'.locks u = some t) : TxShape v d s' t tx where
  marks_own := h.marks_own
  deletes_seen w hw k hk := (h.deletes_seen w hw k hk).imp_left (hover _)
  claims_seen c hc := (h.claims_seen c hc).imp_left (hover _)
  consumes_locked u w hw hc := hl u (h.consumes_locked u w hw hc)
  writer := h.writer
  planned := h.planned.mono hl

lemma TxShape.flushed_of_ne_idle {s : Sys} {t : TxId} {tx : Tx} (h : TxShape v d s t tx)
    (hne : tx.phase ≠ .idle) : tx.flushed := by
  cases hf : tx.flushed with
  | true => rfl
  | false => exact absurd (h.writer hf).1 hne

/-! ### The statements of a flush -/

lemma mem_claimedIds {claims : List (VaultId × Path × TxId)} {u : VaultId} {q : Path × TxId} :
    q ∈ claimedIds claims u ↔ (u, q) ∈ claims := by
  simp [claimedIds]

/-- Adding writes under the locks keeps the shape of a transaction. -/
lemma TxShape.append {s : Sys} {t : TxId} {tx tx' : Tx} (h : TxShape v d s t tx)
    (us : List Write) (hw : tx'.writes = tx.writes ++ us)
    (hown : ∀ m, Write.insertMark m ∈ us → m.markId = t)
    (hdel : ∀ w ∈ us, ∀ k, w.deletes k → s.over k.2.2 ∨ k.2.2 = t)
    (hcon : ∀ u, ∀ w ∈ us, w.consumes u → s.locks u = some t)
    (hclaims : ∀ c ∈ tx'.phase.claims, s.over c.2.2 ∨ c.2.2 = t)
    (hwriter : tx'.flushed = false → tx'.phase = .idle ∧ tx.flushed = false ∧
      ∀ w ∈ us, ∀ u, w.consumes u = false) (hplan : PlanLocked v d s t tx'.phase) :
    TxShape v d s t tx' where
  marks_own m hm := by
    rw [hw] at hm
    exact (mem_append.mp hm).elim (h.marks_own m) (hown m)
  deletes_seen w hmem := by
    rw [hw] at hmem
    exact (mem_append.mp hmem).elim (h.deletes_seen w) (hdel w)
  claims_seen := hclaims
  consumes_locked u w hmem := by
    rw [hw] at hmem
    exact (mem_append.mp hmem).elim (h.consumes_locked u w) (hcon u w)
  writer hf := by
    obtain ⟨hidle, hflushed, hus⟩ := hwriter hf
    refine ⟨hidle, fun w hmem => ?_⟩
    rw [hw] at hmem
    exact (mem_append.mp hmem).elim ((h.writer hflushed).2 w) (hus w)
  planned := hplan

lemma TxShape.appendFlush {s : Sys} {t : TxId} {tx tx' : Tx} (h : TxShape v d s t tx)
    (us : List Write) (hflushed : tx.flushed) (hf : tx'.flushed = tx.flushed)
    (hw : tx'.writes = tx.writes ++ us) (hus : ∀ w ∈ us, w.isWriter = false)
    (hdel : ∀ w ∈ us, ∀ k, w.deletes k → s.over k.2.2 ∨ k.2.2 = t)
    (hcon : ∀ u, ∀ w ∈ us, w.consumes u → s.locks u = some t)
    (hclaims : ∀ c ∈ tx'.phase.claims, s.over c.2.2 ∨ c.2.2 = t)
    (hplan : PlanLocked v d s t tx'.phase) : TxShape v d s t tx' := by
  refine h.append us hw (fun m hm => ?_) hdel hcon hclaims (fun hfalse => ?_) hplan
  · simpa [Write.isWriter] using hus _ hm
  · rw [hf, hflushed] at hfalse
    cases hfalse

/-- **A statement of the working phase keeps the shape.** -/
lemma TxShape.work {s : Sys} {t : TxId} {tx : Tx} {run : FlushRun} {cursor : Option Cursor}
    (h : TxShape v d s t tx) (hphase : tx.phase = .working run cursor plan) :
    TxShape v d s t (workTx coll (tx.view s.db) s.clock tx run cursor plan) := by
  have hflushed : tx.flushed := h.flushed_of_ne_idle (by simp [hphase])
  have hover : ∀ c ∈ run.claims, s.over c.2.2 ∨ c.2.2 = t := by
    have := h.claims_seen
    rwa [hphase] at this
  have hp := h.planned
  rw [hphase] at hp
  obtain ⟨hplan, hclaims, hcur⟩ := hp
  have hdel : ∀ u k, (Write.deleteMarks u (claimedIds run.claims u)).deletes k →
      s.over k.2.2 ∨ k.2.2 = t := by
    intro u k hk
    simp only [Write.deletes, Bool.and_eq_true, decide_eq_true_eq] at hk
    obtain ⟨rfl, hk⟩ := hk
    exact hover _ (mem_claimedIds.mp hk)
  -- the statement writes rows of one Vault, whose lock it holds, or none
  have hwrites : ∀ u (us : List Write) (tx' : Tx), s.locks u = some t → tx'.flushed = tx.flushed →
      tx'.writes = tx.writes ++ us → (∀ w ∈ us, w.isWriter = false) →
      (∀ w ∈ us, ∀ k, w.deletes k → w = .deleteMarks u (claimedIds run.claims u)) →
      (∀ w ∈ us, ∀ x, w.consumes x → u = x) → tx'.phase.claims = run.claims →
      PlanLocked v d s t tx'.phase → TxShape v d s t tx' :=
    fun u us tx' hlock hf hw hus hdeletes hconsumes hclaims hplan =>
      h.appendFlush us hflushed hf hw hus
        (fun w hw k hk => hdel u k (hdeletes w hw k hk ▸ hk))
        (fun x w hw hc => hconsumes w hw x hc ▸ hlock) (hclaims ▸ hover) hplan
  have hgoes : ∀ tx' : Tx, tx'.flushed = tx.flushed → tx'.writes = tx.writes →
      tx'.phase.claims = run.claims → PlanLocked v d s t tx'.phase → TxShape v d s t tx' :=
    fun tx' hf hw hclaims hplan => h.appendFlush [] hflushed hf (by simp [hw]) (by simp) (by simp)
      (by simp) (hclaims ▸ hover) hplan
  match cursor, plan, hplan, hcur with
  | some (.pages u since k acc), plan, hplan, hcur =>
      have hlock : s.locks u = some t := hcur _ rfl
      simp only [workTx]
      split
      · exact hwrites u _ _ hlock rfl rfl (by simp [Write.isWriter]) (by simp [Write.deletes])
          (by simp [Write.consumes]) rfl ⟨hplan, hclaims, by simp⟩
      · refine hgoes _ rfl rfl rfl ⟨hplan, hclaims, ?_⟩
        intro cur hc
        cases hc
        exact hlock
  | some (.storage u e cols), plan, hplan, hcur =>
      exact hwrites u _ _ (hcur _ rfl) rfl rfl (by simp [Write.isWriter]) (by simp [Write.deletes])
        (by simp [Write.consumes]) rfl ⟨hplan, hclaims, by simp⟩
  | none, [], hplan, hcur =>
      exact h.appendFlush [] hflushed rfl (by simp [workTx]) (by simp) (by simp) (by simp)
        (by simp [workTx, Phase.claims]) trivial
  | none, .rebuild u :: plan, hplan, hcur =>
      refine hgoes _ rfl rfl rfl ⟨fun k hk => hplan k (by simp [hk]), hclaims, ?_⟩
      intro cur hc
      cases hc
      exact hplan (.rebuild u) (by simp)
  | none, .refresh u e :: plan, hplan, hcur =>
      have hlock : s.locks u = some t := hplan (.refresh u e) (by simp)
      have hplan' : ∀ k ∈ plan, s.locks k.vault = some t := fun k hk => hplan k (by simp [hk])
      simp only [workTx]
      split
      · exact hgoes _ rfl rfl rfl ⟨hplan', hclaims, by simp⟩
      · split
        · exact hwrites u _ _ hlock rfl rfl (by simp [Write.isWriter]) (by simp [Write.deletes])
            (by simp [Write.consumes]) rfl ⟨hplan', hclaims, by simp⟩
        · refine hgoes _ rfl rfl rfl ⟨hplan', hclaims, ?_⟩
          intro cur hc
          cases hc
          exact hlock
  | none, .finish u :: plan, hplan, hcur =>
      exact hwrites u _ _ (hplan (.finish u) (by simp)) rfl rfl (by simp [Write.isWriter])
        (by simp [Write.deletes]) (by simp [Write.consumes]) rfl
        ⟨fun k hk => hplan k (by simp [hk]), hclaims, by simp⟩

lemma pagesOk_nil (c : Catalog) : PagesOk coll v d [] [] c := by
  have h : ∀ r ∈ rowsNaming coll c v d, r.path ≠ [] := by
    intro r hr
    have := (mem_filter.mp hr).2
    simp only [Bool.and_eq_true, decide_eq_true_eq] at this
    exact ne_nil_of_mem_ancestorDirectories this.2
  rw [PagesOk, after_nil_eq coll _ h]
  simp

/-- One more page moves the keyset over its rows. -/
lemma PagesOk.page {k : Path} {acc : List FileContribution} {c : Catalog}
    (h : PagesOk coll v d k acc c) {rows : List VisibleRow}
    (hrows : rows = visibleFileSelect coll c v none (some k) (some rebuildContributionBatchSize))
    (hfull : ¬ rows.length < rebuildContributionBatchSize) :
    PagesOk coll v d (Keyset.nextKey VisibleRow.path k rows)
      (acc ++ rows.filterMap contributionFromRow) c := by
  have hne : rows ≠ [] := by
    rintro rfl
    exact hfull (by decide)
  rw [visibleFileSelect_page] at hrows
  have hsplit := Keyset.filter_after_eq_page_append coll.trans coll.irrefl
    (ascending_orderedRows coll c v)
    (fun r => r.visible && decide (d ∈ ancestorDirectories r.path)) k
    rebuildContributionBatchSize (by rw [← hrows]; exact hne)
  rw [← hrows] at hsplit
  rw [PagesOk] at h ⊢
  rw [filter_append, filter_contributions, append_assoc, ← map_append]
  rw [rowsNaming] at h ⊢
  rw [← hsplit]
  exact h

/-- After the last page the accumulated contributions give the row of a full rebuild. -/
lemma PagesOk.rolled {k : Path} {acc : List FileContribution} {c : Catalog}
    (h : PagesOk coll v d k acc c) {rows : List VisibleRow}
    (hrows : rows = visibleFileSelect coll c v none (some k) (some rebuildContributionBatchSize))
    (hshort : rows.length < rebuildContributionBatchSize) :
    (acc ++ rows.filterMap contributionFromRow).foldl rolledAdd (fun _ => none) d =
      rebuildVaultDirectoryAggregates coll c v none d := by
  rw [visibleFileSelect_page] at hrows
  have hall : rows = Keyset.after VisibleRow.path coll.lt k (orderedRows coll c v) := by
    rw [hrows] at hshort ⊢
    exact Keyset.page_eq_after_of_short _ _ _ hshort
  have hcontrib : (acc ++ rows.filterMap contributionFromRow).filter
      (fun x => d ∈ ancestorDirectories x.path) =
      (rowsNaming coll c v d).map contributionOf := by
    rw [filter_append, filter_contributions, h, hall, ← Keyset.after_filter]
    rfl
  rw [foldl_rolledAdd_apply, hcontrib, foldl_some_add, rebuildVaultDirectoryAggregates_apply]
  simp

lemma MarkedBeyond.deleteMarks {claims : List (VaultId × Path × TxId)} (u : VaultId)
    (h : MarkedBeyond v d claims db) :
    MarkedBeyond v d claims ((Write.deleteMarks u (claimedIds claims u)).apply db) := by
  obtain ⟨i, hi, hk⟩ := h
  refine ⟨i, mem_markKeys_apply.mpr (Or.inl ⟨hi, ?_⟩), hk⟩
  rw [Write.deletes, Bool.and_eq_false_iff, decide_eq_false_iff_not, decide_eq_false_iff_not,
    ← not_and_or]
  rintro ⟨rfl, hmem⟩
  exact hk (mem_claimedIds.mp hmem)

lemma GoodBeyond.deleteMarks {claims : List (VaultId × Path × TxId)} (u : VaultId)
    (h : GoodBeyond coll v d claims db) :
    GoodBeyond coll v d claims ((Write.deleteMarks u (claimedIds claims u)).apply db) :=
  h.imp (fun hf => hf) fun hm => hm.deleteMarks u

/-- A row stored for the directory itself decides; one stored elsewhere changes nothing. -/
lemma GoodBeyond.setAggregate {claims : List (VaultId × Path × TxId)} (u : VaultId)
    (e : Path) (row : Option DirectoryRollup) (h : u = v ∧ e = d →
      row = rollupSql coll db.catalog v d ∨ MarkedBeyond v d claims db)
    (hne : ¬ (u = v ∧ e = d) → GoodBeyond coll v d claims db) :
    GoodBeyond coll v d claims ((Write.setAggregate u e row).apply db) := by
  by_cases hue : u = v ∧ e = d
  · obtain ⟨rfl, rfl⟩ := hue
    rcases h ⟨rfl, rfl⟩ with hrow | hm
    · left
      left
      simp [Write.apply, hrow]
    · exact Or.inr hm
  · refine (hne hue).extend ⟨SameBelow.refl _, ?_, fun i hi => hi⟩
    simp only [Write.apply]
    by_cases hu : v = u
    · subst hu
      have he : d ≠ e := fun he => hue ⟨rfl, he.symm⟩
      simp [he]
    · simp [hu]

/-- **A statement of the working phase secures the directory.** -/
lemma FlushOk.work {s : Sys} {tx : Tx} {run : FlushRun} {cursor : Option Cursor}
    (hd : normalize d = d) (hdne : d ≠ [])
    (h : FlushOk coll v d (tx.view s.db) (.working run cursor plan)) :
    FlushOk coll v d ((workTx coll (tx.view s.db) s.clock tx run cursor plan).view s.db)
      (workTx coll (tx.view s.db) s.clock tx run cursor plan).phase := by
  have hview : ∀ (tx' : Tx) (us : List Write), tx'.writes = tx.writes ++ us →
      tx'.view s.db = applyWrites (tx.view s.db) us := by
    intro tx' us hw
    rw [Tx.view, hw, applyWrites_append]
    rfl
  set db := tx.view s.db with hdb
  match cursor, plan, h with
  | some (.pages u since k acc), plan, h =>
      set rows := visibleFileSelect coll db.catalog u none (some k)
        (some rebuildContributionBatchSize) with hrows
      by_cases hshort : rows.length < rebuildContributionBatchSize
      · -- the last batch: the row of the directory is what a full rebuild gives
        simp only [workTx, ← hrows, if_pos hshort]
        rw [hview _ _ rfl]
        rcases h with hp | hm | hr
        · exact Or.inl hp
        · have hm' : MarkedBeyond v d run.claims ((Write.replaceAggregates u
              ((acc ++ rows.filterMap contributionFromRow).foldl rolledAdd fun _ => none)).apply
                db) := hm
          exact Or.inr (Or.inr (hm'.deleteMarks u))
        · by_cases huv : u = v
          · subst huv
            rw [if_pos rfl] at hr
            refine Or.inr (Or.inl (Or.inr ?_))
            rw [applyWrites_cons, applyWrites_cons, applyWrites_cons, applyWrites_nil]
            simp only [Write.apply, Function.update_self]
            exact hr.rolled hrows hshort
          · rw [if_neg huv] at hr
            refine Or.inr (Or.inl (hr.extend (extends_of_not_consumes db ?_ ?_)))
            · simp [Write.isWriter]
            · simp [Write.consumes, huv]
      · simp only [workTx, ← hrows, if_neg hshort]
        rw [hview _ [] (by simp), applyWrites_nil]
        refine Or.imp_right (Or.imp_right fun hr => ?_) h
        by_cases huv : u = v
        · subst huv
          rw [if_pos rfl] at hr ⊢
          exact hr.page hrows hshort
        · rw [if_neg huv] at hr ⊢
          exact hr
  | some (.storage u e cols), plan, h =>
      simp only [workTx]
      rw [hview _ _ rfl]
      refine Or.imp_right (fun hr => ?_) h
      refine GoodBeyond.setAggregate u e _ ?_ ?_
      · rintro ⟨rfl, rfl⟩
        rcases hr with hm | hr
        · exact Or.inr hm
        · rw [if_pos ⟨rfl, rfl⟩] at hr
          left
          rw [rollupSql, hr]
          rfl
      · intro hne
        rw [if_neg hne] at hr
        exact hr.symm
  | none, [], h =>
      simp only [workTx]
      rw [hview _ [] (by simp), applyWrites_nil]
      rcases h with hp | hg
      · simp [Planned] at hp
      · exact hg.of_noClaim fun i => not_mem_nil
  | none, .rebuild u :: plan, h =>
      simp only [workTx]
      rw [hview _ [] (by simp), applyWrites_nil]
      by_cases huv : u = v
      · subst huv
        refine Or.inr (Or.inr ?_)
        rw [if_pos rfl]
        exact pagesOk_nil _
      · rcases h with hp | hg
        · have hu : v ≠ u := fun e => huv e.symm
          exact Or.inl (by simpa [Planned, hu] using hp)
        · refine Or.inr (Or.imp_right (fun hr => ?_) hg.symm)
          rw [if_neg huv]
          exact hr
  | none, .refresh u e :: plan, h =>
      -- the row of the directory itself is computed now, or the plan still holds it
      have hother : ¬ (u = v ∧ normalize e = d) →
          Planned v d plan ∨ GoodBeyond coll v d run.claims db := by
        intro hne
        refine Or.imp_left (fun hp => ?_) h
        rcases hp with hp | hp
        · exact Or.inl (by simpa using hp)
        · rcases mem_cons.mp hp with heq | hp
          · simp only [Task.refresh.injEq] at heq
            obtain ⟨rfl, rfl⟩ := heq
            exact absurd ⟨rfl, hd⟩ hne
          · exact Or.inr hp
      by_cases hnil : normalize e = []
      · simp only [workTx, if_pos hnil]
        rw [hview _ [] (by simp), applyWrites_nil]
        exact hother fun hh => hdne (hh.2.symm.trans hnil)
      · cases hcols : columnsSql (rowsBelow coll db.catalog u (normalize e)) with
        | none =>
            simp only [workTx, if_neg hnil, hcols]
            rw [hview _ _ rfl]
            by_cases hue : u = v ∧ normalize e = d
            · refine Or.inr (GoodBeyond.setAggregate u _ none ?_ fun hne => absurd hue hne)
              rintro ⟨rfl, he⟩
              left
              rw [rollupSql, ← he, hcols]
              rfl
            · refine Or.imp_right (fun hg => ?_) (hother hue)
              exact GoodBeyond.setAggregate u _ none (fun hh => absurd hh hue) fun _ => hg
        | some cols =>
            simp only [workTx, if_neg hnil, hcols]
            rw [hview _ [] (by simp), applyWrites_nil]
            by_cases hue : u = v ∧ normalize e = d
            · refine Or.inr (Or.inr ?_)
              rw [if_pos hue, ← hcols, hue.1, hue.2]
            · refine Or.imp_right (fun hg => Or.imp_right (fun hr => ?_) hg.symm) (hother hue)
              rw [if_neg hue]
              exact hr
  | none, .finish u :: plan, h =>
      simp only [workTx]
      rw [hview _ _ rfl]
      rcases h with hp | hg
      · exact Or.inl (by simpa [Planned] using hp)
      · exact Or.inr (hg.deleteMarks u)

/-! ### One step of the system -/

/-- Replacing one open transaction keeps the others. -/
lemma MarkInv.setTx {s s' : Sys} {t : TxId} (h : MarkInv coll v d s) (tx' : Tx)
    (htxs : s'.txs = Function.update s.txs t (some tx')) (hdb : s'.db = s.db)
    (hmarked : s'.marked = s.marked) (hover : ∀ i, s.over i → s'.over i)
    (hfresh : ∀ u, s'.nextTx ≤ u → s'.txs u = none)
    (hlock : ∀ u w, u ≠ t → s.locks w = some u → s'.locks w = some u)
    (hshape : TxShape v d s' t tx')
    (hok : tx'.flushed → (v, d) ∈ tx'.markedDirs ++ s.marked →
      FlushOk coll v d (tx'.view s.db) tx'.phase) : MarkInv coll v d s' where
  ids k hk := hover _ (h.ids k (hdb ▸ hk))
  fresh := hfresh
  txs u ux hu := by
    rw [htxs] at hu
    by_cases hut : u = t
    · subst hut
      rw [Function.update_self] at hu
      exact Option.some.inj hu ▸ hshape
    · rw [Function.update_of_ne hut] at hu
      exact (h.txs u ux hu).mono hover fun w hw => hlock u w hut hw
  good hm := hdb ▸ h.good (hmarked ▸ hm)
  flushes u ux hu hf hm := by
    rw [htxs] at hu
    rw [hmarked] at hm
    rw [hdb]
    by_cases hut : u = t
    · subst hut
      rw [Function.update_self] at hu
      cases hu
      exact hok hf hm
    · rw [Function.update_of_ne hut] at hu
      exact h.flushes u ux hu hf hm

/-- An identity that is over stays over when an open transaction moves on. -/
lemma over_setTx {s : Sys} {t : TxId} {tx tx' : Tx} (htx : s.txs t = some tx) (i : TxId)
    (h : s.over i) : (s.setTx t tx').over i := by
  refine ⟨h.1, ?_⟩
  have : i ≠ t := by
    rintro rfl
    rw [h.2] at htx
    cases htx
  simpa [Sys.setTx, this] using h.2

lemma MarkInv.fresh_setTx {s : Sys} {t : TxId} {tx tx' : Tx} (h : MarkInv coll v d s)
    (htx : s.txs t = some tx) (u : TxId) (hu : s.nextTx ≤ u) : (s.setTx t tx').txs u = none := by
  have : u ≠ t := by
    rintro rfl
    rw [h.fresh u hu] at htx
    cases htx
  simpa [Sys.setTx, this] using h.fresh u hu

/-- Taking a free row leaves the locks of the others. -/
lemma take_locks_of_ne {s : Sys} {t u : TxId} {w x : VaultId}
    (hfree : s.locks w = none ∨ s.locks w = some t) (hut : u ≠ t) (hx : s.locks x = some u) :
    (s.take t w).locks x = some u := by
  have : x ≠ w := by
    rintro rfl
    rcases hfree with hf | hf
    · simp [hf] at hx
    · exact hut (Option.some.inj (hx.symm.trans hf))
  simpa [Sys.take, this] using hx

lemma take_locks_self {s : Sys} {t : TxId} {w x : VaultId} (hx : s.locks x = some t) :
    (s.take t w).locks x = some t := by
  by_cases h : x = w
  · simp [Sys.take, h]
  · simpa [Sys.take, h] using hx

/-- The mark of a transaction has its identity. -/
lemma TxShape.exists_inserts {s : Sys} {t : TxId} {tx : Tx} (h : TxShape v d s t tx)
    (hm : (v, d) ∈ tx.markedDirs) : ∃ w ∈ tx.writes, w.inserts (v, d, t) := by
  obtain ⟨w, hw, hwm⟩ := mem_filterMap.mp hm
  cases w with
  | insertMark m =>
      refine ⟨_, hw, ?_⟩
      obtain ⟨hv, hd⟩ : m.vaultId = v ∧ m.path = d := by simpa using hwm
      simp [Write.inserts, DirtyMark.key, hv, hd, h.marks_own m hw]
  | _ => simp at hwm

lemma TxShape.id_of_inserts {s : Sys} {t : TxId} {tx : Tx} (h : TxShape v d s t tx) {w : Write}
    (hw : w ∈ tx.writes) (hk : w.inserts k) : k.2.2 = t := by
  cases w with
  | insertMark m =>
      rw [Write.inserts, decide_eq_true_eq] at hk
      rw [← hk]
      exact h.marks_own m hw
  | _ => cases hk

/-- Who does not hold the row of the Vault keeps the mark it set. -/
lemma TxShape.own_mark {s : Sys} {t : TxId} {tx : Tx} (h : TxShape v d s t tx)
    (hm : (v, d) ∈ tx.markedDirs) (hcon : ∀ w ∈ tx.writes, w.consumes v = false) (db : Db) :
    (v, d, t) ∈ (tx.view db).markKeys := by
  obtain ⟨w, hw, hins⟩ := h.exists_inserts hm
  exact mem_markKeys_of_inserts hw hins fun x hx => Write.deletes_eq_false (hcon x hx)

lemma TxShape.consumes_eq_false {s : Sys} {t : TxId} {tx : Tx} (h : TxShape v d s t tx)
    (hlock : s.locks v ≠ some t) : ∀ w ∈ tx.writes, w.consumes v = false := by
  intro w hw
  by_contra hc
  exact hlock (h.consumes_locked v w hw (Bool.not_eq_false _ ▸ hc))

/-- What a transaction that has not flushed leaves of the directory. -/
lemma good_of_unflushed {s : Sys} {t : TxId} {tx : Tx} (h : MarkInv coll v d s)
    (htx : s.txs t = some tx) (hf : tx.flushed = false)
    (hcov : (v, d) ∈ tx.markedDirs ∨ SameBelow coll v d s.db.catalog (tx.view s.db).catalog)
    (hm : (v, d) ∈ tx.markedDirs ++ s.marked) : GoodBeyond coll v d [] (tx.view s.db) := by
  have hshape := h.txs t tx htx
  have hcon : ∀ w ∈ tx.writes, w.consumes v = false := fun w hw => (hshape.writer hf).2 w hw v
  by_cases hmark : (v, d) ∈ tx.markedDirs
  · exact Or.inr ⟨t, hshape.own_mark hmark hcon s.db, not_mem_nil⟩
  · have hknown : (v, d) ∈ s.marked := (mem_append.mp hm).resolve_left hmark
    exact (h.good hknown).extend (extends_applyWrites (hcov.resolve_left hmark) hcon)

lemma good_commit {s : Sys} {t : TxId} {tx : Tx} (h : MarkInv coll v d s)
    (htx : s.txs t = some tx) (hidle : tx.phase = .idle)
    (hcov : (v, d) ∈ tx.markedDirs ∨ SameBelow coll v d s.db.catalog (tx.view s.db).catalog)
    (hm : (v, d) ∈ tx.markedDirs ++ s.marked) : GoodBeyond coll v d [] (tx.view s.db) := by
  cases hf : tx.flushed with
  | false => exact good_of_unflushed h htx hf hcov hm
  | true =>
      have := h.flushes t tx htx hf hm
      rwa [hidle] at this

/-- A commit leaves every other flush in order. -/
lemma flushOk_commit {s : Sys} {t u : TxId} {tx ux : Tx} (h : MarkInv coll v d s)
    (htx : s.txs t = some tx) (hidle : tx.phase = .idle)
    (hcov : (v, d) ∈ tx.markedDirs ∨ SameBelow coll v d s.db.catalog (tx.view s.db).catalog)
    (hbeside : coveredBeside coll v d s tx ux) (hut : u ≠ t) (hux : s.txs u = some ux)
    (huf : ux.flushed) (hm : (v, d) ∈ ux.markedDirs ++ (tx.markedDirs ++ s.marked)) :
    FlushOk coll v d (ux.view (tx.view s.db)) ux.phase := by
  have hshape := h.txs t tx htx
  have hushape := h.txs u ux hux
  simp only [coveredBeside, Bool.and_eq_true, Bool.or_eq_true, decide_eq_true_eq] at hbeside
  obtain ⟨hother, hown⟩ := hbeside
  by_cases hlock : s.locks v = some t
  · -- the other flush has not come to this Vault yet
    have hne : s.locks v ≠ some u := by
      rw [hlock]
      exact fun heq => hut (Option.some.inj heq).symm
    have hucon := hushape.consumes_eq_false hne
    refine flushOk_of_good hushape.planned hne ?_
    by_cases humark : (v, d) ∈ ux.markedDirs
    · exact Or.inr ⟨u, hushape.own_mark humark hucon _, not_mem_nil⟩
    · have hgood := good_commit h htx hidle hcov ((mem_append.mp hm).resolve_left humark)
      exact hgood.extend (extends_applyWrites (hown.resolve_left humark) hucon)
  · have hcon := hshape.consumes_eq_false hlock
    by_cases hmark : (v, d) ∈ tx.markedDirs
    · -- the new mark is unclaimed and nobody deletes it
      have hopen : ¬(s.over t ∨ t = u) := by
        rintro (hover | rfl)
        · simp [hover.2] at htx
        · exact hut rfl
      have hkept : ∀ w ∈ ux.writes, w.deletes (v, d, t) = false := by
        intro w hw
        by_contra hdel
        exact hopen (hushape.deletes_seen w hw _ (Bool.not_eq_false _ ▸ hdel))
      refine flushOk_of_marked ⟨t, mem_markKeys_applyWrites (hshape.own_mark hmark hcon _) hkept,
        fun hc => hopen (hushape.claims_seen _ hc)⟩
    · have hknown : (v, d) ∈ ux.markedDirs ++ s.marked := by
        rcases mem_append.mp hm with hm | hm
        · exact mem_append_left _ hm
        · exact mem_append_right _ ((mem_append.mp hm).resolve_left hmark)
      have hext : Extends coll v d s.db (tx.view s.db) :=
        extends_applyWrites (hcov.resolve_left hmark) hcon
      exact (h.flushes u ux hux huf hknown).extend (hext.applyWrites (hother.resolve_left hmark))

/-- A transaction without writes has any shape. -/
lemma txShape_begin (s : Sys) (t : TxId) (dirty : List (VaultId × Path)) (rebuild : List VaultId) :
    TxShape v d s t ⟨[], dirty, rebuild, .idle, false, [], fun _ => none⟩ where
  marks_own := by simp
  deletes_seen := by simp
  claims_seen := by simp [Phase.claims]
  consumes_locked := by simp
  writer := by simp
  planned := trivial

/-- Planning a flush: a claimed directory is computed anew. -/
lemma flushOk_claim {tx : Tx} {scope : Option VaultId} {cutoff : Stamp} {rows order : List VaultId}
    (horder : order.Perm (dirtyVaults (rebuildOf tx scope rows)
      (dirtyOf tx scope (claimDirtyRows db scope cutoff)))) :
    ¬ Planned v d (planOf (rebuildOf tx scope rows)
      (dirtyOf tx scope (claimDirtyRows db scope cutoff)) order) →
      ∀ i, (v, d, i) ∉ claimDirtyRows db scope cutoff := by
  intro hnot i hi
  have hdirty : (v, d) ∈ dirtyOf tx scope (claimDirtyRows db scope cutoff) :=
    mem_append_left _ (mem_map.mpr ⟨_, hi, rfl⟩)
  by_cases hv : v ∈ rebuildOf tx scope rows
  · exact hnot (Or.inl (rebuild_mem_planOf.mpr hv))
  · refine hnot (Or.inr (refresh_mem_planOf.mpr ⟨?_, hdirty⟩))
    exact horder.mem_iff.mpr (mem_dirtyVaults.mpr ⟨⟨d, hdirty⟩, hv⟩)

lemma vault_mem_lockOrder {rebuild : List VaultId} {dirty : List (VaultId × Path)}
    {order : List VaultId} (horder : order.Perm (dirtyVaults rebuild dirty)) {k : Task}
    (hk : k ∈ planOf rebuild dirty order) : k.vault ∈ lockOrder rebuild dirty := by
  have hdirty : ∀ u ∈ order, ∃ e, (u, e) ∈ dirty := fun u hu =>
    (mem_dirtyVaults.mp (horder.mem_iff.mp hu)).1
  cases k with
  | rebuild u => exact mem_lockOrder.mpr (Or.inl (rebuild_mem_planOf.mp hk))
  | refresh u e => exact mem_lockOrder.mpr (Or.inr ⟨e, (refresh_mem_planOf.mp hk).2⟩)
  | finish u => exact mem_lockOrder.mpr (Or.inr (hdirty u (finish_mem_planOf.mp hk)))

lemma markedDirs_of_writes {tx tx' : Tx} {us : List Write} (hw : tx'.writes = tx.writes ++ us)
    (hus : ∀ w ∈ us, w.isWriter = false) : tx'.markedDirs = tx.markedDirs := by
  have hnone : (us.filterMap fun w => match w with
      | .insertMark m => some (m.vaultId, m.path)
      | _ => none) = [] := by
    rw [filterMap_eq_nil_iff]
    intro w hmem
    have := hus w hmem
    cases w <;> first | rfl | simp [Write.isWriter] at this
  rw [Tx.markedDirs, hw, filterMap_append]
  exact (congrArg _ hnone).trans (append_nil _)

lemma markedDirs_workTx (db : Db) (now : ℕ) (tx : Tx) (run : FlushRun) (cursor : Option Cursor)
    (plan : List Task) : (workTx coll db now tx run cursor plan).markedDirs = tx.markedDirs := by
  match cursor, plan with
  | some (.pages u since k acc), plan =>
      simp only [workTx]
      split
      · exact markedDirs_of_writes rfl (by simp [Write.isWriter])
      · rfl
  | some (.storage u e cols), plan => exact markedDirs_of_writes rfl (by simp [Write.isWriter])
  | none, [] => rfl
  | none, .rebuild u :: plan => rfl
  | none, .refresh u e :: plan =>
      simp only [workTx]
      split
      · rfl
      · split
        · exact markedDirs_of_writes rfl (by simp [Write.isWriter])
        · rfl
  | none, .finish u :: plan => exact markedDirs_of_writes rfl (by simp [Write.isWriter])

section Steps

variable {s : Sys} {t : TxId} {tx : Tx}

section

variable (h : MarkInv coll v d s)

include h

lemma markInv_begin (dirty : List (VaultId × Path)) (rebuild : List VaultId) :
    MarkInv coll v d
      { s.setTx s.nextTx ⟨[], dirty, rebuild, .idle, false, [], fun _ => none⟩ with
        nextTx := s.nextTx + 1 } := by
  refine h.setTx (t := s.nextTx) _ rfl rfl rfl ?_ ?_ (fun _ _ _ hw => hw)
    (txShape_begin _ _ _ _) nofun
  · intro i hi
    have hne : i ≠ s.nextTx := Nat.ne_of_lt hi.1
    exact ⟨Nat.lt_succ_of_lt hi.1, by simpa [Sys.setTx, hne] using hi.2⟩
  · intro u hu
    have hlt : s.nextTx < u := hu
    simpa [Sys.setTx, Nat.ne_of_gt hlt] using h.fresh u (Nat.le_of_lt hlt)

section

variable (htx : s.txs t = some tx)

include htx

/-- A write of a transaction between its flushes. -/
lemma markInv_write (hidle : tx.phase = .idle) (f : Catalog → Catalog)
    (marks : List (VaultId × Path × Stamp))
    (hcov : tx.flushed → (v, d) ∈ marks.map (fun q => (q.1, q.2.1)) ∨
      SameBelow coll v d (tx.view s.db).catalog (f (tx.view s.db).catalog)) :
    MarkInv coll v d (s.setTx t { tx with
      writes := tx.writes ++ .mutate f :: marks.map fun q => .insertMark ⟨q.1, q.2.1, t, q.2.2⟩
      dirtyDirectories := tx.dirtyDirectories ++ marks.map fun q => (q.1, q.2.1) }) := by
  have hshape := h.txs t tx htx
  set us : List Write := .mutate f :: marks.map fun q => .insertMark ⟨q.1, q.2.1, t, q.2.2⟩
    with hus
  have hcon : ∀ w ∈ us, ∀ u, w.consumes u = false := by
    intro w hw u
    rcases mem_cons.mp hw with rfl | hw
    · rfl
    · obtain ⟨q, -, rfl⟩ := mem_map.mp hw
      rfl
  have hdel : ∀ w ∈ us, ∀ k, w.deletes k = false :=
    fun w hw k => Write.deletes_eq_false (hcon w hw k.1)
  refine h.setTx _ rfl rfl rfl (over_setTx htx) (h.fresh_setTx htx) (fun _ _ _ hw => hw) ?_ ?_
  · refine TxShape.mono (s := s) ?_ (over_setTx htx) fun _ hu => hu
    refine hshape.append us rfl (fun m hm => ?_) (fun w hw k hk => ?_) (fun u w hw hc => ?_)
      hshape.claims_seen (fun hf => ⟨hidle, hf, hcon⟩) hshape.planned
    · obtain ⟨q, -, hq⟩ := mem_map.mp ((mem_cons.mp hm).resolve_left nofun)
      rw [← Write.insertMark.inj hq]
    · rw [hdel w hw k] at hk
      cases hk
    · rw [hcon w hw u] at hc
      cases hc
  · intro hf hm
    show FlushOk coll v d (applyWrites s.db (tx.writes ++ us)) tx.phase
    rw [applyWrites_append, hidle]
    by_cases hin : (v, d) ∈ marks.map fun q => (q.1, q.2.1)
    · -- its own mark is there, and nothing is claimed
      obtain ⟨q, hq, heq⟩ := mem_map.mp hin
      cases heq
      have hmem : Write.insertMark ⟨q.1, q.2.1, t, q.2.2⟩ ∈ us :=
        mem_cons_of_mem _ (mem_map_of_mem hq)
      refine Or.inr ⟨t, mem_markKeys_of_inserts hmem ?_ fun x hx => hdel x hx _,
        not_mem_nil⟩
      simp [Write.inserts, DirtyMark.key]
    · have hknown : (v, d) ∈ tx.markedDirs ++ s.marked := by
        refine (mem_append.mp hm).elim (fun hm => ?_) (mem_append_right _)
        obtain ⟨w, hw, hwm⟩ := mem_filterMap.mp hm
        rcases mem_append.mp hw with hw | hw
        · exact mem_append_left _ (mem_filterMap.mpr ⟨w, hw, hwm⟩)
        · rcases mem_cons.mp hw with rfl | hw
          · cases hwm
          · obtain ⟨q, hq, rfl⟩ := mem_map.mp hw
            exact absurd (mem_map.mpr ⟨q, hq, Option.some.inj hwm⟩) hin
      have hok := h.flushes t tx htx hf hknown
      rw [hidle] at hok
      refine GoodBeyond.extend hok (extends_applyWrites ?_ fun w hw => hcon w hw v)
      have hcat : (applyWrites (tx.view s.db) us).catalog = f (tx.view s.db).catalog := by
        rw [hus, applyWrites_cons, applyWrites_catalog]
        · rfl
        · intro w hw
          obtain ⟨q, -, rfl⟩ := mem_map.mp hw
          rfl
      rw [Tx.view] at hcat
      exact hcat ▸ (hcov hf).resolve_left hin

/-- A statement between the flushes that writes nothing of a writer and takes no lock away. -/
lemma markInv_request (hidle : tx.phase = .idle) (u : VaultId) :
    MarkInv coll v d (s.setTx t { tx with
      writes := tx.writes ++ [.setStatus u .rebuildRequired]
      rebuildVaults := u :: tx.rebuildVaults
      requested := u :: tx.requested }) := by
  have hshape := h.txs t tx htx
  have hwriter : ∀ w ∈ [Write.setStatus u .rebuildRequired], w.isWriter = false := by
    simp [Write.isWriter]
  have hcon : ∀ w ∈ [Write.setStatus u .rebuildRequired], ∀ x, w.consumes x = false := by
    simp [Write.consumes]
  refine h.setTx _ rfl rfl rfl (over_setTx htx) (h.fresh_setTx htx) (fun _ _ _ hw => hw) ?_ ?_
  · refine TxShape.mono (s := s) ?_ (over_setTx htx) fun _ hu => hu
    refine hshape.append [.setStatus u .rebuildRequired] rfl (by simp) (by simp [Write.deletes])
      (fun x w hw hc => ?_) hshape.claims_seen (fun hf => ⟨hidle, hf, hcon⟩) hshape.planned
    rw [hcon w hw x] at hc
    cases hc
  · intro hf hm
    rw [markedDirs_of_writes rfl hwriter] at hm
    have hok := h.flushes t tx htx hf hm
    show FlushOk coll v d (applyWrites s.db (tx.writes ++ _)) tx.phase
    rw [applyWrites_append]
    exact hok.extend (extends_of_not_consumes _ hwriter fun w hw => hcon w hw v)

/-- A flush begins, in the view of its transaction. -/
lemma markInv_readStatus (hidle : tx.phase = .idle) (scope : Option VaultId) (cutoff : Stamp)
    (rows : List VaultId) (hcov : tx.flushed = false → (v, d) ∈ tx.markedDirs ∨
      SameBelow coll v d s.db.catalog (tx.view s.db).catalog) :
    MarkInv coll v d (s.setTx t { tx with
      flushed := true
      phase := .statusRead scope cutoff rows }) := by
  have hshape := h.txs t tx htx
  refine h.setTx _ rfl rfl rfl (over_setTx htx) (h.fresh_setTx htx) (fun _ _ _ hw => hw) ?_ ?_
  · refine TxShape.mono (s := s) ?_ (over_setTx htx) fun _ hu => hu
    exact ⟨hshape.marks_own, hshape.deletes_seen, by simp [Phase.claims],
      hshape.consumes_locked, nofun, trivial⟩
  · intro _ hm
    have hknown : (v, d) ∈ tx.markedDirs ++ s.marked := hm
    have hgood : GoodBeyond coll v d [] (tx.view s.db) := by
      cases hf : tx.flushed with
      | false => exact good_of_unflushed h htx hf (hcov hf) hknown
      | true =>
          have := h.flushes t tx htx hf hknown
          rwa [hidle] at this
    exact hgood

/-- The claims, of marks that others committed or the transaction set itself. -/
lemma markInv_claim {scope : Option VaultId} {cutoff : Stamp} {rows order : List VaultId}
    (hphase : tx.phase = .statusRead scope cutoff rows)
    (horder : order.Perm (dirtyVaults (rebuildOf tx scope rows)
      (dirtyOf tx scope (claimDirtyRows (tx.view s.db) scope cutoff)))) :
    MarkInv coll v d (s.setTx t { tx with
      phase := .locking
        ⟨scope, rebuildOf tx scope rows, claimDirtyRows (tx.view s.db) scope cutoff⟩
        (lockOrder (rebuildOf tx scope rows)
          (dirtyOf tx scope (claimDirtyRows (tx.view s.db) scope cutoff)))
        (planOf (rebuildOf tx scope rows)
          (dirtyOf tx scope (claimDirtyRows (tx.view s.db) scope cutoff)) order) }) := by
  have hshape := h.txs t tx htx
  have hf : tx.flushed := hshape.flushed_of_ne_idle (by simp [hphase])
  refine h.setTx _ rfl rfl rfl (over_setTx htx) (h.fresh_setTx htx) (fun _ _ _ hw => hw) ?_ ?_
  · refine TxShape.mono (s := s) ?_ (over_setTx htx) fun _ hu => hu
    refine hshape.appendFlush [] hf rfl (by simp) (by simp) (by simp) (by simp) ?_ ?_
    · intro c hc
      obtain ⟨m, hm, rfl⟩ := mem_map.mp hc
      rcases mem_or_inserted (mem_map_of_mem (mem_filter.mp hm).1) with hk | ⟨w, hw, hk⟩
      · exact Or.inl (h.ids _ hk)
      · exact Or.inr (hshape.id_of_inserts hw hk)
    · refine ⟨fun k hk => Or.inl (vault_mem_lockOrder horder hk), fun c hc => Or.inl ?_,
        flushOk_claim horder⟩
      refine mem_lockOrder.mpr (Or.inr ⟨c.2.1, ?_⟩)
      exact mem_append_left _ (mem_map.mpr ⟨c, hc, rfl⟩)
  · intro _ hm
    have hgood : GoodBeyond coll v d [] (tx.view s.db) := by
      have := h.flushes t tx htx hf hm
      rwa [hphase] at this
    by_cases hp : Planned v d (planOf (rebuildOf tx scope rows)
        (dirtyOf tx scope (claimDirtyRows (tx.view s.db) scope cutoff)) order)
    · exact Or.inl hp
    · exact Or.inr (hgood.of_noClaim (flushOk_claim horder hp))

lemma markInv_locked {run : FlushRun} (hphase : tx.phase = .locking run [] plan) :
    MarkInv coll v d (s.setTx t { tx with phase := .working run none plan }) := by
  have hshape := h.txs t tx htx
  have hf : tx.flushed := hshape.flushed_of_ne_idle (by simp [hphase])
  have hplan := hshape.planned
  have hclaims := hshape.claims_seen
  rw [hphase] at hplan hclaims
  refine h.setTx _ rfl rfl rfl (over_setTx htx) (h.fresh_setTx htx) (fun _ _ _ hw => hw) ?_ ?_
  · refine TxShape.mono (s := s) ?_ (over_setTx htx) fun _ hu => hu
    exact hshape.appendFlush [] hf rfl (by simp) (by simp) (by simp) (by simp) hclaims
      ⟨fun k hk => (hplan.1 k hk).resolve_left (by simp),
        fun c hc => (hplan.2.1 c hc).resolve_left (by simp), by simp⟩
  · intro _ hm
    have := h.flushes t tx htx hf hm
    rwa [hphase] at this

lemma markInv_lock {run : FlushRun} {u : VaultId} {rest : List VaultId}
    (hphase : tx.phase = .locking run (u :: rest) plan)
    (hfree : s.locks u = none ∨ s.locks u = some t) :
    MarkInv coll v d ((s.setTx t { tx with phase := .locking run rest plan }).take t u) := by
  have hshape := h.txs t tx htx
  have hf : tx.flushed := hshape.flushed_of_ne_idle (by simp [hphase])
  have hplan := hshape.planned
  have hclaims := hshape.claims_seen
  rw [hphase] at hplan hclaims
  set tx' : Tx := { tx with phase := .locking run rest plan } with htx'
  have hself : ((s.setTx t tx').take t u).locks u = some t := by simp [Sys.take]
  have hkeep : ∀ x, s.locks x = some t → ((s.setTx t tx').take t u).locks x = some t :=
    fun x hx => take_locks_self (s := s.setTx t tx') hx
  have hmove : ∀ x, x ∈ u :: rest ∨ s.locks x = some t →
      x ∈ rest ∨ ((s.setTx t tx').take t u).locks x = some t := by
    rintro x (hx | hx)
    · rcases mem_cons.mp hx with rfl | hx
      · exact Or.inr hself
      · exact Or.inl hx
    · exact Or.inr (hkeep x hx)
  refine h.setTx tx' rfl rfl rfl (over_setTx htx) (h.fresh_setTx htx) ?_ ?_ ?_
  · intro w x hut hx
    exact take_locks_of_ne (s := s.setTx t tx') hfree hut hx
  · have hmono : TxShape v d ((s.setTx t tx').take t u) t tx :=
      hshape.mono (over_setTx htx) hkeep
    refine hmono.appendFlush [] hf rfl (by simp [htx']) (by simp) (by simp) (by simp) ?_
      ⟨fun k hk => hmove _ (hplan.1 k hk), fun c hc => hmove _ (hplan.2.1 c hc), hplan.2.2⟩
    exact fun c hc => (hclaims c hc).imp_left (over_setTx htx _)
  · intro _ hm
    have := h.flushes t tx htx hf hm
    rwa [hphase] at this

end

end

lemma markInv_work (hd : normalize d = d) (hdne : d ≠ []) (h : MarkInv coll v d s)
    (htx : s.txs t = some tx) {run : FlushRun} {cursor : Option Cursor}
    (hphase : tx.phase = .working run cursor plan) :
    MarkInv coll v d (s.setTx t (workTx coll (tx.view s.db) s.clock tx run cursor plan)) := by
  have hshape := h.txs t tx htx
  have hf : tx.flushed := hshape.flushed_of_ne_idle (by simp [hphase])
  refine h.setTx _ rfl rfl rfl (over_setTx htx) (h.fresh_setTx htx) (fun _ _ _ hw => hw) ?_ ?_
  · exact (hshape.work hphase).mono (over_setTx htx) fun _ hu => hu
  · intro _ hm
    rw [markedDirs_workTx] at hm
    have := h.flushes t tx htx hf hm
    rw [hphase] at this
    exact this.work hd hdne

/-- The transactions that are open after one is closed. -/
lemma txs_close {u : TxId} {ux : Tx} (hu : (s.close t).txs u = some ux) :
    u ≠ t ∧ s.txs u = some ux := by
  by_cases hut : u = t
  · simp [Sys.close, hut] at hu
  · exact ⟨hut, by simpa [Sys.close, hut] using hu⟩

lemma over_close {i : TxId} (hi : s.over i) : (s.close t).over i := by
  refine ⟨hi.1, ?_⟩
  by_cases hit : i = t
  · simp [Sys.close, hit]
  · simpa [Sys.close, hit] using hi.2

section

variable (h : MarkInv coll v d s)

include h

lemma MarkInv.fresh_close (u : TxId) (hu : s.nextTx ≤ u) :
    (s.close t).txs u = none := by
  by_cases hut : u = t
  · simp [Sys.close, hut]
  · simpa [Sys.close, hut] using h.fresh u hu

lemma MarkInv.txs_close (u : TxId) (ux : Tx) (hu : (s.close t).txs u = some ux) :
    TxShape v d (s.close t) u ux := by
  obtain ⟨hut, hu⟩ := Frostvault.txs_close hu
  refine (h.txs u ux hu).mono (fun _ => over_close) fun w hw => ?_
  have hne : s.locks w ≠ some t := by
    rw [hw]
    exact fun heq => hut (Option.some.inj heq)
  exact (if_neg hne).trans hw

lemma markInv_commit (htx : s.txs t = some tx) (hidle : tx.phase = .idle)
    (hcov : (v, d) ∈ tx.markedDirs ∨ SameBelow coll v d s.db.catalog (tx.view s.db).catalog)
    (hbeside : ∀ u ux, u ≠ t → s.txs u = some ux → ux.flushed →
      coveredBeside coll v d s tx ux) (requests rebuilds : VaultId → List ℕ) :
    MarkInv coll v d { s.close t with
      db := tx.view s.db
      requests := requests
      rebuilds := rebuilds
      marked := tx.markedDirs ++ s.marked } where
  ids k hk := by
    have hlt : t < s.nextTx := by
      by_contra hge
      rw [h.fresh t (Nat.le_of_not_lt hge)] at htx
      cases htx
    rcases mem_or_inserted hk with hk | ⟨w, hw, hk⟩
    · exact over_close (h.ids k hk)
    · rw [(h.txs t tx htx).id_of_inserts hw hk]
      exact ⟨hlt, by simp [Sys.close]⟩
  fresh := h.fresh_close
  txs u ux hu := (h.txs_close u ux hu).mono (fun _ hi => hi) fun _ hw => hw
  good := good_commit h htx hidle hcov
  flushes u ux hu hf := by
    obtain ⟨hut, hu⟩ := txs_close hu
    exact flushOk_commit h htx hidle hcov (hbeside u ux hut hu hf) hut hu hf

lemma markInv_rollback : MarkInv coll v d (s.close t) where
  ids k hk := over_close (h.ids k hk)
  fresh := h.fresh_close
  txs := h.txs_close
  good := h.good
  flushes u ux hu := h.flushes u ux (txs_close hu).2

end

/-- **Every step that meets its conditions keeps the invariant.** -/
lemma markInv_step {s' : Sys} {a : Act} (hd : normalize d = d) (hdne : d ≠ [])
    (h : MarkInv coll v d s) (hcov : Covered coll v d s a) (hstep : step coll s a = some s') :
    MarkInv coll v d s' := by
  cases step_spec coll hstep with
  | begin_ dirty rebuild => exact markInv_begin h dirty rebuild
  | write t tx f marks htx hidle =>
      refine markInv_write h htx hidle f marks fun hf => ?_
      simpa [Covered, covered, htx, hf] using hcov
  | lockVault t tx w htx hidle hfree =>
      refine h.setTx tx rfl rfl rfl (over_setTx htx) (h.fresh_setTx htx) (fun u x hut hx => ?_)
        ((h.txs t tx htx).mono (over_setTx htx) fun u hu => take_locks_self (s := s.setTx t tx) hu)
        (h.flushes t tx htx)
      exact take_locks_of_ne (s := s.setTx t tx) hfree hut hx
  | request t tx w htx hidle hlock => exact markInv_request h htx hidle w
  | readStatus t tx scope cutoff htx hidle =>
      refine markInv_readStatus h htx hidle scope cutoff _ fun hf => ?_
      simpa [Covered, covered, htx, hf] using hcov
  | claim t tx order scope cutoff rows htx hphase horder => exact markInv_claim h htx hphase horder
  | locked t tx run plan htx hphase => exact markInv_locked h htx hphase
  | lock t tx run w rest plan htx hphase hfree => exact markInv_lock h htx hphase hfree
  | work t tx run cursor plan htx hphase => exact markInv_work hd hdne h htx hphase
  | commit t tx htx hidle =>
      simp only [Covered, covered, htx, Option.all_some, Bool.and_eq_true, Bool.or_eq_true,
        decide_eq_true_eq, all_eq_true, mem_range] at hcov
      refine markInv_commit h htx hidle hcov.1 (fun u ux hut hux hf => ?_) _ _
      have hlt : u < s.nextTx := by
        by_contra hge
        rw [h.fresh u (Nat.le_of_not_lt hge)] at hux
        cases hux
      simpa [hux, hut, hf] using hcov.2 u hlt
  | rollback t tx htx => exact markInv_rollback h

end Steps

/-! ### Runs -/

lemma markInv_start (db : Db) (n : TxId) (hids : ∀ m ∈ db.dirty, m.markId < n) :
    MarkInv coll v d (Sys.start db n) where
  ids k hk := by
    obtain ⟨m, hm, rfl⟩ := mem_map.mp hk
    exact ⟨hids m hm, rfl⟩
  fresh _ _ := rfl
  txs := by simp [Sys.start]
  good := by simp [Sys.start]
  flushes := by simp [Sys.start]

variable (coll v d) in
/-- **No lost mark** for a directory: if a committed writer marked it and its stored row is not
the rollup of the committed catalog, by the refresh or by the full rebuild, a committed mark of it
is left, or its Vault is to be rebuilt. -/
def MarkKept (s : Sys) : Prop :=
  (v, d) ∈ s.marked → (s.db.aggregates v d ≠ rollupSql coll s.db.catalog v d ∨
    s.db.aggregates v d ≠ rebuildVaultDirectoryAggregates coll s.db.catalog v none d) →
    (∃ m ∈ s.db.dirty, m.vaultId = v ∧ m.path = d) ∨
      s.db.status v = some .rebuildRequired

/-- **No lost dirty mark.**  Take any interleaving of writers and flushes, a flush inside the
transaction of a writer among them, from any committed tables, in which everybody who changes what
the row of a directory is computed from marks the directory.  If stripping the name of the
directory does not change it, then its mark is kept at every reached state in which the two
rollups count the same files of the directory. -/
theorem marks_kept (db : Db) (n : TxId) (hids : ∀ m ∈ db.dirty, m.markId < n)
    (hd : normalize d = d) (hdne : d ≠ []) (acts : List Act) (s : Sys)
    (hcov : Along (step coll) (Covered coll v d) (Sys.start db n) acts)
    (hrun : run (step coll) (Sys.start db n) acts = some s)
    (halike : CountedAlike v d s.db.catalog) : MarkKept coll v d s := by
  have hinv : MarkInv coll v d s := run_induction_along
    (fun _ _ _ => markInv_step hd hdne) (markInv_start db n hids) hcov hrun
  have hrollups : rollupSql coll s.db.catalog v d = _ := halike.rollups_eq hd hdne
  intro hm hstale
  rcases hinv.good hm with hup | ⟨i, hmem, -⟩
  · rcases hup with h | h
    · exact absurd h (hstale.elim id fun hne => hrollups ▸ hne)
    · exact absurd h (hstale.elim (fun hne => hrollups ▸ hne) id)
  · obtain ⟨m, hmem, hkey⟩ := mem_map.mp hmem
    obtain ⟨hv, hpath, -⟩ : m.vaultId = v ∧ m.path = d ∧ m.markId = i := by
      simpa [DirtyMark.key] using hkey
    exact Or.inl ⟨m, hmem, hv, hpath⟩

/-- A Vault without files. -/
def emptyDb : Db where
  vaults := [0]
  catalog := Catalog.empty
  dirty := []
  status := fun _ => none
  aggregates := fun _ _ => none

/-- A writer (1) creates a file and marks its directory; a flush (2) claims the mark,
refreshes the directory, in `k` statements, and deletes the mark. -/
def writeThenFlush (p d : Path) (k : ℕ) : List Act :=
  [.begin_ [] [], .write 1 (fun _ => oneFileCatalog p) [(0, d, 0)], .commit 1,
    .begin_ [] [], .readStatus 2 (some 0) 5, .claim 2 [0], .lock 2, .lock 2] ++
    List.replicate k (.work 2) ++ [.commit 2]

/-- The flush of the mark `"a "` refreshes the row of `a`, and the row of `"a "`, which the
file `"a /b"` belongs to, is never written although its mark is gone. -/
theorem mark_lost_of_trailing_space :
    ¬ ∀ (d : Path) (db : Db) (n : TxId) (acts : List Act) (s : Sys),
      (∀ m ∈ db.dirty, m.markId < n) → d ≠ [] →
      Along (step .codePoint) (Covered .codePoint 0 d) (Sys.start db n) acts →
      run (step .codePoint) (Sys.start db n) acts = some s → MarkKept .codePoint 0 d s := by
  intro h
  have hend : (run (step .codePoint) (Sys.start emptyDb 1)
      (writeThenFlush ['a', ' ', '/', 'b'] ['a', ' '] 3)).map (fun s => decide
        (s.marked = [(0, ['a', ' '])] ∧ s.db.dirty = [] ∧ s.db.status 0 = some .ready ∧
          (s.db.aggregates 0 ['a', ' ']).isSome = false ∧
          (rollupSql .codePoint s.db.catalog 0 ['a', ' ']).isSome = true ∧
          (rebuildVaultDirectoryAggregates .codePoint s.db.catalog 0 none
            ['a', ' ']).isSome = true)) = some true := by decide
  obtain ⟨s, hs, heq⟩ := Option.map_eq_some_iff.mp hend
  obtain ⟨hm, hdirty, hst, hagg, hroll, hreb⟩ := of_decide_eq_true heq
  have hkept := h ['a', ' '] emptyDb 1 _ s (by simp [emptyDb]) (by simp) (by decide) hs
    (by simp [hm]) (Or.inl fun e => by simp [e, hroll] at hagg)
  simp [hdirty, hst] at hkept

/-- A writer (1) creates a file, marks its directory, flushes in its own transaction, and deletes
the file again with a new mark.  Beside it another one (2) creates a file elsewhere. -/
def writeAroundFlush : List Act :=
  [.begin_ [] [], .write 1 (fun _ => oneFileCatalog ['a', '/', 'b']) [(0, ['a'], 0)],
    .readStatus 1 (some 0) 5, .claim 1 [0], .lock 1, .lock 1,
    .begin_ [] [], .write 2 (fun _ => oneFileCatalog ['x', '/', 'y']) [(0, ['x'], 9)], .commit 2] ++
    List.replicate 4 (.work 1) ++
    [.write 1 (fun _ => Catalog.empty) [(0, ['a'], 7)], .commit 1]

/-- The row of `a` still has the file, and the mark set after the flush is there. -/
theorem marks_kept_a_b :
    ∃ s, run (step .codePoint) (Sys.start emptyDb 1) writeAroundFlush = some s ∧
      (s.db.aggregates 0 ['a']).isSome = true ∧ (rollupSql .codePoint s.db.catalog 0 ['a']) = none ∧
      MarkKept .codePoint 0 ['a'] s := by
  have hend : (run (step .codePoint) (Sys.start emptyDb 1) writeAroundFlush).map
      (fun s => decide ((s.db.aggregates 0 ['a']).isSome = true ∧
        (rollupSql .codePoint s.db.catalog 0 ['a']).isSome = false ∧
        CountedAlike 0 ['a'] s.db.catalog)) = some true := by decide
  obtain ⟨s, hs, heq⟩ := Option.map_eq_some_iff.mp hend
  obtain ⟨hstored, hrollup, halike⟩ := of_decide_eq_true heq
  exact ⟨s, hs, hstored, by simpa using hrollup,
    marks_kept emptyDb 1 (by simp [emptyDb]) (by decide) (by simp) _ s (by decide) hs halike⟩

end Frostvault
