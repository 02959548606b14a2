import Frostvault.Lib.Runs
import Mathlib.Data.List.Nodup

/-!
Transactions on one table under READ COMMITTED, statement by statement.

A plain `SELECT` reads what is committed and what its own transaction wrote.  An `UPDATE`
finds its rows in the same way and then visits them one after the other: it waits for a row
that another transaction holds, checks its condition again on the row as it is then, and holds
what it wrote to the end of its transaction.  `SELECT .. FOR UPDATE` is an `UPDATE` that writes
what is there.

* `Txn`: a transaction, which goes on with what each statement returns;
* `step`: one statement, or one visit, of one of the open transactions;
* `Txn.Keeps`: what has to hold of the updates of a transaction for every row it writes to be
  related to the row it read;
* `sound_step`: **the rule**: then the rows it holds stay related to the committed ones, whatever
  the others do;
* `changed_of_step`: so the commits are the only steps that change committed rows, and they
  change them within the relation.
-/

namespace ReadCommitted

open List

variable {κ ρ ν ω : Type} {key : ρ → κ}

/-! ### Transactions -/

/-- A transaction over rows `ρ` with keys `κ`, and locks `ν` outside the table.  An update
returns the rows it wrote. -/
inductive Txn (key : ρ → κ) (ν : Type) : Type
  | commit
  | rollback
  | lock (l : ν) (next : Txn key ν)
  | select (p : ρ → Bool) (next : List ρ → Txn key ν)
  | update (p : ρ → Bool) (f : ρ → ρ) (hf : ∀ r, key (f r) = key r)
      (next : List ρ → Txn key ν)

/-- Where an open transaction is: before a statement, or among the rows of an update. -/
inductive Stage (key : ρ → κ) (ν : Type) : Type
  | ready (t : Txn key ν)
  | visiting (todo : List κ) (p : ρ → Bool) (f : ρ → ρ) (hf : ∀ r, key (f r) = key r)
      (seen : List ρ) (next : List ρ → Txn key ν)

/-- An open transaction, with the rows it holds as it will commit them. -/
structure Session (key : ρ → κ) (ν ω : Type) where
  name : ℕ
  writer : ω
  stage : Stage key ν
  held : κ → Option ρ
  locks : List ν

/-- The committed rows and the open transactions. -/
structure World (key : ρ → κ) (ν ω : Type) where
  rows : List ρ
  sessions : List (Session key ν ω)

/-- No transaction is open. -/
def World.idle (rows : List ρ) : World key ν ω := ⟨rows, []⟩

/-- What happens: a transaction begins, goes on or is lost, or a new row is committed. -/
inductive Act (ρ ω : Type)
  | start (name : ℕ) (writer : ω)
  | exec (name : ℕ)
  | fail (name : ℕ)
  | insert (row : ρ)

section Step

variable [DecidableEq κ] [DecidableEq ν]

/-- The version of a committed row that the transaction sees. -/
def Session.sees (s : Session key ν ω) (r : ρ) : ρ := (s.held (key r)).getD r

/-- The rows it holds once it wrote one more. -/
def Session.holding (s : Session key ν ω) (r : ρ) : κ → Option ρ :=
  Function.update s.held (key r) (some r)

namespace World

/-- Another transaction holds the row. -/
def heldByOther (w : World key ν ω) (name : ℕ) (k : κ) : Bool :=
  w.sessions.any fun s => s.name ≠ name && (s.held k).isSome

/-- Another transaction has the lock. -/
def lockedByOther (w : World key ν ω) (name : ℕ) (l : ν) : Bool :=
  w.sessions.any fun s => s.name ≠ name && s.locks.contains l

/-- The open transaction of a name. -/
def session? (w : World key ν ω) (name : ℕ) : Option (Session key ν ω) :=
  w.sessions.find? fun s => s.name = name

/-- A transaction goes on. -/
def put (w : World key ν ω) (s : Session key ν ω) : World key ν ω :=
  { w with sessions := w.sessions.map fun s' => if s'.name = s.name then s else s' }

/-- A transaction ends. -/
def drop (w : World key ν ω) (name : ℕ) : World key ν ω :=
  { w with sessions := w.sessions.filter fun s => s.name ≠ name }

/-- What a transaction sees. -/
def visible (w : World key ν ω) (s : Session key ν ω) : List ρ := w.rows.map s.sees

/-- The next statement, or the next visit, of an open transaction; `none` while it waits. -/
def exec (w : World key ν ω) (s : Session key ν ω) : Option (World key ν ω) :=
  match s.stage with
  | .ready .commit => some { w.drop s.name with rows := w.visible s }
  | .ready .rollback => some (w.drop s.name)
  | .ready (.lock l next) =>
      if w.lockedByOther s.name l then none
      else some (w.put { s with
        locks := l :: s.locks
        stage := .ready next })
  | .ready (.select p next) =>
      some (w.put { s with stage := .ready (next ((w.visible s).filter p)) })
  | .ready (.update p f hf next) =>
      some (w.put { s with
        stage := .visiting (((w.visible s).filter p).map key) p f hf [] next })
  | .visiting [] _ _ _ seen next => some (w.put { s with stage := .ready (next seen) })
  | .visiting (k :: ks) p f hf seen next =>
      if w.heldByOther s.name k then none
      else match (w.visible s).find? fun r => key r = k ∧ p r with
        | none => some (w.put { s with stage := .visiting ks p f hf seen next })
        | some r => some (w.put { s with
            held := s.holding (f r)
            stage := .visiting ks p f hf (seen ++ [f r]) next })

end World

/-- One step of the system, whose writers run the given transactions. -/
def step (program : ω → Txn key ν) (w : World key ν ω) :
    Act ρ ω → Option (World key ν ω)
  | .start name writer =>
      if (w.session? name).isSome then none
      else some { w with
        sessions := ⟨name, writer, .ready (program writer), fun _ => none, []⟩ :: w.sessions }
  | .exec name => (w.session? name).bind w.exec
  | .fail name => some (w.drop name)
  | .insert row =>
      if key row ∈ w.rows.map key then none else some { w with rows := w.rows ++ [row] }

end Step

/-! ### What a transaction keeps -/

section Keeps

variable [DecidableEq κ]

/-- The rows a transaction holds after an update wrote `rs`. -/
def hold (key : ρ → κ) (rs : List ρ) (held : κ → Option ρ) (k : κ) : Option ρ :=
  (rs.find? fun r => key r = k).or (held k)

/-- The row may be what the table has while these are held. -/
def Consistent (key : ρ → κ) (held : κ → Option ρ) (r : ρ) : Prop :=
  ∀ r', held (key r) = some r' → r' = r

/-- The update may write this. -/
def Written (key : ρ → κ) (held : κ → Option ρ) (p : ρ → Bool) (f : ρ → ρ) (r' : ρ) : Prop :=
  ∃ r, p r ∧ Consistent key held r ∧ f r = r'

/-- Every update of the transaction relates what it writes to what it found: whatever its
selects return, and knowing of a row only what the transaction holds. -/
def Txn.Keeps (R : ρ → ρ → Prop) : Txn key ν → (κ → Option ρ) → Prop
  | .commit, _ => True
  | .rollback, _ => True
  | .lock _ next, held => next.Keeps R held
  | .select _ next, held => ∀ rs, (next rs).Keeps R held
  | .update p f _ next, held =>
      (∀ r, p r → Consistent key held r → R r (f r)) ∧
        ∀ rs, (rs.map key).Nodup → (∀ r ∈ rs, Written key held p f r) →
          (next rs).Keeps R (hold key rs held)

/-- The same of a transaction among the rows of an update; `before` is what it held when the
update began. -/
def Stage.Keeps (R : ρ → ρ → Prop) : Stage key ν → (κ → Option ρ) → Prop
  | .ready t, held => t.Keeps R held
  | .visiting todo p f _ seen next, held => ∃ before, held = hold key seen before ∧
      (∀ r, p r → Consistent key before r → R r (f r)) ∧
      (∀ rs, (rs.map key).Nodup → (∀ r ∈ rs, Written key before p f r) →
        (next rs).Keeps R (hold key rs before)) ∧
      (∀ r ∈ seen, Written key before p f r) ∧
      (seen.map key ++ todo).Nodup

variable {rs : List ρ} {held : κ → Option ρ} {k : κ} {r : ρ} {R : ρ → ρ → Prop}

@[simp] lemma hold_nil : hold key [] held = held := rfl

/-- A row that was written is held as it was written. -/
lemma hold_of_mem (hnodup : (rs.map key).Nodup) (h : r ∈ rs) :
    hold key rs held (key r) = some r := by
  cases hf : rs.find? fun s => key s = key r with
  | none => simpa using find?_eq_none.mp hf r h
  | some s =>
      have hkey : key s = key r := by simpa using find?_some hf
      obtain rfl := inj_on_of_nodup_map hnodup (mem_of_find?_eq_some hf) h hkey
      simp [hold, hf]

lemma hold_of_notMem (h : k ∉ rs.map key) : hold key rs held k = held k := by
  have hf : (rs.find? fun r => key r = k) = none := by
    rw [find?_eq_none]
    intro r hr hk
    exact h (mem_map.mpr ⟨r, hr, of_decide_eq_true hk⟩)
  simp [hold, hf]

lemma hold_concat (h : key r ∉ rs.map key) :
    Function.update (hold key rs held) (key r) (some r) = hold key (rs ++ [r]) held := by
  funext k
  by_cases hk : k = key r
  · subst hk
    have hf : (rs.find? fun s => key s = key r) = none := by
      rw [find?_eq_none]
      intro s hs hkey
      exact h (mem_map.mpr ⟨s, hs, of_decide_eq_true hkey⟩)
    simp [hold, find?_append, hf]
  · rw [Function.update_of_ne hk]
    simp [hold, find?_append, Ne.symm hk]

end Keeps

/-! ### What the system keeps -/

section Sound

variable {program : ω → Txn key ν} {R : ω → ρ → ρ → Prop} {w w' : World key ν ω}
  {s : Session key ν ω} {a : Act ρ ω}

lemma World.mem_of_session? {name : ℕ} (h : w.session? name = some s) :
    s ∈ w.sessions ∧ s.name = name :=
  ⟨mem_of_find?_eq_some h, by simpa using find?_some h⟩

variable {t : Session key ν ω}

lemma World.mem_sessions_put :
    t ∈ (w.put s).sessions → t = s ∨ (t ∈ w.sessions ∧ t.name ≠ s.name) := by
  intro ht
  obtain ⟨t', ht', h⟩ := mem_map.mp ht
  by_cases hname : t'.name = s.name
  · rw [if_pos hname] at h
    exact .inl h.symm
  · rw [if_neg hname] at h
    exact .inr (h ▸ ⟨ht', hname⟩)

lemma World.mem_sessions_drop {name : ℕ} :
    t ∈ (w.drop name).sessions ↔ t ∈ w.sessions ∧ t.name ≠ name := by
  simp [World.drop]

variable [DecidableEq κ]

/-- Rows are held by one transaction at a time, and what a transaction holds is related to
what is committed. -/
structure World.Sound (R : ω → ρ → ρ → Prop) (w : World key ν ω) : Prop where
  keys_nodup : (w.rows.map key).Nodup
  held_key : ∀ s ∈ w.sessions, ∀ k r, s.held k = some r → key r = k
  held_related : ∀ s ∈ w.sessions, ∀ k r, s.held k = some r →
    ∃ r₀ ∈ w.rows, key r₀ = k ∧ R s.writer r₀ r
  disjoint : ∀ s ∈ w.sessions, ∀ s' ∈ w.sessions, s.name ≠ s'.name → ∀ k,
    (s.held k).isSome → s'.held k = none
  stages : ∀ s ∈ w.sessions, s.stage.Keeps (R s.writer) s.held

lemma World.sound_idle {rows : List ρ} (h : (rows.map key).Nodup) :
    (World.idle rows : World key ν ω).Sound R where
  keys_nodup := h
  held_key := nofun
  held_related := nofun
  disjoint := nofun
  stages := nofun

section

variable (hw : w.Sound R)

include hw

lemma World.Sound.eq_of_key_eq {r r' : ρ} (hr : r ∈ w.rows) (hr' : r' ∈ w.rows)
    (h : key r = key r') : r = r' :=
  inj_on_of_nodup_map hw.keys_nodup hr hr' h

lemma World.Sound.key_sees (hs : s ∈ w.sessions) (r : ρ) :
    key (s.sees r) = key r := by
  unfold Session.sees
  cases h : s.held (key r) with
  | none => rfl
  | some r' => exact hw.held_key s hs _ _ h

lemma World.Sound.map_key_visible (hs : s ∈ w.sessions) :
    (w.visible s).map key = w.rows.map key := by
  rw [World.visible, map_map]
  exact map_congr_left fun r _ => hw.key_sees hs r

/-- A transaction that goes on keeps the system sound when its own part stays sound. -/
lemma World.Sound.put (hkey : ∀ k r, s.held k = some r → key r = k)
    (hrel : ∀ k r, s.held k = some r → ∃ r₀ ∈ w.rows, key r₀ = k ∧ R s.writer r₀ r)
    (hdis : ∀ t ∈ w.sessions, t.name ≠ s.name → ∀ k, (s.held k).isSome → t.held k = none)
    (hstage : s.stage.Keeps (R s.writer) s.held) : (w.put s).Sound R where
  keys_nodup := hw.keys_nodup
  held_key t ht k r h := by
    rcases mem_sessions_put ht with rfl | ⟨ht', -⟩
    · exact hkey k r h
    · exact hw.held_key t ht' k r h
  held_related t ht k r h := by
    rcases mem_sessions_put ht with rfl | ⟨ht', -⟩
    · exact hrel k r h
    · exact hw.held_related t ht' k r h
  disjoint t ht u hu hne k h := by
    rcases mem_sessions_put ht with rfl | ⟨ht', hts⟩
    · rcases mem_sessions_put hu with rfl | ⟨hu', hus⟩
      · exact absurd rfl hne
      · exact hdis u hu' hus k h
    · rcases mem_sessions_put hu with rfl | ⟨hu', -⟩
      · cases hk : u.held k with
        | none => rfl
        | some r =>
            have hnone := hdis t ht' hts k (by rw [hk]; rfl)
            rw [hnone] at h
            cases h
      · exact hw.disjoint t ht' u hu' hne k h
  stages t ht := by
    rcases mem_sessions_put ht with rfl | ⟨ht', -⟩
    · exact hstage
    · exact hw.stages t ht'

/-- A transaction that goes on without writing keeps the system sound when what is left of it
keeps its relation. -/
lemma World.Sound.put_same (hs : s ∈ w.sessions) (hname : t.name = s.name)
    (hwriter : t.writer = s.writer) (hheld : t.held = s.held)
    (hstage : t.stage.Keeps (R s.writer) s.held) : (w.put t).Sound R := by
  refine hw.put ?_ ?_ ?_ ?_
  · rw [hheld]
    exact hw.held_key s hs
  · rw [hheld, hwriter]
    exact hw.held_related s hs
  · intro u hu hne k hk
    rw [hheld] at hk
    exact hw.disjoint s hs u hu (fun h => hne (h.symm.trans hname.symm)) k hk
  · rw [hheld, hwriter]
    exact hstage

/-- A transaction that is lost leaves the others as they are. -/
lemma World.Sound.drop (name : ℕ) : (w.drop name).Sound R where
  keys_nodup := hw.keys_nodup
  held_key t ht := hw.held_key t (mem_sessions_drop.mp ht).1
  held_related t ht := hw.held_related t (mem_sessions_drop.mp ht).1
  disjoint t ht u hu :=
    hw.disjoint t (mem_sessions_drop.mp ht).1 u (mem_sessions_drop.mp hu).1
  stages t ht := hw.stages t (mem_sessions_drop.mp ht).1

/-- A commit writes rows that nobody else holds. -/
lemma World.Sound.commit (hs : s ∈ w.sessions) :
    ({ w.drop s.name with rows := w.visible s } : World key ν ω).Sound R where
  keys_nodup := by
    rw [hw.map_key_visible hs]
    exact hw.keys_nodup
  held_key t ht := hw.held_key t (mem_sessions_drop.mp ht).1
  held_related t ht k r h := by
    obtain ⟨ht, hne⟩ := mem_sessions_drop.mp ht
    obtain ⟨r₀, hr₀, hk, hR⟩ := hw.held_related t ht k r h
    have hnone : s.held (key r₀) = none := by
      rw [hk]
      exact hw.disjoint t ht s hs hne k (by rw [h]; rfl)
    refine ⟨r₀, mem_map.mpr ⟨r₀, hr₀, ?_⟩, hk, hR⟩
    rw [Session.sees, hnone, Option.getD_none]
  disjoint t ht u hu :=
    hw.disjoint t (mem_sessions_drop.mp ht).1 u (mem_sessions_drop.mp hu).1
  stages t ht := hw.stages t (mem_sessions_drop.mp ht).1

/-- One visit of an update keeps the system sound: the row is nobody else's, so what it is now
is related to what is committed. -/
lemma World.Sound.visit (hs : s ∈ w.sessions) [hR : IsTrans ρ (R s.writer)] {k : κ} {ks : List κ}
    {p : ρ → Bool} {f : ρ → ρ} {hf : ∀ r, key (f r) = key r} {seen : List ρ}
    {next : List ρ → Txn key ν} {r : ρ} (hstage : s.stage = .visiting (k :: ks) p f hf seen next)
    (hfree : w.heldByOther s.name k = false)
    (hr : (w.visible s).find? (fun r => key r = k ∧ p r) = some r) :
    (w.put { s with
      held := s.holding (f r)
      stage := .visiting ks p f hf (seen ++ [f r]) next }).Sound R := by
  have hkeeps := hw.stages s hs
  rw [hstage] at hkeeps
  obtain ⟨before, hheld, hallow, hnext, hseen, hnodup⟩ := hkeeps
  have hk : k ∉ seen.map key := fun hk =>
    disjoint_of_nodup_append hnodup hk mem_cons_self
  obtain ⟨hkey, hp⟩ : key r = k ∧ p r := by simpa using find?_some hr
  obtain ⟨r₀, hr₀, hsees⟩ := mem_map.mp (mem_of_find?_eq_some hr)
  have hkey₀ : key r₀ = k := by rw [← hw.key_sees hs r₀, hsees, hkey]
  have hkeyf : key (f r) = k := by rw [hf, hkey]
  -- the row was not visited by this update, so what was held of it before is what is held now
  have hbefore : before k = s.held k := by rw [hheld, hold_of_notMem hk]
  have hcons : Consistent key before r := by
    intro r' hr'
    rw [hkey, hbefore, ← hkey₀] at hr'
    rw [← hsees, Session.sees, hr', Option.getD_some]
  have hlast : R s.writer r (f r) := hallow r hp hcons
  have hrel : R s.writer r₀ (f r) := by
    cases hh : s.held (key r₀) with
    | none =>
        rw [Session.sees, hh, Option.getD_none] at hsees
        rwa [hsees]
    | some r₁ =>
        rw [Session.sees, hh, Option.getD_some] at hsees
        obtain ⟨r₂, hr₂, hk₂, h₂⟩ := hw.held_related s hs _ _ hh
        obtain rfl := hw.eq_of_key_eq hr₂ hr₀ hk₂
        exact hR.trans _ _ _ h₂ (hsees ▸ hlast)
  have hself {r' : ρ} (h : s.holding (f r) k = some r') : f r = r' := by
    rw [Session.holding, hkeyf, Function.update_self] at h
    exact Option.some.inj h
  have hother {j : κ} (hj : j ≠ k) : s.holding (f r) j = s.held j := by
    rw [Session.holding, hkeyf, Function.update_of_ne hj]
  refine hw.put ?_ ?_ ?_ ?_
  · intro j r' hr'
    by_cases hj : j = k
    · subst hj
      rw [← hself hr', hkeyf]
    · exact hw.held_key s hs j r' (hother hj ▸ hr')
  · intro j r' hr'
    by_cases hj : j = k
    · subst hj
      exact ⟨r₀, hr₀, hkey₀, hself hr' ▸ hrel⟩
    · exact hw.held_related s hs j r' (hother hj ▸ hr')
  · intro t ht hne j hj
    by_cases hjk : j = k
    · subst hjk
      have hfree := any_eq_false.mp hfree t ht
      simpa [hne] using hfree
    · exact hw.disjoint s hs t ht (fun h => hne h.symm) j (hother hjk ▸ hj)
  · refine ⟨before, ?_, hallow, hnext, ?_, ?_⟩
    · change s.holding (f r) = _
      rw [Session.holding, hheld, hold_concat (hkeyf ▸ hk)]
    · intro r' hr'
      rcases mem_append.mp hr' with hr' | hr'
      · exact hseen r' hr'
      · exact mem_singleton.mp hr' ▸ ⟨r, hp, hcons, rfl⟩
    · rw [map_append, map_singleton, hkeyf, append_assoc]
      exact hnodup

end

variable [DecidableEq ν]

/-- What the next statement of a transaction does: it commits, it is rolled back, it goes on
without writing, or it visits a row. -/
lemma World.exec_cases (h : w.exec s = some w') (hnodup : ((w.visible s).map key).Nodup) :
    (s.stage = .ready .commit ∧ w' = { w.drop s.name with rows := w.visible s }) ∨
    w' = w.drop s.name ∨
    (∃ t, w' = w.put t ∧ t.name = s.name ∧ t.writer = s.writer ∧ t.held = s.held ∧
      ∀ R, s.stage.Keeps R s.held → t.stage.Keeps R s.held) ∨
    ∃ (k : κ) (ks : List κ) (p : ρ → Bool) (f : ρ → ρ) (hf : ∀ r, key (f r) = key r)
      (seen : List ρ) (next : List ρ → Txn key ν) (r : ρ),
      s.stage = .visiting (k :: ks) p f hf seen next ∧ w.heldByOther s.name k = false ∧
      (w.visible s).find? (fun r => key r = k ∧ p r) = some r ∧
      w' = w.put { s with
        held := s.holding (f r)
        stage := .visiting ks p f hf (seen ++ [f r]) next } := by
  unfold exec at h
  split at h
  next hstage => exact .inl ⟨hstage, (Option.some.inj h).symm⟩
  next => exact .inr (.inl (Option.some.inj h).symm)
  next l next hstage =>
    split at h
    · cases h
    · refine .inr (.inr (.inl ⟨_, (Option.some.inj h).symm, rfl, rfl, rfl, fun R hR => ?_⟩))
      rw [hstage] at hR
      exact hR
  next p next hstage =>
    refine .inr (.inr (.inl ⟨_, (Option.some.inj h).symm, rfl, rfl, rfl, fun R hR => ?_⟩))
    rw [hstage] at hR
    exact hR _
  next p f hf next hstage =>
    refine .inr (.inr (.inl ⟨_, (Option.some.inj h).symm, rfl, rfl, rfl, fun R hR => ?_⟩))
    rw [hstage] at hR
    exact ⟨s.held, hold_nil.symm, hR.1, hR.2, nofun,
      List.Nodup.sublist (filter_sublist.map key) hnodup⟩
  next p f hf seen next hstage =>
    refine .inr (.inr (.inl ⟨_, (Option.some.inj h).symm, rfl, rfl, rfl, fun R hR => ?_⟩))
    rw [hstage] at hR
    obtain ⟨before, hheld, -, hnext, hseen, hseen'⟩ := hR
    rw [hheld]
    exact hnext seen (append_nil (seen.map key) ▸ hseen') hseen
  next k ks p f hf seen next hstage =>
    split at h
    · cases h
    · rename_i hfree
      split at h
      · refine .inr (.inr (.inl ⟨_, (Option.some.inj h).symm, rfl, rfl, rfl, fun R hR => ?_⟩))
        rw [hstage] at hR
        obtain ⟨before, hheld, hallow, hnext, hseen, hks⟩ := hR
        exact ⟨before, hheld, hallow, hnext, hseen,
          hks.sublist (List.Sublist.append_left (sublist_cons_self k ks) _)⟩
      · rename_i r hr
        exact .inr (.inr (.inr ⟨k, ks, p, f, hf, seen, next, r, hstage, by simpa using hfree, hr,
          (Option.some.inj h).symm⟩))

/-- The next statement of a transaction keeps the system sound. -/
lemma World.Sound.exec (hw : w.Sound R) (hs : s ∈ w.sessions) [IsTrans ρ (R s.writer)]
    (h : w.exec s = some w') : w'.Sound R := by
  have hnodup : ((w.visible s).map key).Nodup := hw.map_key_visible hs ▸ hw.keys_nodup
  rcases exec_cases h hnodup with
    ⟨-, rfl⟩ | rfl | ⟨t, rfl, hname, hwriter, hheld, hstage⟩ |
      ⟨k, ks, p, f, hf, seen, next, r, hstage, hfree, hr, rfl⟩
  · exact hw.commit hs
  · exact hw.drop s.name
  · exact hw.put_same hs hname hwriter hheld (hstage _ (hw.stages s hs))
  · exact hw.visit hs hstage hfree hr

/-- **The rule.**  When every writer keeps its relation, which composes, what the open
transactions hold stays related to what is committed. -/
theorem sound_step [hR : ∀ x, IsTrans ρ (R x)]
    (hkeeps : ∀ x, (program x).Keeps (R x) fun _ => none) (hw : w.Sound R)
    (h : step program w a = some w') : w'.Sound R := by
  cases a with
  | start name writer =>
      simp only [step] at h
      split at h
      · cases h
      · cases h
        refine ⟨hw.keys_nodup, ?_, ?_, ?_, ?_⟩
        · intro t ht k r hr
          rcases mem_cons.mp ht with rfl | ht
          · cases hr
          · exact hw.held_key t ht k r hr
        · intro t ht k r hr
          rcases mem_cons.mp ht with rfl | ht
          · cases hr
          · exact hw.held_related t ht k r hr
        · intro t ht u hu hne k hk
          rcases mem_cons.mp ht with rfl | ht
          · cases hk
          · rcases mem_cons.mp hu with rfl | hu
            · rfl
            · exact hw.disjoint t ht u hu hne k hk
        · intro t ht
          rcases mem_cons.mp ht with rfl | ht
          · exact hkeeps writer
          · exact hw.stages t ht
  | exec name =>
      obtain ⟨s, hs, h⟩ := Option.bind_eq_some_iff.mp h
      exact hw.exec (World.mem_of_session? hs).1 h
  | fail name =>
      cases h
      exact hw.drop name
  | insert row =>
      simp only [step] at h
      split at h
      · cases h
      · rename_i hrow
        cases h
        refine ⟨?_, hw.held_key, ?_, hw.disjoint, hw.stages⟩
        · rw [map_append]
          refine List.Nodup.append hw.keys_nodup (nodup_singleton _) ?_
          intro k hk hk'
          rw [mem_singleton.mp hk'] at hk
          exact hrow hk
        · intro t ht k r hr
          obtain ⟨r₀, hr₀, h₀⟩ := hw.held_related t ht k r hr
          exact ⟨r₀, mem_append_left _ hr₀, h₀⟩

/-- The step is the commit of the transaction. -/
structure Commits (w : World key ν ω) (a : Act ρ ω) (s : Session key ν ω) : Prop where
  act : a = .exec s.name
  session : w.session? s.name = some s
  stage : s.stage = .ready .commit

/-- A commit publishes what its transaction sees. -/
lemma Commits.rows_eq (hc : Commits w a s) (h : step program w a = some w') :
    w'.rows = w.visible s := by
  obtain ⟨rfl, hs, hstage⟩ := hc
  obtain ⟨s', hs', hexec⟩ := Option.bind_eq_some_iff.mp h
  cases hs.symm.trans hs'
  unfold World.exec at hexec
  rw [hstage] at hexec
  exact (congrArg World.rows (Option.some.inj hexec)).symm

/-- **Only commits change rows.**  What a step leaves of the committed rows is as it was, or as
the transaction that committed held it. -/
theorem changed_of_step (hw : w.Sound R) (h : step program w a = some w') {r : ρ}
    (hr : r ∈ w.rows) : r ∈ w'.rows ∨
      ∃ s r', Commits w a s ∧ s.held (key r) = some r' ∧ r' ∈ w'.rows ∧ key r' = key r ∧
        R s.writer r r' := by
  cases a with
  | start name writer =>
      simp only [step] at h
      split at h
      · cases h
      · cases h
        exact .inl hr
  | fail name =>
      cases h
      exact .inl hr
  | insert row =>
      simp only [step] at h
      split at h
      · cases h
      · cases h
        exact .inl (mem_append_left _ hr)
  | exec name =>
      obtain ⟨s, hs, hexec⟩ := Option.bind_eq_some_iff.mp h
      obtain ⟨hmem, rfl⟩ := World.mem_of_session? hs
      have hnodup : ((w.visible s).map key).Nodup := hw.map_key_visible hmem ▸ hw.keys_nodup
      rcases World.exec_cases hexec hnodup with
        ⟨hstage, rfl⟩ | rfl | ⟨t, rfl, -⟩ | ⟨_, _, _, _, _, _, _, _, -, -, -, rfl⟩
      · have hsees : s.sees r ∈ w.visible s := mem_map_of_mem hr
        cases hheld : s.held (key r) with
        | none =>
            rw [Session.sees, hheld, Option.getD_none] at hsees
            exact .inl hsees
        | some r' =>
            rw [Session.sees, hheld, Option.getD_some] at hsees
            obtain ⟨r₀, hr₀, hk₀, hrel⟩ := hw.held_related s hmem _ _ hheld
            obtain rfl := hw.eq_of_key_eq hr₀ hr hk₀
            exact .inr ⟨s, r', ⟨rfl, hs, hstage⟩, hheld, hsees,
              hw.held_key s hmem _ _ hheld, hrel⟩
      · exact .inl hr
      · exact .inl hr
      · exact .inl hr

end Sound

end ReadCommitted
