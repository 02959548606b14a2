import Frostvault.Lib.Runs

/-!
Transactions behind row locks under READ COMMITTED, over a whole database.

A statement reads what is committed with the writes of its own transaction on top; a commit puts
these writes on what is committed then.  Another transaction can commit between any two
statements.  What a lock gives is a promise about those commits: `R l s s'` relates the state
before and after whatever commits while somebody else holds the lock `l`.

* `Txn`, `step`: the statements, and one step of the open transactions; the log has every effect
  with the state that was committed when it happened;
* `Txn.Safe`: whatever commits in between, the effects of a transaction happen in good states, and
  it commits nothing against the promise of a lock it does not hold;
* `safe_run`: **the rule**: then in every run of such transactions every effect of the log
  happened in a good state;
* `log_run`: what a run adds to the log happened in states committed during the run;
* `Txn.alone`: a transaction while nothing else runs.
-/

namespace LockFence

open List

variable {σ ν ε ω : Type}

/-! ### Transactions -/

/-- A transaction over a database `σ` with locks `ν`.  A write may carry an effect `ε`, which
happens again when it is committed; a call is an effect outside the database. -/
inductive Txn (σ ν ε : Type) : Type
  | commit
  | rollback
  | lock (l : ν) (next : Txn σ ν ε)
  | select (next : σ → Txn σ ν ε)
  | write (e : Option ε) (f : σ → σ) (next : Txn σ ν ε)
  | call (e : ε) (next : Txn σ ν ε)

/-- A statement that must find something, or the transaction raises. -/
def Txn.selectSome {α : Type} (read : σ → Option α) (next : α → Txn σ ν ε) : Txn σ ν ε :=
  .select fun s => match read s with
    | some a => next a
    | none => .rollback

/-- A condition without which the transaction raises. -/
def Txn.check (p : Prop) [Decidable p] (next : Txn σ ν ε) : Txn σ ν ε :=
  if p then next else .rollback

/-- An open transaction: what is left of it, the locks it holds, and what it wrote. -/
structure Session (σ ν ε : Type) where
  name : ℕ
  rest : Txn σ ν ε
  locks : List ν
  writes : List (σ → σ)
  effects : List ε

/-- The committed state, the open transactions, and the effects so far. -/
structure World (σ ν ε : Type) where
  committed : σ
  sessions : List (Session σ ν ε)
  log : List (ε × σ)

/-- No transaction is open. -/
def World.idle (s : σ) : World σ ν ε := ⟨s, [], []⟩

/-- What happens: a transaction begins, goes on or is lost. -/
inductive Act (ω : Type)
  | start (name : ℕ) (program : ω)
  | exec (name : ℕ)
  | fail (name : ℕ)

/-- Writes on top of a state. -/
def applied (writes : List (σ → σ)) (s : σ) : σ := writes.foldl (fun s f => f s) s

@[simp] lemma applied_nil (s : σ) : applied [] s = s := rfl

section Step

variable [DecidableEq ν]

namespace World

/-- Another transaction has the lock. -/
def lockedByOther (w : World σ ν ε) (name : ℕ) (l : ν) : Bool :=
  w.sessions.any fun s => s.name ≠ name && s.locks.contains l

/-- The open transaction of a name. -/
def session? (w : World σ ν ε) (name : ℕ) : Option (Session σ ν ε) :=
  w.sessions.find? fun s => s.name = name

/-- A transaction goes on. -/
def put (w : World σ ν ε) (s : Session σ ν ε) : World σ ν ε :=
  { w with sessions := w.sessions.map fun s' => if s'.name = s.name then s else s' }

/-- A transaction ends. -/
def drop (w : World σ ν ε) (name : ℕ) : World σ ν ε :=
  { w with sessions := w.sessions.filter fun s => s.name ≠ name }

/-- Effects happen. -/
def record (w : World σ ν ε) (es : List ε) : World σ ν ε :=
  { w with log := w.log ++ es.map fun e => (e, w.committed) }

/-- The next statement of an open transaction; `none` while it waits for a lock. -/
def exec (w : World σ ν ε) (s : Session σ ν ε) : Option (World σ ν ε) :=
  match s.rest with
  | .commit => some
      { (w.record s.effects).drop s.name with committed := applied s.writes w.committed }
  | .rollback => some (w.drop s.name)
  | .lock l next =>
      if w.lockedByOther s.name l then none
      else some (w.put { s with
        rest := next
        locks := l :: s.locks })
  | .select next => some (w.put { s with rest := next (applied s.writes w.committed) })
  | .write e f next => some ((w.record e.toList).put { s with
      rest := next
      writes := s.writes ++ [f]
      effects := s.effects ++ e.toList })
  | .call e next => some ((w.record [e]).put { s with rest := next })

end World

/-- One step of the system, whose transactions run the given programs. -/
def step (program : ω → Txn σ ν ε) (w : World σ ν ε) : Act ω → Option (World σ ν ε)
  | .start name p =>
      if (w.session? name).isSome then none
      else some { w with sessions := ⟨name, program p, [], [], []⟩ :: w.sessions }
  | .exec name => (w.session? name).bind w.exec
  | .fail name => some (w.drop name)

end Step

/-! ### What a transaction promises and relies on -/

/-- What can be committed while the locks are held. -/
def Rely (R : ν → σ → σ → Prop) (ls : List ν) (s s' : σ) : Prop := ∀ l ∈ ls, R l s s'

/-- Every effect of the transaction happens where `Q` holds: at its statement and, for a write,
at the commit; and the commit keeps the promises of the locks that are not its own.  Others may
commit before each statement. -/
def Txn.Safe (R : ν → σ → σ → Prop) (Q : ε → σ → Prop) :
    Txn σ ν ε → List ν → List (σ → σ) → List ε → σ → Prop
  | .commit, ls, fs, es, s => ∀ s', Rely R ls s s' →
      (∀ e ∈ es, Q e s') ∧ ∀ l, l ∉ ls → R l s' (applied fs s')
  | .rollback, _, _, _, _ => True
  | .lock l next, ls, fs, es, s => ∀ s', Rely R ls s s' → next.Safe R Q (l :: ls) fs es s'
  | .select next, ls, fs, es, s =>
      ∀ s', Rely R ls s s' → (next (applied fs s')).Safe R Q ls fs es s'
  | .write e f next, ls, fs, es, s => ∀ s', Rely R ls s s' →
      (∀ x ∈ e.toList, Q x s') ∧ next.Safe R Q ls (fs ++ [f]) (es ++ e.toList) s'
  | .call e next, ls, fs, es, s =>
      ∀ s', Rely R ls s s' → Q e s' ∧ next.Safe R Q ls fs es s'

/-- Every write of the transaction meets `P`, and every effect meets `E`. -/
def Txn.All (P : (σ → σ) → Prop) (E : ε → Prop) : Txn σ ν ε → Prop
  | .commit => True
  | .rollback => True
  | .lock _ next => next.All P E
  | .select next => ∀ s, (next s).All P E
  | .write e f next => P f ∧ (∀ x ∈ e.toList, E x) ∧ next.All P E
  | .call e next => E e ∧ next.All P E

variable {R : ν → σ → σ → Prop} {Q : ε → σ → Prop} {P : (σ → σ) → Prop} {E : ε → Prop}
  {t : Txn σ ν ε} {ls : List ν} {fs : List (σ → σ)} {es : List ε} {s s' : σ}

variable {f : σ → σ} {next : σ → Txn σ ν ε}

lemma Txn.All.select (h : ∀ s, (next s).All P E) :
    (Txn.select next).All P E := h

lemma Txn.All.write (hf : P f) (h : t.All P E) : (Txn.write none f t).All P E :=
  ⟨hf, nofun, h⟩

lemma Txn.All.writeWith {e : ε} (hf : P f) (he : E e) (h : t.All P E) :
    (Txn.write (some e) f t).All P E :=
  ⟨hf, fun x hx => by rw [mem_singleton.mp hx]; exact he, h⟩

lemma Txn.All.selectSome {α : Type} {read : σ → Option α} {next : α → Txn σ ν ε}
    (h : ∀ a, (next a).All P E) : (Txn.selectSome read next).All P E := by
  intro s
  dsimp only
  split
  · exact h _
  · trivial

lemma Txn.All.check {p : Prop} [Decidable p] (h : t.All P E) : (Txn.check p t).All P E := by
  unfold Txn.check
  split
  · exact h
  · trivial

lemma Txn.All.mono {P' : (σ → σ) → Prop} (hP : ∀ f, P f → P' f) (h : t.All P E) :
    t.All P' E := by
  induction t with
  | commit => trivial
  | rollback => trivial
  | lock l next ih => exact ih h
  | select next ih => exact fun s => ih s (h s)
  | write e f next ih => exact ⟨hP f h.1, h.2.1, ih h.2.2⟩
  | call e next ih => exact ⟨h.1, ih h.2⟩

/-- What a transaction commits keeps the promises of the locks of the others. -/
lemma rely_applied (hrefl : ∀ l s, R l s s) (htrans : ∀ l a b c, R l a b → R l b c → R l a c)
    {l : ν} (h : ∀ f ∈ fs, ∀ s, R l s (f s)) (s : σ) : R l s (applied fs s) := by
  induction fs generalizing s with
  | nil => exact hrefl l s
  | cons f fs ih =>
      exact htrans l s (f s) _ (h f mem_cons_self s)
        (ih (fun g hg => h g (mem_cons_of_mem _ hg)) (f s))

/-- **Under a lock** a transaction may write what only that lock promises, and what holds of the
state and is kept while the lock is held makes every effect safe. -/
lemma Txn.All.safe {l : ν} {K : σ → Prop} (hrefl : ∀ l s, R l s s)
    (htrans : ∀ l a b c, R l a b → R l b c → R l a c) (hK : ∀ s s', K s → R l s s' → K s')
    (hE : ∀ e, E e → ∀ s, K s → Q e s) (h : t.All (fun f => ∀ l', l' ≠ l → ∀ s, R l' s (f s)) E)
    (hl : l ∈ ls) (hfs : ∀ f ∈ fs, ∀ l', l' ≠ l → ∀ s, R l' s (f s)) (hes : ∀ e ∈ es, E e)
    (hs : K s) : t.Safe R Q ls fs es s := by
  induction t generalizing ls fs es s with
  | commit =>
      refine fun s' hrely => ⟨fun e he => hE e (hes e he) s' (hK s s' hs (hrely l hl)), ?_⟩
      intro l' hl'
      have hne : l' ≠ l := fun heq => hl' (heq ▸ hl)
      exact rely_applied hrefl htrans (fun f hf => hfs f hf l' hne) s'
  | rollback => trivial
  | lock l' next ih =>
      exact fun s' hrely => ih h (mem_cons_of_mem _ hl) hfs hes (hK s s' hs (hrely l hl))
  | select next ih => exact fun s' hrely => ih _ (h _) hl hfs hes (hK s s' hs (hrely l hl))
  | write e f next ih =>
      intro s' hrely
      have hs' := hK s s' hs (hrely l hl)
      refine ⟨fun x hx => hE x (h.2.1 x hx) s' hs', ih h.2.2 hl (fun g hg => ?_)
        (fun x hx => ?_) hs'⟩
      · rcases mem_append.mp hg with hg | hg
        · exact hfs g hg
        · rw [mem_singleton.mp hg]
          exact h.1
      · rcases mem_append.mp hx with hx | hx
        · exact hes x hx
        · exact h.2.1 x hx
  | call e next ih =>
      intro s' hrely
      have hs' := hK s s' hs (hrely l hl)
      exact ⟨hE e h.1 s' hs', ih h.2 hl hfs hes hs'⟩

/-- A transaction that starts with the lock and has no effects. -/
lemma Txn.All.safe_of_silent {l : ν} (hrefl : ∀ l s, R l s s)
    (htrans : ∀ l a b c, R l a b → R l b c → R l a c)
    (h : t.All (fun f => ∀ l', l' ≠ l → ∀ s, R l' s (f s)) fun _ => False) :
    (Txn.lock l t).Safe R Q [] [] [] s :=
  fun s' _ => Txn.All.safe (K := fun _ => True) hrefl htrans (fun _ _ _ _ => trivial)
    (fun _ he => he.elim) h mem_cons_self (fun _ hf => nomatch hf) (fun _ he => nomatch he)
    (s := s') trivial

/-- Safety for more states of an effect. -/
lemma Txn.Safe.mono {Q' : ε → σ → Prop} (hQ : ∀ e s, Q e s → Q' e s) (h : t.Safe R Q ls fs es s) :
    t.Safe R Q' ls fs es s := by
  induction t generalizing ls fs es s with
  | commit => exact fun s' hrely => ⟨fun e he => hQ e s' ((h s' hrely).1 e he), (h s' hrely).2⟩
  | rollback => trivial
  | lock l next ih => exact fun s' hrely => ih (h s' hrely)
  | select next ih => exact fun s' hrely => ih _ (h s' hrely)
  | write e f next ih =>
      exact fun s' hrely => ⟨fun x hx => hQ x s' ((h s' hrely).1 x hx), ih (h s' hrely).2⟩
  | call e next ih => exact fun s' hrely => ⟨hQ e s' (h s' hrely).1, ih (h s' hrely).2⟩

lemma Txn.Safe.lock {l : ν} (h : ∀ s', Rely R ls s s' → t.Safe R Q (l :: ls) fs es s') :
    (Txn.lock l t).Safe R Q ls fs es s := h

lemma Txn.Safe.select (h : ∀ s', Rely R ls s s' → (next (applied fs s')).Safe R Q ls fs es s') :
    (Txn.select next).Safe R Q ls fs es s := h

/-- A condition is known from then on. -/
lemma Txn.Safe.check {p : Prop} [Decidable p] (h : p → t.Safe R Q ls fs es s) :
    (Txn.check p t).Safe R Q ls fs es s := by
  unfold Txn.check
  split
  · exact h ‹p›
  · trivial

/-- What was found is known of the state it was read in. -/
lemma Txn.Safe.selectSome {α : Type} {read : σ → Option α} {next : α → Txn σ ν ε}
    (h : ∀ s' a, Rely R ls s s' → read (applied fs s') = some a →
      (next a).Safe R Q ls fs es s') : (Txn.selectSome read next).Safe R Q ls fs es s := by
  intro s' hrely
  cases hread : read (applied fs s') with
  | none => simp only [hread, Safe]
  | some a =>
      simp only [hread]
      exact h s' a hrely hread

/-- One write, committed at once: what it does is asked of the state it is committed on. -/
lemma Txn.Safe.writeCommit (htrans : ∀ l a b c, R l a b → R l b c → R l a c)
    (h : ∀ s', Rely R ls s s' → ∀ l, l ∉ ls → R l s' (f s')) :
    (Txn.write none f .commit).Safe R Q ls [] [] s := by
  refine fun s₁ h₁ => ⟨fun _ hx => (nomatch hx), fun s₂ h₂ => ⟨fun _ he => (nomatch he), ?_⟩⟩
  exact h s₂ fun l hl => htrans l s s₁ s₂ (h₁ l hl) (h₂ l hl)

/-- Safety survives the commits of others. -/
lemma Txn.Safe.rely (htrans : ∀ l a b c, R l a b → R l b c → R l a c) (h : t.Safe R Q ls fs es s)
    (hrely : Rely R ls s s') : t.Safe R Q ls fs es s' := by
  have hstep : ∀ s'', Rely R ls s' s'' → Rely R ls s s'' :=
    fun s'' h'' l hl => htrans l s s' s'' (hrely l hl) (h'' l hl)
  cases t with
  | commit => exact fun s'' h'' => h s'' (hstep s'' h'')
  | rollback => trivial
  | lock l next => exact fun s'' h'' => h s'' (hstep s'' h'')
  | select next => exact fun s'' h'' => h s'' (hstep s'' h'')
  | write e f next => exact fun s'' h'' => h s'' (hstep s'' h'')
  | call e next => exact fun s'' h'' => h s'' (hstep s'' h'')

/-! ### What the system keeps -/

/-- No lock is held twice, the open transactions are safe, and every effect so far happened in a
good state. -/
structure World.Sound (R : ν → σ → σ → Prop) (Q : ε → σ → Prop) (w : World σ ν ε) : Prop where
  disjoint : ∀ a ∈ w.sessions, ∀ b ∈ w.sessions, a.name ≠ b.name → ∀ l ∈ a.locks, l ∉ b.locks
  safe : ∀ a ∈ w.sessions, a.rest.Safe R Q a.locks a.writes a.effects w.committed
  logged : ∀ x ∈ w.log, Q x.1 x.2

variable {w w' : World σ ν ε} {a : Session σ ν ε}

lemma World.sound_idle : (World.idle s : World σ ν ε).Sound R Q :=
  ⟨nofun, nofun, nofun⟩

lemma World.Sound.record (hw : w.Sound R Q) (hes : ∀ e ∈ es, Q e w.committed) :
    (w.record es).Sound R Q where
  disjoint := hw.disjoint
  safe := hw.safe
  logged x hx := by
    rcases mem_append.mp hx with hx | hx
    · exact hw.logged x hx
    · obtain ⟨e, he, rfl⟩ := mem_map.mp hx
      exact hes e he

lemma World.Sound.drop (hw : w.Sound R Q) (name : ℕ) : (w.drop name).Sound R Q where
  disjoint a ha b hb := hw.disjoint a (mem_filter.mp ha).1 b (mem_filter.mp hb).1
  safe a ha := hw.safe a (mem_filter.mp ha).1
  logged := hw.logged

/-- What is open after a transaction went on. -/
lemma World.mem_sessions_put {b : Session σ ν ε} (hb : b ∈ (w.put a).sessions) :
    b = a ∨ (b ∈ w.sessions ∧ b.name ≠ a.name) := by
  obtain ⟨b', hb', h⟩ := mem_map.mp hb
  by_cases hname : b'.name = a.name
  · rw [if_pos hname] at h
    exact .inl h.symm
  · rw [if_neg hname] at h
    exact .inr (h ▸ ⟨hb', hname⟩)

/-- A transaction goes on; its locks are nobody else's. -/
lemma World.Sound.put (hw : w.Sound R Q)
    (hlocks : ∀ b ∈ w.sessions, b.name ≠ a.name → ∀ l ∈ a.locks, l ∉ b.locks)
    (hsafe : a.rest.Safe R Q a.locks a.writes a.effects w.committed) : (w.put a).Sound R Q where
  disjoint b hb c hc hne l hl := by
    rcases mem_sessions_put hb with rfl | ⟨hb', hba⟩
    · rcases mem_sessions_put hc with rfl | ⟨hc', hca⟩
      · exact absurd rfl hne
      · exact hlocks c hc' hca l hl
    · rcases mem_sessions_put hc with rfl | ⟨hc', -⟩
      · exact fun h => hlocks b hb' hba l h hl
      · exact hw.disjoint b hb' c hc' hne l hl
  safe b hb := by
    rcases mem_sessions_put hb with rfl | ⟨hb', -⟩
    · exact hsafe
    · exact hw.safe b hb'
  logged := hw.logged

/-- The transaction of a name is one of the open ones. -/
lemma World.mem_of_session? {name : ℕ} (h : w.session? name = some a) : a ∈ w.sessions :=
  mem_of_find?_eq_some h

section Run

variable [DecidableEq ν]

/-- One statement keeps the system sound. -/
lemma World.Sound.exec (hrefl : ∀ l s, R l s s) (htrans : ∀ l a b c, R l a b → R l b c → R l a c)
    (hw : w.Sound R Q) (ha : a ∈ w.sessions) (h : w.exec a = some w') : w'.Sound R Q := by
  have hself : Rely R a.locks w.committed w.committed := fun l _ => hrefl l _
  have hlocks : ∀ b ∈ w.sessions, b.name ≠ a.name → ∀ l ∈ a.locks, l ∉ b.locks :=
    fun b hb hne => hw.disjoint a ha b hb hne.symm
  have hsafe := hw.safe a ha
  unfold World.exec at h
  cases hrest : a.rest with
  | commit =>
      rw [hrest] at h hsafe
      cases h
      obtain ⟨heff, hkeeps⟩ := hsafe _ hself
      have hdrop := (hw.record heff).drop a.name
      refine ⟨hdrop.disjoint, fun b hb => ?_, hdrop.logged⟩
      obtain ⟨hb, hne⟩ := mem_filter.mp hb
      refine (hw.safe b hb).rely htrans fun l hl => ?_
      -- a lock of the other is not one of this transaction
      exact hkeeps l (hw.disjoint b hb a ha (by simpa using hne) l hl)
  | rollback =>
      rw [hrest] at h
      cases h
      exact hw.drop a.name
  | lock l next =>
      rw [hrest] at h hsafe
      dsimp only at h
      split at h
      · cases h
      · rename_i hfree
        cases h
        refine hw.put (fun b hb hne l' hl' => ?_) (hsafe _ hself)
        rcases mem_cons.mp hl' with rfl | hl'
        · intro hmem
          refine hfree (any_eq_true.mpr ⟨b, hb, ?_⟩)
          simpa using ⟨hne, hmem⟩
        · exact hlocks b hb hne l' hl'
  | select next =>
      rw [hrest] at h hsafe
      cases h
      exact hw.put hlocks (hsafe _ hself)
  | write e f next =>
      rw [hrest] at h hsafe
      cases h
      obtain ⟨heff, hnext⟩ := hsafe _ hself
      exact (hw.record heff).put hlocks hnext
  | call e next =>
      rw [hrest] at h hsafe
      cases h
      obtain ⟨heff, hnext⟩ := hsafe _ hself
      refine (hw.record fun x hx => ?_).put hlocks hnext
      rw [mem_singleton.mp hx]
      exact heff

variable {program : ω → Txn σ ν ε}

/-- One step keeps the system sound. -/
lemma World.Sound.step (hrefl : ∀ l s, R l s s) (htrans : ∀ l a b c, R l a b → R l b c → R l a c)
    (hsafe : ∀ p s, (program p).Safe R Q [] [] [] s) (hw : w.Sound R Q) {x : Act ω}
    (h : LockFence.step program w x = some w') : w'.Sound R Q := by
  cases x with
  | start name p =>
      simp only [LockFence.step] at h
      split at h
      · cases h
      · cases h
        refine ⟨fun a ha b hb hne l hl => ?_, fun a ha => ?_, hw.logged⟩
        · rcases mem_cons.mp ha with rfl | ha
          · cases hl
          · rcases mem_cons.mp hb with rfl | hb
            · exact not_mem_nil
            · exact hw.disjoint a ha b hb hne l hl
        · rcases mem_cons.mp ha with rfl | ha
          · exact hsafe p _
          · exact hw.safe a ha
  | exec name =>
      obtain ⟨a, ha, hexec⟩ := Option.bind_eq_some_iff.mp h
      exact hw.exec hrefl htrans (World.mem_of_session? ha) hexec
  | fail name =>
      cases h
      exact hw.drop name

/-- **Effects behind locks.**  When every transaction is safe on its own against whatever the locks
let others commit, every effect of every run happened in a good state. -/
theorem safe_run (hrefl : ∀ l s, R l s s) (htrans : ∀ l a b c, R l a b → R l b c → R l a c)
    (hsafe : ∀ p s, (program p).Safe R Q [] [] [] s) {acts : List (Act ω)}
    (h : Runs.run (LockFence.step program) (World.idle s) acts = some w') :
    ∀ x ∈ w'.log, Q x.1 x.2 :=
  (Runs.run_induction
    (fun _ _ _ hw hstep => hw.step hrefl htrans hsafe hstep) World.sound_idle h).logged

/-- A step logs effects in the state it found committed. -/
lemma log_step {x : Act ω} (h : LockFence.step program w x = some w') :
    ∃ es : List ε, w'.log = w.log ++ es.map fun e => (e, w.committed) := by
  cases x with
  | start name p =>
      simp only [LockFence.step] at h
      split at h
      · cases h
      · cases h
        exact ⟨[], by simp⟩
  | exec name =>
      obtain ⟨a, -, hexec⟩ := Option.bind_eq_some_iff.mp h
      unfold World.exec at hexec
      split at hexec
      · cases hexec
        exact ⟨a.effects, rfl⟩
      · cases hexec
        exact ⟨[], by simp [World.drop]⟩
      · split at hexec
        · cases hexec
        · cases hexec
          exact ⟨[], by simp [World.put]⟩
      · cases hexec
        exact ⟨[], by simp [World.put]⟩
      · cases hexec
        exact ⟨_, rfl⟩
      · cases hexec
        exact ⟨_, rfl⟩
  | fail name =>
      cases h
      exact ⟨[], by simp [World.drop]⟩

/-- What a run adds to the log happened in a state that was committed during the run. -/
lemma log_run {acts : List (Act ω)} (h : Runs.run (LockFence.step program) w acts = some w') :
    ∃ new, w'.log = w.log ++ new ∧ ∀ x ∈ new, ∃ bs u, bs <+: acts ∧
      Runs.run (LockFence.step program) w bs = some u ∧ x.2 = u.committed := by
  induction acts generalizing w with
  | nil =>
      cases h
      exact ⟨[], by simp, nofun⟩
  | cons a acts ih =>
      obtain ⟨v, hstep, hrest⟩ := Runs.run_cons_eq_some.mp h
      obtain ⟨es, hlog⟩ := log_step hstep
      obtain ⟨new, hnew, hall⟩ := ih hrest
      refine ⟨es.map (fun e => (e, w.committed)) ++ new, ?_, fun x hx => ?_⟩
      · rw [hnew, hlog, append_assoc]
      · rcases mem_append.mp hx with hx | hx
        · obtain ⟨e, -, rfl⟩ := mem_map.mp hx
          exact ⟨[], w, nil_prefix, rfl, rfl⟩
        · obtain ⟨bs, u, hbs, hu, heq⟩ := hall x hx
          refine ⟨a :: bs, u, cons_prefix_cons.mpr ⟨rfl, hbs⟩, ?_, heq⟩
          exact Runs.run_cons_eq_some.mpr ⟨v, hstep, hu⟩

end Run

/-! ### A transaction alone -/

/-- What a transaction commits when nothing else runs. -/
def Txn.alone : Txn σ ν ε → σ → Option σ
  | .commit, s => some s
  | .rollback, _ => none
  | .lock _ next, s => next.alone s
  | .select next, s => (next s).alone s
  | .write _ f next, s => next.alone (f s)
  | .call _ next, s => next.alone s

@[simp] lemma Txn.alone_commit : (Txn.commit : Txn σ ν ε).alone s = some s := rfl

@[simp] lemma Txn.alone_rollback : (Txn.rollback : Txn σ ν ε).alone s = none := rfl

@[simp] lemma Txn.alone_lock {l : ν} : (Txn.lock l t).alone s = t.alone s := rfl

@[simp] lemma Txn.alone_select :
    (Txn.select next).alone s = (next s).alone s := rfl

@[simp] lemma Txn.alone_write {e : Option ε} :
    (Txn.write e f t).alone s = t.alone (f s) := rfl

@[simp] lemma Txn.alone_call {e : ε} : (Txn.call e t).alone s = t.alone s := rfl

lemma Txn.alone_selectSome {α : Type} {read : σ → Option α} {next : α → Txn σ ν ε} :
    (Txn.selectSome read next).alone s = (read s).bind fun a => (next a).alone s := by
  rw [selectSome, alone_select]
  cases read s with
  | none => rfl
  | some a => rfl

lemma Txn.alone_check {p : Prop} [Decidable p] :
    (Txn.check p t).alone s = if p then t.alone s else none := by
  unfold Txn.check
  split <;> rfl

end LockFence
