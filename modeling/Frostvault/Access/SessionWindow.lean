import Frostvault.Access.Sessions

/-!
What a resolved session is worth (`resolve_session` of `app/sessions.py`).

The row is found by the hash of the token, the user is read after it, and the touch finds the row
by its id and asks only whether it is live.  A rotation or a sign-out that is committed between
these statements is not seen by the touch.

* `Genuine`: the session at the moment of the touch is the token's, and live;
* `Undisturbed`: no rotation and no sign-out is committed in the window, and no deadline passes;
* `exec_cases`: **what a statement can do**;
* `Sound`, `sound_step`: a row that is held was not revoked, and keeps its user and version;
* `Watched`, `watched_step`: in the window the row found is still the token's;
* `sessions_eq_of_revoked`: a revoked session stays as it is;
* `resolve_session_genuine`: **in undisturbed runs every session handed out is genuine**.
-/

namespace Frostvault

open Runs

namespace Sessions

variable {Token Hash : Type} {c : Config Token Hash}
  {w w' : World Token Hash} {p q : TxnName} {t u : Txn Token Hash} {id : SessionId}
  {token : Token} {row old new : Session Hash}

/-! ### The window -/

/-- The token of a `resolve_session` under way, and the row it has found. -/
def Stage.fetched? : Stage Token Hash → Option (Token × SessionId × Session Hash)
  | .fetched token id row => some (token, id, row)
  | .readingUser token id row _ => some (token, id, row)
  | .touching token id row _ _ => some (token, id, row)
  | _ => none

/-- The row whose user has been read. -/
def Stage.checked? : Stage Token Hash → Option (Session Hash)
  | .touching _ _ row _ _ => some row
  | _ => none

/-- The session handed out is live, its stored hash is that of the token, and its version that of
its user. -/
def Genuine (c : Config Token Hash) (w : World Token Hash) (p : TxnName)
    (a : Accepted Token Hash) : Prop :=
  ∃ t row user, w.txns p = some t ∧ w.session? t a.id = some row ∧
    w.user? t row.userId = some user ∧ row.revokedAt = none ∧
    w.clock < row.absoluteExpiresAt ∧ w.clock < row.idleExpiresAt ∧
    row.tokenHash = c.hashToken a.token ∧ row.sessionVersion = user.sessionVersion

/-- The commit of `u` rotates no session and increments no version that `t` has read. -/
structure Spares (u t : Txn Token Hash) : Prop where
  rotation : ∀ token id row, t.stage.fetched? = some (token, id, row) →
    ∀ new, u.held id = some new → new.tokenHash = row.tokenHash
  increment : ∀ row, t.stage.checked? = some row → u.heldUsers row.userId = none

/-- No deadline of the session lies between the instant the call has read and the clock. -/
def Prompt (w : World Token Hash) (t : Txn Token Hash) : Prop :=
  ∀ token id row user now, t.stage = .touching token id row user now →
    ∀ cur, w.session? t id = some cur →
      (now < cur.absoluteExpiresAt → w.clock < cur.absoluteExpiresAt) ∧
        (now < cur.idleExpiresAt → w.clock < cur.idleExpiresAt)

/-- **The condition on a step**: a commit spares the calls under way, a touch is prompt. -/
def Undisturbed (w : World Token Hash) : Act Token → Prop
  | .commit q => ∀ u, w.txns q = some u → ∀ p t, p ≠ q → w.txns p = some t → Spares u t
  | .exec p => ∀ t, w.txns p = some t → Prompt w t
  | _ => True

/-! ### What a statement can do -/

/-- The stage a statement leads to, as far as a `resolve_session` is concerned: it goes on with
the row it has, or with the one it finds, and a checked row has the version of its user. -/
structure Follows (c : Config Token Hash) (w : World Token Hash) (t : Txn Token Hash)
    (s : Stage Token Hash) : Prop where
  fetched : ∀ token id row, s.fetched? = some (token, id, row) →
    t.stage.fetched? = some (token, id, row) ∨
      (w.session? t id = some row ∧ row.tokenHash = c.hashToken token)
  checked : ∀ row, s.checked? = some row →
    ∃ user, w.user? t row.userId = some user ∧ row.sessionVersion = user.sessionVersion

/-- **What a statement can do.** -/
inductive Executed (c : Config Token Hash) (w : World Token Hash) (p : TxnName)
    (t : Txn Token Hash) : World Token Hash → Prop
  | stage (s : Stage Token Hash) (h : Follows c w t s) :
      Executed c w p t (w.put p { t with stage := s })
  | written (id : SessionId) (old new : Session Hash) (found : w.session? t id = some old)
      (free : w.locks id = none ∨ w.locks id = some p) (unrevoked : old.revokedAt = none)
      (userId : new.userId = old.userId) (version : new.sessionVersion = old.sessionVersion) :
      Executed c w p t (w.write p t id new)
  | inserted (id : SessionId) (new : Session Hash) (fresh : w.sessions id = none)
      (free : w.locks id = none) :
      Executed c w p t { w.write p t id new with ids := id :: w.ids }
  | incremented (userId : UserId) (user : User) :
      Executed c w p t { w.put p { t with
          stage := .idle
          heldUsers := Function.update t.heldUsers userId (some user) } with
        userLocks := Function.update w.userLocks userId (some p) }

lemma follows_of_none {s : Stage Token Hash} (hf : s.fetched? = none) (hc : s.checked? = none) :
    Follows c w t s where
  fetched token id row h := by rw [hf] at h; cases h
  checked row h := by rw [hc] at h; cases h

/-- An update of unrevoked rows that keeps the user and the version. -/
lemma executed_update {cond : Session Hash → Bool} {f : Session Hash → Session Hash}
    (h : w.update p t id cond f = some w')
    (hcond : ∀ row, cond row → row.revokedAt = none)
    (huser : ∀ row, (f row).userId = row.userId)
    (hversion : ∀ row, (f row).sessionVersion = row.sessionVersion) : Executed c w p t w' := by
  rw [World.update] at h
  split at h
  · cases h
  · cases h
    exact .stage .idle (follows_of_none rfl rfl)
  · rename_i row hhit
    cases h
    rw [World.hit] at hhit
    split at hhit
    · cases hhit
    · rename_i cur hcur
      split_ifs at hhit with hc hfree <;> cases hhit
      exact .written id row (f row) hcur hfree (hcond row hc) (huser row) (hversion row)

lemma live_iff {now : ℤ} : Session.live now row ↔
    row.revokedAt = none ∧ now < row.absoluteExpiresAt ∧ now < row.idleExpiresAt := by
  simp [Session.live]

/-- An update finds a visible row that meets its condition. -/
lemma hit_eq_some {cond : Session Hash → Bool} (h : w.hit p t id cond = some (some row)) :
    w.session? t id = some row ∧ cond row := by
  rw [World.hit] at h
  split at h
  · cases h
  · rename_i cur hcur
    split_ifs at h with hc hfree <;> cases h
    exact ⟨hcur, hc⟩

/-! ### What is held -/

/-- A held row is locked; the committed row under it is not revoked and has its user and
version. -/
structure Sound (w : World Token Hash) : Prop where
  locked : ∀ p t id row, w.txns p = some t → t.held id = some row → w.locks id = some p
  unrevoked : ∀ p t id new old, w.txns p = some t → t.held id = some new →
    w.sessions id = some old → old.revokedAt = none ∧ new.userId = old.userId ∧
      new.sessionVersion = old.sessionVersion

lemma sound_of_idle (h : w.Idle) : Sound w where
  locked p t id row ht := by rw [h.txns p] at ht; cases ht
  unrevoked p t id new old ht := by rw [h.txns p] at ht; cases ht

lemma txns_put (h : (w.put p t).txns q = some u) : q = p ∧ u = t ∨ q ≠ p ∧ w.txns q = some u := by
  by_cases hq : q = p
  · subst hq
    exact .inl ⟨rfl, (Option.some_inj.mp ((Function.update_self q _ _).symm.trans h)).symm⟩
  · exact .inr ⟨hq, (Function.update_of_ne hq _ _).symm.trans h⟩

/-- A transaction goes on with the rows it holds. -/
lemma Sound.put (hw : Sound w) (ht : ∀ id row, u.held id = some row →
    ∃ t, w.txns p = some t ∧ t.held id = some row) : Sound (w.put p u) where
  locked q v id row hv hrow := by
    rcases txns_put hv with ⟨rfl, rfl⟩ | ⟨-, hv⟩
    · obtain ⟨t, ht, hheld⟩ := ht id row hrow
      exact hw.locked q t id row ht hheld
    · exact hw.locked q v id row hv hrow
  unrevoked q v id new old hv hnew hold := by
    rcases txns_put hv with ⟨rfl, rfl⟩ | ⟨-, hv⟩
    · obtain ⟨t, ht, hheld⟩ := ht id new hnew
      exact hw.unrevoked q t id new old ht hheld hold
    · exact hw.unrevoked q v id new old hv hnew hold

/-- A transaction writes a row that no other one holds. -/
lemma Sound.write (hw : Sound w) (ht : w.txns p = some t)
    (hfree : w.locks id = none ∨ w.locks id = some p)
    (hnew : ∀ old, w.sessions id = some old → old.revokedAt = none ∧
      new.userId = old.userId ∧ new.sessionVersion = old.sessionVersion) :
    Sound (w.write p t id new) where
  locked q v id' row hv hrow := by
    rcases txns_put hv with ⟨rfl, rfl⟩ | ⟨hq, hv⟩
    · by_cases hid : id' = id
      · subst hid
        exact Function.update_self _ _ _
      · have hheld : t.held id' = some row := (Function.update_of_ne hid _ _).symm.trans hrow
        exact (Function.update_of_ne hid _ _).trans (hw.locked q t id' row ht hheld)
    · have hlock := hw.locked q v id' row hv hrow
      have hid : id' ≠ id := by
        rintro rfl
        rcases hfree with hfree | hfree <;> rw [hfree] at hlock
        · cases hlock
        · exact hq (Option.some_inj.mp hlock).symm
      exact (Function.update_of_ne hid _ _).trans hlock
  unrevoked q v id' row old hv hrow hold := by
    rcases txns_put hv with ⟨rfl, rfl⟩ | ⟨-, hv⟩
    · have hupdated : Function.update t.held id (some new) id' = some row := hrow
      by_cases hid : id' = id
      · subst hid
        rw [Function.update_self, Option.some_inj] at hupdated
        subst hupdated
        exact hnew old hold
      · exact hw.unrevoked q t id' row old ht ((Function.update_of_ne hid _ _).symm.trans hrow) hold
    · exact hw.unrevoked q v id' row old hv hrow hold

lemma txns_drop (h : (w.drop p).txns q = some u) : q ≠ p ∧ w.txns q = some u := by
  by_cases hq : q = p
  · subst hq
    cases (Function.update_self q _ _).symm.trans h
  · exact ⟨hq, (Function.update_of_ne hq _ _).symm.trans h⟩

lemma Sound.drop (hw : Sound w) (p : TxnName) : Sound (w.drop p) where
  locked q u id row hu hrow := by
    obtain ⟨hq, hu⟩ := txns_drop hu
    have hlock := hw.locked q u id row hu hrow
    have hne : w.locks id ≠ some p := by
      rw [hlock, Ne, Option.some_inj]
      exact hq
    exact (if_neg hne).trans hlock
  unrevoked q u id new old hu hnew hold :=
    hw.unrevoked q u id new old (txns_drop hu).2 hnew hold

/-- A transaction commits: no other one holds a row it writes. -/
lemma Sound.commit (hw : Sound w) (ht : w.txns p = some t) : Sound ((w.publish t).drop p) where
  locked := (hw.drop p).locked
  unrevoked q u id new old hu hnew hold := by
    obtain ⟨hq, hu⟩ := txns_drop hu
    have hheld : t.held id = none := by
      refine Option.eq_none_iff_forall_ne_some.mpr fun row hrow => hq ?_
      have hlock := hw.locked p t id row ht hrow
      rw [hw.locked q u id new hu hnew, Option.some_inj] at hlock
      exact hlock
    have hold' : (t.held id).or (w.sessions id) = some old := hold
    rw [hheld, Option.none_or] at hold'
    exact hw.unrevoked q u id new old hu hnew hold'

/-- A row that a transaction sees is as the committed one under it. -/
lemma Sound.of_session? (hw : Sound w) (ht : w.txns p = some t) {cur : Session Hash}
    (hcur : w.session? t id = some cur) (hold : w.sessions id = some old)
    (hrevoked : cur.revokedAt = none) : old.revokedAt = none ∧ cur.userId = old.userId ∧
      cur.sessionVersion = old.sessionVersion := by
  rw [World.session?] at hcur
  cases hheld : t.held id with
  | some new =>
      rw [hheld, Option.some_or, Option.some_inj] at hcur
      subst hcur
      exact hw.unrevoked p t id new old ht hheld hold
  | none =>
      rw [hheld, Option.none_or, hold, Option.some_inj] at hcur
      subst hcur
      exact ⟨hrevoked, rfl, rfl⟩

/-! ### In the window -/

/-- What a transaction still knows: the row it has found has the token's hash, and so has the row
it would find by the id, which has the same user and version; a checked row has the version of
its user. -/
structure Knows (c : Config Token Hash) (w : World Token Hash) (t : Txn Token Hash) : Prop where
  fetched : ∀ token id row, t.stage.fetched? = some (token, id, row) →
    row.tokenHash = c.hashToken token ∧ ∃ cur, w.session? t id = some cur ∧
      cur.tokenHash = row.tokenHash ∧ cur.userId = row.userId ∧
        cur.sessionVersion = row.sessionVersion
  checked : ∀ row, t.stage.checked? = some row →
    ∃ user, w.user? t row.userId = some user ∧ row.sessionVersion = user.sessionVersion

/-- **The invariant of undisturbed runs.** -/
def Watched (c : Config Token Hash) (w : World Token Hash) : Prop :=
  ∀ p t, w.txns p = some t → Knows c w t

lemma knows_of_none (hf : t.stage.fetched? = none) (hc : t.stage.checked? = none) :
    Knows c w t where
  fetched token id row h := by rw [hf] at h; cases h
  checked row h := by rw [hc] at h; cases h

lemma Watched.put (hw : Watched c w) (hu : Knows c w u) : Watched c (w.put p u) := by
  intro q v hv
  rcases txns_put hv with ⟨rfl, rfl⟩ | ⟨-, hv⟩
  · exact ⟨hu.fetched, hu.checked⟩
  · exact ⟨(hw q v hv).fetched, (hw q v hv).checked⟩

/-- Locks and drawn ids are of no account. -/
lemma Watched.relock (hw : Watched c w) (ids : List SessionId)
    (locks : SessionId → Option TxnName) (userLocks : UserId → Option TxnName) :
    Watched c { w with
      ids := ids
      locks := locks
      userLocks := userLocks } :=
  fun p t ht => ⟨(hw p t ht).fetched, (hw p t ht).checked⟩

/-- A statement leads to what it has found. -/
lemma Knows.follows (ht : Knows c w t) {s : Stage Token Hash} (hs : Follows c w t s) :
    Knows c w { t with stage := s } where
  fetched token id row h := by
    rcases hs.fetched token id row h with hold | ⟨hrow, hhash⟩
    · exact ht.fetched token id row hold
    · exact ⟨hhash, row, hrow, rfl, rfl, rfl⟩
  checked := hs.checked

/-- A commit that spares the transaction leaves it what it knows. -/
lemma Knows.commit (hw : Sound w) (ht : Knows c w t) (hu : w.txns q = some u)
    (hspares : Spares u t) : Knows c ((w.publish u).drop q) t where
  fetched token id row h := by
    obtain ⟨hhash, cur, hcur, hrest⟩ := ht.fetched token id row h
    refine ⟨hhash, ?_⟩
    change ∃ cur, (t.held id).or ((u.held id).or (w.sessions id)) = some cur ∧ _
    rw [World.session?] at hcur
    cases hheld : t.held id with
    | some new =>
        rw [hheld] at hcur
        exact ⟨cur, hcur, hrest⟩
    | none =>
        rw [hheld, Option.none_or] at hcur
        cases hnew : u.held id with
        | none => exact ⟨cur, hcur, hrest⟩
        | some new =>
            obtain ⟨-, huser, hversion⟩ := hw.unrevoked q u id new cur hu hnew hcur
            exact ⟨new, rfl, hspares.rotation token id row h new hnew, huser.trans hrest.2.1,
              hversion.trans hrest.2.2⟩
  checked row h := by
    obtain ⟨user, huser, hversion⟩ := ht.checked row h
    refine ⟨user, ?_, hversion⟩
    change (t.heldUsers row.userId).or ((u.heldUsers row.userId).or (w.users row.userId)) = _
    rw [hspares.increment row h, Option.none_or]
    exact huser

/-- **What a touch finds is genuine** when the window was undisturbed. -/
lemma genuine_of_accepted {a : Accepted Token Hash} (hw : Watched c w)
    (hprompt : Undisturbed w (.exec p)) (h : accepted w (.exec p) = some a) :
    Genuine c w p a := by
  rw [accepted] at h
  split at h
  · cases h
  · rename_i t ht
    split at h
    · rename_i token id row user now hstage
      split at h
      · rename_i cur hhit
        cases h
        obtain ⟨hcur, hlive⟩ := hit_eq_some hhit
        -- the row the touch finds is the one whose hash was looked up
        obtain ⟨hhash, found, hfound, hsame, huserId, hversion⟩ :=
          (hw p t ht).fetched token id row (by rw [hstage]; rfl)
        obtain rfl : cur = found := Option.some_inj.mp (hcur.symm.trans hfound)
        obtain ⟨user', huser', hversion'⟩ := (hw p t ht).checked row (by rw [hstage]; rfl)
        obtain ⟨habsolute, hidle⟩ := hprompt t ht token id row user now hstage cur hcur
        obtain ⟨hrevoked, hlt, hlt'⟩ := live_iff.mp hlive
        exact ⟨t, cur, user', ht, hcur, huserId ▸ huser', hrevoked, habsolute hlt, hidle hlt',
          hsame.trans hhash, hversion.trans hversion'⟩
      · cases h
    · cases h

lemma prompt_of_clock (h : ∀ token id row user now,
    t.stage = .touching token id row user now → now = w.clock) : Prompt w t := by
  intro token id row user now hstage cur _
  obtain rfl := h token id row user now hstage
  exact ⟨fun hlt => hlt, fun hlt => hlt⟩

lemma prompt_of_unchecked (h : t.stage.checked? = none) : Prompt w t := by
  intro token id row user now hstage cur _
  rw [hstage] at h
  cases h

/-! ### Steps -/

variable [DecidableEq Hash]

lemma exec_cases (h : exec c w p t = some w') : Executed c w p t w' := by
  rw [exec] at h
  have hidle : Executed c w p t (w.put p { t with stage := .idle }) :=
    .stage .idle (follows_of_none rfl rfl)
  split at h
  · cases h
  · -- `create_session` reads the version of its user
    split at h <;> cases h
    · exact hidle
    · exact .stage _ (follows_of_none rfl rfl)
  · split_ifs at h with hfresh
    cases h
    exact .inserted _ _ hfresh.1 hfresh.2
  · -- the `SELECT` by hash
    rename_i token hstage
    split at h
    · cases h
      exact hidle
    · rename_i id hfind
      split at h
      · cases h
      · rename_i row hrow
        cases h
        refine .stage _ ⟨fun token' id' row' h => ?_, fun row h => by cases h⟩
        cases h
        have hhash := List.find?_some hfind
        rw [hrow] at hhash
        exact .inr ⟨hrow, by simpa using hhash⟩
  · rename_i token id row hstage
    split_ifs at h <;> cases h
    · exact hidle
    · exact .stage _ (follows_of_none rfl rfl)
    · refine .stage _ ⟨fun token' id' row' h => ?_, fun row h => by cases h⟩
      cases h
      exact .inl (by rw [hstage]; rfl)
  · refine executed_update h (fun row hc => ?_) (fun _ => rfl) (fun _ => rfl)
    rw [Session.expirable, Bool.and_eq_true] at hc
    simpa using hc.1
  · -- the user's version
    rename_i token id row now hstage
    split at h
    · cases h
      exact hidle
    · rename_i user huser
      split_ifs at h with hversion <;> cases h
      · exact hidle
      · refine .stage _ ⟨fun token' id' row' h => ?_, fun row' h => ?_⟩
        · cases h
          exact .inl (by rw [hstage]; rfl)
        · cases h
          exact ⟨user, huser, not_not.mp hversion⟩
  · exact executed_update h (fun _ hlive => (live_iff.mp hlive).1) (fun _ => rfl) (fun _ => rfl)
  · exact executed_update h (fun _ hlive => (live_iff.mp hlive).1) (fun _ => rfl) (fun _ => rfl)
  · exact executed_update h (fun row hc => by simpa using hc) (fun _ => rfl) (fun _ => rfl)
  · split at h
    · cases h
      exact hidle
    · split_ifs at h
      cases h
      exact .incremented _ _

/-- **What a step can do.** -/
inductive Stepped (c : Config Token Hash) (w : World Token Hash) :
    Act Token → World Token Hash → Prop
  | tick (clock : ℤ) (le : w.clock ≤ clock) : Stepped c w (.tick clock) { w with clock := clock }
  | started (p : TxnName) (free : w.txns p = none) :
      Stepped c w (.start p) (w.put p ⟨.idle, fun _ => none, fun _ => none⟩)
  | called (p : TxnName) (call : Call Token) (t : Txn Token Hash) (found : w.txns p = some t) :
      Stepped c w (.call p call) (w.put p { t with stage := call.start w.clock })
  | executed (p : TxnName) (t : Txn Token Hash) (found : w.txns p = some t)
      (w' : World Token Hash) (h : Executed c w p t w') : Stepped c w (.exec p) w'
  | committed (p : TxnName) (t : Txn Token Hash) (found : w.txns p = some t) :
      Stepped c w (.commit p) ((w.publish t).drop p)
  | rolledBack (p : TxnName) : Stepped c w (.rollback p) (w.drop p)

variable {a : Act Token}

lemma step_cases (h : step c w a = some w') : Stepped c w a w' := by
  cases a with
  | tick clock =>
      rw [step] at h
      split_ifs at h with hle
      cases h
      exact .tick clock hle
  | start p =>
      rw [step] at h
      split at h <;> cases h
      rename_i hfree
      exact .started p hfree
  | call p call =>
      rw [step] at h
      split at h <;> cases h
      rename_i held heldUsers ht
      exact .called p call _ ht
  | exec p =>
      obtain ⟨t, ht, h⟩ := Option.bind_eq_some_iff.mp h
      exact .executed p t ht w' (exec_cases h)
  | commit p =>
      rw [step] at h
      split at h <;> cases h
      rename_i ht
      exact .committed p _ ht
  | rollback p =>
      rw [step] at h
      split at h <;> cases h
      exact .rolledBack p

/-- **What every step keeps of the rows held.** -/
lemma sound_step (hw : Sound w) (h : step c w a = some w') : Sound w' := by
  cases step_cases h with
  | tick clock => exact ⟨hw.locked, hw.unrevoked⟩
  | started p => exact hw.put fun id row hrow => by cases hrow
  | called p call t ht => exact hw.put fun id row hrow => ⟨t, ht, hrow⟩
  | executed p t ht _ h =>
      cases h with
      | stage s hs => exact hw.put fun id row hrow => ⟨t, ht, hrow⟩
      | written id old new found free unrevoked userId version =>
          refine hw.write ht free fun committed hcommitted => ?_
          obtain ⟨hrev, huser, hversion⟩ := hw.of_session? ht found hcommitted unrevoked
          exact ⟨hrev, userId.trans huser, version.trans hversion⟩
      | inserted id new fresh free =>
          have hwrite : Sound (w.write p t id new) := hw.write ht (.inl free) fun old hold => by
            rw [fresh] at hold
            cases hold
          exact ⟨hwrite.locked, hwrite.unrevoked⟩
      | incremented userId user =>
          have hput := hw.put (p := p) (u := { t with
            stage := .idle
            heldUsers := Function.update t.heldUsers userId (some user) })
            fun id row hrow => ⟨t, ht, hrow⟩
          exact ⟨hput.locked, hput.unrevoked⟩
  | committed p t ht => exact hw.commit ht
  | rolledBack p => exact hw.drop p

/-! ### Revoked sessions -/

/-- **A revoked session stays as it is.** -/
lemma sessions_eq_of_revoked (hw : Sound w) (h : step c w a = some w')
    (hold : w.sessions id = some old) (hrevoked : old.revokedAt ≠ none) :
    w'.sessions id = some old := by
  cases step_cases h with
  | executed p t ht _ h => cases h <;> exact hold
  | committed p t ht =>
      have hheld : t.held id = none := Option.eq_none_iff_forall_ne_some.mpr fun new hnew =>
        hrevoked (hw.unrevoked p t id new old ht hnew hold).1
      change (t.held id).or (w.sessions id) = some old
      rw [hheld, Option.none_or, hold]
  | _ => exact hold

/-! ### Undisturbed runs -/

/-- **What an undisturbed step keeps in the window.** -/
lemma watched_step (hsound : Sound w) (hw : Watched c w)
    (hundisturbed : Undisturbed w a) (h : step c w a = some w') : Watched c w' := by
  cases step_cases h with
  | tick clock => exact fun p t ht => ⟨(hw p t ht).fetched, (hw p t ht).checked⟩
  | started p => exact hw.put (knows_of_none rfl rfl)
  | called p call t ht => exact hw.put (by cases call <;> exact knows_of_none rfl rfl)
  | executed p t ht _ h =>
      cases h with
      | stage s hs => exact hw.put ((hw p t ht).follows hs)
      | written id old new => exact (hw.put (knows_of_none rfl rfl)).relock _ _ _
      | inserted id new => exact (hw.put (knows_of_none rfl rfl)).relock _ _ _
      | incremented userId user => exact (hw.put (knows_of_none rfl rfl)).relock _ _ _
  | committed p t ht =>
      intro q u hu
      obtain ⟨hq, hu⟩ := txns_drop hu
      exact (hw q u hu).commit hsound ht (hundisturbed t ht q u hq hu)
  | rolledBack p =>
      intro q u hu
      obtain ⟨-, hu⟩ := txns_drop hu
      exact ⟨(hw q u hu).fetched, (hw q u hu).checked⟩

/-- **The worth of a resolved session.**  In every run a revoked session stays revoked; in every
undisturbed one the session handed out is, at the moment of the touch, live, the token's and of
its user's version. -/
theorem resolve_session_genuine {w₀ : World Token Hash} (hidle : w₀.Idle) {as : List (Act Token)}
    (hrun : run (step c) w₀ as = some w) :
    (∀ bs cs u id row, as = bs ++ cs → run (step c) w₀ bs = some u →
      u.sessions id = some row → row.revokedAt ≠ none → w.sessions id = some row) ∧
    (Along (step c) Undisturbed w₀ as → ∀ bs p cs u a, as = bs ++ .exec p :: cs →
      run (step c) w₀ bs = some u → accepted u (.exec p) = some a → Genuine c u p a) := by
  have hstart : Sound w₀ := sound_of_idle hidle
  constructor
  · rintro bs cs u id row rfl hu hrow hrevoked
    obtain ⟨u', hu', hw⟩ := run_append.mp hrun
    obtain rfl : u = u' := Option.some_inj.mp (hu.symm.trans hu')
    have hsound : Sound u := run_induction (fun _ _ _ => sound_step) hstart hu
    have hkept : Sound w ∧ w.sessions id = some row :=
      run_induction (I := fun v => Sound v ∧ v.sessions id = some row)
        (fun v a v' hv hstep => ⟨sound_step hv.1 hstep,
          sessions_eq_of_revoked hv.1 hstep hv.2 hrevoked⟩) ⟨hsound, hrow⟩ hw
    exact hkept.2
  · rintro halong bs p cs u a rfl hu haccepted
    rw [along_iff_forall_step hrun] at halong
    have hbefore : Along (step c) Undisturbed w₀ bs := by
      rw [along_iff_forall_step hu]
      rintro as' b cs' v rfl hv
      exact halong as' b (cs' ++ .exec p :: cs) v (by simp) hv
    have hwatched : Sound u ∧ Watched c u :=
      run_induction_along (I := fun v => Sound v ∧ Watched c v)
        (fun v a v' hv hG hstep => ⟨sound_step hv.1 hstep, watched_step hv.1 hv.2 hG hstep⟩)
        ⟨hstart, fun q t ht => by rw [hidle.txns q] at ht; cases ht⟩ hbefore hu
    exact genuine_of_accepted hwatched.2 (halong bs (.exec p) cs u rfl hu) haccepted

/-! ### One session -/

/-- A user with one session; a token is its own hash. -/
def oneSession : World ℕ ℕ where
  clock := 0
  ids := [1]
  sessions := Function.update (fun _ => none) 1 (some
    { userId := 1
      tokenHash := 7
      authMethod := "oidc".toList
      csrfToken := []
      sessionVersion := 0
      vaultId := none
      lastSeenAt := 0
      idleExpiresAt := 1800
      absoluteExpiresAt := 43200
      reauthAt := none
      revokedAt := none
      transitionVersion := 1 })
  users := Function.update (fun _ => none) 1 (some ⟨"owner".toList, "Owner".toList, 0⟩)
  locks := fun _ => none
  userLocks := fun _ => none
  txns := fun _ => none

/-- The token is its own hash. -/
def plainConfig : Config ℕ ℕ := ⟨fun token => token, 1800, 43200⟩

/-- A request that resolves the token, up to the touch. -/
def resolving : List (Act ℕ) :=
  [.start 0, .call 0 (.resolveSession 7), .exec 0, .exec 0, .exec 0]

lemma oneSession_idle : oneSession.Idle := ⟨fun _ => rfl, fun _ => rfl, fun _ => rfl⟩

/-- Another request resolves the token and commits five seconds later. -/
def besideResolving : List (Act ℕ) :=
  resolving ++ [.tick 5, .start 1, .call 1 (.resolveSession 7), .exec 1, .exec 1, .exec 1,
    .exec 1, .commit 1]

/-- A request is served though another one touches the session and commits in the window. -/
theorem resolve_session_genuine_beside :
    ∃ u a, run (step plainConfig) oneSession besideResolving = some u ∧
      accepted u (.exec 0) = some a ∧ Genuine plainConfig u 0 a := by
  have hrun : ∃ w,
      run (step plainConfig) oneSession (besideResolving ++ [.exec 0]) = some w := ⟨_, rfl⟩
  obtain ⟨w, hw⟩ := hrun
  refine ⟨_, _, rfl, rfl, (resolve_session_genuine oneSession_idle hw).2 ?_ besideResolving 0 [] _
    _ rfl rfl rfl⟩
  have hunchecked : ∀ (v : World ℕ ℕ) p t, v.txns p = some t → t.stage.checked? = none →
      Undisturbed v (.exec p) := by
    intro v p t ht hnone u hu
    cases ht.symm.trans hu
    exact prompt_of_unchecked hnone
  refine .cons trivial rfl (.cons trivial rfl ?_)
  refine .cons (hunchecked _ _ _ rfl rfl) rfl (.cons (hunchecked _ _ _ rfl rfl) rfl ?_)
  refine .cons (hunchecked _ _ _ rfl rfl) rfl (.cons trivial rfl (.cons trivial rfl ?_))
  refine .cons trivial rfl (.cons (hunchecked _ _ _ rfl rfl) rfl ?_)
  refine .cons (hunchecked _ _ _ rfl rfl) rfl (.cons (hunchecked _ _ _ rfl rfl) rfl ?_)
  refine .cons (fun t ht => ?_) rfl (.cons (fun u hu p t hp ht => ?_) rfl
    (.cons (fun t ht => ?_) rfl trivial))
  · -- the other request has read the clock as it is
    cases ht
    exact prompt_of_clock fun _ _ _ _ _ h => by cases h; rfl
  · -- its touch leaves the hash and the user as they are
    obtain _ | _ | p := p
    · cases hu
      cases ht
      refine ⟨fun token id row hrow new hnew => ?_, fun row _ => rfl⟩
      cases hrow
      cases hnew
      rfl
    · exact absurd rfl hp
    · cases ht
  · cases ht
    intro token id row user now hstage cur hcur
    cases hstage
    cases hcur
    decide

/-- A call that commits before the touch: what is accepted then is not genuine. -/
def AcceptedAfter (call : Call ℕ) : Prop :=
  ∃ u a, run (step plainConfig) oneSession
      (resolving ++ [.start 1, .call 1 call, .exec 1, .commit 1]) = some u ∧
    accepted u (.exec 0) = some a ∧ ¬Genuine plainConfig u 0 a

/-- **The window.**  A rotation, or a sign-out everywhere, that commits before the touch: the
token is accepted though its hash is no longer stored, or its version no longer its user's. -/
theorem resolve_session_after_transition :
    AcceptedAfter (.rotateSession 1 8 false) ∧ AcceptedAfter (.signOutEverywhere 1) := by
  constructor
  · refine ⟨_, _, rfl, rfl, ?_⟩
    rintro ⟨t, row, user, ht, hrow, -, -, -, -, hhash, -⟩
    cases ht
    cases hrow
    cases hhash
  · refine ⟨_, _, rfl, rfl, ?_⟩
    rintro ⟨t, row, user, ht, hrow, huser, -, -, -, -, hversion⟩
    cases ht
    cases hrow
    cases huser
    cases hversion

end Sessions

end Frostvault
