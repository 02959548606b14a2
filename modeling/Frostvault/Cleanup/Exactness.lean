import Frostvault.Cleanup.Program
import Frostvault.Lib.History

/-!
What a deletion of a cleanup rests on (`cleanup` of `app/services/snapshot_cleanup.py`).

Between two actions of the cleanup others may change the database, the bucket and everything
else in any way.  While the transaction around a deletion is open it holds the Vault row, which
every mint of an identity, every confirmed rename and every proof of the Vault's files needs
(`Fenced`); writers of versions, such as `audit_vault_catalog`, do not take it.

* `Interferes`, `Others`: what the others may do;
* `Pinned`, `Authorised`: what a deletion rests on;
* `Harmless`: programs without deletions;
* `spec_deleteLocked`, `spec_deleteVersion`, `spec_deleteVersions`: one deletion, and the loop;
* `cleanup_authorised`: **every deletion of every run is authorised**;
* `keeper_overtaken`: the keeper may be lost before the call, and the inventory may be pinned
  by the cleanup itself.
-/

namespace Frostvault

open List Effects History

variable {β : Type}

/-! ### The others -/

/-- What the Vault row keeps from changing while the transaction around a deletion holds it:
the proofs of the file, and that no file gets another current path. -/
structure Fenced (job : WorkerJob) (db db' : CleanupDb) : Prop where
  proofs : ∀ p : CleanupProof, p.vaultFileId = job.row.vaultFileId →
    (p ∈ db'.proofs ↔ p ∈ db.proofs)
  paths : ∀ f' ∈ db'.upload.cat.files, f'.vaultId = job.row.vaultId → ∀ p,
    f'.currentPath = some p →
      ∃ f ∈ db.upload.cat.files, f.id = f'.id ∧ f.vaultId = job.row.vaultId ∧
        f.currentPath = some p

/-- Whatever the others do to the world. -/
def Interferes (job : WorkerJob) (w w' : CleanupWorld β) : Prop :=
  w'.held = w.held ∧ (w.held = true → Fenced job w.db w'.db)

/-- A move of the others. -/
structure Others (β : Type) (job : WorkerJob) where
  move : CleanupWorld β → CleanupWorld β
  blocked : ∀ w, Interferes job w (move w)

lemma Fenced.refl (job : WorkerJob) (db : CleanupDb) : Fenced job db db :=
  ⟨fun _ _ => Iff.rfl, fun f hf hv _ hp => ⟨f, hf, rfl, hv, hp⟩⟩

lemma Fenced.trans {job : WorkerJob} {a b c : CleanupDb} (hab : Fenced job a b)
    (hbc : Fenced job b c) : Fenced job a c where
  proofs := fun p hp => (hbc.proofs p hp).trans (hab.proofs p hp)
  paths := by
    intro f hf hv p hp
    obtain ⟨g, hg, hid, hgv, hgp⟩ := hbc.paths f hf hv p hp
    obtain ⟨e, he, heid, hev, hep⟩ := hab.paths g hg hgv p hgp
    exact ⟨e, he, heid.trans hid, hev, hep⟩

variable {key : ObjectKey} {version : ProviderVersionId}

lemma Fenced.keyOwned {job : WorkerJob} {db db' : CleanupDb} (h : Fenced job db db')
    {names : KeyNames} (howned : keyOwned names db job key) :
    keyOwned names db' job key := by
  obtain ⟨p, hp, hfree⟩ := howned
  refine ⟨p, hp, fun f hf hv hfp => ?_⟩
  obtain ⟨g, hg, hid, hgv, hgp⟩ := h.paths f hf hv p hfp
  exact hid ▸ hfree g hg hgv hgp

lemma Fenced.proved {job : WorkerJob} {db db' : CleanupDb} (h : Fenced job db db')
    {provider : String} {keeperId : RowId} {sha256 : Digest}
    (hproved : db.proved (proofKey job provider key version) keeperId sha256) :
    db'.proved (proofKey job provider key version) keeperId sha256 := by
  obtain ⟨p, hp, hmatch⟩ := any_eq_true.mp hproved
  refine any_eq_true.mpr ⟨p, (h.proofs p ?_).mpr hp, hmatch⟩
  simp only [Bool.and_eq_true, decide_eq_true_eq] at hmatch
  exact congrArg ProofKey.vaultFileId hmatch.1.1

/-! ### Authority -/

/-- The last listing of a key. -/
def lastListed (h : List CleanupEvent) (key : ObjectKey) : Option (Except CleanupError Inventory) :=
  h.reverse.findSome? fun
    | .listed k r => if k = key then some r else none
    | _ => none

/-- The inventory of a cleanup is a row: one that it found, or the one that is there after it
found none and wrote its own. -/
inductive Pinned (names : KeyNames) (job : WorkerJob) (keeperId : RowId) (provider : String)
    (h : List CleanupEvent) (batch : CleanupInventory) : Prop
  | found (db : CleanupDb) (hread : .pinRead db ∈ h)
      (hfound : pinLookup names db job keeperId provider = .ok (.found batch))
  | saved (db₀ db db' : CleanupDb) (pinned : UploadTarget) (keys : List ObjectKey)
      (baseline : List (ObjectKey × Inventory)) (now : Stamp) (hread : .pinRead db₀ ∈ h)
      (hfresh : pinLookup names db₀ job keeperId provider = .ok (.fresh pinned keys))
      (hwrite : .pinSaved db now ∈ h)
      (hsaved : saveInventory db job pinned baseline now = .ok (batch, db'))

lemma Pinned.mono {names : KeyNames} {job : WorkerJob} {keeperId : RowId} {provider : String}
    {h h' : List CleanupEvent} {batch : CleanupInventory}
    (hbatch : Pinned names job keeperId provider h batch) (hh : h ⊆ h') :
    Pinned names job keeperId provider h' batch := by
  cases hbatch with
  | found db hread hfound => exact .found db (hh hread) hfound
  | saved db₀ db db' pinned keys baseline now hread hfresh hwrite hsaved =>
      exact .saved db₀ db db' pinned keys baseline now (hh hread) hfresh (hh hwrite) hsaved

/-- **What a deletion rests on**, after the history `h`: an exact version that is not the
keeper's, from the pinned inventory, below the prefix at a path no other file holds, with a
proof that names the keeper; the keeper checked in the same transaction; and the last listing
as expected. -/
structure Authorised (S : S3Client β) (names : KeyNames) (job : WorkerJob) (keeperId : RowId)
    (h : List CleanupEvent) (key : ObjectKey) (version : ProviderVersionId) (keeper : Keeper)
    (batch : CleanupInventory) (expected : List (ObjectKey × Inventory)) (db : CleanupDb) :
    Prop where
  notKeeper : (key, version) ≠ (keeper.row.objectKey, keeper.providerVersionId)
  pinned : Pinned names job keeperId S.identity h batch
  inInventory : version ∈ (batch.at key).versions
  owned : keyOwned names db job key
  proved : db.proved (proofKey job S.identity key version) keeperId keeper.sha256 = true
  /-- Between the check of the keeper and the call are the checks of the volume, of a
  cancellation and of the proof. -/
  keeperChecked : ∃ h₀ db₀, h = h₀ ++ [.keeperChecked db₀ (.ok ()), .checked, .checked, .checked] ∧
    keeperOf names db₀ job keeperId S.identity = .ok keeper ∧
    db₀.newestVerified job.row.vaultFileId = some keeperId
  listed : key ∈ expected.map Prod.fst ∧ ∀ e ∈ expected, lastListed h e.1 = some (.ok e.2)

/-- Every deletion is authorised. -/
def AuthorisedAction (S : S3Client β) (names : KeyNames) (job : WorkerJob) (keeperId : RowId)
    (h : List CleanupEvent) : CleanupEvent → Prop
  | .deleted key version keeper batch expected db =>
      Authorised S names job keeperId h key version keeper batch expected db
  | _ => True

section

variable {S : S3Client β} {names : KeyNames} {job : WorkerJob} {keeperId : RowId} {α : Type}
  {h : List CleanupEvent} {w : CleanupWorld β}

/-- Whatever the others do, the deletions of a program are authorised, and it returns in `Q`. -/
abbrev Spec (S : S3Client β) (names : KeyNames) (job : WorkerJob) (keeperId : RowId)
    (Q : α → List CleanupEvent → CleanupWorld β → Prop) (p : Cleaning β α)
    (h : List CleanupEvent) (w : CleanupWorld β) : Prop :=
  Wp (Interferes job) (fun h ev _ _ => AuthorisedAction S names job keeperId h ev) Q
    (fun _ _ _ => True) p h w

/-! ### Actions -/

lemma mapError_eq_ok {ε ε' α : Type} {f : ε → ε'} {x : Except ε α} {a : α} :
    x.mapError f = .ok a ↔ x = .ok a := by
  cases x <;> simp [Except.mapError]

lemma spec_ask {ev : Except CleanupError α → CleanupEvent}
    {f : CleanupWorld β → Except CleanupError α} {Q : α → List CleanupEvent → CleanupWorld β → Prop}
    (hev : ∀ r, AuthorisedAction S names job keeperId h (ev r))
    (hQ : ∀ a w', Interferes job w w' → f w' = .ok a → Q a (h ++ [ev (.ok a)]) w') :
    Spec S names job keeperId Q (.ask ev f) h w := by
  refine wp_ask.mpr fun w' hw' => ⟨hev _, fun a ha => ?_, fun _ _ => trivial⟩
  rw [ha]
  exact hQ a w' hw' ha

lemma spec_readDb {f : CleanupDb → Outcome α} {Q : α → List CleanupEvent → CleanupWorld β → Prop}
    (hQ : ∀ a w', Interferes job w w' → f w'.db = .ok a → Q a (h ++ [.checked]) w') :
    Spec S names job keeperId Q (readDb f) h w :=
  spec_ask (fun _ => trivial) fun a w' hw' ha => hQ a w' hw' (mapError_eq_ok.mp ha)

variable {Q : Unit → List CleanupEvent → CleanupWorld β → Prop}
  {expected : List (ObjectKey × Inventory)} {plan : CleanupPlan}

lemma spec_require {c : Prop} [Decidable c] {e : CleanupError} (hQ : c → Q () h w) :
    Spec S names job keeperId Q (.require c e) h w :=
  wp_require.mpr ⟨hQ, fun _ => trivial⟩

/-! ### Programs that delete nothing -/

/-- A program that deletes nothing without authority, in any history. -/
def Harmless (S : S3Client β) (names : KeyNames) (job : WorkerJob) (keeperId : RowId)
    (p : Cleaning β α) : Prop :=
  ∀ h w, Spec S names job keeperId (fun _ _ _ => True) p h w

variable {p : Cleaning β α}

lemma Harmless.spec (hp : Harmless S names job keeperId p)
    {Q : α → List CleanupEvent → CleanupWorld β → Prop} (hQ : ∀ a h' w', h <+: h' → Q a h' w') :
    Spec S names job keeperId Q p h w :=
  (hp h w).grows.mono (fun a h' w' hgrown => hQ a h' w' hgrown.1) fun _ _ _ _ => trivial

lemma Harmless.bind {γ : Type} {f : α → Cleaning β γ} (hp : Harmless S names job keeperId p)
    (hf : ∀ a, Harmless S names job keeperId (f a)) :
    Harmless S names job keeperId (p >>= f) :=
  fun _ _ => wp_bind.mpr (hp.spec fun a h' w' _ => hf a h' w')

lemma harmless_pure (a : α) : Harmless S names job keeperId (pure a : Cleaning β α) :=
  fun _ _ => trivial

lemma harmless_raise (e : CleanupError) :
    Harmless S names job keeperId (.raise e : Cleaning β α) :=
  fun _ _ => trivial

lemma harmless_ask {ev : Except CleanupError α → CleanupEvent}
    {f : CleanupWorld β → Except CleanupError α}
    (hev : ∀ h r, AuthorisedAction S names job keeperId h (ev r)) :
    Harmless S names job keeperId (.ask ev f) :=
  fun h _ => spec_ask (hev h) fun _ _ _ _ => trivial

lemma harmless_readDb {f : CleanupDb → Outcome α} :
    Harmless S names job keeperId (readDb f : Cleaning β α) :=
  harmless_ask fun _ _ => trivial

/-- A transaction that writes; nothing is asked of what it writes. -/
lemma harmless_writeDb {ev : CleanupEvent} {f : CleanupDb → Stamp → Outcome (α × CleanupDb)}
    (hev : ∀ h, AuthorisedAction S names job keeperId h ev) :
    Harmless S names job keeperId (writeDb ev f : Cleaning β α) :=
  fun h _ => wp_commit.mpr fun _ _ =>
    ⟨fun _ _ _ => ⟨hev h, trivial⟩, fun _ _ => ⟨hev h, trivial⟩⟩

lemma harmless_require {c : Prop} [Decidable c] {e : CleanupError} :
    Harmless S names job keeperId (.require c e : Cleaning β Unit) :=
  fun _ _ => spec_require fun _ => trivial

lemma harmless_ensureActive : Harmless S names job keeperId (ensureActive : Cleaning β Unit) :=
  harmless_ask fun _ _ => trivial

lemma harmless_requireSource :
    Harmless S names job keeperId (requireSource job : Cleaning β Unit) :=
  harmless_ensureActive.bind fun _ => harmless_ask fun _ _ => trivial

lemma harmless_listKeys (keys : List ObjectKey) :
    Harmless S names job keeperId (listKeys S keys) := by
  induction keys with
  | nil => exact harmless_pure _
  | cons key keys ih =>
      refine Harmless.bind (harmless_ask ?_) fun _ => ih.bind fun _ => harmless_pure _
      exact fun _ _ => trivial

lemma harmless_readChunks (size : ℕ) (chunks : List (Except ProviderError (List UInt8)))
    (bytes : List UInt8) :
    Harmless S names job keeperId (readChunks size chunks bytes : Cleaning β (List UInt8)) := by
  induction chunks generalizing bytes with
  | nil => exact harmless_ensureActive.bind fun _ => harmless_pure _
  | cons chunk chunks ih =>
      cases chunk with
      | error e => exact harmless_ensureActive.bind fun _ => harmless_raise _
      | ok chunk =>
          refine harmless_ensureActive.bind fun _ => ?_
          split
          · exact harmless_pure _
          · exact harmless_require.bind fun _ => ih _

lemma harmless_exactDuplicate (key : ObjectKey) (version : ProviderVersionId) (digest : Digest)
    (size : ℕ) :
    Harmless S names job keeperId (exactDuplicate S key version digest size) := by
  refine Harmless.bind (harmless_ask ?_) fun reply => ?_
  · exact fun _ _ => trivial
  cases reply.body with
  | none => exact harmless_raise _
  | some chunks =>
      refine harmless_require.bind fun _ => harmless_require.bind fun _ => ?_
      refine (harmless_readChunks size chunks []).bind fun bytes => ?_
      exact harmless_require.bind fun _ => harmless_require

lemma harmless_proveVersion (plan : CleanupPlan) (key : ObjectKey) (version : ProviderVersionId) :
    Harmless S names job keeperId (proveVersion S names job plan key version) := by
  refine harmless_ensureActive.bind fun _ => harmless_readDb.bind fun found => ?_
  obtain ⟨proof, lineage⟩ := found
  have hwrite : ∀ method, Harmless S names job keeperId
      (writeDb (.proved key version) (fun db now => persistProof names db job plan.target
        plan.keys plan.keeperId plan.keeper plan.provider key version method now) :
          Cleaning β Unit) :=
    fun _ => harmless_writeDb fun _ => trivial
  cases proof with
  | true => exact harmless_pure _
  | false =>
      cases lineage with
      | true => exact (harmless_pure ()).bind fun _ => hwrite _
      | false => exact (harmless_exactDuplicate _ _ _ _).bind fun _ => hwrite _

lemma harmless_proveVersions (plan : CleanupPlan) (cs : List (ObjectKey × ProviderVersionId)) :
    Harmless S names job keeperId (proveVersions S names job plan cs) := by
  induction cs with
  | nil => exact harmless_pure _
  | cons c cs ih => exact (harmless_proveVersion plan c.1 c.2).bind fun _ => ih

/-- The inventory the cleanup goes on with is a row. -/
lemma spec_pinInventory {Q : CleanupInventory → List CleanupEvent → CleanupWorld β → Prop}
    (hQ : ∀ batch h' w', Pinned names job keeperId S.identity h' batch → Q batch h' w') :
    Spec S names job keeperId Q (pinInventory S names job keeperId) h w := by
  refine wp_bind.mpr fun w₁ _ => ⟨trivial, wp_ofExcept.mpr ⟨fun pinning hlook => ?_,
    fun _ _ => trivial⟩⟩
  rw [mapError_eq_ok] at hlook
  cases pinning with
  | found batch => exact hQ _ _ _ (.found w₁.db (by simp) hlook)
  | fresh pinned keys =>
      refine wp_bind.mpr (harmless_readDb.spec fun _ h₁ w₂ hh₁ => ?_)
      refine wp_bind.mpr ((harmless_listKeys keys).spec fun baseline h₂ w₃ hh₂ => ?_)
      refine wp_bind.mpr ((harmless_listKeys keys).spec fun again h₃ w₄ hh₃ => ?_)
      refine wp_bind.mpr (harmless_require.spec fun _ h₄ w₅ hh₄ => ?_)
      refine wp_commit.mpr fun w₆ _ => ⟨fun batch w₇ hsave => ⟨trivial, ?_⟩,
        fun _ _ => ⟨trivial, trivial⟩⟩
      have hread : .pinRead w₁.db ∈ h₄ :=
        (hh₁.trans (hh₂.trans (hh₃.trans hh₄))).subset (by simp)
      cases hsaved : saveInventory w₆.db job pinned baseline w₆.now with
      | error e => simp [hsaved, Except.map, Except.mapError] at hsave
      | ok r =>
          simp only [hsaved, Except.map, Except.mapError, Except.ok.injEq, Prod.mk.injEq] at hsave
          obtain ⟨rfl, -⟩ := hsave
          exact hQ _ _ _ (.saved w₁.db w₆.db r.2 pinned keys baseline w₆.now (by simp [hread])
            hlook (by simp) hsaved)

/-! ### Listings -/

/-- A later listing of the key is the last one. -/
lemma lastListed_concat (h : List CleanupEvent) (key : ObjectKey)
    (r : Except CleanupError Inventory) (k : ObjectKey) :
    lastListed (h ++ [.listed key r]) k = if key = k then some r else lastListed h k := by
  rw [lastListed, reverse_append, reverse_singleton, singleton_append,
    findSome?_cons]
  by_cases hk : key = k
  · simp [hk]
  · simp [hk, lastListed]

lemma lastListed_concat_checked (h : List CleanupEvent) (k : ObjectKey) :
    lastListed (h ++ [.checked]) k = lastListed h k := by
  rw [lastListed, reverse_append, reverse_singleton, singleton_append,
    findSome?_cons]
  rfl

lemma lastListed_concat_keeperChecked (h : List CleanupEvent) (db : CleanupDb)
    (r : Except CleanupError Unit) (k : ObjectKey) :
    lastListed (h ++ [.keeperChecked db r]) k = lastListed h k := by
  rw [lastListed, reverse_append, reverse_singleton, singleton_append,
    findSome?_cons]
  rfl

/-- A listing of different keys is the last one of each of them. -/
lemma spec_listKeys {keys : List ObjectKey} (hkeys : keys.Nodup)
    {Q : List (ObjectKey × Inventory) → List CleanupEvent → CleanupWorld β → Prop}
    (hQ : ∀ l h' w', h <+: h' → l.map Prod.fst = keys →
      (∀ e ∈ l, lastListed h' e.1 = some (.ok e.2)) →
      (∀ k ∉ keys, lastListed h' k = lastListed h k) → Q l h' w') :
    Spec S names job keeperId Q (listKeys S keys) h w := by
  induction keys generalizing h w Q with
  | nil => exact hQ [] h w (prefix_refl h) rfl (by simp) fun _ _ => rfl
  | cons key keys ih =>
      obtain ⟨hnew, hkeys⟩ := nodup_cons.mp hkeys
      refine wp_bind.mpr (spec_ask (fun _ => trivial) fun inv w₁ hw₁ _ => ?_)
      refine wp_bind.mpr (ih hkeys fun l h' w' hh hl hlast hother => ?_)
      have hkey : lastListed h' key = some (.ok inv) := by
        rw [hother key hnew, lastListed_concat, if_pos rfl]
      refine hQ _ h' w' ((prefix_append h _).trans hh) (by rw [map_cons, hl]) ?_ ?_
      · intro e he
        rcases mem_cons.mp he with rfl | he
        · exact hkey
        · exact hlast e he
      · intro k hk
        rw [mem_cons, not_or] at hk
        rw [hother k hk.2, lastListed_concat, if_neg fun heq => hk.1 heq.symm]

/-- A listing that passes shows admitted versions only. -/
lemma spec_checkBaseline {l : List (ObjectKey × Inventory)}
    (hQ : (∀ e ∈ l, ∀ v ∈ e.2.versions, v ∈ admitted plan e.1) → ∀ h' w', h <+: h' →
      Q () h' w') :
    Spec S names job keeperId Q (checkBaseline job plan l) h w := by
  induction l generalizing h w with
  | nil => exact hQ (by simp) h w (prefix_refl h)
  | cons e l ih =>
      obtain ⟨key, inv⟩ := e
      refine wp_bind.mpr (spec_require fun hinv => ?_)
      refine wp_bind.mpr (harmless_readDb.spec fun _ h₁ w₁ hh₁ => ?_)
      refine ih fun hl h' w' hh => ?_
      exact hQ (forall_mem_cons.mpr ⟨hinv.1, hl⟩) h' w' (hh₁.trans hh)

/-! ### Deletions -/

lemma Interferes.held {w w' : CleanupWorld β} (hw : Interferes job w w') (hheld : w.held) :
    w'.held :=
  hw.1.trans hheld

lemma Interferes.trans {w₁ w₂ w₃ : CleanupWorld β} (h₁ : Interferes job w₁ w₂)
    (h₂ : Interferes job w₂ w₃) : Interferes job w₁ w₃ :=
  ⟨h₂.1.trans h₁.1, fun hheld => (h₁.2 hheld).trans (h₂.2 (h₁.held hheld))⟩

lemma spec_checkKeeper (hQ : ∀ w', Interferes job w w' →
      keeperOf names w'.db job plan.keeperId plan.provider = .ok plan.keeper →
      Q () (h ++ [.keeperChecked w'.db (.ok ())]) w') :
    Spec S names job keeperId Q (checkKeeper names job plan) h w := by
  refine fun w' hw' => ⟨trivial, wp_ofExcept.mpr ⟨fun u hu => ?_, fun _ _ => trivial⟩⟩
  obtain ⟨⟩ := u
  simp only [hu, id_eq]
  refine hQ w' hw' ?_
  unfold checkKeeper.result at hu
  split at hu
  · cases hu
  · split at hu
    next hkeeper hsame => exact hsame ▸ hkeeper
    · cases hu

lemma spec_lockTarget {pinned : UploadTarget} (hQ : ∀ w', w'.held → Q () (h ++ [.checked]) w') :
    Spec S names job keeperId Q (lockTarget job pinned) h w := by
  refine wp_commit.mpr fun w₁ _ => ⟨fun _ w₂ hlock => ⟨trivial, hQ w₂ ?_⟩,
    fun _ _ => ⟨trivial, trivial⟩⟩
  rw [mapError_eq_ok] at hlock
  cases htarget : requireTarget w₁.db.upload job pinned with
  | error e => simp [htarget, Except.map] at hlock
  | ok u =>
      simp only [htarget, Except.map, Except.ok.injEq, Prod.mk.injEq] at hlock
      rw [← hlock.2]

section

variable (hprovider : plan.provider = S.identity)

include hprovider

/-- **The transaction around a deletion**, of a version of the pinned inventory, after a listing
as expected. -/
lemma spec_deleteLocked (hpinned : Pinned names job plan.keeperId S.identity h plan.batch)
    (hkeys : expected.map Prod.fst = plan.keys)
    (hlisted : ∀ e ∈ expected, lastListed h e.1 = some (.ok e.2)) (hkey : key ∈ plan.keys)
    (hversion : version ∈ (plan.batch.at key).versions) :
    Spec S names job plan.keeperId (fun _ _ _ => True)
      (deleteLocked S names job plan expected key version) h w := by
  -- from the locks on, the owners of the keys and the proofs are fixed
  refine wp_bind.mpr (spec_lockTarget fun w₁ hheld₁ => ?_)
  refine wp_bind.mpr (spec_readDb fun _ w₂ hw₂ howned => ?_)
  have hheld₂ : w₂.held := hw₂.held hheld₁
  have howned : keyOwned names w₂.db job key := Checks.require_eq_ok_iff.mp howned key hkey
  refine wp_bind.mpr (spec_readDb fun _ w₃ hw₃ _ => ?_)
  refine wp_bind.mpr (spec_readDb fun _ w₄ hw₄ _ => ?_)
  refine wp_bind.mpr (spec_checkKeeper fun w₅ hw₅ hkeeper => ?_)
  refine wp_bind.mpr (spec_ask (fun _ => trivial) fun _ w₆ hw₆ _ => ?_)
  refine wp_bind.mpr (spec_ask (fun _ => trivial) fun _ w₇ hw₇ _ => ?_)
  refine wp_bind.mpr (spec_readDb fun proof w₈ hw₈ hproof => ?_)
  refine wp_bind.mpr (spec_require fun hfinal => ?_)
  obtain ⟨rfl, hnot⟩ := hfinal
  have hto₈ : Interferes job w₂ w₈ :=
    hw₃.trans (hw₄.trans (hw₅.trans (hw₆.trans (hw₇.trans hw₈))))
  refine fun w₉ hw₉ => ⟨?_, ?_⟩
  · have hfenced : Fenced job w₈.db w₉.db := hw₉.2 (hto₈.held hheld₂)
    exact {
      notKeeper := hnot
      pinned := hpinned.mono fun _ => by simp +contextual
      inInventory := hversion
      owned := hfenced.keyOwned ((hto₈.2 hheld₂).keyOwned howned)
      proved := hprovider ▸ hfenced.proved (Except.ok.inj hproof)
      keeperChecked :=
        ⟨h ++ [.checked, .checked, .checked, .checked], w₅.db, by simp, hprovider ▸ hkeeper,
          keeperOf_newest hkeeper⟩
      listed := by
        refine ⟨hkeys ▸ hkey, fun e he => ?_⟩
        simp only [lastListed_concat_checked, lastListed_concat_keeperChecked]
        exact hlisted e he }
  · dsimp only
    split
    all_goals trivial

/-- **One deletion.**  The version comes from the pinned inventory and its key is one of the
plan's, so the deletion is authorised. -/
lemma spec_deleteVersion (hkeys : plan.keys.Nodup)
    (hpinned : Pinned names job plan.keeperId S.identity h plan.batch) (hkey : key ∈ plan.keys)
    (hversion : version ∈ (plan.batch.at key).versions) :
    Spec S names job plan.keeperId (fun _ _ _ => True)
      (deleteVersion S names job plan expected key version) h w := by
  refine wp_bind.mpr (harmless_ensureActive.spec fun _ h₁ w₁ hh₁ => ?_)
  refine wp_bind.mpr (spec_listKeys hkeys fun observed h₂ w₂ hh₂ hobserved hlast _ => ?_)
  refine wp_bind.mpr (spec_require fun hsame => ?_)
  subst hsame
  exact spec_deleteLocked hprovider (hpinned.mono (hh₁.trans hh₂).subset) hobserved hlast hkey
    hversion

/-- **The deletion loop.** -/
lemma spec_deleteVersions (hkeys : plan.keys.Nodup)
    (hpinned : Pinned names job plan.keeperId S.identity h plan.batch)
    {cs : List (ObjectKey × ProviderVersionId)}
    (hcs : ∀ c ∈ cs, c.1 ∈ plan.keys ∧ c.2 ∈ (plan.batch.at c.1).versions) :
    Spec S names job plan.keeperId (fun _ _ _ => True)
      (deleteVersions S names job plan expected cs) h w := by
  induction cs generalizing h w expected with
  | nil => exact trivial
  | cons c cs ih =>
      obtain ⟨⟨hkey, hversion⟩, hcs⟩ := forall_mem_cons.mp hcs
      refine wp_bind.mpr ((spec_deleteVersion hprovider hkeys hpinned hkey hversion).grows.mono
        ?_ fun _ _ _ _ => trivial)
      intro _ h' w' hgrown
      exact ih (hpinned.mono hgrown.1.subset) hcs

end

/-- What is to be deleted was pinned: what a listing admits beside it is the keeper. -/
lemma candidates_pinned (hadmitted : ∀ e ∈ expected, ∀ v ∈ e.2.versions, v ∈ admitted plan e.1)
    {c : ObjectKey × ProviderVersionId} (hc : c ∈ candidates plan expected) :
    c.1 ∈ expected.map Prod.fst ∧ c.2 ∈ (plan.batch.at c.1).versions := by
  obtain ⟨hlisted, hnot⟩ := mem_filter.mp hc
  obtain ⟨e, he, hv⟩ := mem_flatMap.mp hlisted
  obtain ⟨v, hshown, rfl⟩ := mem_map.mp hv
  refine ⟨mem_map_of_mem he, ?_⟩
  have hin := hadmitted e he v hshown
  unfold admitted at hin
  split_ifs at hin with hkept
  · rcases mem_cons.mp hin with rfl | hin
    · have heq : (e.1, plan.kept.2) = plan.kept := Prod.ext hkept rfl
      simp [heq] at hnot
    · exact hin
  · exact hin

/-! ### The run -/

lemma spec_runPlan (plan : CleanupPlan) (hprovider : plan.provider = S.identity)
    (hkeys : plan.keys.Nodup) (hpinned : Pinned names job plan.keeperId S.identity h plan.batch) :
    Spec S names job plan.keeperId (fun _ _ _ => True) (runPlan S names job plan) h w := by
  refine wp_bind.mpr (Harmless.spec (harmless_writeDb ?_) fun _ h₁ w₁ hh₁ => ?_)
  · exact fun _ => trivial
  refine wp_bind.mpr (harmless_readDb.spec fun _ h₂ w₂ hh₂ => ?_)
  refine wp_bind.mpr (harmless_require.spec fun _ h₃ w₃ hh₃ => ?_)
  refine wp_bind.mpr (spec_listKeys hkeys fun expected h₄ w₄ hh₄ hexpected _ _ => ?_)
  refine wp_bind.mpr (harmless_require.spec fun _ h₅ w₅ hh₅ => ?_)
  refine wp_bind.mpr (spec_checkBaseline fun hadmitted h₆ w₆ hh₆ => ?_)
  refine wp_bind.mpr (harmless_require.spec fun _ h₇ w₇ hh₇ => ?_)
  refine wp_bind.mpr ((harmless_listKeys plan.keys).spec fun again h₈ w₈ hh₈ => ?_)
  refine wp_bind.mpr (harmless_require.spec fun _ h₉ w₉ hh₉ => ?_)
  refine wp_bind.mpr ((harmless_proveVersions plan _).spec fun _ h₁₀ w₁₀ hh₁₀ => ?_)
  have hgrown : h <+: h₁₀ :=
    hh₁.trans (hh₂.trans (hh₃.trans (hh₄.trans (hh₅.trans (hh₆.trans (hh₇.trans (hh₈.trans
      (hh₉.trans hh₁₀))))))))
  refine wp_bind.mpr ((spec_deleteVersions hprovider hkeys (hpinned.mono hgrown.subset)
    fun c hc => hexpected ▸ candidates_pinned hadmitted hc).mono (fun left h₁₁ w₁₁ _ => ?_)
    fun _ _ _ _ => trivial)
  refine wp_bind.mpr (harmless_ensureActive.spec fun _ h₁₂ w₁₂ _ => ?_)
  refine wp_bind.mpr ((harmless_listKeys plan.keys).spec fun final h₁₃ w₁₃ _ => ?_)
  refine wp_bind.mpr (harmless_require.spec fun _ h₁₄ w₁₄ _ => ?_)
  refine wp_bind.mpr (harmless_requireSource.spec fun _ h₁₅ w₁₅ _ => ?_)
  refine wp_bind.mpr (Harmless.spec (harmless_writeDb ?_) fun _ _ _ _ => trivial)
  exact fun _ => trivial

lemma spec_cleanup :
    Spec S names job keeperId (fun _ _ _ => True) (cleanup S names job keeperId) h w := by
  refine wp_bind.mpr (harmless_requireSource.spec fun _ h₁ w₁ _ => ?_)
  refine wp_bind.mpr (spec_readDb fun start w₂ _ hstart => ?_)
  refine wp_bind.mpr (spec_pinInventory fun batch h₃ w₃ hpinned => ?_)
  have hkeys : start.keys.Nodup := by
    simp only [readStart, Checks.bind_eq_ok_iff, Checks.pure_eq_ok_iff] at hstart
    obtain ⟨keeper, -, pinned, -, rfl⟩ := hstart
    exact namespaceKeys_nodup _ _ _ _
  exact spec_runPlan (start.plan keeperId S.identity batch) rfl hkeys hpinned

end

/-- **Every deletion of a cleanup is authorised**, in every world and whatever the others do
between its actions: the keeper's exact version is never the one deleted; the one deleted was
in the inventory pinned for this cleanup, lies below the prefix at a path no other file holds,
and has a proof that names the keeper and its digest; the keeper was the newest verified
version when it was checked in the transaction of the deletion; and the last listing of every
key is the one expected. -/
theorem cleanup_authorised (S : S3Client β) (names : KeyNames) (job : WorkerJob) (keeperId : RowId)
    (w : CleanupWorld β) (moves : List (Others β job)) :
    Always (AuthorisedAction S names job keeperId)
      ((cleanup S names job keeperId).play Others.move w moves).events := by
  intro h ev h' hev
  obtain ⟨_, _, hG⟩ := (spec_cleanup (h := []) (w := w)).play
    (fun x w => Others.blocked x w) moves |>.2.2 h ev h' hev
  simpa using hG

/-! ### What the fences leave open -/

/-- A bucket of versions that all hold one byte. -/
def listClient : S3Client (List (ObjectKey × ProviderVersionId)) where
  identity := "s3"
  versionPages := fun b key =>
    [.ok ⟨some false, (b.filter fun o => o.1 = key).map fun o => ⟨o.1, some o.2⟩, [], none, none⟩]
  bucketReady := fun _ => true
  get := fun b key version =>
    if (key, version) ∈ b then .ok ⟨some version, false, some 1, false, some [.ok [7]]⟩
    else .error .notFound
  delete := fun b key version => (.ok (), b.erase (key, version))
  sha256 := fun bytes => if bytes = [7] then 7 else 0

/-- The names of a Vault with one path. -/
def onePathNames : KeyNames where
  keyOf := fun _ _ => 0
  pathUnder := fun _ key => if key = 0 then some ['a'] else none

/-- A rename whose replacement was written before inventories were pinned. -/
def renameRow : Job where
  id := 5
  vaultId := 0
  vaultFileId := 0
  path := ['a']
  action := .rename
  status := .uploading
  origin := .manual
  groupId := none
  requestedAt := 0
  pendingUntil := none
  claimToken := some 1
  claimExpiresAt := none

def renameJob : WorkerJob := ⟨renameRow, 1, "/v", "b", "p"⟩

/-- A version of one byte. -/
def byteVersion (id : RowId) (number : ℤ) (key : ObjectKey) (version : ProviderVersionId)
    (sha256 : Option Digest) : ArchiveVersion where
  id := id
  versionNumber := number
  objectKey := key
  providerVersionId := some version
  size := some 1
  storageClass := none
  plaintextSha256 := sha256
  integrity := if sha256.isSome then .verified else .unverified
  availability := .available
  availabilityCheckedAt := none
  restoreState := none
  discoveredAt := 0
  etag := none
  uploadedAt := none
  origin := .upload
  storageClassSource := .upload

/-- A file with an unverified version and its verified replacement. -/
def replacedFile : VaultFile where
  id := 0
  vaultId := 0
  status := .active
  currentPath := some ['a']
  pathSince := 0
  pathHistory := []
  localCopy := none
  versions := [byteVersion 1 1 0 11 none, byteVersion 2 2 0 12 (some 7)]
  deleteMarkers := []

/-- The catalog of the file and its rename. -/
def replacedDb : CleanupDb where
  upload :=
    { cat :=
        { files := [replacedFile]
          jobs := [renameRow]
          items := []
          ids_nodup := by decide
          paths_unique := pairwise_singleton _ _
          versions_unique := by
            simp [VaultFile.versionKeys, KeysDistinct, replacedFile, byteVersion]
          jobIds_nodup := by decide }
      vaults := fun v =>
        if v = 0 then some ⟨"/v", "b", "p", true, .active, .ready, false, none, none⟩ else none
      remediations := []
      intents := []
      intentJobs := []
      receipts := []
      nextUuid := 0
      intentIds_nodup := nodup_nil
      tokens_nodup := nodup_nil
      uuids_lt := UploadIntent.nil_lt
      intentJobs_nodup := nodup_nil }
  snapshots := fun _ => none
  inventories := []
  proofs := []
  moves := []
  blocks := [0]

/-- The rename is about to clean up. -/
def replacedWorld : CleanupWorld (List (ObjectKey × ProviderVersionId)) where
  db := replacedDb
  bucket := [(0, 11), (0, 12)]
  now := 10
  interrupted := none
  jobCancelled := false
  volumeAllows := true
  root := .enrolled
  held := false

/-- `audit_vault_catalog`, where a listing does not show the given versions. -/
def auditMissing (cat : Catalog) (ids : List RowId) : Catalog :=
  cat.mapVersions (fun _ w => if w.id ∈ ids then { w with availability := .missing } else w)
    ⟨fun _ w => by split <;> rfl, fun _ w => by split <;> rfl, fun _ w => by split <;> rfl⟩

/-- Nobody moves. -/
def Others.idle (β : Type) (job : WorkerJob) : Others β job :=
  ⟨id, fun w => ⟨rfl, fun _ => Fenced.refl job w.db⟩⟩

/-- An external writer removes the keeper, and an audit finds it missing. -/
def keeperLost : Others (List (ObjectKey × ProviderVersionId)) renameJob where
  move := fun w => { w with
    bucket := w.bucket.erase (0, 12)
    db := { w.db with upload := { w.db.upload with cat := auditMissing w.db.upload.cat [2] } } }
  blocked := by
    refine fun w => ⟨rfl, fun _ => ⟨fun _ _ => Iff.rfl, fun f' hf' hv p hp => ?_⟩⟩
    obtain ⟨f, hf, rfl⟩ := mem_map.mp hf'
    exact ⟨f, hf, rfl, hv, hp⟩

/-- The stronger property of a deletion: its inventory was there before the cleanup, so before
the replacement was written. -/
def PinnedBefore (db₀ : CleanupDb) : CleanupEvent → Prop
  | .deleted _ _ _ batch _ _ => batch.jobId ∈ db₀.inventories.map CleanupInventory.jobId
  | _ => True

/-- The stronger property of a deletion: at the moment of the call the keeper is the newest
verified version. -/
def KeeperNewest (file : FileId) (keeperId : RowId) : CleanupEvent → Prop
  | .deleted _ _ _ _ _ db => db.newestVerified file = some keeperId
  | _ => True

instance (db₀ : CleanupDb) : DecidablePred (PinnedBefore db₀)
  | .deleted _ _ _ batch _ _ =>
      inferInstanceAs (Decidable (batch.jobId ∈ db₀.inventories.map CleanupInventory.jobId))
  | .checked | .pinRead _ | .pinSaved _ _ | .listed _ _ | .got _ _ | .proved _ _
  | .keeperChecked _ _ | .purged => .isTrue trivial

instance (file : FileId) (keeperId : RowId) : DecidablePred (KeeperNewest file keeperId)
  | .deleted _ _ _ _ _ db =>
      inferInstanceAs (Decidable (db.newestVerified file = some keeperId))
  | .checked | .pinRead _ | .pinSaved _ _ | .listed _ _ | .got _ _ | .proved _ _
  | .keeperChecked _ _ | .purged => .isTrue trivial

/-- The keeper is lost between its check and the call. -/
def overtakenRun : List CleanupEvent :=
  ((cleanup listClient onePathNames renameJob 2).play Others.move replacedWorld
    (List.replicate 28 (Others.idle _ _) ++
      keeperLost :: List.replicate 10 (Others.idle _ _))).events

/-- **The fences leave two gaps.**  A cleanup whose replacement was written without a pinned
inventory pins one itself, and the keeper may be lost between its check and the call. -/
theorem keeper_overtaken :
    replacedDb.newestVerified 0 = some 2 ∧
      ¬Always (fun _ ev => PinnedBefore replacedDb ev) overtakenRun ∧
      ¬Always (fun _ ev => KeeperNewest 0 2 ev) overtakenRun := by
  refine ⟨by decide, fun hall => ?_, fun hall => ?_⟩
  · exact absurd (always_forall_mem hall) (by decide)
  · exact absurd (always_forall_mem hall) (by decide)

end Frostvault
