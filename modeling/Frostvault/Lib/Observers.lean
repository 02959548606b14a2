import Mathlib.Data.List.Nodup
import Mathlib.Data.List.Infix

/-!
Observers of a tree of directories.

A directory has an identity besides its path: a directory that is removed and made again is
another one at the same path.  An observer watches the directories there are when it registers.
It queues what happens in these, so it hears of a directory made later in one of them but of
nothing inside that directory.

* `Tree`, `Tree.perform`: the directories, and what an operation does to them;
* `Tree.perform_effect`: an operation happens in directories that are there, and puts directories
  only below paths whose addition it reports;
* `Covers`: every directory is watched, or the addition of it or of a directory above it has been
  heard of;
* `Covers.perform`: no operation changes that;
* `Covers.heard`: what happens in a tree that is covered is heard of.
-/

namespace Observers

open List

variable {ν : Type*}

/-! ### Trees of directories -/

/-- The directories there are, each with its identity, and the identities not given out yet. -/
structure Tree (ν : Type*) where
  dirs : List (List ν × ℕ)
  next : ℕ
  root_mem : ∃ d, ([], d) ∈ dirs
  closed : ∀ path n d, (path ++ [n], d) ∈ dirs → ∃ e, (path, e) ∈ dirs
  one_path : (dirs.map Prod.fst).Nodup
  one_identity : (dirs.map Prod.snd).Nodup
  fresh : ∀ e ∈ dirs, e.2 < next

/-- A tree with nothing in it. -/
def Tree.empty : Tree ν where
  dirs := [([], 0)]
  next := 1
  root_mem := ⟨0, mem_singleton.mpr rfl⟩
  closed := by simp
  one_path := nodup_singleton _
  one_identity := nodup_singleton _
  fresh := by simp

namespace Tree

variable (t : Tree ν)

/-- There is a directory at a path. -/
def IsDir (path : List ν) : Prop := ∃ e ∈ t.dirs, e.1 = path

/-- An entry can be put under this name: its directory is there and no directory has the name. -/
def Free (dir : List ν) (n : ν) : Prop := t.IsDir dir ∧ ¬ t.IsDir (dir ++ [n])

variable {t}

/-- What is above a directory is a directory. -/
lemma isDir_of_below {p q : List ν} (hpq : p <+: q) (hq : t.IsDir q) : t.IsDir p := by
  obtain ⟨rest, rfl⟩ := hpq
  induction rest using List.reverseRecOn with
  | nil => simpa using hq
  | append_singleton rest n ih =>
      obtain ⟨⟨path, d⟩, he, rfl⟩ := hq
      rw [← append_assoc] at he
      obtain ⟨e, he'⟩ := t.closed _ _ _ he
      exact ih ⟨_, he', rfl⟩

section

variable [DecidableEq ν] (t)

instance decidableIsDir (path : List ν) : Decidable (t.IsDir path) :=
  inferInstanceAs (Decidable (∃ e ∈ t.dirs, e.1 = path))

instance decidableFree (dir : List ν) (n : ν) : Decidable (t.Free dir n) :=
  inferInstanceAs (Decidable (_ ∧ _))

end

end Tree

/-! ### Operations -/

variable {path : List ν}

section Operations

variable [DecidableEq ν]

/-- The kinds of events. -/
inductive Change
  | added
  | modified
  | deleted
deriving DecidableEq, Repr

/-- What an observer reports: a kind and a path. -/
structure Event (ν : Type*) where
  kind : Change
  path : List ν
deriving DecidableEq, Repr

/-- What can happen: something happens to a file, or a directory is made, removed or renamed. -/
inductive Op (ν : Type*)
  | write (kind : Change) (dir : List ν) (n : ν)
  | mkdir (dir : List ν) (n : ν)
  | rmdir (dir : List ν) (n : ν)
  | rename (dir : List ν) (n : ν) (target : List ν) (m : ν)
deriving Repr

/-- The path of what was at or below `source` once that has become `target`. -/
def moved (source target path : List ν) : List ν :=
  if source <+: path then target ++ path.drop source.length else path

@[simp] lemma moved_below (source target rest : List ν) :
    moved source target (source ++ rest) = target ++ rest := by
  simp [moved]

lemma moved_apart {source target : List ν} (h : ¬ source <+: path) :
    moved source target path = path :=
  if_neg h

variable {dir : List ν}

namespace Tree

variable (t : Tree ν)

/-- Make a directory. -/
def mkdir (dir : List ν) (n : ν) (h : t.Free dir n) : Tree ν where
  dirs := t.dirs ++ [(dir ++ [n], t.next)]
  next := t.next + 1
  root_mem := by
    obtain ⟨d, hd⟩ := t.root_mem
    exact ⟨d, mem_append_left _ hd⟩
  closed := by
    intro path m d hd
    rcases mem_append.mp hd with hd | hd
    · obtain ⟨e, he⟩ := t.closed _ _ _ hd
      exact ⟨e, mem_append_left _ he⟩
    · have hpath := (Prod.mk.inj (mem_singleton.mp hd)).1
      obtain rfl := (append_inj' hpath rfl).1
      obtain ⟨⟨_, e⟩, he, rfl⟩ := h.1
      exact ⟨e, mem_append_left _ he⟩
  one_path := by
    rw [map_append]
    refine t.one_path.append (nodup_singleton _) ?_
    intro path hpath hnew
    obtain ⟨e, he, rfl⟩ := mem_map.mp hpath
    exact h.2 ⟨e, he, mem_singleton.mp hnew⟩
  one_identity := by
    rw [map_append]
    refine t.one_identity.append (nodup_singleton _) ?_
    intro d hd hnew
    obtain ⟨e, he, rfl⟩ := mem_map.mp hd
    exact (t.fresh e he).ne (mem_singleton.mp hnew)
  fresh := by
    intro e he
    rcases mem_append.mp he with he | he
    · exact (t.fresh e he).trans (Nat.lt_succ_self _)
    · rw [mem_singleton.mp he]
      exact Nat.lt_succ_self _

/-- A directory that is there, other than the root, with no directory in it. -/
def Empty (dir : List ν) (n : ν) : Prop :=
  t.IsDir (dir ++ [n]) ∧ ∀ e ∈ t.dirs, dir ++ [n] <+: e.1 → e.1 = dir ++ [n]

instance decidableEmpty (dir : List ν) (n : ν) : Decidable (t.Empty dir n) :=
  inferInstanceAs (Decidable (_ ∧ _))

/-- Remove an empty directory. -/
def rmdir (dir : List ν) (n : ν) (h : t.Empty dir n) : Tree ν where
  dirs := t.dirs.filter fun e => e.1 ≠ dir ++ [n]
  next := t.next
  root_mem := by
    obtain ⟨d, hd⟩ := t.root_mem
    exact ⟨d, mem_filter.mpr ⟨hd, by simp⟩⟩
  closed := by
    intro path m d hd
    obtain ⟨hmem, -⟩ := mem_filter.mp hd
    obtain ⟨e, he⟩ := t.closed _ _ _ hmem
    refine ⟨e, mem_filter.mpr ⟨he, decide_eq_true ?_⟩⟩
    rintro rfl
    have := h.2 _ hmem (prefix_append _ _)
    simp at this
  one_path := t.one_path.sublist (filter_sublist.map _)
  one_identity := t.one_identity.sublist (filter_sublist.map _)
  fresh := fun e he => t.fresh e (mem_filter.mp he).1

/-- A directory can be renamed to a free name that is not below it. -/
def Movable (dir : List ν) (n : ν) (target : List ν) (m : ν) : Prop :=
  t.IsDir (dir ++ [n]) ∧ t.Free target m ∧ ¬ dir ++ [n] <+: target ++ [m]

instance decidableMovable (dir : List ν) (n : ν) (target : List ν) (m : ν) :
    Decidable (t.Movable dir n target m) :=
  inferInstanceAs (Decidable (_ ∧ _))

variable {t} in
/-- Two directories keep different paths when one of them, or one above it, is renamed. -/
lemma moved_injOn {target : List ν} {n m : ν} (h : t.Movable dir n target m)
    {p q : List ν} (hp : t.IsDir p) (hq : t.IsDir q)
    (heq : moved (dir ++ [n]) (target ++ [m]) p = moved (dir ++ [n]) (target ++ [m]) q) :
    p = q := by
  -- nothing was at or below the target
  have hfree : ∀ {path : List ν} (rest : List ν), t.IsDir path → target ++ [m] ++ rest ≠ path := by
    rintro path rest hpath rfl
    exact h.2.1.2 (isDir_of_below (prefix_append _ _) hpath)
  by_cases hp' : dir ++ [n] <+: p <;> by_cases hq' : dir ++ [n] <+: q
  · obtain ⟨r, rfl⟩ := hp'
    obtain ⟨s, rfl⟩ := hq'
    rw [moved_below, moved_below] at heq
    rw [append_cancel_left heq]
  · obtain ⟨r, rfl⟩ := hp'
    rw [moved_below, moved_apart hq'] at heq
    exact absurd heq (hfree r hq)
  · obtain ⟨s, rfl⟩ := hq'
    rw [moved_below, moved_apart hp'] at heq
    exact absurd heq.symm (hfree s hp)
  · rwa [moved_apart hp', moved_apart hq'] at heq

/-- Rename a directory, with all that is below it. -/
def rename (dir : List ν) (n : ν) (target : List ν) (m : ν) (h : t.Movable dir n target m) :
    Tree ν where
  dirs := t.dirs.map fun e => (moved (dir ++ [n]) (target ++ [m]) e.1, e.2)
  next := t.next
  root_mem := by
    obtain ⟨d, hd⟩ := t.root_mem
    exact ⟨d, mem_map.mpr ⟨_, hd, by simp [moved]⟩⟩
  closed := by
    intro path x d hd
    obtain ⟨⟨q, d'⟩, hq, heq⟩ := mem_map.mp hd
    obtain ⟨hpath, rfl⟩ := Prod.mk.inj heq
    by_cases hbelow : dir ++ [n] <+: q
    · obtain ⟨rest, rfl⟩ := hbelow
      rw [moved_below] at hpath
      cases rest using List.reverseRecOn with
      | nil =>
          -- the renamed directory itself: its new parent was there, and is not below it
          rw [append_nil] at hpath
          have hdir : target = path := (append_inj' hpath rfl).1
          obtain ⟨e, he, htarget⟩ := h.2.1.1
          have hapart : ¬ dir ++ [n] <+: target :=
            fun hp => h.2.2 (hp.trans (prefix_append _ _))
          refine ⟨e.2, mem_map.mpr ⟨e, he, ?_⟩⟩
          rw [htarget, moved_apart hapart, hdir]
      | append_singleton rest y =>
          rw [← append_assoc] at hpath hq
          obtain rfl := (append_inj' hpath rfl).1
          obtain ⟨e, he⟩ := t.closed _ _ _ hq
          exact ⟨e, mem_map.mpr ⟨_, he, by rw [moved_below]⟩⟩
    · rw [moved_apart hbelow] at hpath
      subst hpath
      obtain ⟨e, he⟩ := t.closed _ _ _ hq
      refine ⟨e, mem_map.mpr ⟨_, he, ?_⟩⟩
      have hapart : ¬ dir ++ [n] <+: path :=
        fun hp => hbelow (hp.trans (prefix_append _ _))
      simp only [moved_apart hapart]
  one_path := by
    have hmap : (t.dirs.map fun e => (moved (dir ++ [n]) (target ++ [m]) e.1, e.2)).map Prod.fst
        = (t.dirs.map Prod.fst).map (moved (dir ++ [n]) (target ++ [m])) := by
      simp
    rw [hmap]
    refine List.Nodup.map_on ?_ t.one_path
    intro p hp q hq heq
    obtain ⟨e, he, rfl⟩ := mem_map.mp hp
    obtain ⟨f, hf, rfl⟩ := mem_map.mp hq
    exact moved_injOn h ⟨e, he, rfl⟩ ⟨f, hf, rfl⟩ heq
  one_identity := by
    have hmap : (t.dirs.map fun e => (moved (dir ++ [n]) (target ++ [m]) e.1, e.2)).map Prod.snd
        = t.dirs.map Prod.snd := by
      simp
    rw [hmap]
    exact t.one_identity
  fresh := by
    intro e he
    obtain ⟨f, hf, rfl⟩ := mem_map.mp he
    exact t.fresh f hf

/-- Something that happens to an entry, with the directory it happens in. -/
def happens (kind : Change) (dir : List ν) (n : ν) : List (ℕ × Event ν) :=
  (t.dirs.filter fun e => e.1 = dir).map fun e => (e.2, ⟨kind, dir ++ [n]⟩)

/-- An operation, when it is possible, with what happens in which directory. -/
def perform : Op ν → Option (Tree ν × List (ℕ × Event ν))
  | .write kind dir n =>
      if t.Free dir n then some (t, t.happens kind dir n) else none
  | .mkdir dir n =>
      if h : t.Free dir n then some (t.mkdir dir n h, t.happens .added dir n) else none
  | .rmdir dir n =>
      if h : t.Empty dir n then some (t.rmdir dir n h, t.happens .deleted dir n) else none
  | .rename dir n target m =>
      if h : t.Movable dir n target m then
        some (t.rename dir n target m h,
          t.happens .deleted dir n ++ t.happens .added target m)
      else none

end Tree

/-! ### What an operation does -/

/-- What observers rely on: everything happens in a directory that was there, and a directory
that is somewhere else than before is at or below a path whose addition happens. -/
structure Effect (t t' : Tree ν) (evs : List (ℕ × Event ν)) : Prop where
  within : ∀ x ∈ evs, ∃ e ∈ t.dirs, e.2 = x.1 ∧ e.1 <+: x.2.path
  placed : ∀ e ∈ t'.dirs, e ∈ t.dirs ∨ ∃ x ∈ evs, x.2.kind = .added ∧ x.2.path <+: e.1

namespace Tree

variable {t t' : Tree ν}

lemma mem_happens {kind : Change} {n : ν} {x : ℕ × Event ν} :
    x ∈ t.happens kind dir n ↔ (dir, x.1) ∈ t.dirs ∧ x.2 = ⟨kind, dir ++ [n]⟩ := by
  simp only [happens, mem_map, mem_filter, decide_eq_true_eq]
  constructor
  · rintro ⟨⟨p, d⟩, ⟨he, rfl⟩, rfl⟩
    exact ⟨he, rfl⟩
  · rintro ⟨he, hx⟩
    exact ⟨(dir, x.1), ⟨he, rfl⟩, by rw [← hx]⟩

/-- An entry of a directory lies below it. -/
lemma within_happens {kind : Change} {n : ν} :
    ∀ x ∈ t.happens kind dir n, ∃ e ∈ t.dirs, e.2 = x.1 ∧ e.1 <+: x.2.path := by
  intro x hx
  obtain ⟨hmem, hpath⟩ := mem_happens.mp hx
  exact ⟨_, hmem, rfl, by rw [hpath]; exact prefix_append _ _⟩

/-- What happens to an entry of a directory that is there does happen. -/
lemma exists_happens {kind : Change} {n : ν} (h : t.IsDir dir) :
    ∃ x ∈ t.happens kind dir n, x.2 = ⟨kind, dir ++ [n]⟩ := by
  obtain ⟨e, he, rfl⟩ := h
  exact ⟨(e.2, ⟨kind, e.1 ++ [n]⟩), mem_happens.mpr ⟨he, rfl⟩, rfl⟩

/-- A directory that comes to be at or below an entry is placed by the addition of the entry. -/
lemma placed_of_added {evs : List (ℕ × Event ν)} {n : ν} (h : t.IsDir dir)
    (hevs : ∀ x ∈ t.happens .added dir n, x ∈ evs) (hpath : dir ++ [n] <+: path) :
    ∃ x ∈ evs, x.2.kind = .added ∧ x.2.path <+: path := by
  obtain ⟨x, hx, hev⟩ := exists_happens h
  exact ⟨x, hevs x hx, by rw [hev], by rw [hev]; exact hpath⟩

/-- **What an operation does to a tree.** -/
theorem perform_effect {op : Op ν} {evs : List (ℕ × Event ν)}
    (h : t.perform op = some (t', evs)) : Effect t t' evs := by
  cases op with
  | write kind dir n =>
      obtain ⟨-, heq⟩ := Option.ite_none_right_eq_some.mp h
      cases heq
      exact ⟨within_happens, fun e he => .inl he⟩
  | mkdir dir n =>
      obtain ⟨hfree, heq⟩ := Option.dite_none_right_eq_some.mp h
      cases heq
      refine ⟨within_happens, fun e he => ?_⟩
      rcases mem_append.mp he with he | he
      · exact .inl he
      · rw [mem_singleton.mp he]
        exact .inr (placed_of_added hfree.1 (fun _ hx => hx) (prefix_refl _))
  | rmdir dir n =>
      obtain ⟨hempty, heq⟩ := Option.dite_none_right_eq_some.mp h
      cases heq
      exact ⟨within_happens, fun e he => .inl (mem_filter.mp he).1⟩
  | rename dir n target m =>
      obtain ⟨hmove, heq⟩ := Option.dite_none_right_eq_some.mp h
      cases heq
      refine ⟨fun x hx => ?_, fun e he => ?_⟩
      · rcases mem_append.mp hx with hx | hx <;> exact within_happens x hx
      · obtain ⟨f, hf, rfl⟩ := mem_map.mp he
        by_cases hbelow : dir ++ [n] <+: f.1
        · refine .inr (placed_of_added hmove.2.1.1 (fun _ hx => mem_append_right _ hx) ?_)
          obtain ⟨rest, hrest⟩ := hbelow
          rw [← hrest, moved_below]
          exact prefix_append _ _
        · rw [moved_apart hbelow]
          exact .inl hf

end Tree

end Operations

/-! ### Observers -/

/-- An observer: the directories it watches and what it has not delivered yet. -/
structure Observer (ν : Type*) where
  watched : List ℕ
  queue : List (Event ν)
deriving DecidableEq, Repr

/-- An observer watches the directories there are when it registers. -/
def register (t : Tree ν) : Observer ν := ⟨t.dirs.map Prod.snd, []⟩

/-- An observer queues what happens in the directories it watches. -/
def Observer.see (o : Observer ν) (evs : List (ℕ × Event ν)) : Observer ν :=
  { o with queue := o.queue ++ (evs.filter fun x => x.1 ∈ o.watched).map Prod.snd }

/-- What is queued is delivered. -/
def Observer.drain (o : Observer ν) : Observer ν := { o with queue := [] }

/-- A path at or below one whose addition is reported. -/
def Announced (evs : List (Event ν)) (path : List ν) : Prop :=
  ∃ ev ∈ evs, ev.kind = .added ∧ ev.path <+: path

instance decidableAnnounced [DecidableEq ν] (evs : List (Event ν)) (path : List ν) :
    Decidable (Announced evs path) :=
  inferInstanceAs (Decidable (∃ ev ∈ evs, ev.kind = .added ∧ ev.path <+: path))

lemma Announced.mono {evs evs' : List (Event ν)} (hsub : ∀ ev ∈ evs, ev ∈ evs')
    (h : Announced evs path) : Announced evs' path := by
  obtain ⟨ev, hev, hadded, hpath⟩ := h
  exact ⟨ev, hsub ev hev, hadded, hpath⟩

lemma Announced.below {evs : List (Event ν)} {path' : List ν} (h : Announced evs path)
    (hpath : path <+: path') : Announced evs path' := by
  obtain ⟨ev, hev, hadded, habove⟩ := h
  exact ⟨ev, hev, hadded, habove.trans hpath⟩

/-- Every directory is watched, or the addition of it or of one above it is among what was seen
so far or is queued. -/
def Covers (o : Observer ν) (t : Tree ν) (seen : List (Event ν)) : Prop :=
  ∀ e ∈ t.dirs, e.2 ∈ o.watched ∨ Announced (seen ++ o.queue) e.1

variable {o : Observer ν} {t t' : Tree ν} {seen seen' : List (Event ν)}
  {evs : List (ℕ × Event ν)}

/-- An observer that has just registered watches every directory. -/
lemma covers_register (t : Tree ν) : Covers (register t) t [] :=
  fun _ he => .inl (mem_map_of_mem he)

lemma Covers.mono (h : Covers o t seen) (hsub : ∀ ev ∈ seen, ev ∈ seen') : Covers o t seen' := by
  intro e he
  refine (h e he).imp_right (Announced.mono fun ev hev => ?_)
  exact mem_append.mpr ((mem_append.mp hev).imp_left (hsub ev))

lemma Covers.drain (h : Covers o t seen) : Covers o.drain t (seen ++ o.queue) := by
  intro e he
  simpa [Observer.drain] using h e he

lemma mem_queue_see {ev : Event ν} :
    ev ∈ (o.see evs).queue ↔ ev ∈ o.queue ∨ ∃ x ∈ evs, x.1 ∈ o.watched ∧ x.2 = ev := by
  simp [Observer.see, mem_append]

/-- An observer forgets nothing by what happens next. -/
lemma subset_queue_see (seen : List (Event ν)) (o : Observer ν) (evs : List (ℕ × Event ν)) :
    ∀ ev ∈ seen ++ o.queue, ev ∈ seen ++ (o.see evs).queue := by
  intro ev hev
  rcases mem_append.mp hev with hev | hev
  · exact mem_append_left _ hev
  · exact mem_append_right _ (mem_queue_see.mpr (.inl hev))

/-- **What happens in a covered tree is heard of**: it is queued, or it lies below a directory
whose addition has been heard of. -/
theorem Covers.heard (h : Covers o t seen) (heff : Effect t t' evs) {x : ℕ × Event ν}
    (hx : x ∈ evs) :
    x.2 ∈ (o.see evs).queue ∨ Announced (seen ++ (o.see evs).queue) x.2.path := by
  obtain ⟨e, he, hid, hpath⟩ := heff.within x hx
  rcases h e he with hwatched | hann
  · exact .inl (mem_queue_see.mpr (.inr ⟨x, hx, hid ▸ hwatched, rfl⟩))
  · exact .inr ((hann.mono (subset_queue_see seen o evs)).below hpath)

/-- **No operation uncovers a directory.** -/
theorem Covers.perform (h : Covers o t seen) (heff : Effect t t' evs) :
    Covers (o.see evs) t' seen := by
  intro e he
  rcases heff.placed e he with hold | ⟨x, hx, hadded, hpath⟩
  · exact (h e hold).imp_right (Announced.mono (subset_queue_see seen o evs))
  · -- a directory put somewhere else: that was reported, or happened where nothing is watched
    right
    rcases h.heard heff hx with hq | hann
    · exact ⟨x.2, mem_append_right _ hq, hadded, hpath⟩
    · exact hann.below hpath

end Observers
