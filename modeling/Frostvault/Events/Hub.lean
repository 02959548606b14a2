import Frostvault.Events.Stream

/-!
The fan-out of invalidations inside the process (`app/services/catalog_event_hub.py`), for one
subscriber.  Publishers are threads of their own: a signal reaches the queue in a callback of the
loop of the subscriber, or at once from that loop, and the stream takes from the queue meanwhile.

* `Subscriber.offer`: what waits is taken out, merged with the signal and put back;
* `HubView.step`: the turns of publishers, callbacks and the stream, in any order;
* `fanOut_conserves`: **no signal is lost or doubled before the subscriber is closed**.
-/

namespace Frostvault

/-- `_Subscriber`.  The queue has no limit, so `put_nowait` does not fail. -/
structure Subscriber where
  queue : List (Option Signal)
  closed : Bool

/-- `offer`.  A merge that raises has lost what waited. -/
def Subscriber.offer (s : Subscriber) (signal : Signal) : Subscriber :=
  if s.closed then s
  else match s.queue with
    | [] => { s with queue := [some signal] }
    | none :: rest => { s with queue := rest ++ [some signal] }
    | some pending :: rest =>
        match coalesceSignals [pending, signal] with
        | .ok (some merged) => { s with queue := rest ++ [some merged] }
        | _ => { s with queue := rest }

/-- `close`. -/
def Subscriber.close (s : Subscriber) : Subscriber :=
  if s.closed then s else { queue := s.queue ++ [none], closed := true }

/-- A subscriber with the callbacks of its loop, and what was published for it and what its stream
took so far. -/
structure HubView where
  sub : Subscriber
  callbacks : List Signal
  published : List Signal
  taken : List Signal

/-- `subscribe`. -/
def HubView.fresh : HubView := ⟨⟨[], false⟩, [], [], []⟩

/-- Whose turn it is. -/
inductive HubAct
  /-- The turn of the subscriber in `publish`; `direct` when its loop is the running one. -/
  | publish (e : CatalogEvent) (direct : Bool)
  | callback
  | take
  | close

/-- One turn, for a subscriber of a Vault. -/
def HubView.step (loads : String → Option Invalidations) (v : VaultId) (w : HubView) :
    HubAct → HubView
  | .publish e direct =>
      let x := signalFromEvent loads e
      if e.vaultId ≠ v then w
      else if direct then { w with sub := w.sub.offer x, published := w.published ++ [x] }
      else { w with callbacks := w.callbacks ++ [x], published := w.published ++ [x] }
  | .callback =>
      match w.callbacks with
      | [] => w
      | x :: rest => { w with sub := w.sub.offer x, callbacks := rest }
  | .take =>
      match w.sub.queue with
      | [] => w
      | none :: rest => { w with sub := { w.sub with queue := rest } }
      | some m :: rest =>
          { w with sub := { w.sub with queue := rest }, taken := w.taken ++ [m] }
  | .close => { w with sub := w.sub.close }

variable {loads : String → Option Invalidations} {v : VaultId} {w : HubView}
  {ss : List Signal} {m m' x : Signal}

lemma Merges.merged (h : Merges v ss m) (h' : Merges v [m, x] m') : Merges v (ss ++ [x]) m' where
  vault := h'.vault
  newest := by
    obtain ⟨s, hs, hrevision⟩ := h'.newest
    obtain ⟨s₀, hs₀, hrevision₀⟩ := h.newest
    rcases List.mem_pair.mp hs with rfl | rfl
    · exact ⟨s₀, List.mem_append_left _ hs₀, hrevision.trans hrevision₀⟩
    · exact ⟨s, by simp, hrevision⟩
  bound s hs := by
    rcases List.mem_append.mp hs with hs | hs
    · exact (h.bound s hs).trans (h'.bound m (by simp))
    · exact h'.bound s (by simp [List.mem_singleton.mp hs])
  domains s hs d hd := by
    rcases List.mem_append.mp hs with hs | hs
    · exact h'.domains m (by simp) d (h.domains s hs d hd)
    · exact h'.domains s (by simp [List.mem_singleton.mp hs]) d hd
  clean := h'.clean
  gap := h'.gap

/-- What waits in the queue, merged. -/
def Waits (v : VaultId) (pending : List Signal) (queue : List (Option Signal)) : Prop :=
  queue = [] ∧ pending = [] ∨ ∃ m, queue = [some m] ∧ Merges v pending m

/-- The signals so far: batches the stream took merged, one that waits, and the callbacks. -/
structure Fanned (v : VaultId) (w : HubView) : Prop where
  alone : ∀ x ∈ w.callbacks, Merges v [x] x
  parts : w.sub.closed = false → ∃ batches pending, List.Forall₂ (Merges v) batches w.taken ∧
    Waits v pending w.sub.queue ∧ (batches.flatten ++ pending ++ w.callbacks).Perm w.published

/-- **An offer merges the signal with what waits.** -/
lemma offer_waits {s : Subscriber} (hopen : s.closed = false) (hw : Waits v ss s.queue)
    (hx : Merges v [x] x) : Waits v (ss ++ [x]) (s.offer x).queue := by
  rw [Subscriber.offer, if_neg (by simp [hopen])]
  rcases hw with ⟨hq, rfl⟩ | ⟨m, hq, hm⟩
  · rw [hq]
    exact .inr ⟨x, rfl, hx⟩
  · obtain ⟨m', hmerged, hm'⟩ := @coalesceSignals_spec v m [x]
      (by simp [hm.vault, hx.vault]) (by simp [hm.gap, hx.gap])
      (by simpa using ⟨hm.clean, hx.clean⟩)
    rw [hq]
    dsimp only
    rw [hmerged]
    exact .inr ⟨m', rfl, hm.merged hm'⟩

lemma offer_closed (s : Subscriber) (x : Signal) : (s.offer x).closed = s.closed := by
  rw [Subscriber.offer]
  repeat' split
  all_goals rfl

lemma fanned_offer {rest : List Signal} (h : Fanned v { w with callbacks := x :: rest }) :
    Fanned v { w with sub := w.sub.offer x, callbacks := rest } := by
  refine ⟨fun y hy => h.alone y (List.mem_cons_of_mem x hy), fun hopen => ?_⟩
  rw [offer_closed] at hopen
  obtain ⟨batches, pending, hb, hp, hperm⟩ := h.parts hopen
  exact ⟨batches, pending ++ [x], hb, offer_waits hopen hp (h.alone x List.mem_cons_self),
    by simpa using hperm⟩

lemma fanned_publish {l : List Signal} (h : Fanned v w) (hx : Merges v [x] x)
    (hl : l.Perm (w.callbacks ++ [x])) :
    Fanned v { w with callbacks := l, published := w.published ++ [x] } := by
  refine ⟨fun y hy => ?_, fun hopen => ?_⟩
  · rcases List.mem_append.mp (hl.subset hy) with hy | hy
    · exact h.alone y hy
    · exact List.mem_singleton.mp hy ▸ hx
  · obtain ⟨batches, pending, hb, hp, hperm⟩ := h.parts hopen
    refine ⟨batches, pending, hb, hp, (hl.append_left _).trans ?_⟩
    rw [← List.append_assoc]
    exact hperm.append_right _

/-- **One turn.** -/
lemma fanned_step (h : Fanned v w) (a : HubAct) : Fanned v (w.step loads v a) := by
  obtain ⟨sub, callbacks, published, taken⟩ := w
  cases a with
  | publish e direct =>
      dsimp only [HubView.step]
      split_ifs with hv hdirect
      · exact h
      all_goals
        have hx : Merges v [signalFromEvent loads e] (signalFromEvent loads e) :=
          ⟨not_not.mp hv, ⟨_, by simp, rfl⟩, by simp, by simp, clean_invalidates loads e, rfl⟩
      · exact fanned_offer (w := ⟨sub, callbacks, published ++ [signalFromEvent loads e], taken⟩)
          (fanned_publish h hx (List.perm_append_singleton _ _).symm)
      · exact fanned_publish h hx (.refl _)
  | callback =>
      cases callbacks with
      | nil => exact h
      | cons x rest => exact fanned_offer h
  | take =>
      dsimp only [HubView.step]
      split
      · exact h
      all_goals
        rename_i hq
        refine ⟨h.alone, fun hopen => ?_⟩
        obtain ⟨batches, pending, hb, ⟨hnil, -⟩ | ⟨m', hm', hp⟩, hperm⟩ := h.parts hopen
      · simp [hq] at hnil
      · simp [hq] at hm'
      · simp [hq] at hnil
      · obtain ⟨rfl, rfl⟩ : _ = m' ∧ _ = [] := by simpa [hq] using hm'
        exact ⟨batches ++ [pending], [], List.rel_append hb (.cons hp .nil), .inl ⟨rfl, rfl⟩,
          by simpa using hperm⟩
  | close =>
      refine ⟨h.alone, fun hopen => ?_⟩
      cases hclosed : sub.closed <;> simp [HubView.step, Subscriber.close, hclosed] at hopen

/-- **The fan-out loses nothing and doubles nothing**, in whatever order publishers, callbacks and
the stream take turns: until the subscriber is closed, what was published falls into one batch for
each signal the stream took, one that waits, and the callbacks.  The signal of a batch has its
newest revision and lists all its domains. -/
theorem fanOut_conserves (loads : String → Option Invalidations) (v : VaultId)
    (acts : List HubAct) : Fanned v (acts.foldl (HubView.step loads v) .fresh) := by
  have hrun (w : HubView) (h : Fanned v w) : Fanned v (acts.foldl (HubView.step loads v) w) := by
    induction acts generalizing w with
    | nil => exact h
    | cons a acts ih => exact ih _ (fanned_step h a)
  exact hrun _ ⟨by simp [HubView.fresh], fun _ => ⟨[], [], .nil, .inl ⟨rfl, rfl⟩, .refl _⟩⟩

end Frostvault
