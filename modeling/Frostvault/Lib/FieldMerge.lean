import Mathlib.Data.List.Induction
import Mathlib.Data.List.Pairwise
import Mathlib.Data.Option.Basic

/-!
Records that are merged field by field, and do not contradict each other.

Values are compared by an equality of their own, `same`, that is symmetric and transitive; it
may tell a value from itself.  Of values that are the same, the last one stays.

* `Record`, `get`, `set`: a dictionary;
* `mergeAll`: one field after the other, `none` when a field differs;
* `mergeAll_isSome_iff`: it succeeds on entries of which no two contradict each other;
* `mergeAll_perm`: **the order of the entries does not matter**;
* `mergeAll_append`: **more entries never take a field away or change it**.
-/

namespace FieldMerge

variable {κ β : Type*} [DecidableEq κ]

/-- A dictionary. -/
abbrev Record (κ β : Type*) := List (κ × β)

/-- `record.get(key)`. -/
def get (r : Record κ β) (k : κ) : Option β := (r.find? fun e => e.1 = k).map Prod.snd

/-- `record[key] = value`. -/
def set (r : Record κ β) (k : κ) (v : β) : Record κ β :=
  if (get r k).isSome then r.map fun e => if e.1 = k then (k, v) else e else r ++ [(k, v)]

@[simp]
lemma get_nil (k : κ) : get ([] : Record κ β) k = none := rfl

lemma get_cons (e : κ × β) (r : Record κ β) (k : κ) :
    get (e :: r) k = if e.1 = k then some e.2 else get r k := by
  rw [get, List.find?_cons]
  by_cases h : e.1 = k
  · simp [h]
  · simp [h, get]

lemma get_append (r r' : Record κ β) (k : κ) :
    get (r ++ r') k = (get r k).or (get r' k) := by
  induction r with
  | nil => rfl
  | cons e r ih =>
      rw [List.cons_append, get_cons, get_cons, ih]
      split <;> rfl

lemma get_map_replace (r : Record κ β) (k : κ) (v : β) (j : κ) :
    get (r.map fun e => if e.1 = k then (k, v) else e) j =
      if j = k then (get r k).map fun _ => v else get r j := by
  induction r with
  | nil => simp
  | cons e r ih =>
      rw [List.map_cons, get_cons, ih, get_cons, get_cons]
      by_cases hek : e.1 = k
      · by_cases hjk : j = k
        · simp [hek, hjk]
        · simp [hek, hjk, Ne.symm hjk]
      · by_cases hjk : j = k
        · simp [hek, hjk]
        · simp [hek, hjk]

lemma get_set (r : Record κ β) (k : κ) (v : β) (j : κ) :
    get (set r k v) j = if j = k then some v else get r j := by
  rw [set]
  split
  · rename_i hsome
    obtain ⟨w, hw⟩ := Option.isSome_iff_exists.mp hsome
    rw [get_map_replace, hw]
    rfl
  · rename_i hnone
    rw [get_append, get_cons, get_nil]
    by_cases hjk : j = k
    · subst hjk
      rw [Option.not_isSome_iff_eq_none.mp hnone]
      simp
    · simp [hjk, Ne.symm hjk]

/-! ### Merging -/

variable (same : β → β → Bool)

/-- One field: `none` when the record has another value there. -/
def mergeEntry (r : Record κ β) (e : κ × β) : Option (Record κ β) :=
  match get r e.1 with
  | some v => if same v e.2 then some (set r e.1 e.2) else none
  | none => some (set r e.1 e.2)

/-- All fields. -/
def mergeAll (es : List (κ × β)) : Option (Record κ β) := es.foldlM (mergeEntry same) []

/-- Two entries of one field have the same value. -/
def Compatible (a b : κ × β) : Prop := a.1 = b.1 → same a.2 b.2 = true

/-- No two entries contradict each other. -/
def Agreeing (es : List (κ × β)) : Prop := es.Pairwise (Compatible same)

/-- One value, or two that are the same. -/
def Near (v w : β) : Prop := v = w ∨ same v w = true

/-- Every field of a record is in another one. -/
def Extends (r r' : Record κ β) : Prop :=
  ∀ k v, get r k = some v → ∃ w, get r' k = some w ∧ Near same v w

/-- Two records have the same fields. -/
def Agrees (r r' : Record κ β) : Prop := Extends same r r' ∧ Extends same r' r

/-- What a merged record says about the entries it is made of. -/
structure MergeOf (es : List (κ × β)) (r : Record κ β) : Prop where
  mem : ∀ k v, get r k = some v → (k, v) ∈ es
  near : ∀ e ∈ es, ∃ w, get r e.1 = some w ∧ Near same e.2 w

variable {same}

lemma Near.refl (v : β) : Near same v v := .inl rfl

lemma Near.symm (hsymm : ∀ v w, same v w → same w v) {v w : β} (h : Near same v w) :
    Near same w v :=
  h.imp Eq.symm (hsymm v w)

lemma Near.trans (htrans : ∀ u v w, same u v → same v w → same u w) {u v w : β} (h : Near same u v)
    (h' : Near same v w) : Near same u w := by
  rcases h with rfl | h
  · exact h'
  · rcases h' with rfl | h'
    · exact .inr h
    · exact .inr (htrans u v w h h')

lemma mergeAll_append_eq (es es' : List (κ × β)) :
    mergeAll same (es ++ es') = (mergeAll same es).bind fun r => es'.foldlM (mergeEntry same) r :=
  List.foldlM_append

lemma mergeAll_concat (es : List (κ × β)) (e : κ × β) :
    mergeAll same (es ++ [e]) = (mergeAll same es).bind fun r => mergeEntry same r e := by
  rw [mergeAll_append_eq]
  congr 1
  funext r
  rw [List.foldlM_cons]
  exact Option.bind_fun_some _

variable {es : List (κ × β)}

section

variable (htrans : ∀ u v w, same u v → same v w → same u w)

include htrans

/-- **A merged record** has the fields of its entries, and the entries agree. -/
lemma mergeAll_spec {r : Record κ β} (h : mergeAll same es = some r) :
    Agreeing same es ∧ MergeOf same es r := by
  induction es using List.reverseRecOn generalizing r with
  | nil =>
      cases h
      exact ⟨List.Pairwise.nil, by simp, by simp⟩
  | append_singleton es e ih =>
      rw [mergeAll_concat, Option.bind_eq_some_iff] at h
      obtain ⟨r', hr', he⟩ := h
      obtain ⟨hagree, hmem, hnear⟩ := ih hr'
      -- the entry is the same as the value before it, if there is one
      have hstep : r = set r' e.1 e.2 ∧ ∀ v, get r' e.1 = some v → same v e.2 := by
        rw [mergeEntry] at he
        split at he
        · rename_i v hv
          split at he
          · rename_i hsame
            refine ⟨(Option.some.inj he).symm, fun w hw => ?_⟩
            rw [hv] at hw
            exact Option.some.inj hw ▸ hsame
          · cases he
        · rename_i hnone
          refine ⟨(Option.some.inj he).symm, fun w hw => ?_⟩
          rw [hnone] at hw
          cases hw
      obtain ⟨rfl, hsame⟩ := hstep
      have hnew : ∀ a ∈ es, a.1 = e.1 → same a.2 e.2 := by
        intro a ha hkey
        obtain ⟨w, hw, haw⟩ := hnear a ha
        have hlast := hsame w (hkey ▸ hw)
        rcases haw with haw | haw
        · exact haw ▸ hlast
        · exact htrans _ _ _ haw hlast
      refine ⟨?_, ⟨fun k v hkv => ?_, fun a ha => ?_⟩⟩
      · refine List.pairwise_append.mpr ⟨hagree, List.pairwise_singleton _ _, ?_⟩
        intro a ha b hb hkey
        rw [List.mem_singleton.mp hb] at hkey ⊢
        exact hnew a ha hkey
      · rw [get_set] at hkv
        split at hkv
        · rename_i hk
          rw [List.mem_append, List.mem_singleton]
          refine .inr ?_
          rw [hk, ← Option.some.inj hkv]
        · exact List.mem_append_left _ (hmem k v hkv)
      · rw [get_set]
        split
        · rename_i hkey
          refine ⟨e.2, rfl, ?_⟩
          rcases List.mem_append.mp ha with ha | ha
          · exact .inr (hnew a ha hkey)
          · rw [List.mem_singleton.mp ha]
            exact Near.refl _
        · rename_i hkey
          rcases List.mem_append.mp ha with ha | ha
          · exact hnear a ha
          · rw [List.mem_singleton.mp ha] at hkey
            exact absurd rfl hkey

lemma Agreeing.mergeAll (h : Agreeing same es) : ∃ r, mergeAll same es = some r := by
  induction es using List.reverseRecOn with
  | nil => exact ⟨[], rfl⟩
  | append_singleton es e ih =>
      obtain ⟨hes, -, hnew⟩ := List.pairwise_append.mp h
      obtain ⟨r, hr⟩ := ih hes
      refine ⟨set r e.1 e.2, ?_⟩
      rw [mergeAll_concat, hr, Option.bind_some, mergeEntry]
      split
      · rename_i v hv
        have hmem := (mergeAll_spec htrans hr).2.mem e.1 v hv
        rw [if_pos (hnew (e.1, v) hmem e (List.mem_singleton_self e) rfl)]
      · rfl

/-- **Merging succeeds** on entries of which no two contradict each other. -/
theorem mergeAll_isSome_iff : (mergeAll same es).isSome ↔ Agreeing same es := by
  constructor
  · intro h
    obtain ⟨r, hr⟩ := Option.isSome_iff_exists.mp h
    exact (mergeAll_spec htrans hr).1
  · intro h
    obtain ⟨r, hr⟩ := h.mergeAll htrans
    rw [hr]
    rfl

end

/-- A record of some entries extends one of fewer. -/
lemma MergeOf.extends (hsub : ∀ e ∈ es, e ∈ es') {r r' : Record κ β} (h : MergeOf same es r)
    (h' : MergeOf same es' r') :
    Extends same r r' := by
  intro k v hv
  exact h'.near (k, v) (hsub _ (h.mem k v hv))

/-- **The order of the entries does not matter.** -/
theorem mergeAll_perm (hsymm : ∀ v w, same v w → same w v)
    (htrans : ∀ u v w, same u v → same v w → same u w) {es' : List (κ × β)} (h : es.Perm es') :
    Option.Rel (Agrees same) (mergeAll same es) (mergeAll same es') := by
  have hagree : Agreeing same es ↔ Agreeing same es' :=
    h.pairwise_iff fun {a b} hab hkey => hsymm _ _ (hab hkey.symm)
  by_cases hes : Agreeing same es
  · obtain ⟨r, hr⟩ := hes.mergeAll htrans
    obtain ⟨r', hr'⟩ := (hagree.mp hes).mergeAll htrans
    have hof := (mergeAll_spec htrans hr).2
    have hof' := (mergeAll_spec htrans hr').2
    rw [hr, hr']
    exact .some ⟨hof.extends (fun _ he => h.subset he) hof',
      hof'.extends (fun _ he => h.symm.subset he) hof⟩
  · have hnone : mergeAll same es = none := by
      rw [← Option.not_isSome_iff_eq_none, mergeAll_isSome_iff htrans]
      exact hes
    have hnone' : mergeAll same es' = none := by
      rw [← Option.not_isSome_iff_eq_none, mergeAll_isSome_iff htrans, ← hagree]
      exact hes
    rw [hnone, hnone']
    exact .none

/-- **More entries never take a field away or change it**: they are merged into what is there. -/
theorem mergeAll_append (htrans : ∀ u v w, same u v → same v w → same u w) {es' : List (κ × β)}
    {r' : Record κ β} (h : mergeAll same (es ++ es') = some r') :
    ∃ r, mergeAll same es = some r ∧ Extends same r r' := by
  obtain ⟨hagree, hof'⟩ := mergeAll_spec htrans h
  obtain ⟨r, hr⟩ := Agreeing.mergeAll htrans (List.pairwise_append.mp hagree).1
  exact ⟨r, hr, (mergeAll_spec htrans hr).2.extends (fun _ he => List.mem_append_left _ he) hof'⟩

end FieldMerge
