import Frostvault.Lib.Json
import Mathlib.Data.List.Sort

/-!
What Python's `==`, `bool` and `sort_keys` make of the values of `Json`.

* `Json.same`: equality; numbers are equal by their value, and `NaN` is equal to nothing;
* `Json.same_symm`, `Json.same_trans`: it is symmetric and transitive;
* `Json.truthy`: what counts as true; equal values do so alike;
* `Json.sorted`: the members of every object in the order of their keys.
-/

namespace Json

/-- A number by its exact value; `NaN` has none. -/
def number : Json → Option Binary64
  | .bool b => some (.finite (if b then 1 else 0))
  | .int n => some (.finite n)
  | .float .nan => none
  | .float x => some x
  | _ => none

/-- Two values of which the first one is a number. -/
def sameNumber (v w : Json) : Bool := v.number.isSome && v.number == w.number

mutual

/-- `v == w`.  Members are compared in their order, which is that of their keys. -/
def same : Json → Json → Bool
  | .null, .null => true
  | .str s, .str t => s == t
  | .arr vs, .arr ws => sameElements vs ws
  | .obj ms, .obj ns => sameMembers ms ns
  | .bool b, w => sameNumber (.bool b) w
  | .int n, w => sameNumber (.int n) w
  | .float x, w => sameNumber (.float x) w
  | _, _ => false

/-- Equality of lists. -/
def sameElements : List Json → List Json → Bool
  | [], [] => true
  | v :: vs, w :: ws => same v w && sameElements vs ws
  | _, _ => false

/-- Equality of objects. -/
def sameMembers : List (List Char × Json) → List (List Char × Json) → Bool
  | [], [] => true
  | (k, v) :: ms, (l, w) :: ns => k == l && same v w && sameMembers ms ns
  | _, _ => false

end

/-- `bool(v)`. -/
def truthy : Json → Bool
  | .null => false
  | .bool b => b
  | .int n => n ≠ 0
  | .float x => x ≠ .finite 0
  | .str s => s ≠ []
  | .arr vs => !vs.isEmpty
  | .obj ms => !ms.isEmpty

mutual

/-- A value as `sort_keys` orders it. -/
def sorted : Json → Json
  | .arr vs => .arr (sortedElements vs)
  | .obj ms => .obj ((sortedMembers ms).insertionSort fun a b =>
      String.ofList a.1 ≤ String.ofList b.1)
  | v => v

/-- The elements of a list. -/
def sortedElements : List Json → List Json
  | [] => []
  | v :: vs => sorted v :: sortedElements vs

/-- The members of an object. -/
def sortedMembers : List (List Char × Json) → List (List Char × Json)
  | [] => []
  | (k, v) :: ms => (k, sorted v) :: sortedMembers ms

end

/-! ### Equality -/

variable {v w : Json}

lemma sameNumber_iff :
    sameNumber v w ↔ ∃ x, v.number = some x ∧ w.number = some x := by
  rw [sameNumber, Bool.and_eq_true, beq_iff_eq, Option.isSome_iff_exists]
  constructor
  · rintro ⟨⟨x, hx⟩, hvw⟩
    exact ⟨x, hx, hvw ▸ hx⟩
  · rintro ⟨x, hv, hw⟩
    exact ⟨⟨x, hv⟩, hv.trans hw.symm⟩

/-- Values that have a number are equal when it is one. -/
lemma same_iff_of_number {x : Binary64} (h : v.number = some x) :
    same v w ↔ w.number = some x := by
  have hnum : same v w = sameNumber v w := by
    cases v with
    | bool b => rw [same]
    | int n => rw [same]
    | float x => rw [same]
    | null => cases h
    | str s => cases h
    | arr vs => cases h
    | obj ms => cases h
  rw [hnum, sameNumber_iff]
  constructor
  · rintro ⟨y, hv, hw⟩
    rw [h] at hv
    exact Option.some.inj hv ▸ hw
  · exact fun hw => ⟨x, h, hw⟩

/-- A value that is equal to another one, by cases on what the two are. -/
inductive SameCases : Json → Json → Prop
  | number {v w : Json} {x : Binary64} (hv : v.number = some x) (hw : w.number = some x) :
      SameCases v w
  | null : SameCases .null .null
  | str (s : List Char) : SameCases (.str s) (.str s)
  | arr {vs ws : List Json} (h : sameElements vs ws = true) : SameCases (.arr vs) (.arr ws)
  | obj {ms ns : List (List Char × Json)} (h : sameMembers ms ns = true) :
      SameCases (.obj ms) (.obj ns)

lemma same_cases (h : same v w) : SameCases v w := by
  cases v with
  | null =>
      cases w <;> first | exact .null | (simp [same] at h)
  | str s =>
      cases w <;> first | (simp [same] at h; done) | skip
      rename_i t
      rw [same, beq_iff_eq] at h
      exact h ▸ .str s
  | arr vs =>
      cases w <;> first | (simp [same] at h; done) | skip
      rw [same] at h
      exact .arr h
  | obj ms =>
      cases w <;> first | (simp [same] at h; done) | skip
      rw [same] at h
      exact .obj h
  | bool b =>
      rw [same, sameNumber_iff] at h
      obtain ⟨x, hv, hw⟩ := h
      exact .number hv hw
  | int n =>
      rw [same, sameNumber_iff] at h
      obtain ⟨x, hv, hw⟩ := h
      exact .number hv hw
  | float x =>
      rw [same, sameNumber_iff] at h
      obtain ⟨x, hv, hw⟩ := h
      exact .number hv hw

/-- The values a list or an object holds. -/
def children : Json → List Json
  | .arr vs => vs
  | .obj ms => ms.map Prod.snd
  | _ => []

lemma sizeOf_lt_of_mem_children (h : w ∈ v.children) : sizeOf w < sizeOf v := by
  cases v with
  | arr vs =>
      have hlt := List.sizeOf_lt_of_mem (show w ∈ vs from h)
      simp only [arr.sizeOf_spec]
      omega
  | obj ms =>
      obtain ⟨m, hm, rfl⟩ := List.mem_map.mp h
      have hlt := List.sizeOf_lt_of_mem hm
      have hsnd : sizeOf m = 1 + sizeOf m.1 + sizeOf m.2 := rfl
      simp only [obj.sizeOf_spec]
      omega
  | null => cases h
  | bool b => cases h
  | int n => cases h
  | float x => cases h
  | str s => cases h

/-- Induction over what a value holds. -/
theorem induction_on_children {P : Json → Prop} (step : ∀ v, (∀ w ∈ v.children, P w) → P v)
    (v : Json) : P v :=
  step v fun w _ => induction_on_children step w
termination_by sizeOf v
decreasing_by exact sizeOf_lt_of_mem_children ‹_›

lemma sameElements_symm : ∀ {vs ws : List Json},
    (∀ v ∈ vs, ∀ w, same v w → same w v) → sameElements vs ws →
      sameElements ws vs
  | [], [], _, _ => rfl
  | v :: vs, w :: ws, hv, h => by
      rw [sameElements, Bool.and_eq_true] at h ⊢
      obtain ⟨hhead, htail⟩ := List.forall_mem_cons.mp hv
      exact ⟨hhead w h.1, sameElements_symm htail h.2⟩
  | [], _ :: _, _, h => by cases h
  | _ :: _, [], _, h => by cases h

lemma sameMembers_symm : ∀ {ms ns : List (List Char × Json)},
    (∀ m ∈ ms, ∀ w, same m.2 w → same w m.2) → sameMembers ms ns →
      sameMembers ns ms
  | [], [], _, _ => rfl
  | (k, v) :: ms, (l, w) :: ns, hv, h => by
      rw [sameMembers, Bool.and_eq_true, Bool.and_eq_true, beq_iff_eq] at h ⊢
      obtain ⟨hhead, htail⟩ := List.forall_mem_cons.mp hv
      exact ⟨⟨h.1.1.symm, hhead w h.1.2⟩, sameMembers_symm htail h.2⟩
  | [], _ :: _, _, h => by cases h
  | _ :: _, [], _, h => by cases h

/-- **Equality is symmetric.** -/
theorem same_symm (v w : Json) (h : same v w) : same w v := by
  induction v using induction_on_children generalizing w with
  | step v ih =>
      cases same_cases h with
      | number hv hw => exact (same_iff_of_number hw).mpr hv
      | null => exact h
      | str s => exact h
      | arr h =>
          rw [same]
          exact sameElements_symm ih h
      | obj h =>
          rw [same]
          exact sameMembers_symm (fun m hm => ih m.2 (List.mem_map_of_mem hm)) h

lemma sameElements_trans : ∀ {us vs ws : List Json},
    (∀ u ∈ us, ∀ v w, same u v → same v w → same u w) →
      sameElements us vs → sameElements vs ws → sameElements us ws
  | [], [], _, _, _, h' => h'
  | u :: us, v :: vs, w :: ws, hu, h, h' => by
      rw [sameElements, Bool.and_eq_true] at h h' ⊢
      obtain ⟨hhead, htail⟩ := List.forall_mem_cons.mp hu
      exact ⟨hhead v w h.1 h'.1, sameElements_trans htail h.2 h'.2⟩
  | _ :: _, _ :: _, [], _, _, h' => by cases h'
  | [], _ :: _, _, _, h, _ => by cases h
  | _ :: _, [], _, _, h, _ => by cases h

lemma sameMembers_trans : ∀ {ls ms ns : List (List Char × Json)},
    (∀ l ∈ ls, ∀ v w, same l.2 v → same v w → same l.2 w) →
      sameMembers ls ms → sameMembers ms ns → sameMembers ls ns
  | [], [], _, _, _, h' => h'
  | (j, u) :: ls, (k, v) :: ms, (l, w) :: ns, hu, h, h' => by
      rw [sameMembers, Bool.and_eq_true, Bool.and_eq_true, beq_iff_eq] at h h' ⊢
      obtain ⟨hhead, htail⟩ := List.forall_mem_cons.mp hu
      exact ⟨⟨h.1.1.trans h'.1.1, hhead v w h.1.2 h'.1.2⟩,
        sameMembers_trans htail h.2 h'.2⟩
  | _ :: _, _ :: _, [], _, _, h' => by cases h'
  | [], _ :: _, _, _, h, _ => by cases h
  | _ :: _, [], _, _, h, _ => by cases h

/-- **Equality is transitive.** -/
theorem same_trans (u v w : Json) (h : same u v) (h' : same v w) :
    same u w := by
  induction u using induction_on_children generalizing v w with
  | step u ih =>
      cases same_cases h with
      | number hu hv => exact (same_iff_of_number hu).mpr ((same_iff_of_number hv).mp h')
      | null => exact h'
      | str s => exact h'
      | arr h =>
          cases same_cases h' with
          | number hv _ => cases hv
          | arr h' =>
              rw [same]
              exact sameElements_trans ih h h'
      | obj h =>
          cases same_cases h' with
          | number hv _ => cases hv
          | obj h' =>
              rw [same]
              exact sameMembers_trans (fun m hm => ih m.2 (List.mem_map_of_mem hm)) h h'

/-! ### Truth -/

lemma truthy_of_number {x : Binary64} (h : v.number = some x) :
    v.truthy = decide (x ≠ .finite 0) := by
  cases v with
  | bool b =>
      cases h
      cases b <;> simp [truthy]
  | int n =>
      cases h
      simp [truthy]
  | float y =>
      cases y with
      | nan => cases h
      | finite q =>
          cases h
          rfl
      | infinite s =>
          cases h
          rfl
  | null => cases h
  | str s => cases h
  | arr vs => cases h
  | obj ms => cases h

lemma truthy_of_same (h : same v w) : v.truthy = w.truthy := by
  cases same_cases h with
  | number hv hw => rw [truthy_of_number hv, truthy_of_number hw]
  | null => rfl
  | str s => rfl
  | @arr vs ws h => cases vs <;> cases ws <;> first | rfl | cases h
  | @obj ms ns h => cases ms <;> cases ns <;> first | rfl | cases h

end Json
