import Mathlib.Data.Char
import Mathlib.Data.List.Lex
import Mathlib.Algebra.Order.Group.Nat

/-!
Numbers written with a fixed number of digits, and the order of texts made of them.

* `append_lt_append_iff`: texts that start with parts of one length are in the order of these
  parts, then of what follows;
* `pad`: a number with leading zeros;
* `pad_lt_pad_iff`, `pad_inj`: **the order of the texts is that of the numbers**, as long as
  they fit;
* `pad_append_lt_iff`: the two together, one field of a text after the other.
-/

namespace FixedWidth

/-! ### Parts of one length -/

section Parts

variable {α : Type*} [LinearOrder α]

/-- Texts whose first parts are of one length. -/
lemma append_lt_append_iff {a b c d : List α} (h : a.length = b.length) :
    a ++ c < b ++ d ↔ a < b ∨ a = b ∧ c < d := by
  induction a generalizing b with
  | nil =>
      obtain rfl := List.eq_nil_of_length_eq_zero h.symm
      simp
  | cons x a ih =>
      cases b with
      | nil => simp at h
      | cons y b =>
          have hlength : a.length = b.length := by simpa using h
          rw [List.cons_append, List.cons_append, List.cons_lt_cons_iff, ih hlength,
            List.cons_lt_cons_iff, List.cons.injEq]
          tauto

lemma append_left_lt_iff {a c d : List α} : a ++ c < a ++ d ↔ c < d := by
  rw [append_lt_append_iff rfl]
  simp

end Parts

/-! ### Digits -/

/-- The digit of a number below ten. -/
def digit (n : ℕ) : Char := Char.ofNat (48 + n)

lemma ten_pos : 0 < 10 := by decide

variable {n : ℕ}

lemma digit_lt_digit_iff {m : ℕ} (hm : m < 10) (hn : n < 10) : digit m < digit n ↔ m < n := by
  have hall : ∀ m < 10, ∀ n < 10, (digit m < digit n ↔ m < n) := by decide
  exact hall m hm n hn

lemma digit_inj {m : ℕ} (hm : m < 10) (hn : n < 10) : digit m = digit n ↔ m = n := by
  have hall : ∀ m < 10, ∀ n < 10, (digit m = digit n ↔ m = n) := by decide
  exact hall m hm n hn

/-- The last `width` digits of a number, `%0*d` of one that has no more. -/
def pad : ℕ → ℕ → List Char
  | 0, _ => []
  | width + 1, n => pad width (n / 10) ++ [digit (n % 10)]

@[simp] lemma length_pad (width n : ℕ) : (pad width n).length = width := by
  induction width generalizing n with
  | zero => rfl
  | succ width ih => simp [pad, ih]

lemma mem_pad {width : ℕ} {c : Char} (h : c ∈ pad width n) : ∃ d < 10, c = digit d := by
  induction width generalizing n with
  | zero => simp [pad] at h
  | succ width ih =>
      rcases List.mem_append.mp h with h | h
      · exact ih h
      · exact ⟨n % 10, Nat.mod_lt n ten_pos, by simpa using h⟩

/-- A number that fits is read back from its digits. -/
lemma pad_inj {width m : ℕ} (hm : m < 10 ^ width) (hn : n < 10 ^ width) :
    pad width m = pad width n ↔ m = n := by
  induction width generalizing m n with
  | zero => simp_all [pad]
  | succ width ih =>
      have hm' : m / 10 < 10 ^ width := Nat.div_lt_of_lt_mul (by rwa [pow_succ'] at hm)
      have hn' : n / 10 < 10 ^ width := Nat.div_lt_of_lt_mul (by rwa [pow_succ'] at hn)
      have hlength : (pad width (m / 10)).length = (pad width (n / 10)).length := by simp
      constructor
      · intro h
        obtain ⟨hhigh, hlow⟩ := List.append_inj h hlength
        rw [ih hm' hn'] at hhigh
        rw [List.singleton_inj, digit_inj (Nat.mod_lt m ten_pos) (Nat.mod_lt n ten_pos)] at hlow
        omega
      · rintro rfl
        rfl

/-- **The order of the texts is that of the numbers.** -/
lemma pad_lt_pad_iff {width m : ℕ} (hm : m < 10 ^ width) (hn : n < 10 ^ width) :
    pad width m < pad width n ↔ m < n := by
  induction width generalizing m n with
  | zero => simp_all [pad]
  | succ width ih =>
      have hm' : m / 10 < 10 ^ width := Nat.div_lt_of_lt_mul (by rwa [pow_succ'] at hm)
      have hn' : n / 10 < 10 ^ width := Nat.div_lt_of_lt_mul (by rwa [pow_succ'] at hn)
      have hdigit := digit_lt_digit_iff (Nat.mod_lt m ten_pos) (Nat.mod_lt n ten_pos)
      simp only [pad]
      rw [append_lt_append_iff (by simp), ih hm' hn', pad_inj hm' hn', List.cons_lt_cons_iff,
        hdigit]
      simp only [List.lt_irrefl, and_false, or_false]
      omega

lemma pad_append_lt_iff {width m : ℕ} {a b : List Char} (hm : m < 10 ^ width)
    (hn : n < 10 ^ width) :
    pad width m ++ a < pad width n ++ b ↔ m < n ∨ m = n ∧ a < b := by
  rw [append_lt_append_iff (by simp), pad_lt_pad_iff hm hn, pad_inj hm hn]

end FixedWidth
