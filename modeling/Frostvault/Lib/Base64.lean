import Mathlib.Data.List.Basic

/-!
Base64 text: groups of three bytes as four digits, padded at the end.

* `encode`, `decode`: the two directions;
* `decode_encode`: **decoding the encoded bytes gives them back**.
-/

namespace Base64

/-- The digit of a value below 64. -/
def digit (n : ℕ) : Char :=
  if n < 26 then Char.ofNat (65 + n)
  else if n < 52 then Char.ofNat (71 + n)
  else if n < 62 then Char.ofNat (n - 4)
  else if n = 62 then '+' else '/'

/-- The value of a digit. -/
def value? (c : Char) : Option ℕ :=
  let n := c.toNat
  if 65 ≤ n ∧ n ≤ 90 then some (n - 65)
  else if 97 ≤ n ∧ n ≤ 122 then some (n - 71)
  else if 48 ≤ n ∧ n ≤ 57 then some (n + 4)
  else if c = '+' then some 62
  else if c = '/' then some 63
  else none

/-- The digits of some bytes. -/
def encode : List UInt8 → List Char
  | [] => []
  | [a] => [digit (a.toNat / 4), digit (a.toNat % 4 * 16), '=', '=']
  | [a, b] =>
      [digit (a.toNat / 4), digit (a.toNat % 4 * 16 + b.toNat / 16), digit (b.toNat % 16 * 4), '=']
  | a :: b :: c :: rest =>
      digit (a.toNat / 4) :: digit (a.toNat % 4 * 16 + b.toNat / 16) ::
        digit (b.toNat % 16 * 4 + c.toNat / 64) :: digit (c.toNat % 64) :: encode rest

/-- The bytes of some digits; padding closes the last group, whose spare bits do not count. -/
def decode : List Char → Option (List UInt8)
  | [] => some []
  | [a, b, '=', '='] => do
      let x ← value? a
      let y ← value? b
      some [UInt8.ofNat (x * 4 + y / 16)]
  | [a, b, c, '='] => do
      let x ← value? a
      let y ← value? b
      let z ← value? c
      some [UInt8.ofNat (x * 4 + y / 16), UInt8.ofNat (y % 16 * 16 + z / 4)]
  | a :: b :: c :: d :: rest => do
      let x ← value? a
      let y ← value? b
      let z ← value? c
      let w ← value? d
      let bytes ← decode rest
      some (UInt8.ofNat (x * 4 + y / 16) :: UInt8.ofNat (y % 16 * 16 + z / 4) ::
        UInt8.ofNat (z % 4 * 64 + w) :: bytes)
  | _ => none

/-! ### Round trip -/

lemma value_digit {n : ℕ} (h : n < 64) : value? (digit n) = some n := by
  have hall : ∀ n < 64, value? (digit n) = some n := by decide
  exact hall n h

lemma digit_ne_pad {n : ℕ} (h : n < 64) : digit n ≠ '=' := by
  have hall : ∀ n < 64, digit n ≠ '=' := by decide
  exact hall n h

lemma ofNat_eq {a : UInt8} {n : ℕ} (h : n = a.toNat) : UInt8.ofNat n = a := by
  rw [h, UInt8.ofNat_toNat]

lemma decode_group {a b c d : Char} (hd : d ≠ '=') (rest : List Char) :
    decode (a :: b :: c :: d :: rest) =
      (value? a).bind fun x => (value? b).bind fun y => (value? c).bind fun z =>
        (value? d).bind fun w => (decode rest).bind fun bytes =>
          some (UInt8.ofNat (x * 4 + y / 16) :: UInt8.ofNat (y % 16 * 16 + z / 4) ::
            UInt8.ofNat (z % 4 * 64 + w) :: bytes) := by
  rw [decode]
  · rfl
  · intro _ hpad _
    exact hd hpad
  · intro hpad _
    exact hd hpad

/-- **Round trip.** -/
theorem decode_encode (bytes : List UInt8) : decode (encode bytes) = some bytes := by
  induction bytes using encode.induct with
  | case1 => rfl
  | case2 a =>
      have ha := a.toNat_lt
      have h1 := value_digit (n := a.toNat / 4) (by omega)
      have h2 := value_digit (n := a.toNat % 4 * 16) (by omega)
      simp only [encode, decode, h1, h2, Option.bind_eq_bind, Option.bind_some]
      rw [ofNat_eq]
      omega
  | case3 a b =>
      have ha := a.toNat_lt
      have hb := b.toNat_lt
      have h1 := value_digit (n := a.toNat / 4) (by omega)
      have h2 := value_digit (n := a.toNat % 4 * 16 + b.toNat / 16) (by omega)
      have h3 := value_digit (n := b.toNat % 16 * 4) (by omega)
      have hpad := digit_ne_pad (n := b.toNat % 16 * 4) (by omega)
      rw [encode, decode]
      · simp only [h1, h2, h3, Option.bind_eq_bind, Option.bind_some]
        rw [ofNat_eq (a := a) (by omega), ofNat_eq (a := b) (by omega)]
      · exact hpad
  | case4 a b c rest ih =>
      have ha := a.toNat_lt
      have hb := b.toNat_lt
      have hc := c.toNat_lt
      have h1 := value_digit (n := a.toNat / 4) (by omega)
      have h2 := value_digit (n := a.toNat % 4 * 16 + b.toNat / 16) (by omega)
      have h3 := value_digit (n := b.toNat % 16 * 4 + c.toNat / 64) (by omega)
      have h4 := value_digit (n := c.toNat % 64) (by omega)
      rw [encode, decode_group (digit_ne_pad (by omega))]
      simp only [h1, h2, h3, h4, ih, Option.bind_some]
      rw [ofNat_eq (a := a) (by omega), ofNat_eq (a := b) (by omega), ofNat_eq (a := c) (by omega)]

end Base64
