import Mathlib.Data.List.Basic

/-!
Hexadecimal text.

* `digit`, `value?`: one digit;
* `encode`, `decode`: two digits for a byte, white space between bytes being skipped on the way
  back, as `bytes.fromhex` does;
* `decode_encode`: **decoding the encoded bytes gives them back**;
* `quad`, `quad?`: four digits for a number below 65536, and back.
-/

namespace Hex

/-- The digit of a value below 16, in lower case. -/
def digit (n : ℕ) : Char := if n < 10 then Char.ofNat (48 + n) else Char.ofNat (87 + n)

/-- The value of a digit of either case. -/
def value? (c : Char) : Option ℕ :=
  let n := c.toNat
  if 48 ≤ n ∧ n ≤ 57 then some (n - 48)
  else if 97 ≤ n ∧ n ≤ 102 then some (n - 87)
  else if 65 ≤ n ∧ n ≤ 70 then some (n - 55)
  else none

lemma value_digit {n : ℕ} (h : n < 16) : value? (digit n) = some n := by
  have hall : ∀ n < 16, value? (digit n) = some n := by decide
  exact hall n h

/-- The ASCII white space that `bytes.fromhex` skips between bytes. -/
def isSpace (c : Char) : Bool :=
  c = ' ' || c = '\t' || c = '\n' || c = '\r' || c = Char.ofNat 11 || c = Char.ofNat 12

lemma not_isSpace_digit {n : ℕ} (h : n < 16) : isSpace (digit n) = false := by
  have hall : ∀ n < 16, isSpace (digit n) = false := by decide
  exact hall n h

/-- Two digits for each byte. -/
def encode (bytes : List UInt8) : List Char :=
  bytes.flatMap fun b => [digit (b.toNat / 16), digit (b.toNat % 16)]

/-- The bytes of a text of digits. -/
def decode : List Char → Option (List UInt8)
  | [] => some []
  | [c] => if isSpace c then some [] else none
  | c :: d :: rest =>
      if isSpace c then decode (d :: rest)
      else do
        let x ← value? c
        let y ← value? d
        let bytes ← decode rest
        some (UInt8.ofNat (x * 16 + y) :: bytes)

/-- **Round trip.** -/
theorem decode_encode (bytes : List UInt8) : decode (encode bytes) = some bytes := by
  induction bytes with
  | nil => rfl
  | cons b bytes ih =>
      have hb := b.toNat_lt
      have h1 : b.toNat / 16 < 16 := by omega
      have h2 : b.toNat % 16 < 16 := by omega
      have hcons : encode (b :: bytes) =
          digit (b.toNat / 16) :: digit (b.toNat % 16) :: encode bytes := rfl
      have hsum : b.toNat / 16 * 16 + b.toNat % 16 = b.toNat := by omega
      rw [hcons, decode, not_isSpace_digit h1, value_digit h1, value_digit h2, ih]
      simp only [Bool.false_eq_true, if_false, Option.bind_eq_bind, Option.bind_some, hsum,
        UInt8.ofNat_toNat]

/-- The four digits of a number below 65536. -/
def quad (n : ℕ) : List Char :=
  [digit (n / 4096), digit (n / 256 % 16), digit (n / 16 % 16), digit (n % 16)]

/-- The number four digits stand for. -/
def quad? (a b c d : Char) : Option ℕ := do
  let w ← value? a
  let x ← value? b
  let y ← value? c
  let z ← value? d
  some (((w * 16 + x) * 16 + y) * 16 + z)

lemma quad_quad {n : ℕ} (h : n < 65536) :
    quad? (digit (n / 4096)) (digit (n / 256 % 16)) (digit (n / 16 % 16)) (digit (n % 16)) =
      some n := by
  have h1 := value_digit (n := n / 4096) (by omega)
  have h2 := value_digit (n := n / 256 % 16) (by omega)
  have h3 := value_digit (n := n / 16 % 16) (by omega)
  have h4 := value_digit (n := n % 16) (by omega)
  simp only [quad?, h1, h2, h3, h4, Option.bind_eq_bind, Option.bind_some, Option.some.injEq]
  omega

end Hex
