import Frostvault.Lib.Binary64
import Frostvault.Lib.Hex

/-!
JSON texts, as Python's `json` module reads and writes them.

`loads` takes the extensions of that module (`NaN`, `Infinity`), and a text by any white space
between its tokens; half of a surrogate pair is read as the replacement character.  `dumps`
writes ASCII without white space; how it writes a binary64 number is a parameter.

* `scanString_escape`: an escaped text is read back;
* `scanNumber_decimal`: so is a whole number;
* `value_dumps`: so is any value without binary64 numbers, whatever follows it;
* `loads_dumps`: **round trip**.
-/

/-- A JSON value. -/
inductive Json
  | null
  | bool (b : Bool)
  | int (n : ℤ)
  | float (x : Binary64)
  | str (s : List Char)
  | arr (vs : List Json)
  | obj (ms : List (List Char × Json))

namespace Json

open List

/-- The white space between tokens. -/
def isSpace (c : Char) : Bool := c = ' ' || c = '\t' || c = '\n' || c = '\r'

/-- The text after white space. -/
def skip (cs : List Char) : List Char := cs.dropWhile isSpace

/-! ### Strings -/

/-- The UTF-16 units of a character. -/
def units (c : Char) : List ℕ :=
  if c.toNat < 65536 then [c.toNat]
  else [55296 + (c.toNat - 65536) / 1024, 56320 + (c.toNat - 65536) % 1024]

/-- The character of one unit. -/
def unitChar (n : ℕ) : Char :=
  if 55296 ≤ n ∧ n < 57344 then Char.ofNat 65533 else Char.ofNat n

/-- The text of some units: surrogate pairs are one character. -/
def joinUnits : List ℕ → List Char
  | [] => []
  | [n] => [unitChar n]
  | n :: m :: rest =>
      if (55296 ≤ n ∧ n < 56320) ∧ 56320 ≤ m ∧ m < 57344 then
        Char.ofNat (65536 + (n - 55296) * 1024 + (m - 56320)) :: joinUnits rest
      else unitChar n :: joinUnits (m :: rest)

/-- The escape of a unit. -/
def escapeUnit (n : ℕ) : List Char := '\\' :: 'u' :: Hex.quad n

/-- The short escapes that are written. -/
def shortEscape (c : Char) : Option Char :=
  if c = '"' then some '"'
  else if c = '\\' then some '\\'
  else if c = '\n' then some 'n'
  else if c = '\r' then some 'r'
  else if c = '\t' then some 't'
  else if c.toNat = 8 then some 'b'
  else if c.toNat = 12 then some 'f'
  else none

/-- A character as it is written, in ASCII. -/
def escapeChar (c : Char) : List Char :=
  match shortEscape c with
  | some e => ['\\', e]
  | none => if 32 ≤ c.toNat ∧ c.toNat ≤ 126 then [c] else (units c).flatMap escapeUnit

/-- The unit a short escape stands for. -/
def shortUnit (c : Char) : Option ℕ :=
  if c = '"' then some 34
  else if c = '\\' then some 92
  else if c = '/' then some 47
  else if c = 'n' then some 10
  else if c = 'r' then some 13
  else if c = 't' then some 9
  else if c = 'b' then some 8
  else if c = 'f' then some 12
  else none

/-- The units up to the closing quote, and the text after it. -/
def scanUnits : List Char → Option (List ℕ × List Char)
  | [] => none
  | '"' :: rest => some ([], rest)
  | '\\' :: 'u' :: a :: b :: c :: d :: rest => do
      let n ← Hex.quad? a b c d
      let (ns, rest) ← scanUnits rest
      some (n :: ns, rest)
  | '\\' :: c :: rest => do
      let n ← shortUnit c
      let (ns, rest) ← scanUnits rest
      some (n :: ns, rest)
  | c :: rest =>
      if c.toNat < 32 then none
      else do
        let (ns, rest) ← scanUnits rest
        some (c.toNat :: ns, rest)

/-- A string after its opening quote. -/
def scanString (cs : List Char) : Option (List Char × List Char) :=
  (scanUnits cs).map fun (ns, rest) => (joinUnits ns, rest)

/-! ### Numbers -/

/-- The digits before the point: no leading zeros. -/
def intPart : List Char → Option (List Char × List Char)
  | [] => none
  | '0' :: rest => some (['0'], rest)
  | c :: rest =>
      if c.isDigit then some ((c :: rest).takeWhile Char.isDigit, (c :: rest).dropWhile Char.isDigit)
      else none

/-- The digits after the point; without digits there is no point. -/
def fracPart : List Char → List Char × List Char
  | '.' :: rest =>
      if rest.takeWhile Char.isDigit = [] then ([], '.' :: rest)
      else (rest.takeWhile Char.isDigit, rest.dropWhile Char.isDigit)
  | cs => ([], cs)

/-- A sign, if there is one. -/
def sign : List Char → Bool × List Char
  | '-' :: rest => (true, rest)
  | '+' :: rest => (false, rest)
  | cs => (false, cs)

/-- The value of some digits, with a sign. -/
def signed (negative : Bool) (digits : List Char) : ℤ :=
  if negative then -(Nat.ofDigitChars 10 digits 0 : ℤ) else Nat.ofDigitChars 10 digits 0

/-- The exponent; without digits there is none. -/
def expPart : List Char → Option ℤ × List Char
  | e :: rest =>
      if (e = 'e' ∨ e = 'E') ∧ (sign rest).2.takeWhile Char.isDigit ≠ [] then
        (some (signed (sign rest).1 ((sign rest).2.takeWhile Char.isDigit)),
          (sign rest).2.dropWhile Char.isDigit)
      else (none, e :: rest)
  | [] => (none, [])

/-- A number after its sign: whole if it has neither point nor exponent. -/
def scanMagnitude (negative : Bool) (cs : List Char) : Option (Json × List Char) := do
  let (whole, cs) ← intPart cs
  let (fraction, cs) := fracPart cs
  let (exponent, cs) := expPart cs
  if fraction = [] ∧ exponent = none then some (.int (signed negative whole), cs)
  else
    some (.float (Binary64.round
      (signed negative (whole ++ fraction) * 10 ^ (exponent.getD 0 - fraction.length))), cs)

/-- A number. -/
def scanNumber : List Char → Option (Json × List Char)
  | '-' :: cs => scanMagnitude true cs
  | cs => scanMagnitude false cs

/-! ### Values -/

/-- A word that stands for a value. -/
def scanWord (word : String) (v : Json) (cs : List Char) : Option (Json × List Char) :=
  if word.toList.isPrefixOf cs then some (v, cs.drop word.length) else none

/-- A word or a number. -/
def scanScalar (cs : List Char) : Option (Json × List Char) :=
  (scanWord "null" .null cs).or <| (scanWord "true" (.bool true) cs).or <|
    (scanWord "false" (.bool false) cs).or <| (scanWord "NaN" (.float .nan) cs).or <|
    (scanWord "Infinity" (.float (.infinite false)) cs).or <|
    (scanWord "-Infinity" (.float (.infinite true)) cs).or (scanNumber cs)

mutual

/-- A value, and the text after it.  The fuel is twice the length of the text, and one. -/
def value : ℕ → List Char → Option (Json × List Char)
  | 0, _ => none
  | _ + 1, '"' :: cs => (scanString cs).map fun (s, rest) => (.str s, rest)
  | n + 1, '[' :: cs =>
      match skip cs with
      | ']' :: rest => some (.arr [], rest)
      | cs => (elements n cs).map fun (vs, rest) => (.arr vs, rest)
  | n + 1, '{' :: cs =>
      match skip cs with
      | '}' :: rest => some (.obj [], rest)
      | cs => (members n cs).map fun (ms, rest) => (.obj ms, rest)
  | _ + 1, cs => scanScalar cs

/-- The elements of an array up to its bracket. -/
def elements : ℕ → List Char → Option (List Json × List Char)
  | 0, _ => none
  | n + 1, cs => do
      let (v, cs) ← value n cs
      match skip cs with
      | ',' :: cs => do
          let (vs, rest) ← elements n (skip cs)
          some (v :: vs, rest)
      | ']' :: rest => some ([v], rest)
      | _ => none

/-- The members of an object up to its brace. -/
def members : ℕ → List Char → Option (List (List Char × Json) × List Char)
  | 0, _ => none
  | n + 1, '"' :: cs => do
      let (k, cs) ← scanString cs
      match skip cs with
      | ':' :: cs => do
          let (v, cs) ← value n (skip cs)
          match skip cs with
          | ',' :: cs => do
              let (ms, rest) ← members n (skip cs)
              some ((k, v) :: ms, rest)
          | '}' :: rest => some ([(k, v)], rest)
          | _ => none
      | _ => none
  | _ + 1, _ => none

end

/-- **`json.loads`.** -/
def loads (raw : List Char) : Option Json :=
  match value (2 * raw.length + 1) (skip raw) with
  | some (v, rest) => if skip rest = [] then some v else none
  | none => none

/-- A string as it is written. -/
def dumpsString (s : List Char) : List Char := '"' :: s.flatMap escapeChar ++ ['"']

/-- A whole number as it is written. -/
def dumpsInt (n : ℤ) : List Char :=
  if n < 0 then '-' :: Nat.toDigits 10 n.natAbs else Nat.toDigits 10 n.natAbs

mutual

/-- **`json.dumps`** with the separators `,` and `:`. -/
def dumps (repr : Binary64 → List Char) : Json → List Char
  | .null => "null".toList
  | .bool true => "true".toList
  | .bool false => "false".toList
  | .int n => dumpsInt n
  | .float x => repr x
  | .str s => dumpsString s
  | .arr [] => ['[', ']']
  | .arr (v :: vs) => '[' :: dumps repr v ++ dumpsElements repr vs
  | .obj [] => ['{', '}']
  | .obj ((k, v) :: ms) => '{' :: dumpsString k ++ ':' :: dumps repr v ++ dumpsMembers repr ms

/-- The elements after the first one, and the bracket. -/
def dumpsElements (repr : Binary64 → List Char) : List Json → List Char
  | [] => [']']
  | v :: vs => ',' :: dumps repr v ++ dumpsElements repr vs

/-- The members after the first one, and the brace. -/
def dumpsMembers (repr : Binary64 → List Char) : List (List Char × Json) → List Char
  | [] => ['}']
  | (k, v) :: ms => ',' :: dumpsString k ++ ':' :: dumps repr v ++ dumpsMembers repr ms

end

/-! ### Strings are read back -/

lemma toNat_cases (c : Char) : c.toNat < 55296 ∨ 57344 ≤ c.toNat ∧ c.toNat < 1114112 := by
  have h := c.valid
  simp only [UInt32.isValidChar, Nat.isValidChar] at h
  have hval : c.toNat = c.val.toNat := rfl
  omega

lemma joinUnits_units (c : Char) (ns : List ℕ) : joinUnits (units c ++ ns) = c :: joinUnits ns := by
  have hc := toNat_cases c
  unfold units
  split_ifs with hsmall
  · have hchar : unitChar c.toNat = c := by
      rw [unitChar, if_neg (by omega), Char.ofNat_toNat]
    cases ns with
    | nil => simp [joinUnits, hchar]
    | cons m ns =>
        rw [singleton_append, joinUnits, if_neg (by omega), hchar]
  · have hmod := Nat.mod_lt (c.toNat - 65536) (show 0 < 1024 by decide)
    have hsum : 65536 + (55296 + (c.toNat - 65536) / 1024 - 55296) * 1024 +
        (56320 + (c.toNat - 65536) % 1024 - 56320) = c.toNat := by omega
    rw [cons_append, singleton_append, joinUnits, if_pos (by omega), hsum,
      Char.ofNat_toNat]

variable {c : Char} {ds rest : List Char} {v : Json}

/-- What a short escape stands for is the character it was written for. -/
lemma shortUnit_of_shortEscape {e : Char} (h : shortEscape c = some e) :
    shortUnit e = some c.toNat ∧ e ≠ 'u' ∧ c.toNat < 65536 := by
  unfold shortEscape at h
  split_ifs at h with h1 h2 h3 h4 h5 h6 h7
  · rw [← Option.some.inj h, h1]
    decide
  · rw [← Option.some.inj h, h2]
    decide
  · rw [← Option.some.inj h, h3]
    decide
  · rw [← Option.some.inj h, h4]
    decide
  · rw [← Option.some.inj h, h5]
    decide
  · rw [← Option.some.inj h, h6]
    decide
  · rw [← Option.some.inj h, h7]
    decide

lemma scanUnits_shortEscape {e : Char} (he : e ≠ 'u') (rest : List Char) :
    scanUnits ('\\' :: e :: rest) =
      (shortUnit e).bind fun n => (scanUnits rest).map fun (ns, rest) => (n :: ns, rest) := by
  rw [scanUnits]
  · cases shortUnit e <;> cases scanUnits rest <;> rfl
  · intro _ _ _ _ _ h _
    exact he h

lemma scanUnits_plain (hquote : c ≠ '"') (hescape : c ≠ '\\') (hc : 32 ≤ c.toNat)
    (rest : List Char) :
    scanUnits (c :: rest) = (scanUnits rest).map fun (ns, rest) => (c.toNat :: ns, rest) := by
  rw [scanUnits, if_neg (by omega)]
  · cases scanUnits rest <;> rfl
  · exact hquote
  · intro _ _ _ _ _ h _
    exact hescape h
  · intro _ _ h _
    exact hescape h

lemma scanUnits_escapeUnit {n : ℕ} (h : n < 65536) (rest : List Char) :
    scanUnits (escapeUnit n ++ rest) =
      (scanUnits rest).map fun (ns, rest) => (n :: ns, rest) := by
  simp only [escapeUnit, Hex.quad, cons_append, nil_append, scanUnits, Hex.quad_quad h,
    Option.bind_eq_bind, Option.bind_some]
  cases scanUnits rest <;> rfl

/-- A character that was written is read as its units. -/
lemma scanUnits_escapeChar (c : Char) (rest : List Char) :
    scanUnits (escapeChar c ++ rest) =
      (scanUnits rest).map fun (ns, rest) => (units c ++ ns, rest) := by
  have hc := toNat_cases c
  unfold escapeChar
  split
  · rename_i e he
    obtain ⟨hunit, hne, hsmall⟩ := shortUnit_of_shortEscape he
    rw [cons_append, singleton_append, scanUnits_shortEscape hne, hunit, units,
      if_pos hsmall]
    rfl
  · rename_i he
    have hquote : c ≠ '"' := by
      rintro rfl
      cases he
    have hescape : c ≠ '\\' := by
      rintro rfl
      cases he
    split_ifs with hplain
    · rw [singleton_append, scanUnits_plain hquote hescape hplain.1, units,
        if_pos (by omega)]
      rfl
    · unfold units
      split_ifs with hsmall
      · rw [flatMap_singleton, scanUnits_escapeUnit hsmall]
        rfl
      · have hmod := Nat.mod_lt (c.toNat - 65536) (show 0 < 1024 by decide)
        rw [flatMap_cons, flatMap_singleton, append_assoc,
          scanUnits_escapeUnit (by omega), scanUnits_escapeUnit (by omega), Option.map_map]
        rfl

lemma scanUnits_escape (s rest : List Char) :
    scanUnits (s.flatMap escapeChar ++ '"' :: rest) = some (s.flatMap units, rest) := by
  induction s with
  | nil => rfl
  | cons c s ih =>
      rw [flatMap_cons, append_assoc, scanUnits_escapeChar, ih]
      rfl

lemma joinUnits_flatMap (s : List Char) : joinUnits (s.flatMap units) = s := by
  induction s with
  | nil => rfl
  | cons c s ih => rw [flatMap_cons, joinUnits_units, ih]

/-- **A string is read back.** -/
lemma scanString_escape (s rest : List Char) :
    scanString (s.flatMap escapeChar ++ '"' :: rest) = some (s, rest) := by
  rw [scanString, scanUnits_escape, Option.map_some]
  dsimp only
  rw [joinUnits_flatMap]

/-! ### Numbers are read back -/

/-- What follows cannot belong to a number. -/
def Stops (rest : List Char) : Prop :=
  ∀ c cs, rest = c :: cs → c.isDigit = false ∧ c ≠ '.' ∧ c ≠ 'e' ∧ c ≠ 'E'

lemma stops_cons (h : c.isDigit = false ∧ c ≠ '.' ∧ c ≠ 'e' ∧ c ≠ 'E')
    (cs : List Char) : Stops (c :: cs) := by
  intro d ds heq
  obtain ⟨rfl, -⟩ := List.cons.inj heq
  exact h

/-- Positive numbers have no leading zero. -/
lemma toDigits_head {n : ℕ} (h : 0 < n) : ∃ c cs, Nat.toDigits 10 n = c :: cs ∧ c ≠ '0' := by
  induction n using Nat.strong_induction_on with
  | _ n ih =>
      by_cases hlt : n < 10
      · have hall : ∀ m < 10, 0 < m → m.digitChar ≠ '0' := by decide
        exact ⟨n.digitChar, [], Nat.toDigits_of_lt_base hlt, hall n hlt h⟩
      · obtain ⟨c, cs, hdigits, hc⟩ := ih (n / 10) (by omega) (by omega)
        refine ⟨c, cs ++ [(n % 10).digitChar], ?_, hc⟩
        rw [Nat.toDigits_of_base_le (by decide) (by omega), hdigits, cons_append]

lemma takeWhile_isDigit (hds : ∀ c ∈ ds, c.isDigit)
    (hrest : Stops rest) : (ds ++ rest).takeWhile Char.isDigit = ds ∧
      (ds ++ rest).dropWhile Char.isDigit = rest := by
  rw [takeWhile_append_of_pos hds, dropWhile_append_of_pos hds]
  cases rest with
  | nil => simp
  | cons c cs =>
      obtain ⟨hdigit, -⟩ := hrest c cs rfl
      simp [hdigit]

lemma intPart_toDigits (n : ℕ) (hrest : Stops rest) :
    intPart (Nat.toDigits 10 n ++ rest) = some (Nat.toDigits 10 n, rest) := by
  have hdigits : ∀ c ∈ Nat.toDigits 10 n, c.isDigit :=
    fun c hc => Nat.isDigit_of_mem_toDigits (by decide) (by decide) hc
  rcases Nat.eq_zero_or_pos n with rfl | hn
  · rfl
  · obtain ⟨c, cs, heq, hc⟩ := toDigits_head hn
    obtain ⟨htake, hdrop⟩ := takeWhile_isDigit hdigits hrest
    rw [heq] at hdigits htake hdrop ⊢
    rw [cons_append] at htake hdrop ⊢
    rw [intPart, if_pos (hdigits c mem_cons_self), htake, hdrop]
    exact hc

lemma fracPart_of_stops (h : Stops rest) : fracPart rest = ([], rest) := by
  cases rest with
  | nil => rfl
  | cons c cs =>
      obtain ⟨-, hpoint, -, -⟩ := h c cs rfl
      rw [fracPart]
      intro _ heq
      exact hpoint (List.cons.inj heq).1

lemma expPart_of_stops (h : Stops rest) : expPart rest = (none, rest) := by
  cases rest with
  | nil => rfl
  | cons c cs =>
      obtain ⟨-, -, he, hE⟩ := h c cs rfl
      rw [expPart, if_neg]
      rintro ⟨rfl | rfl, -⟩
      · exact he rfl
      · exact hE rfl

lemma scanMagnitude_toDigits (negative : Bool) (n : ℕ) (h : Stops rest) :
    scanMagnitude negative (Nat.toDigits 10 n ++ rest) =
      some (.int (if negative then -(n : ℤ) else n), rest) := by
  simp only [scanMagnitude, intPart_toDigits n h, fracPart_of_stops h, expPart_of_stops h,
    Option.bind_eq_bind, Option.bind_some, and_self, if_true, signed, Nat.ofDigitChars_ten_toDigits]

lemma scanWord_of_ne {d : Char} {word : String} (hword : word.toList = d :: ds)
    (hne : d ≠ c) (v : Json) (cs : List Char) : scanWord word v (c :: cs) = none := by
  rw [scanWord, hword, if_neg]
  simp [hne]

/-- A text that begins with a digit, or with a sign and a digit, is a number. -/
lemma scanScalar_digit (hc : c.isDigit) (cs : List Char) :
    scanScalar (c :: cs) = scanNumber (c :: cs) := by
  have hne : ∀ d : Char, d.isDigit = false → d ≠ c := by
    rintro d hd rfl
    rw [hc] at hd
    cases hd
  rw [scanScalar, scanWord_of_ne rfl (hne 'n' rfl), scanWord_of_ne rfl (hne 't' rfl),
    scanWord_of_ne rfl (hne 'f' rfl), scanWord_of_ne rfl (hne 'N' rfl),
    scanWord_of_ne rfl (hne 'I' rfl), scanWord_of_ne rfl (hne '-' rfl)]
  rfl

lemma scanScalar_sign (hc : c.isDigit) (cs : List Char) :
    scanScalar ('-' :: c :: cs) = scanNumber ('-' :: c :: cs) := by
  have hne : 'I' ≠ c := by
    rintro rfl
    cases hc
  have hinf : scanWord "-Infinity" (.float (.infinite true)) ('-' :: c :: cs) = none := by
    rw [scanWord, if_neg]
    simp [hne]
  rw [scanScalar, scanWord_of_ne rfl (by decide), scanWord_of_ne rfl (by decide),
    scanWord_of_ne rfl (by decide), scanWord_of_ne rfl (by decide),
    scanWord_of_ne rfl (by decide), hinf]
  rfl

/-- **A whole number is read back.** -/
lemma scanScalar_dumpsInt (n : ℤ) (h : Stops rest) :
    scanScalar (dumpsInt n ++ rest) = some (.int n, rest) := by
  obtain ⟨c, cs, hdigits⟩ := exists_cons_of_ne_nil (@Nat.toDigits_ne_nil n.natAbs 10)
  have hc : c.isDigit := by
    refine Nat.isDigit_of_mem_toDigits (b := 10) (n := n.natAbs) (by decide) (by decide) ?_
    rw [hdigits]
    exact mem_cons_self
  unfold dumpsInt
  split_ifs with hneg
  · have hscan := scanMagnitude_toDigits true n.natAbs h
    rw [hdigits] at hscan ⊢
    rw [cons_append, cons_append, scanScalar_sign hc, scanNumber, ← cons_append,
      hscan, if_pos rfl]
    congr
    omega
  · have hscan := scanMagnitude_toDigits false n.natAbs h
    rw [hdigits] at hscan ⊢
    rw [cons_append, scanScalar_digit hc, scanNumber, ← cons_append, hscan]
    · simp only [Bool.false_eq_true, if_false]
      congr
      omega
    · rintro _ heq
      obtain ⟨rfl, -⟩ := List.cons.inj heq
      cases hc

/-! ### Values are read back -/

/-- A value without binary64 numbers. -/
inductive Plain : Json → Prop
  | null : Plain .null
  | bool (b : Bool) : Plain (.bool b)
  | int (n : ℤ) : Plain (.int n)
  | str (s : List Char) : Plain (.str s)
  | arr {vs : List Json} (h : ∀ v ∈ vs, Plain v) : Plain (.arr vs)
  | obj {ms : List (List Char × Json)} (h : ∀ m ∈ ms, Plain m.2) : Plain (.obj ms)

variable (repr : Binary64 → List Char)

/-- A value is written so that it can be read back, whatever follows it that does not go on
with a number. -/
structure ReadBack (v : Json) : Prop where
  head : ∃ c cs, dumps repr v = c :: cs ∧ isSpace c = false ∧ c ≠ ']'
  value : ∀ n rest, Stops rest → 2 * (dumps repr v).length + 1 ≤ n →
    value n (dumps repr v ++ rest) = some (v, rest)

variable {repr}

lemma skip_of_head {cs : List Char} (h : cs = c :: ds) (hc : isSpace c = false) : skip cs = cs := by
  subst h
  simp [skip, hc]

lemma skip_dumps (h : ReadBack repr v) (rest : List Char) :
    skip (dumps repr v ++ rest) = dumps repr v ++ rest := by
  obtain ⟨c, cs, heq, hc, -⟩ := h.head
  have hcons : dumps repr v ++ rest = c :: (cs ++ rest) := by rw [heq, cons_append]
  exact skip_of_head hcons hc

/-- The elements of a written array are read back. -/
lemma elements_dumps {vs : List Json} (h : ∀ w ∈ v :: vs, ReadBack repr w) (n : ℕ)
    (rest : List Char) (hn : 2 * (dumps repr v ++ dumpsElements repr vs).length + 2 ≤ n) :
    elements n (dumps repr v ++ dumpsElements repr vs ++ rest) = some (v :: vs, rest) := by
  induction vs generalizing v n with
  | nil =>
      obtain ⟨m, rfl⟩ := Nat.exists_eq_add_of_le' (show 1 ≤ n by omega)
      have hv := h v mem_cons_self
      rw [length_append] at hn
      have hread := hv.value m (']' :: rest) (stops_cons (by decide) rest) (by omega)
      rw [append_assoc, dumpsElements, singleton_append, elements, hread]
      rfl
  | cons w ws ih =>
      obtain ⟨m, rfl⟩ := Nat.exists_eq_add_of_le' (show 1 ≤ n by omega)
      have hv := h v mem_cons_self
      have hw := h w (by simp)
      have htail : dumpsElements repr (w :: ws) ++ rest =
          ',' :: (dumps repr w ++ dumpsElements repr ws ++ rest) := by
        rw [dumpsElements, cons_append, cons_append]
      rw [length_append, dumpsElements, cons_append, length_cons] at hn
      have hread := hv.value m (',' :: (dumps repr w ++ dumpsElements repr ws ++ rest))
        (stops_cons (by decide) _) (by omega)
      have hrest := ih (fun u hu => h u (mem_cons_of_mem _ hu)) m (by omega)
      have hskip : skip (',' :: (dumps repr w ++ dumpsElements repr ws ++ rest)) =
          ',' :: (dumps repr w ++ dumpsElements repr ws ++ rest) := rfl
      rw [append_assoc, htail, elements, hread]
      simp only [Option.bind_eq_bind, Option.bind_some, hskip]
      rw [append_assoc] at hrest ⊢
      rw [skip_dumps hw, hrest]
      rfl

lemma dumpsString_append (k rest : List Char) :
    dumpsString k ++ rest = '"' :: (k.flatMap escapeChar ++ '"' :: rest) := by
  simp [dumpsString]

/-- A member is read up to its value. -/
lemma members_colon {k : List Char} (hv : ReadBack repr v) {m : ℕ}
    (hrest : Stops rest) (hm : 2 * (dumps repr v).length + 1 ≤ m) :
    members (m + 1) (dumpsString k ++ ':' :: dumps repr v ++ rest) =
      match skip rest with
      | ',' :: cs => (members m (skip cs)).bind fun (ms, rest) => some ((k, v) :: ms, rest)
      | '}' :: rest => some ([(k, v)], rest)
      | _ => none := by
  have htail : ':' :: dumps repr v ++ rest = ':' :: (dumps repr v ++ rest) := cons_append
  have hskip : skip (':' :: (dumps repr v ++ rest)) = ':' :: (dumps repr v ++ rest) := rfl
  rw [append_assoc, htail, dumpsString_append, members, scanString_escape]
  simp only [Option.bind_eq_bind, Option.bind_some, hskip]
  rw [skip_dumps hv, hv.value m rest hrest hm]
  rfl

/-- The members of a written object are read back. -/
lemma members_dumps {k : List Char} {ms : List (List Char × Json)}
    (h : ∀ m ∈ (k, v) :: ms, ReadBack repr m.2) (n : ℕ) (rest : List Char)
    (hn : 2 * (dumpsString k ++ ':' :: dumps repr v ++ dumpsMembers repr ms).length + 2 ≤ n) :
    members n (dumpsString k ++ ':' :: dumps repr v ++ dumpsMembers repr ms ++ rest) =
      some ((k, v) :: ms, rest) := by
  obtain ⟨m, rfl⟩ := Nat.exists_eq_add_of_le' (show 1 ≤ n by omega)
  have hv : ReadBack repr v := h (k, v) mem_cons_self
  induction ms generalizing k v m with
  | nil =>
      simp only [length_append, length_cons] at hn
      rw [append_assoc, dumpsMembers, singleton_append,
        members_colon hv (stops_cons (by decide) rest) (by omega)]
      rfl
  | cons kw ms ih =>
      obtain ⟨k', w⟩ := kw
      have hw : ReadBack repr w := h (k', w) (by simp)
      have htail : dumpsMembers repr ((k', w) :: ms) ++ rest =
          ',' :: (dumpsString k' ++ ':' :: dumps repr w ++ dumpsMembers repr ms ++ rest) := by
        simp [dumpsMembers]
      simp only [dumpsMembers, length_append, length_cons] at hn
      have hlen : 2 * (dumpsString k' ++ ':' :: dumps repr w ++ dumpsMembers repr ms).length + 2 ≤
          m := by
        simp only [length_append, length_cons]
        omega
      obtain ⟨m', rfl⟩ := Nat.exists_eq_add_of_le' (show 1 ≤ m by omega)
      have hrest := ih (fun u hu => h u (mem_cons_of_mem _ hu)) m' hlen hw
      rw [append_assoc, htail, members_colon hv (stops_cons (by decide) _) (by omega)]
      have hskip : skip (dumpsString k' ++ ':' :: dumps repr w ++ dumpsMembers repr ms ++ rest) =
          dumpsString k' ++ ':' :: dumps repr w ++ dumpsMembers repr ms ++ rest := by
        rw [append_assoc, append_assoc, dumpsString_append]
        rfl
      change ((members (m' + 1) (skip (dumpsString k' ++ ':' :: dumps repr w ++
        dumpsMembers repr ms ++ rest))).bind fun (ms, rest) => some ((k, v) :: ms, rest)) = _
      rw [hskip, hrest]
      rfl

/-- A value that begins with a character of its own. -/
lemma value_scalar (h : c ≠ '"' ∧ c ≠ '[' ∧ c ≠ '{') (n : ℕ) (cs : List Char) :
    value (n + 1) (c :: cs) = scanScalar (c :: cs) := by
  obtain ⟨hquote, hbracket, hbrace⟩ := h
  rw [value]
  · rintro _ heq
    exact hquote (List.cons.inj heq).1
  · rintro _ heq
    exact hbracket (List.cons.inj heq).1
  · rintro _ heq
    exact hbrace (List.cons.inj heq).1

/-- Whole numbers begin with a digit or with their sign. -/
lemma dumpsInt_head (n : ℤ) :
    ∃ c cs, dumpsInt n = c :: cs ∧ (c.isDigit ∨ c = '-') := by
  unfold dumpsInt
  split_ifs
  · exact ⟨'-', _, rfl, Or.inr rfl⟩
  · obtain ⟨c, cs, hdigits⟩ := exists_cons_of_ne_nil (@Nat.toDigits_ne_nil n.natAbs 10)
    refine ⟨c, cs, hdigits, Or.inl ?_⟩
    refine Nat.isDigit_of_mem_toDigits (b := 10) (n := n.natAbs) (by decide) (by decide) ?_
    rw [hdigits]
    exact mem_cons_self

lemma value_array {cs : List Char} (h : cs = c :: ds) (hspace : isSpace c = false)
    (hc : c ≠ ']') (n : ℕ) :
    value (n + 1) ('[' :: cs) = (elements n cs).map fun (vs, rest) => (.arr vs, rest) := by
  rw [value, skip_of_head h hspace, h]
  split
  · rename_i heq
    exact absurd (List.cons.inj heq).1 hc
  · rfl

lemma value_object {cs : List Char} (h : cs = c :: ds) (hspace : isSpace c = false)
    (hc : c ≠ '}') (n : ℕ) :
    value (n + 1) ('{' :: cs) = (members n cs).map fun (ms, rest) => (.obj ms, rest) := by
  rw [value, skip_of_head h hspace, h]
  split
  · rename_i heq
    exact absurd (List.cons.inj heq).1 hc
  · rfl

/-- **A value without binary64 numbers is read back.** -/
theorem readBack (h : Plain v) : ReadBack repr v := by
  induction h with
  | null =>
      refine ⟨⟨'n', _, rfl, rfl, by decide⟩, fun n rest _ hn => ?_⟩
      obtain ⟨m, rfl⟩ := Nat.exists_eq_add_of_le' (show 1 ≤ n by omega)
      rfl
  | bool b =>
      cases b with
      | true =>
          refine ⟨⟨'t', _, rfl, rfl, by decide⟩, fun n rest _ hn => ?_⟩
          obtain ⟨m, rfl⟩ := Nat.exists_eq_add_of_le' (show 1 ≤ n by omega)
          rfl
      | false =>
          refine ⟨⟨'f', _, rfl, rfl, by decide⟩, fun n rest _ hn => ?_⟩
          obtain ⟨m, rfl⟩ := Nat.exists_eq_add_of_le' (show 1 ≤ n by omega)
          rfl
  | int i =>
      obtain ⟨c, cs, heq, hc⟩ := dumpsInt_head i
      have hhead : isSpace c = false ∧ c ≠ ']' ∧ c ≠ '"' ∧ c ≠ '[' ∧ c ≠ '{' := by
        rcases hc with hdigit | rfl
        · refine ⟨?_, ?_, ?_, ?_, ?_⟩
          · by_contra hspace
            simp only [isSpace, Bool.not_eq_false, Bool.or_eq_true, decide_eq_true_eq] at hspace
            rcases hspace with ((rfl | rfl) | rfl) | rfl <;> cases hdigit
          all_goals
            rintro rfl
            cases hdigit
        · decide
      refine ⟨⟨c, cs, heq, hhead.1, hhead.2.1⟩, fun n rest hrest hn => ?_⟩
      obtain ⟨m, rfl⟩ := Nat.exists_eq_add_of_le' (show 1 ≤ n by omega)
      have hscan := scanScalar_dumpsInt i hrest
      rw [dumps, heq, cons_append] at *
      rw [value_scalar hhead.2.2, hscan]
  | str s =>
      refine ⟨⟨'"', _, rfl, rfl, by decide⟩, fun n rest _ hn => ?_⟩
      obtain ⟨m, rfl⟩ := Nat.exists_eq_add_of_le' (show 1 ≤ n by omega)
      rw [dumps, dumpsString_append, value, scanString_escape]
      rfl
  | @arr vs _ ih =>
      cases vs with
      | nil =>
          refine ⟨⟨'[', _, rfl, rfl, by decide⟩, fun n rest _ hn => ?_⟩
          obtain ⟨m, rfl⟩ := Nat.exists_eq_add_of_le' (show 1 ≤ n by omega)
          rfl
      | cons v vs =>
          refine ⟨⟨'[', _, rfl, rfl, by decide⟩, fun n rest _ hn => ?_⟩
          obtain ⟨m, rfl⟩ := Nat.exists_eq_add_of_le' (show 1 ≤ n by omega)
          obtain ⟨c, cs, heq, hspace, hc⟩ := (ih v mem_cons_self).head
          rw [dumps, cons_append, length_cons] at hn
          have hread := elements_dumps ih m rest (by omega)
          rw [dumps, cons_append, cons_append,
            value_array (by rw [heq, cons_append, cons_append]) hspace hc, hread]
          rfl
  | @obj ms _ ih =>
      cases ms with
      | nil =>
          refine ⟨⟨'{', _, rfl, rfl, by decide⟩, fun n rest _ hn => ?_⟩
          obtain ⟨m, rfl⟩ := Nat.exists_eq_add_of_le' (show 1 ≤ n by omega)
          rfl
      | cons kv ms =>
          obtain ⟨k, v⟩ := kv
          refine ⟨⟨'{', _, rfl, rfl, by decide⟩, fun n rest _ hn => ?_⟩
          obtain ⟨m, rfl⟩ := Nat.exists_eq_add_of_le' (show 1 ≤ n by omega)
          simp only [dumps, cons_append, length_cons] at hn
          have hread := members_dumps ih m rest (by omega)
          have hcons : dumpsString k ++ ':' :: dumps repr v ++ dumpsMembers repr ms ++ rest =
              '"' :: (k.flatMap escapeChar ++
                '"' :: ':' :: (dumps repr v ++ (dumpsMembers repr ms ++ rest))) := by
            rw [append_assoc, append_assoc, dumpsString_append, cons_append]
          simp only [dumps, cons_append] at hcons ⊢
          rw [value_object hcons rfl (by decide), hread]
          rfl

/-- **Round trip.** -/
theorem loads_dumps (h : Plain v) : loads (dumps repr v) = some v := by
  have hv : ReadBack repr v := readBack h
  have hskip := skip_dumps hv []
  have hvalue := hv.value (2 * (dumps repr v).length + 1) [] (by rintro c cs h; cases h) le_rfl
  rw [append_nil] at hskip hvalue
  rw [loads, hskip, hvalue]
  rfl

end Json
