import Frostvault.Lib.Json

/-!
JSON strings that keep their characters (`ensure_ascii=False`): only quotes, backslashes and
control characters are escaped.

* `scanUnits_verbatim`: such a string is read back to its closing quote;
* `verbatimString_append_inj`: **so it can be told from what follows it**.
-/

namespace Json

/-- A character as it is written. -/
def verbatimChar (c : Char) : List Char :=
  match shortEscape c with
  | some e => ['\\', e]
  | none => if c.toNat < 32 then escapeUnit c.toNat else [c]

/-- A string as it is written. -/
def verbatimString (s : List Char) : List Char := '"' :: s.flatMap verbatimChar ++ ['"']

/-- A character that was written is read as its number. -/
lemma scanUnits_verbatimChar (c : Char) (rest : List Char) :
    scanUnits (verbatimChar c ++ rest) =
      (scanUnits rest).map fun (ns, rest) => (c.toNat :: ns, rest) := by
  rw [verbatimChar]
  split
  · rename_i e he
    obtain ⟨hunit, hne, -⟩ := shortUnit_of_shortEscape he
    rw [List.cons_append, List.singleton_append, scanUnits_shortEscape hne, hunit,
      Option.bind_some]
  · rename_i he
    have hquote : c ≠ '"' := by
      rintro rfl
      cases he
    have hescape : c ≠ '\\' := by
      rintro rfl
      cases he
    split_ifs with hcontrol
    · exact scanUnits_escapeUnit (by omega) rest
    · exact scanUnits_plain hquote hescape (by omega) rest

lemma scanUnits_verbatim (s rest : List Char) :
    scanUnits (s.flatMap verbatimChar ++ '"' :: rest) = some (s.map Char.toNat, rest) := by
  induction s with
  | nil => rfl
  | cons c s ih =>
      rw [List.flatMap_cons, List.append_assoc, scanUnits_verbatimChar, ih]
      rfl

/-- **A string can be told from what follows it.** -/
lemma verbatimString_append_inj {s t rest rest' : List Char}
    (h : verbatimString s ++ rest = verbatimString t ++ rest') : s = t ∧ rest = rest' := by
  have hbody : s.flatMap verbatimChar ++ '"' :: rest = t.flatMap verbatimChar ++ '"' :: rest' := by
    simpa [verbatimString] using h
  have hscan := congrArg scanUnits hbody
  rw [scanUnits_verbatim, scanUnits_verbatim, Option.some_inj, Prod.mk.injEq] at hscan
  have hinj : Function.Injective Char.toNat := fun c d hcd => Char.toNat_inj.mp hcd
  exact ⟨hinj.list_map hscan.1, hscan.2⟩

end Json
