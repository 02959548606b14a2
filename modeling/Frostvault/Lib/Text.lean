import Mathlib.Data.List.DropRight
import Mathlib.Data.List.Infix
import Mathlib.Data.List.Nodup
import Mathlib.Data.List.Range

/-!
Text as lists of characters: stripping, splitting at a separator, and the
wildcard patterns of SQL `LIKE`.

* `mem_properPrefixes`: the joined proper initial segments of a split text are
  exactly the texts that, followed by the separator, are a prefix of it;
* `properPrefixes_nodup`: each of them is listed once;
* `properPrefixes_append_sep`, `exists_last_sep`: a text split at one separator;
* `append_sep_prefix_intercalate`, `intercalate_injective`: names joined by a separator;
* `like_escapeLike_descendants`: an escaped text followed by the separator and
  an open wildcard matches exactly the texts below it;
* `like_contains`, `like_escapeLike_nested`: a separator between open wildcards;
* `replaceAll`: `str.replace` of a text by a text.
-/

namespace Text

open List

variable {α : Type*}

/-- Texts are compared character by character; the law by name, as a decision cites it. -/
instance lawfulBEq : LawfulBEq (List Char) := inferInstance

/-! ### Stripping -/

/-- Drop the characters satisfying `p` at both ends, as `str.strip` does. -/
def strip (p : α → Bool) (l : List α) : List α :=
  (l.dropWhile p).rdropWhile p

section

variable (p : α → Bool)

include p

section

variable (l : List α)

include l

lemma strip_head_not (c : α) (cs : List α) (h : strip p l = c :: cs) :
    p c = false := by
  obtain ⟨t, ht⟩ := rdropWhile_prefix p (l.dropWhile p)
  have hd : l.dropWhile p = c :: (cs ++ t) := by
    rw [← ht, ← strip, h, cons_append]
  have := head?_dropWhile_not p l
  rw [hd] at this
  simpa using this

/-- The last character of a stripped text does not satisfy the predicate. -/
lemma strip_getLast_not (cs : List α) (c : α) (h : strip p l = cs ++ [c]) :
    p c = false := by
  have hne : (l.dropWhile p).rdropWhile p ≠ [] := by
    rw [← strip, h]
    simp
  have hlast := rdropWhile_last_not p (l.dropWhile p) hne
  have h' : (l.dropWhile p).rdropWhile p = cs ++ [c] := h
  simp only [h', getLast_append_singleton] at hlast
  simpa using hlast

/-- A text whose ends do not satisfy the predicate is not changed. -/
lemma strip_eq_self (hhead : ∀ c cs, l = c :: cs → p c = false)
    (hlast : ∀ cs c, l = cs ++ [c] → p c = false) : strip p l = l := by
  have hd : l.dropWhile p = l := by
    cases l with
    | nil => rfl
    | cons c cs => rw [dropWhile_cons_of_neg (by simp [hhead c cs rfl])]
  rw [strip, hd, rdropWhile_eq_self_iff]
  intro hne
  have := hlast l.dropLast (l.getLast hne) (dropLast_append_getLast hne).symm
  simp [this]

lemma strip_strip : strip p (strip p l) = strip p l :=
  strip_eq_self p _ (strip_head_not p l) fun cs c => strip_getLast_not p l cs c

lemma strip_infix : strip p l <:+: l :=
  (List.rdropWhile_prefix p _).isInfix.trans (dropWhile_suffix p).isInfix

lemma strip_eq_self_iff : strip p l = l ↔
    (∀ c cs, l = c :: cs → p c = false) ∧ ∀ cs c, l = cs ++ [c] → p c = false := by
  constructor
  · intro h
    refine ⟨fun c cs hl => strip_head_not p l c cs (h.trans hl), fun cs c hl => ?_⟩
    exact strip_getLast_not p l cs c (h.trans hl)
  · exact fun ⟨hhead, hlast⟩ => strip_eq_self p l hhead hlast

end

end

/-- Stripping a text that starts well and has a separator: only its end is stripped. -/
lemma strip_append_cons {p : α → Bool} {a b : List α} {sep : α} (hsep : p sep = false)
    (hhead : ∀ c cs, a = c :: cs → p c = false) :
    strip p (a ++ sep :: b) = a ++ sep :: b.rdropWhile p := by
  have hstart : (a ++ sep :: b).dropWhile p = a ++ sep :: b := by
    cases a with
    | nil => rw [nil_append, dropWhile_cons_of_neg (by simp [hsep])]
    | cons c cs =>
        rw [cons_append, dropWhile_cons_of_neg (by simp [hhead c cs rfl])]
  rw [strip, hstart, List.rdropWhile, reverse_append, reverse_cons, append_assoc,
    dropWhile_append, List.rdropWhile]
  split
  · rename_i hall
    rw [isEmpty_iff.mp hall, singleton_append,
      dropWhile_cons_of_neg (by simp [hsep])]
    simp
  · simp

/-- A character of a joined text is the separator or stands in one of the parts. -/
lemma mem_intercalate {sep c : α} {ws : List (List α)} (h : c ∈ [sep].intercalate ws) :
    c = sep ∨ ∃ w ∈ ws, c ∈ w := by
  induction ws with
  | nil => cases h
  | cons w ws ih =>
      cases ws with
      | nil => exact .inr ⟨w, mem_cons_self, by simpa using h⟩
      | cons w' ws =>
          rw [intercalate_cons_cons, append_assoc, mem_append, mem_append] at h
          rcases h with h | h | h
          · exact .inr ⟨w, mem_cons_self, h⟩
          · exact .inl (mem_singleton.mp h)
          · exact (ih h).imp_right fun ⟨v, hv, hc⟩ => ⟨v, mem_cons_of_mem _ hv, hc⟩

/-! ### Proper initial segments -/

section Split

variable [DecidableEq α] (sep : α)

/-- The initial segments of `l` that end right before a separator. -/
def properPrefixes : List α → List (List α)
  | [] => []
  | c :: cs => (if c = sep then [[]] else []) ++ (properPrefixes cs).map (c :: ·)

/-- **Membership in the proper initial segments.**  They are the texts that,
followed by the separator, are a prefix of the whole. -/
lemma mem_properPrefixes (l d : List α) : d ∈ properPrefixes sep l ↔ d ++ [sep] <+: l := by
  induction l generalizing d with
  | nil => simp [properPrefixes]
  | cons c cs ih =>
      cases d with
      | nil =>
          simp only [properPrefixes, mem_append, mem_map, nil_append]
          constructor
          · rintro (h | ⟨x, -, hx⟩)
            · split at h
              · subst_vars
                simp
              · cases h
            · cases hx
          · intro h
            left
            rw [cons_prefix_cons] at h
            simp [h.1]
      | cons e es =>
          simp only [properPrefixes, mem_append, mem_map, cons_append,
            cons_prefix_cons, List.cons.injEq]
          constructor
          · rintro (h | ⟨x, hx, rfl, rfl⟩)
            · split at h <;> simp at h
            · exact ⟨rfl, (ih x).mp hx⟩
          · rintro ⟨rfl, h⟩
            exact Or.inr ⟨es, (ih es).mpr h, rfl, rfl⟩

lemma properPrefixes_append_sep (l w : List α) : properPrefixes sep (l ++ sep :: w) =
    properPrefixes sep l ++ l :: (properPrefixes sep w).map (l ++ sep :: ·) := by
  induction l with
  | nil => simp [properPrefixes]
  | cons c cs ih =>
      rw [cons_append, properPrefixes, ih, properPrefixes]
      simp

lemma properPrefixes_of_not_mem {l : List α} (h : sep ∉ l) : properPrefixes sep l = [] := by
  refine eq_nil_iff_forall_not_mem.mpr fun d hd => h ?_
  exact ((mem_properPrefixes sep l d).mp hd).subset (by simp)

omit [DecidableEq α] in
lemma exists_last_sep {l : List α} (h : sep ∈ l) : ∃ d w, l = d ++ sep :: w ∧ sep ∉ w := by
  obtain ⟨w, d, hl, hw⟩ := eq_append_cons_of_mem (mem_reverse.mpr h)
  refine ⟨d.reverse, w.reverse, ?_, fun hmem => hw (mem_reverse.mp hmem)⟩
  rw [← reverse_reverse l, hl]
  simp

/-- No proper initial segment is listed twice. -/
lemma properPrefixes_nodup (l : List α) : (properPrefixes sep l).Nodup := by
  induction l with
  | nil => simp [properPrefixes]
  | cons c cs ih =>
      rw [properPrefixes, nodup_append]
      refine ⟨?_, List.Nodup.map cons_injective ih, ?_⟩
      · split <;> simp
      · intro a ha b hb
        obtain ⟨x, -, rfl⟩ := mem_map.mp hb
        split at ha
        · rw [mem_singleton.mp ha]
          simp
        · cases ha

/-- The initial segments of the split text, joined again:
`[sep.join(parts[:i]) for i in range(1, len(parts))]`. -/
def joinedPrefixes (parts : List (List α)) : List (List α) :=
  (List.range' 1 (parts.length - 1)).map fun i => [sep].intercalate (parts.take i)

omit [DecidableEq α] in
lemma joinedPrefixes_cons_head (c : α) (w : List α) (ws : List (List α)) :
    joinedPrefixes sep ((c :: w) :: ws) = (joinedPrefixes sep (w :: ws)).map (c :: ·) := by
  simp only [joinedPrefixes, length_cons, map_map]
  refine map_congr_left fun i hi => ?_
  obtain ⟨j, rfl⟩ := Nat.exists_eq_add_of_le (mem_range'_1.mp hi).1
  rw [Nat.add_comm 1 j]
  cases hw : ws.take j <;> simp [hw, List.intercalate]

omit [DecidableEq α] in
/-- An empty first part adds the empty segment and the separator to all others. -/
lemma joinedPrefixes_nil_cons (w : List α) (ws : List (List α)) :
    joinedPrefixes sep ([] :: w :: ws) =
      [] :: (joinedPrefixes sep (w :: ws)).map (sep :: ·) := by
  simp only [joinedPrefixes, length_cons, Nat.add_sub_cancel, List.range'_succ,
    map_cons, map_map]
  refine congrArg₂ _ (by simp [List.intercalate]) ?_
  rw [List.range'_eq_map_range, List.range'_eq_map_range, map_map, map_map]
  refine map_congr_left fun i _ => ?_
  rw [Function.comp_apply, Function.comp_apply, Function.comp_apply, Nat.add_comm 1 i,
    Nat.add_comm (1 + 1) i]
  simp [List.intercalate]

/-- **Joining the initial segments of a split text** gives its proper initial
segments. -/
lemma joinedPrefixes_splitOn (l : List α) :
    joinedPrefixes sep (l.splitOn sep) = properPrefixes sep l := by
  -- induction on the text; a separator opens a new, empty first part
  induction l with
  | nil => simp [joinedPrefixes, properPrefixes]
  | cons c cs ih =>
      obtain ⟨w, ws, hw⟩ := exists_cons_of_ne_nil (splitOn_ne_nil sep cs)
      rw [splitOn_cons_eq_if_modifyHead, properPrefixes, ← ih, hw]
      by_cases hc : c = sep
      · subst hc
        simp [joinedPrefixes_nil_cons]
      · simp [hc, joinedPrefixes_cons_head]

/-- **Joined names**: text with a separator after it starts a joined text exactly when it joins a
proper initial segment of the names. -/
lemma append_sep_prefix_intercalate {ls : List (List α)} (hls : ∀ w ∈ ls, sep ∉ w) (d : List α) :
    d ++ [sep] <+: [sep].intercalate ls ↔
      ∃ i, 1 ≤ i ∧ i < ls.length ∧ d = [sep].intercalate (ls.take i) := by
  rcases eq_or_ne ls [] with rfl | hne
  · simp
  · rw [← mem_properPrefixes, ← joinedPrefixes_splitOn, splitOn_intercalate sep hls hne,
      joinedPrefixes, mem_map]
    have hpos : 0 < ls.length := length_pos_of_ne_nil hne
    constructor
    · rintro ⟨i, hi, rfl⟩
      obtain ⟨h1, h2⟩ := mem_range'_1.mp hi
      exact ⟨i, h1, by omega, rfl⟩
    · rintro ⟨i, h1, h2, rfl⟩
      exact ⟨i, mem_range'_1.mpr ⟨h1, by omega⟩, rfl⟩

/-- Names that are not empty are told apart by what they join to. -/
lemma intercalate_injective {ls ms : List (List α)} (hls : ∀ w ∈ ls, w ≠ [] ∧ sep ∉ w)
    (hms : ∀ w ∈ ms, w ≠ [] ∧ sep ∉ w) (h : [sep].intercalate ls = [sep].intercalate ms) :
    ls = ms := by
  have hempty {ks : List (List α)} (hks : ∀ w ∈ ks, w ≠ [] ∧ sep ∉ w)
      (hnil : [sep].intercalate ks = []) : ks = [] := by
    cases ks with
    | nil => rfl
    | cons w ws =>
        have hw : w ≠ [] := (hks w mem_cons_self).1
        cases ws <;> simp [List.intercalate, hw] at hnil
  rcases eq_or_ne ls [] with rfl | hl
  · exact (hempty hms h.symm).symm
  · rcases eq_or_ne ms [] with rfl | hm
    · exact hempty hls h
    · rw [← splitOn_intercalate sep (fun w hw => (hls w hw).2) hl, h,
        splitOn_intercalate sep (fun w hw => (hms w hw).2) hm]

end Split

/-! ### Wildcard patterns -/

/-- A token of a `LIKE` pattern: a literal character, `_` or `%`. -/
inductive Token
  | lit (c : Char)
  | one
  | many
deriving DecidableEq, Repr

/-- The token of an unescaped pattern character. -/
def Token.ofChar (c : Char) : Token :=
  if c = '%' then .many else if c = '_' then .one else .lit c

/-- Read a pattern with `\\` as its escape character. -/
def tokens : List Char → List Token
  | [] => []
  | [c] => [Token.ofChar c]
  | c :: d :: rest =>
      if c = '\\' then .lit d :: tokens rest else Token.ofChar c :: tokens (d :: rest)

/-- Match a whole text against the tokens. -/
def matchTokens : List Token → List Char → Bool
  | [], s => s.isEmpty
  | .lit c :: ts, s => s.head? == some c && matchTokens ts s.tail
  | .one :: ts, s => !s.isEmpty && matchTokens ts s.tail
  | .many :: ts, s => s.tails.any (matchTokens ts)

/-- `s LIKE pattern ESCAPE '\\'`. -/
def like (s pattern : List Char) : Bool := matchTokens (tokens pattern) s

/-- `str.replace` of one character. -/
def replaceChar (c : Char) (by_ : List Char) (s : List Char) : List Char :=
  s.flatMap fun x => if x = c then by_ else [x]

/-- Escape the escape character and both wildcards, in this order. -/
def escapeLike (s : List Char) : List Char :=
  replaceChar '_' ['\\', '_'] (replaceChar '%' ['\\', '%'] (replaceChar '\\' ['\\', '\\'] s))

/-- An escaped text reads back as its own literal characters. -/
lemma tokens_escapeLike_append (s rest : List Char) :
    tokens (escapeLike s ++ rest) = s.map Token.lit ++ tokens rest := by
  induction s with
  | nil => rfl
  | cons c cs ih =>
      simp only [escapeLike, replaceChar, flatMap_cons, flatMap_append,
        append_assoc, map_cons, cons_append] at ih ⊢
      by_cases h1 : c = '\\'
      · subst h1
        simp [tokens, ih]
      · by_cases h2 : c = '%'
        · subst h2
          simp [tokens, ih]
        · by_cases h3 : c = '_'
          · subst h3
            simp [tokens, ih]
          · -- a plain character is left alone, whatever follows it
            simp only [h1, h2, h3, if_false, flatMap_cons, flatMap_nil,
              append_nil, cons_append, nil_append]
            cases hr : ((cs.flatMap fun x => if x = '\\' then ['\\', '\\'] else [x]).flatMap
                fun x => if x = '%' then ['\\', '%'] else [x]).flatMap
                  (fun x => if x = '_' then ['\\', '_'] else [x]) ++ rest with
            | nil =>
                rw [hr] at ih
                simp [tokens, ← ih, Token.ofChar, h2, h3]
            | cons d ds =>
                rw [hr] at ih
                simp [tokens, ← ih, Token.ofChar, h1, h2, h3]

lemma matchTokens_map_lit_append (s : List Char) (ts : List Token) (t : List Char) :
    matchTokens (s.map Token.lit ++ ts) t ↔ ∃ r, t = s ++ r ∧ matchTokens ts r := by
  induction s generalizing t with
  | nil => simp
  | cons c cs ih =>
      cases t with
      | nil => simp [matchTokens]
      | cons x xs =>
          simp only [map_cons, cons_append, matchTokens, head?_cons,
            tail_cons, Bool.and_eq_true, ih, List.cons.injEq]
          constructor
          · rintro ⟨hx, r, rfl, hr⟩
            exact ⟨r, ⟨by simpa using hx, rfl⟩, hr⟩
          · rintro ⟨r, ⟨rfl, rfl⟩, hr⟩
            exact ⟨by simp, r, rfl, hr⟩

lemma matchTokens_many (t : List Char) : matchTokens [.many] t := by
  simp only [matchTokens, any_eq_true, mem_tails]
  exact ⟨[], nil_suffix, rfl⟩

/-- **Escaped prefix patterns.**  `s LIKE escape(d) || sep || '%'` holds exactly of
the texts that start with `d` and the separator. -/
lemma like_escapeLike_descendants (d p : List Char) :
    like p (escapeLike d ++ ['/', '%']) ↔ d ++ ['/'] <+: p := by
  have ht : tokens ['/', '%'] = [Token.lit '/', Token.many] := by decide
  rw [like, tokens_escapeLike_append, ht,
    show d.map Token.lit ++ [Token.lit '/', Token.many] =
      (d ++ ['/']).map Token.lit ++ [Token.many] by simp,
    matchTokens_map_lit_append]
  constructor
  · rintro ⟨r, rfl, -⟩
    exact prefix_append _ _
  · rintro ⟨r, rfl⟩
    exact ⟨r, rfl, matchTokens_many r⟩

/-- A character between two open wildcards matches the texts that contain it. -/
lemma matchTokens_many_lit_many (c : Char) (t : List Char) :
    matchTokens [.many, .lit c, .many] t ↔ c ∈ t := by
  have hmatch : matchTokens [.many, .lit c, .many] t =
      t.tails.any (matchTokens [.lit c, .many]) := rfl
  have hlit : ∀ r, matchTokens [.lit c, .many] r ↔ ∃ u, r = c :: u := by
    intro r
    have h := matchTokens_map_lit_append [c] [.many] r
    simpa [matchTokens_many] using h
  rw [hmatch, any_eq_true]
  constructor
  · rintro ⟨r, hr, hrc⟩
    obtain ⟨u, rfl⟩ := (hlit r).mp hrc
    exact ((mem_tails _ _).mp hr).subset mem_cons_self
  · intro hc
    obtain ⟨s, u, rfl⟩ := append_of_mem hc
    exact ⟨c :: u, (mem_tails _ _).mpr (suffix_append s _), (hlit _).mpr ⟨u, rfl⟩⟩

lemma like_contains (p : List Char) : like p ['%', '/', '%'] ↔ '/' ∈ p := by
  have ht : tokens ['%', '/', '%'] = [Token.many, Token.lit '/', Token.many] := by decide
  rw [like, ht, matchTokens_many_lit_many]

/-- `s LIKE escape(d) || sep || '%' || sep || '%'` holds of the texts below `d` with a separator
more. -/
lemma like_escapeLike_nested (d p : List Char) :
    like p (escapeLike d ++ ['/', '%', '/', '%']) ↔ ∃ r, p = d ++ '/' :: r ∧ '/' ∈ r := by
  have ht : tokens ['/', '%', '/', '%'] =
      [Token.lit '/', Token.many, Token.lit '/', Token.many] := by decide
  rw [like, tokens_escapeLike_append, ht,
    show d.map Token.lit ++ [Token.lit '/', Token.many, Token.lit '/', Token.many] =
      (d ++ ['/']).map Token.lit ++ [Token.many, Token.lit '/', Token.many] by simp,
    matchTokens_map_lit_append]
  simp only [matchTokens_many_lit_many, append_assoc, singleton_append]

/-! ### Replacing a text -/

/-- `str.replace(old, new)` behind `skip` characters that an occurrence still covers. -/
def replaceFrom (old new : List Char) : ℕ → List Char → List Char
  | _, [] => []
  | 0, c :: s =>
      if old.isPrefixOf (c :: s) then new ++ replaceFrom old new (old.length - 1) s
      else c :: replaceFrom old new 0 s
  | skip + 1, _ :: s => replaceFrom old new skip s

/-- `s.replace(old, new)` of a text that is not empty. -/
def replaceAll (old new s : List Char) : List Char := replaceFrom old new 0 s

/-- Nothing is replaced where the first character does not occur. -/
lemma replaceAll_append {d : Char} {old new a b : List Char} (h : d ∉ a) :
    replaceAll (d :: old) new (a ++ b) = a ++ replaceAll (d :: old) new b := by
  induction a with
  | nil => rfl
  | cons c a ih =>
      obtain ⟨hc, ha⟩ := not_or.mp (mt mem_cons.mpr h)
      have hhead : (d :: old).isPrefixOf (c :: (a ++ b)) = false := by
        simp [List.isPrefixOf, hc]
      simp only [replaceAll, cons_append, replaceFrom, hhead, Bool.false_eq_true, if_false]
      exact congrArg (c :: ·) (ih ha)

end Text
