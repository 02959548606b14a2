import Mathlib.Data.List.Basic

/-!
The lines of a text, as Python's `str.splitlines` cuts them.

A line ends at any of ten characters, or at a carriage return and a newline together.

* `lines`: the lines;
* `filter_lines`: the lines that are not empty are the pieces between the characters;
* `pieces_flatMap`: **unbroken texts, each with an end of its own, are the pieces**;
* `mem_of_mem_splitOnP`, `not_of_mem_splitOnP`, `splitOnP_append_of_forall`: what a piece holds.
-/

namespace Lines

open List

/-! ### Cutting -/

/-- The characters that end a line. -/
def breaks : List Char :=
  ['\n', '\r', '\x0b', '\x0c', '\x1c', '\x1d', '\x1e', '\u0085', '\u2028', '\u2029']

/-- The character ends a line. -/
def isBreak (c : Char) : Bool := c ∈ breaks

/-- `str.splitlines`: the current line, backwards, and the text ahead. -/
def cut (line : List Char) : List Char → List (List Char)
  | [] => if line = [] then [] else [line.reverse]
  | '\r' :: '\n' :: rest => line.reverse :: cut [] rest
  | c :: rest => if isBreak c then line.reverse :: cut [] rest else cut (c :: line) rest

/-- `str.splitlines`. -/
def lines (text : List Char) : List (List Char) := cut [] text

example : lines "a\r\nb\x0bc".toList = ["a".toList, "b".toList, "c".toList] := by decide

lemma isBreak_eq_false {q : Char → Bool} (hq : ∀ b ∈ breaks, q b = false) {c : Char}
    (hc : q c) : isBreak c = false := by
  refine Bool.eq_false_iff.mpr fun hbreak => ?_
  rw [hq c (of_decide_eq_true hbreak)] at hc
  exact Bool.false_ne_true hc

variable {α : Type*} {p : α → Bool}

lemma mem_of_mem_splitOnP {l w : List α} {c : α} (hw : w ∈ l.splitOnP p) (hc : c ∈ w) :
    c ∈ l := by
  induction l generalizing w with
  | nil =>
      rw [splitOnP_nil, mem_singleton] at hw
      exact absurd hc (hw ▸ not_mem_nil)
  | cons x l ih =>
      rw [splitOnP_cons_eq_if_modifyHead] at hw
      obtain ⟨v, vs, hv⟩ := exists_cons_of_ne_nil (splitOnP_ne_nil p l)
      have hv' : v ∈ l.splitOnP p := hv ▸ mem_cons_self
      split at hw
      · rcases mem_cons.mp hw with rfl | hw
        · cases hc
        · exact mem_cons_of_mem _ (ih hw hc)
      · rw [hv, modifyHead_cons, mem_cons] at hw
        rcases hw with rfl | hw
        · rcases mem_cons.mp hc with rfl | hc
          · exact mem_cons_self
          · exact mem_cons_of_mem _ (ih hv' hc)
        · exact mem_cons_of_mem _ (ih (hv ▸ mem_cons_of_mem _ hw) hc)

lemma not_of_mem_splitOnP {l w : List α} {c : α} (hw : w ∈ l.splitOnP p) (hc : c ∈ w) :
    p c = false := by
  induction l generalizing w with
  | nil =>
      rw [splitOnP_nil, mem_singleton] at hw
      exact absurd hc (hw ▸ not_mem_nil)
  | cons x l ih =>
      rw [splitOnP_cons_eq_if_modifyHead] at hw
      obtain ⟨v, vs, hv⟩ := exists_cons_of_ne_nil (splitOnP_ne_nil p l)
      have hv' : v ∈ l.splitOnP p := hv ▸ mem_cons_self
      split at hw
      · rcases mem_cons.mp hw with rfl | hw
        · cases hc
        · exact ih hw hc
      · rename_i hx
        rw [hv, modifyHead_cons, mem_cons] at hw
        rcases hw with rfl | hw
        · rcases mem_cons.mp hc with rfl | hc
          · exact Bool.eq_false_iff.mpr hx
          · exact ih hv' hc
        · exact ih (hv ▸ mem_cons_of_mem _ hw) hc

/-- A text without ends of pieces belongs to the first one. -/
lemma splitOnP_append_of_forall {l m v : List α} {vs : List (List α)}
    (hl : ∀ c ∈ l, p c = false) (hm : m.splitOnP p = v :: vs) :
    (l ++ m).splitOnP p = (l ++ v) :: vs := by
  induction l with
  | nil => exact hm
  | cons c l ih =>
      rw [forall_mem_cons] at hl
      rw [cons_append, splitOnP_cons_eq_if_modifyHead, if_neg (by simp [hl.1]), ih hl.2]
      rfl

/-! ### Lines as pieces -/

/-- The pieces of a text that are not empty. -/
def pieces (p : α → Bool) (l : List α) : List (List α) :=
  (l.splitOnP p).filter fun w => !w.isEmpty

lemma pieces_append_cons {sep : α} (hsep : p sep) (l m : List α) :
    pieces p (l ++ sep :: m) = pieces p l ++ pieces p m := by
  rw [pieces, splitOnP_append_cons _ _ hsep, filter_append]
  rfl

lemma pieces_of_forall {l : List α} (h : ∀ c ∈ l, p c = false) :
    pieces p l = [l].filter fun w => !w.isEmpty := by
  rw [pieces, splitOnP_eq_singleton h]

lemma filter_cons_eq {line : List Char} (hline : ∀ c ∈ line, isBreak c = false)
    (ws : List (List Char)) : (line.reverse :: ws).filter (fun w => !w.isEmpty) =
      pieces isBreak line.reverse ++ ws.filter fun w => !w.isEmpty := by
  rw [pieces_of_forall fun c hc => hline c (mem_reverse.mp hc), ← filter_append]
  rfl

/-- The rest of a text goes on with the current line. -/
lemma filter_cut (line text : List Char) (hline : ∀ c ∈ line, isBreak c = false) :
    (cut line text).filter (fun w => !w.isEmpty) = pieces isBreak (line.reverse ++ text) := by
  have hnil : pieces isBreak ([] : List Char) = [] := by simp [pieces]
  induction line, text using cut.induct with
  | case1 => simp [cut, hnil]
  | case2 line hne =>
      rw [cut, if_neg hne, filter_cons_eq hline, append_nil, filter_nil,
        append_nil]
  | case3 line rest ih =>
      -- nothing stands between the two characters
      rw [cut, filter_cons_eq hline, ih (by simp), pieces_append_cons (by decide),
        ← nil_append ('\n' :: rest), pieces_append_cons (by decide), hnil]
      rfl
  | case4 line c rest hc hbreak ih =>
      rw [cut, if_pos hbreak, filter_cons_eq hline, ih (by simp), pieces_append_cons hbreak]
      · rfl
      · exact hc
  | case5 line c rest hc hbreak ih =>
      have hline' : ∀ d ∈ c :: line, isBreak d = false := by
        rintro d (_ | ⟨_, hd⟩)
        · exact Bool.eq_false_iff.mpr hbreak
        · exact hline d hd
      rw [cut, if_neg hbreak, ih hline', reverse_cons, append_assoc]
      · rfl
      · exact hc

/-- **The lines that are not empty** are the pieces between the characters that end a line. -/
lemma filter_lines (text : List Char) :
    (lines text).filter (fun w => !w.isEmpty) = pieces isBreak text :=
  filter_cut [] text fun _ hc => absurd hc not_mem_nil

/-- **Unbroken texts, each with an end of its own, are the pieces.** -/
lemma pieces_flatMap {sep : α} (hsep : p sep) (ls : List (List α))
    (h : ∀ l ∈ ls, l ≠ [] ∧ ∀ c ∈ l, p c = false) :
    pieces p (ls.flatMap fun l => l ++ [sep]) = ls := by
  induction ls with
  | nil => simp [pieces]
  | cons l ls ih =>
      obtain ⟨hne, hl⟩ := h l mem_cons_self
      have hkeep : [l].filter (fun w => !w.isEmpty) = [l] := by simp [hne]
      rw [flatMap_cons, append_assoc, singleton_append, pieces_append_cons hsep,
        pieces_of_forall hl, hkeep, ih fun m hm => h m (mem_cons_of_mem _ hm),
        singleton_append]

end Lines
