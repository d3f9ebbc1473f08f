import Mathlib.Data.List.Basic
import PluginHost.CodeFrame
import PluginHost.Proofs.Path.Normal

/-!
Excerpts of source code. They have one row for each line around the one that is shown, in the order
of the lines, and below the row of that one another with a caret, which stands where the row above
has the character of the column.
-/
namespace PluginHost

namespace Text

variable {c : Char} {l s t : List Char}

theorem trimEnd_append (s t : List Char) :
    trimEnd (s ++ t) = if trimEnd t = [] then trimEnd s else s ++ trimEnd t := by
  unfold trimEnd
  rw [List.reverse_append, List.dropWhile_append]
  simp only [List.isEmpty_iff, List.reverse_eq_nil_iff]
  split
  · rfl
  · rw [List.reverse_append, List.reverse_reverse]

/-- Nothing is taken off a text that ends with a character that is not blank. -/
theorem trimEnd_concat (s : List Char) (hc : isBlank c = false) : trimEnd (s ++ [c]) = s ++ [c] := by
  simp [trimEnd, hc]

theorem mem_of_mem_trimEnd (h : c ∈ trimEnd s) : c ∈ s := by
  rw [trimEnd, List.mem_reverse] at h
  exact List.mem_reverse.1 ((List.dropWhile_sublist _).mem h)

/-- No line has a character in it that ends a line. -/
theorem isBreak_of_mem_lines (hl : l ∈ lines s) (hc : c ∈ l) : isBreak c = false := by
  induction s using lines.induct generalizing l with
  | case1 => simp [lines] at hl
  | case2 a d s ends ih =>
    rw [lines, if_pos ends] at hl
    obtain rfl | hl := List.mem_cons.1 hl
    · cases hc
    · exact ih hl hc
  | case3 a d s other ends ih =>
    rw [lines, if_neg other, if_pos ends] at hl
    obtain rfl | hl := List.mem_cons.1 hl
    · cases hc
    · exact ih hl hc
  | case4 a d s _ _ none => exact absurd none (lines_ne_nil (List.cons_ne_nil d s))
  | case5 a d s other inner m ms first ih =>
    rw [lines, if_neg other, if_neg inner, first] at hl
    rw [first] at ih
    obtain rfl | hl := List.mem_cons.1 hl
    · obtain rfl | hc := List.mem_cons.1 hc
      · exact Bool.eq_false_iff.2 inner
      · exact ih (List.mem_cons_self ..) hc
    · exact ih (List.mem_cons_of_mem _ hl) hc
  | case6 a ends =>
    rw [lines, if_pos ends] at hl
    obtain rfl := List.mem_singleton.1 hl
    cases hc
  | case7 a inner =>
    rw [lines, if_neg inner] at hl
    obtain rfl := List.mem_singleton.1 hl
    obtain rfl := List.mem_singleton.1 hc
    exact Bool.eq_false_iff.2 inner

end Text

namespace CodeFrame

open Text

variable {width shown number context count : Nat} {line column : Int} {l : List Char}
  {ls rs : List (List Char)}

/-- What a row tells of a line: the mark if the line is the one shown, its number up to the bar, and
the line itself without the white space at its end. -/
structure Shows (shown number : Nat) (l r : List Char) : Prop where
  marked : r.head? = some '>' ↔ number = shown
  numbered : ∃ n rest, r.tail = blanks n ++ (toString number).toList ++ ' ' :: '|' :: rest
  ends : trimEnd l <:+ r

/-- What an excerpt comes to: a row for each line from the first that is near enough to the line
shown to the last, in their order, and right below the row of the line shown one with a single
caret. The caret stands below the character of the column, unless that is white space at the end of
the line or lies outside it. -/
def IsExcerpt (ls : List (List Char)) (line column : Int) (context : Nat)
    (rs : List (List Char)) : Prop :=
  ∃ (shown first last : Nat) (rowOf : Nat → List Char) (below : List Char),
    (shown : Int) = min (max line 1) ls.length ∧
    first = max (shown - context) 1 ∧ last = min (shown + context) ls.length ∧
    rs = (List.range' first (shown - first)).map rowOf ++
      rowOf shown :: below :: (List.range' (shown + 1) (last - shown)).map rowOf ∧
    (∀ n, first ≤ n → n ≤ last → Shows shown n (ls.getD (n - 1) []) (rowOf n)) ∧
    below.head? ≠ some '>' ∧ below.count '^' = 1 ∧
    ∀ k : Nat, column = k → k < (trimEnd (ls.getD (shown - 1) [])).length →
      ∃ before, rowOf shown = before ++ trimEnd (ls.getD (shown - 1) []) ∧
        below[before.length + k]? = some '^'

/-- What stands before the line in its row, up to the bar. -/
def gutter (width shown number : Nat) : List Char :=
  (if number = shown then '>' else ' ') :: ' ' :: aligned width number ++ [' ', '|']

theorem row_eq (width shown number : Nat) (l : List Char) :
    row width shown number l =
      gutter width shown number ++ if trimEnd l = [] then [] else ' ' :: trimEnd l := by
  have whole : row width shown number l = trimEnd (gutter width shown number ++ ([' '] ++ l)) := by
    simp [row, gutter]
  have bar : trimEnd (gutter width shown number) = gutter width shown number := by
    have last : gutter width shown number =
        ((if number = shown then '>' else ' ') :: ' ' :: aligned width number ++ [' ']) ++ ['|'] := by
      simp [gutter]
    rw [last, trimEnd_concat _ (by decide)]
  have blank : trimEnd [' '] = [] := by decide
  rw [whole, trimEnd_append, trimEnd_append, blank]
  by_cases empty : trimEnd l = []
  · simp [empty, bar]
  · simp [empty]

theorem shows_row (width shown number : Nat) (l : List Char) :
    Shows shown number l (row width shown number l) where
  marked := by
    rw [row_eq, gutter]
    by_cases h : number = shown <;> simp [h]
  numbered := by
    refine ⟨width - (toString number).toList.length + 1,
      if trimEnd l = [] then [] else ' ' :: trimEnd l, ?_⟩
    rw [row_eq, gutter, aligned, blanks, blanks, List.replicate_succ]
    simp only [List.cons_append, List.append_assoc, List.tail_cons, List.nil_append]
  ends := by
    rw [row_eq]
    split
    · rename_i empty
      exact empty ▸ List.nil_suffix
    · exact (List.suffix_cons ..).trans (List.suffix_append ..)

theorem length_gutter (h : (toString number).toList.length ≤ width) :
    (gutter width shown number).length = width + 4 := by
  simp only [gutter, aligned, blanks, List.length_cons, List.length_append, List.length_replicate,
    List.length_nil]
  omega

/-- A greater number has no fewer digits. -/
theorem length_toString_mono {m n : Nat} (h : m ≤ n) :
    (toString m).toList.length ≤ (toString n).toList.length := by
  have digits (k : Nat) : (toString k).toList = Nat.toDigits 10 k := Nat.toList_repr
  rw [digits, digits, Nat.length_toDigits_le_iff (by decide) Nat.length_toDigits_pos]
  exact Nat.lt_of_le_of_lt h
    ((Nat.length_toDigits_le_iff (by decide) Nat.length_toDigits_pos).1 (Nat.le_refl _))

theorem newline_not_mem_row (h : '\n' ∉ l) : '\n' ∉ row width shown number l := by
  have digits : '\n' ∉ Nat.toDigits 10 number := fun hn =>
    absurd (Nat.isDigit_of_mem_toDigits (by decide) (by decide) hn) (by decide)
  have trimmed : '\n' ∉ trimEnd l := fun hn => h (mem_of_mem_trimEnd hn)
  have mark : '\n' ≠ if number = shown then '>' else ' ' := by split <;> decide
  rw [row_eq]
  split <;> simp [gutter, aligned, blanks, digits, trimmed, mark]

theorem newline_not_mem_caret (width : Nat) (column : Int) : '\n' ∉ caret width column := by
  simp [caret, blanks]

theorem unlines_eq_intercalate (rs : List (List Char)) : unlines rs = ['\n'].intercalate rs := by
  induction rs with
  | nil => rfl
  | cons r rs ih =>
    cases rs with
    | nil => simp [unlines]
    | cons s rs =>
      rw [unlines, ih, List.intercalate_cons_cons]
      · simp
      · simp

/-- Rows are read back from a text of them. -/
theorem pieces_unlines (h : ∀ r ∈ rs, '\n' ∉ r) (some : rs ≠ []) : pieces '\n' (unlines rs) = rs := by
  rw [pieces_eq_splitOn, unlines_eq_intercalate, List.splitOn_intercalate _ h some]

theorem clamp_eq (line : Int) (h : 0 < count) : (clamp count line : Int) = min (max line 1) count := by
  unfold clamp
  omega

theorem window_eq (count shown context : Nat) :
    window count shown context =
      List.range' (max (shown - context) 1)
        (min (shown + context) count + 1 - max (shown - context) 1) := by
  have first : (max ((shown : Int) - context) 1).toNat = max (shown - context) 1 := by omega
  have size : (min ((shown : Int) + context) count - max ((shown : Int) - context) 1 + 1).toNat =
      min (shown + context) count + 1 - max (shown - context) 1 := by omega
  rw [List.range'_eq_map_range, window]
  simp only [first, size]

/-- The window is what comes before the line shown, that line, and what comes after it. -/
theorem window_split (positive : 1 ≤ shown) (within : shown ≤ count) (context : Nat) :
    window count shown context =
      List.range' (max (shown - context) 1) (shown - max (shown - context) 1) ++
        shown :: List.range' (shown + 1) (min (shown + context) count - shown) := by
  have upTo : max (shown - context) 1 + (shown - max (shown - context) 1) = shown := by omega
  have size : min (shown + context) count + 1 - max (shown - context) 1 =
      (shown - max (shown - context) 1) + (min (shown + context) count - shown + 1) := by omega
  rw [window_eq, size, ← List.range'_append_1, upTo, List.range'_succ]

/-- The rows of an excerpt in the order of their lines, with the caret below the line shown. -/
theorem rows_eq (line column : Int) (context : Nat) (positive : 1 ≤ shown)
    (within : shown ≤ ls.length) (clamped : clamp ls.length line = shown)
    (wide : (toString (min (shown + context) ls.length)).toList.length = width) :
    rows ls line column context =
      (List.range' (max (shown - context) 1) (shown - max (shown - context) 1)).map
          (fun n => row width shown n (ls.getD (n - 1) [])) ++
        row width shown shown (ls.getD (shown - 1) []) :: caret width column ::
          (List.range' (shown + 1) (min (shown + context) ls.length - shown)).map
            fun n => row width shown n (ls.getD (n - 1) []) := by
  have last : min ((shown : Int) + context) ls.length =
      ((min (shown + context) ls.length : Nat) : Int) := by omega
  -- The numbers are as wide as the last one shown, which need not be that of the last line.
  have digits : (toString (min ((shown : Int) + context) ls.length)).length = width := by
    rw [last, ← String.length_toList, ← wide]
    rfl
  have single {ns : List Nat} (other : ∀ n ∈ ns, n ≠ shown) :
      (ns.flatMap fun n =>
        if n = shown then [row width shown n (ls.getD (n - 1) []), caret width column]
        else [row width shown n (ls.getD (n - 1) [])]) =
      ns.map fun n => row width shown n (ls.getD (n - 1) []) := by
    rw [List.map_eq_flatMap]
    exact List.flatMap_congr fun n hn => if_neg (other n hn)
  rw [rows]
  simp only [clamped, digits, window_split positive within]
  rw [List.flatMap_append, List.flatMap_cons, if_pos rfl, single, single]
  · rfl
  · intro n hn
    have := (List.mem_range'_1.1 hn).1
    omega
  · intro n hn
    have := (List.mem_range'_1.1 hn).2
    omega

theorem newline_not_mem_rows (plain : ∀ l ∈ ls, '\n' ∉ l) {context : Int} {r : List Char}
    (h : r ∈ rows ls line column context) : '\n' ∉ r := by
  have plainAt (n : Nat) : '\n' ∉ ls.getD n [] := by
    rw [List.getD_eq_getElem?_getD]
    cases hl : ls[n]? with
    | none => simp
    | some l => exact plain l (List.mem_of_getElem? hl)
  rw [rows, List.mem_flatMap] at h
  obtain ⟨n, -, hr⟩ := h
  split at hr
  · rcases List.mem_cons.1 hr with same | hr
    · rw [same]
      exact newline_not_mem_row (plainAt _)
    · rw [List.mem_singleton.1 hr]
      exact newline_not_mem_caret _ column
  · rw [List.mem_singleton.1 hr]
    exact newline_not_mem_row (plainAt _)

theorem head_caret (width : Nat) (column : Int) : (caret width column).head? = some ' ' := by
  simp [caret, blanks, Nat.add_comm 2, List.replicate_succ]

theorem count_caret (width : Nat) (column : Int) : (caret width column).count '^' = 1 := by
  simp [caret, blanks, List.count_replicate]

/-- The caret stands where the row of the line shown has the character of its column. -/
theorem caret_below (digits : (toString shown).toList.length ≤ width) {k : Nat}
    (inside : k < (trimEnd l).length) :
    ∃ before, row width shown shown l = before ++ trimEnd l ∧
      (caret width k)[before.length + k]? = some '^' := by
  have some : trimEnd l ≠ [] := by
    intro none
    simp [none] at inside
  have place : (gutter width shown shown ++ [' ']).length + k =
      (blanks (2 + width) ++ [' ', '|', ' '] ++ blanks k).length := by
    rw [List.length_append, length_gutter digits]
    simp only [blanks, List.length_append, List.length_replicate, List.length_cons,
      List.length_nil]
    omega
  refine ⟨gutter width shown shown ++ [' '], ?_, ?_⟩
  · rw [row_eq, if_neg some]
    simp
  · rw [place, caret, Int.toNat_natCast, List.getElem?_concat_length]

/-- The excerpt of a text has its rows, whichever line and column of the text it is to show, as long
as the text has a line at all. -/
theorem render_rows (source : String) (line column : Int) (context : Nat)
    (some : lines source.toList ≠ []) :
    IsExcerpt (lines source.toList) line column context
      (pieces '\n' (render source line column context).toList) := by
  have positive : 0 < (lines source.toList).length := List.length_pos_iff.2 some
  have plain : ∀ l ∈ lines source.toList, '\n' ∉ l := fun l hl hn =>
    absurd (isBreak_of_mem_lines hl hn) (by decide)
  have drawn : render source line column context =
      String.ofList (unlines (rows (lines source.toList) line column context)) := by
    unfold render
    split
    · contradiction
    · rfl
  generalize lines source.toList = ls at *
  obtain ⟨shown, clamped⟩ : ∃ shown, clamp ls.length line = shown := ⟨_, rfl⟩
  have near := clamp_eq line positive
  rw [clamped] at near
  generalize wide : (toString (min (shown + context) ls.length)).toList.length = width
  have whole := rows_eq line column context (by omega) (by omega) clamped wide
  have digits : (toString shown).toList.length ≤ width := by
    rw [← wide]
    exact length_toString_mono (by omega)
  refine ⟨shown, _, _, fun n => row width shown n (ls.getD (n - 1) []), caret width column, near,
    rfl, rfl, ?_, fun n _ _ => shows_row .., ?_, count_caret .., ?_⟩
  · rw [drawn, String.toList_ofList,
      pieces_unlines (fun r => newline_not_mem_rows plain) (by simp [whole]), whole]
  · rw [head_caret]
    decide
  · rintro k rfl inside
    exact caret_below digits inside

/-- The excerpt around a line behind the end, which is that of the last line. -/
theorem render_rows_behind :
    lines "x\r\n\n  y  \n".toList ≠ [] ∧
      render "x\r\n\n  y  \n" 99 2 1 = "  2 |\n> 3 |   y\n    |   ^" ∧
      IsExcerpt (lines "x\r\n\n  y  \n".toList) 99 2 1
        (pieces '\n' (render "x\r\n\n  y  \n" 99 2 1).toList) := by
  have some : lines "x\r\n\n  y  \n".toList ≠ [] := by decide
  exact ⟨some, by decide, render_rows _ 99 2 1 some⟩

end CodeFrame

end PluginHost
