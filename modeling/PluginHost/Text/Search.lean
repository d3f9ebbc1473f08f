/-!
Finding one text in another. A cut splits a text at the first occurrence of a pattern.
-/
namespace PluginHost.Text

/-- What follows a pattern at the start of a text. -/
def rest? : List Char → List Char → Option (List Char)
  | [], s => some s
  | _ :: _, [] => none
  | a :: p, c :: s => if a = c then rest? p s else none

theorem rest?_eq_some_iff {p s r : List Char} : rest? p s = some r ↔ s = p ++ r := by
  induction p generalizing s with
  | nil => simp [rest?, eq_comm]
  | cons a p ih =>
    cases s with
    | nil => simp [rest?]
    | cons c s =>
      by_cases h : a = c
      · simp [rest?, h, ih]
      · simp [rest?, h, Ne.symm h]

/-- The text before and after the first occurrence of a pattern. -/
def cut? (p : List Char) : List Char → Option (List Char × List Char)
  | [] => if p = [] then some ([], []) else none
  | c :: s =>
    match rest? p (c :: s) with
    | some rest => some ([], rest)
    | none => (cut? p s).map fun r => (c :: r.1, r.2)

/-- Pieces between occurrences of one character; there is always at least one. -/
def pieces (c : Char) : List Char → List (List Char)
  | [] => [[]]
  | d :: s =>
    if d = c then [] :: pieces c s
    else
      match pieces c s with
      | [] => [[d]]
      | p :: ps => (d :: p) :: ps

theorem pieces_ne_nil (c : Char) (s : List Char) : pieces c s ≠ [] := by
  induction s with
  | nil => simp [pieces]
  | cons d s ih =>
    simp only [pieces]
    split
    · simp
    · split <;> simp

theorem eq_append_of_cut? {p s a b : List Char} (h : cut? p s = some (a, b)) : s = a ++ p ++ b := by
  induction s generalizing a b with
  | nil =>
    simp only [cut?] at h
    split at h
    · rename_i hp
      simp only [Option.some.injEq, Prod.mk.injEq] at h
      simp [hp, ← h.1, ← h.2]
    · simp at h
  | cons c s ih =>
    simp only [cut?] at h
    split at h
    · rename_i rest hr
      simp only [Option.some.injEq, Prod.mk.injEq] at h
      have := rest?_eq_some_iff.1 hr
      simp [← h.1, ← h.2, this]
    · obtain ⟨r, hr, he⟩ := Option.map_eq_some_iff.1 h
      simp only [Prod.mk.injEq] at he
      rw [ih hr, ← he.1, ← he.2]
      simp

theorem cut?_of_not_mem {c : Char} {s : List Char} (h : c ∉ s) : cut? [c] s = none := by
  induction s with
  | nil => rfl
  | cons d s ih =>
    obtain ⟨other, rest⟩ := not_or.1 (mt List.mem_cons.2 h)
    rw [cut?, rest?, if_neg other, ih rest]
    rfl

theorem cut?_append {c : Char} {a : List Char} (h : c ∉ a) (b : List Char) :
    cut? [c] (a ++ c :: b) = some (a, b) := by
  induction a with
  | nil => simp [cut?, rest?]
  | cons d a ih =>
    obtain ⟨other, rest⟩ := not_or.1 (mt List.mem_cons.2 h)
    rw [List.cons_append, cut?, rest?, if_neg other, ih rest]
    rfl

/-- Whether a text holds a pattern. -/
def holds (s p : String) : Bool := (cut? p.toList s.toList).isSome

/-- The first occurrence of a pattern, if any, gives way to another text. -/
def replaceFirst (s p by_ : String) : String :=
  match cut? p.toList s.toList with
  | some (a, b) => String.ofList (a ++ by_.toList ++ b)
  | none => s

/-- What follows a pattern that the text starts with. -/
def after? (s p : String) : Option String := (rest? p.toList s.toList).map String.ofList

def startsWith (s p : String) : Bool := (after? s p).isSome

theorem after?_eq_some_iff {s p r : String} : after? s p = some r ↔ s = p ++ r := by
  rw [after?, Option.map_eq_some_iff]
  constructor
  · rintro ⟨rest, found, rfl⟩
    rw [rest?_eq_some_iff] at found
    exact String.toList_injective (by simpa using found)
  · rintro rfl
    exact ⟨r.toList, rest?_eq_some_iff.2 (by simp), String.ofList_toList⟩

theorem startsWith_iff {s p : String} : startsWith s p = true ↔ ∃ r, s = p ++ r := by
  rw [startsWith, Option.isSome_iff_exists]
  simp only [after?_eq_some_iff]

theorem after?_eq_none {s p : String} (h : startsWith s p = false) : after? s p = none :=
  Option.not_isSome_iff_eq_none.1 (Bool.eq_false_iff.1 h)

theorem startsWith_append {s p : String} (h : startsWith s p = true) (t : String) :
    startsWith (s ++ t) p = true := by
  obtain ⟨r, rfl⟩ := startsWith_iff.1 h
  exact startsWith_iff.2 ⟨r ++ t, String.append_assoc ..⟩

def endsWith (s p : String) : Bool := (rest? p.toList.reverse s.toList.reverse).isSome

def split (s : String) (c : Char) : List String := (pieces c s.toList).map String.ofList

/-- The text without the copies of one character at its end. -/
def trimEndChar (s : String) (c : Char) : String :=
  String.ofList (s.toList.reverse.dropWhile (· = c)).reverse

end PluginHost.Text
