/-!
Lines of a text. Every vertical control and separator ends a line, a carriage return with its line
feed ends one, and a break at the end opens no further line.
-/
namespace PluginHost.Text

/-- Characters that end a line. -/
def isBreak (c : Char) : Bool :=
  c.toNat ∈ [0x0A, 0x0B, 0x0C, 0x0D, 0x1C, 0x1D, 0x1E, 0x85, 0x2028, 0x2029]

def lines : List Char → List (List Char)
  | [] => []
  | c :: d :: s =>
    if c = '\r' ∧ d = '\n' then [] :: lines s
    else if isBreak c then [] :: lines (d :: s)
    else
      match lines (d :: s) with
      | [] => [[c]]
      | l :: ls => (c :: l) :: ls
  | [c] => if isBreak c then [[]] else [[c]]

theorem lines_ne_nil {s : List Char} (h : s ≠ []) : lines s ≠ [] := by
  match s with
  | [] => exact absurd rfl h
  | [c] => simp only [lines]; split <;> simp
  | c :: d :: s =>
    simp only [lines]
    split
    · simp
    · split
      · simp
      · split <;> simp

end PluginHost.Text
