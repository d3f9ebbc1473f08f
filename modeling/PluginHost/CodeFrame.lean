import PluginHost.Text.Class
import PluginHost.Text.Lines

/-!
Excerpts of source code around a position. Lines count from one and columns from zero.
-/
namespace PluginHost.CodeFrame

def blanks (n : Nat) : List Char := List.replicate n ' '

/-- A number set to the right in a column of the given width. -/
def aligned (width n : Nat) : List Char :=
  let ds := (toString n).toList
  blanks (width - ds.length) ++ ds

/-- The row of one source line, marked if it is the one that is shown. -/
def row (width shown number : Nat) (line : List Char) : List Char :=
  Text.trimEnd ((if number = shown then '>' else ' ') :: ' ' :: aligned width number
    ++ [' ', '|', ' '] ++ line)

def caret (width : Nat) (column : Int) : List Char :=
  blanks (2 + width) ++ [' ', '|', ' '] ++ blanks column.toNat ++ ['^']

/-- The line shown: the given one, or the nearest that exists. -/
def clamp (count : Nat) (line : Int) : Nat := (min (max line 1) count).toNat

/-- The numbers of the lines around the one shown. -/
def window (count shown : Nat) (context : Int) : List Nat :=
  let first := max (shown - context) 1
  let last := min (shown + context) count
  (List.range (last - first + 1).toNat).map fun i => first.toNat + i

/-- The rows of an excerpt, with a caret below the row of the line that is shown. -/
def rows (ls : List (List Char)) (line column context : Int) : List (List Char) :=
  let shown := clamp ls.length line
  let last := min (shown + context) ls.length
  let width := (toString last).length
  (window ls.length shown context).flatMap fun n =>
    let r := row width shown n (ls.getD (n - 1) [])
    if n = shown then [r, caret width column] else [r]

def unlines : List (List Char) → List Char
  | [] => []
  | [l] => l
  | l :: ls => l ++ '\n' :: unlines ls

def render (source : String) (line column : Int) (context : Int) : String :=
  match Text.lines source.toList with
  | [] => ""
  | ls => String.ofList (unlines (rows ls line column context))

def digits (s : List Char) : List Nat × List Char :=
  ((s.takeWhile fun c => (Text.digit? c).isSome).filterMap Text.digit?,
    s.dropWhile fun c => (Text.digit? c).isSome)

/-- A position in parentheses at the start of a text. -/
def positionAt? (s : List Char) : Option (Nat × Nat) :=
  match s with
  | '(' :: s =>
    match digits s with
    | (l :: ls, ':' :: s) =>
      match digits s with
      | (c :: cs, ')' :: _) => some (Text.number (l :: ls), Text.number (c :: cs))
      | _ => none
    | _ => none
  | _ => none

/-- The first position that a message carries. -/
def position? : List Char → Option (Nat × Nat)
  | [] => none
  | c :: s => (positionAt? (c :: s)).or (position? s)

/-- A message, with an excerpt after it if it carries a position. -/
def annotate (message source : String) : String :=
  match position? message.toList with
  | some (line, column) => message ++ "\n\n" ++ render source line column 2
  | none => message

end PluginHost.CodeFrame
