import PluginHost.Text.Search

/-!
Patterns on source paths: characters, any character, either of them repeated, and the two ends.
-/
namespace PluginHost

inductive Atom where
  | char (c : Char)
  /-- Any character but a line feed. -/
  | any
deriving DecidableEq

inductive PatternItem where
  | one (a : Atom)
  | many (a : Atom)
  | start
  | finish
deriving DecidableEq

abbrev Pattern := List PatternItem

namespace Pattern

def Atom.takes : Atom → Char → Bool
  | .char c, d => c = d
  | .any, d => d ≠ '\n'

def starred (a : Atom) : List Char → PatternItem × List Char
  | '*' :: rest => (.many a, rest)
  | rest => (.one a, rest)

theorem starred_length (a : Atom) (s : List Char) : (starred a s).2.length ≤ s.length := by
  unfold starred
  split <;> simp

/-- A backslash takes the next character as it stands. -/
def ofChars : List Char → Pattern
  | [] => []
  | '^' :: rest => .start :: ofChars rest
  | '$' :: rest => .finish :: ofChars rest
  | '\\' :: c :: rest =>
    have := starred_length (.char c) rest
    (starred (.char c) rest).1 :: ofChars (starred (.char c) rest).2
  | '.' :: rest =>
    have := starred_length .any rest
    (starred .any rest).1 :: ofChars (starred .any rest).2
  | c :: rest =>
    have := starred_length (.char c) rest
    (starred (.char c) rest).1 :: ofChars (starred (.char c) rest).2
termination_by s => s.length

/-- What may be left of a text after any number of characters that an atom takes. -/
def leftovers (a : Atom) : List Char → List (List Char)
  | [] => [[]]
  | c :: s => (c :: s) :: if Atom.takes a c then leftovers a s else []

/-- Whether a pattern fits at the front of `s`, which is all of the text when `atStart`. The finish
also fits before a last line feed. -/
def fits : Pattern → Bool → List Char → Bool
  | [], _, _ => true
  | .start :: ps, atStart, s => atStart && fits ps atStart s
  | .finish :: ps, atStart, s => (s = [] || s = ['\n']) && fits ps atStart s
  | .one a :: ps, _, s =>
    match s with
    | c :: s => Atom.takes a c && fits ps false s
    | [] => false
  | .many a :: ps, atStart, s =>
    (leftovers a s).any fun t => fits ps (atStart && t.length = s.length) t

def fitsLater (p : Pattern) : List Char → Bool
  | [] => false
  | _ :: s => fits p false s || fitsLater p s

/-- Whether a pattern fits anywhere in a text. -/
def occursIn (p : Pattern) (s : String) : Bool := fits p true s.toList || fitsLater p s.toList

def ofString (s : String) : Pattern := ofChars s.toList

end Pattern

end PluginHost
