import PluginHost.Text.Class
import PluginHost.Text.Word

/-! Tokens of a line of script. A number sign starts a comment. -/
namespace PluginHost.Script

inductive Token where
  | name (s : String)
  | int (n : Nat)
  | text (s : String)
  | mark (c : Char)
deriving DecidableEq

namespace Token

def marks : List Char := ['(', ')', '[', ']', '\x7b', '\x7d', ',', ':', '.', '=', '-']

/-- The tokens of a line; none if some character starts no token or a text is not closed. -/
def ofChars? (cs : List Char) : Option (List Token) :=
  match cs with
  | [] => some []
  | c :: rest =>
    if c = '#' then some []
    else if c = ' ' ∨ c = '\t' ∨ c = '\r' then ofChars? rest
    else if c = '\'' ∨ c = '"' then
      if c ∈ rest then
        (ofChars? ((rest.dropWhile (· ≠ c)).drop 1)).map
          (.text (String.ofList (rest.takeWhile (· ≠ c))) :: ·)
      else none
    else if c.isDigit then
      (ofChars? (rest.dropWhile Char.isDigit)).map
        (.int (Text.number ((c :: rest.takeWhile Char.isDigit).map fun d => d.toNat - 48)) :: ·)
    else if Text.isWord c then
      (ofChars? (rest.dropWhile Text.isWord)).map
        (.name (String.ofList (c :: rest.takeWhile Text.isWord)) :: ·)
    else if c ∈ marks then (ofChars? rest).map (.mark c :: ·)
    else none
termination_by cs.length
decreasing_by
  · simp
  · have := (List.dropWhile_suffix (p := (· ≠ c)) (l := rest)).length_le
    simp only [List.length_cons, List.length_drop]
    omega
  · have := (List.dropWhile_suffix (p := Char.isDigit) (l := rest)).length_le
    simp only [List.length_cons]
    omega
  · have := (List.dropWhile_suffix (p := Text.isWord) (l := rest)).length_le
    simp only [List.length_cons]
    omega
  · simp

end Token

end PluginHost.Script
