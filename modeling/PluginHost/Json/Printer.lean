import PluginHost.Decimal
import PluginHost.Json
import PluginHost.Ordering
import PluginHost.Text.Quoted

/-!
The canonical text of a JSON value: fields in the order of their names, a blank after commas and
colons, and nothing but ASCII.
-/
namespace PluginHost.Json

def unit16 (n : Nat) : List Char := '\\' :: 'u' :: Text.hex 4 n

/-- How a character stands in a string; one beyond sixteen bits takes two units. -/
def escape (c : Char) : List Char :=
  if c = '"' then ['\\', '"']
  else if c = '\\' then ['\\', '\\']
  else if c = '\n' then ['\\', 'n']
  else if c = '\r' then ['\\', 'r']
  else if c = '\t' then ['\\', 't']
  else if c.toNat = 0x08 then ['\\', 'b']
  else if c.toNat = 0x0C then ['\\', 'f']
  else if 0x20 ≤ c.toNat ∧ c.toNat < 0x7F then [c]
  else if c.toNat < 0x10000 then unit16 c.toNat
  else
    let n := c.toNat - 0x10000
    unit16 (0xD800 + n / 0x400) ++ unit16 (0xDC00 + n % 0x400)

def string (s : String) : List Char := '"' :: s.toList.flatMap escape ++ ['"']

def separated : List (List Char) → List Char
  | [] => []
  | [t] => t
  | t :: ts => t ++ ',' :: ' ' :: separated ts

mutual

def render : Json → List Char
  | .null => "null".toList
  | .bool true => "true".toList
  | .bool false => "false".toList
  | .int i => (toString i).toList
  | .float x => (Decimal.text x).toList
  | .text s => string s
  | .array items => '[' :: separated (renderItems items) ++ [']']
  | .object fields =>
    let rows := (entriesInOrder (renderFields fields)).map fun f => string f.1 ++ ':' :: ' ' :: f.2
    '\x7b' :: separated rows ++ ['\x7d']

def renderItems : List Json → List (List Char)
  | [] => []
  | v :: vs => render v :: renderItems vs

def renderFields : List (String × Json) → List (String × List Char)
  | [] => []
  | (name, v) :: fs => (name, render v) :: renderFields fs

end

def canonical (v : Json) : String := String.ofList v.render

end PluginHost.Json
