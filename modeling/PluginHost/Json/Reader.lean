import PluginHost.Decimal
import PluginHost.Json
import PluginHost.Text.Encoding
import PluginHost.Text.Search

/-!
Reading JSON. Numbers with a fraction or an exponent are floats, the words for not-a-number and the
infinities are accepted, and of two fields of one name the later value stays.
-/
namespace PluginHost.Json

inductive Problem where
  | expectingValue
  | expectingName
  | expectingColon
  | expectingComma
  | extraData
  | unterminatedString
  | controlCharacter
  | badEscape
  | badUnit
  | unexpectedMark

def Problem.message : Problem → String
  | .expectingValue => "Expecting value"
  | .expectingName => "Expecting property name enclosed in double quotes"
  | .expectingColon => "Expecting ':' delimiter"
  | .expectingComma => "Expecting ',' delimiter"
  | .extraData => "Extra data"
  | .unterminatedString => "Unterminated string starting at"
  | .controlCharacter => "Invalid control character at"
  | .badEscape => "Invalid \\escape"
  | .badUnit => "Invalid \\uXXXX escape"
  | .unexpectedMark => "Unexpected UTF-8 BOM (decode using utf-8-sig)"

/-- A text that is no JSON: the problem and its place, counted in characters. -/
structure Unreadable where
  problem : Problem
  line : Nat
  column : Nat
  place : Nat

def Unreadable.message (u : Unreadable) : String :=
  u.problem.message ++ ": line " ++ toString u.line ++ " column " ++ toString u.column
    ++ " (char " ++ toString u.place ++ ")"

/-- A reader returns what is left; a refusal carries the number of characters left at its place. -/
abbrev Read (α : Type) := Except (Problem × Nat) (α × List Char)

def refuse {α : Type} (p : Problem) (left : List Char) : Read α := .error (p, left.length)

def skip (cs : List Char) : List Char :=
  cs.dropWhile fun c => c = ' ' || c = '\t' || c = '\n' || c = '\r'

def hexDigit? (c : Char) : Option Nat :=
  if '0' ≤ c ∧ c ≤ '9' then some (c.toNat - 48)
  else if 'a' ≤ c ∧ c ≤ 'f' then some (c.toNat - 87)
  else if 'A' ≤ c ∧ c ≤ 'F' then some (c.toNat - 55)
  else none

def unit? (a b c d : Char) : Option Nat := do
  let a ← hexDigit? a
  let b ← hexDigit? b
  let c ← hexDigit? c
  let d ← hexDigit? d
  pure (((a * 16 + b) * 16 + c) * 16 + d)

def simpleEscape? (c : Char) : Option Char :=
  match c with
  | '"' => some '"'
  | '\\' => some '\\'
  | '/' => some '/'
  | 'b' => some '\x08'
  | 'f' => some '\x0C'
  | 'n' => some '\n'
  | 'r' => some '\r'
  | 't' => some '\t'
  | _ => none

def prepend (c : Char) (r : Read (List Char)) : Read (List Char) :=
  r.map fun (cs, left) => (c :: cs, left)

/-- The unit that a text goes on with as an escape, if it goes on with one that is not its last. -/
def nextUnit? : List Char → Option (Option Nat)
  | '\\' :: 'u' :: a :: b :: c :: d :: _ :: _ => some (unit? a b c d)
  | _ => none

def isHigh (u : Nat) : Bool := 0xD800 ≤ u && u < 0xDC00

def isLow (u : Nat) : Bool := 0xDC00 ≤ u && u < 0xE000

/-- The rest of a string whose opening quote has `opening` characters from it to the end. A high
unit takes the low unit after it; alone it cannot be kept. -/
def stringBody (opening : Nat) : List Char → Read (List Char)
  | [] => .error (.unterminatedString, opening)
  | '"' :: left => .ok ([], left)
  | ['\\'] => .error (.unterminatedString, opening)
  | '\\' :: 'u' :: a :: b :: c :: d :: e :: left =>
    match unit? a b c d with
    | none => refuse .badUnit ('u' :: a :: b :: c :: d :: e :: left)
    | some u =>
      match if isHigh u then nextUnit? (e :: left) else none with
      | some none => refuse .badUnit left
      | some (some v) =>
        if isLow v then
          prepend (Text.scalar (0x10000 + (u - 0xD800) * 0x400 + (v - 0xDC00)))
            (stringBody opening (left.drop 5))
        else prepend (Text.scalar u) (stringBody opening (e :: left))
      | none => prepend (Text.scalar u) (stringBody opening (e :: left))
  | '\\' :: 'u' :: left => refuse .badUnit ('u' :: left)
  | '\\' :: c :: left =>
    match simpleEscape? c with
    | some c => prepend c (stringBody opening left)
    | none => refuse .badEscape ('\\' :: c :: left)
  | c :: left =>
    if c.toNat < 0x20 then refuse .controlCharacter (c :: left)
    else prepend c (stringBody opening left)
termination_by cs => cs.length
decreasing_by all_goals simp <;> omega

def string? (left : List Char) : Read String :=
  (stringBody (left.length + 1) left).map fun (cs, left) => (String.ofList cs, left)

def digits (cs : List Char) : List Nat × List Char :=
  ((cs.takeWhile Char.isDigit).map fun c => c.toNat - 48, cs.dropWhile Char.isDigit)

/-- A fraction and its digits; a point without a digit after it is none. -/
def fraction (cs : List Char) : List Nat × List Char :=
  match cs with
  | '.' :: rest =>
    match digits rest with
    | ([], _) => ([], cs)
    | r => r
  | _ => ([], cs)

/-- An exponent; a mark without digits after it is none. -/
def exponent? (cs : List Char) : Option Int × List Char :=
  match cs with
  | m :: rest =>
    if m = 'e' ∨ m = 'E' then
      let (sign, rest) : Int × List Char :=
        match rest with
        | '-' :: rest => (-1, rest)
        | '+' :: rest => (1, rest)
        | _ => (1, rest)
      match digits rest with
      | ([], _) => (none, cs)
      | (ds, left) => (some (sign * Text.number ds), left)
    else (none, cs)
  | [] => (none, cs)

def number? (cs : List Char) : Option (Json × List Char) :=
  let (negative, body) : Bool × List Char :=
    match cs with
    | '-' :: rest => (true, rest)
    | _ => (false, cs)
  let (whole, left) : List Nat × List Char :=
    match body with
    | '0' :: rest => ([0], rest)
    | _ => digits body
  if whole.isEmpty then none
  else
    let (part, left) := fraction left
    let (power, left) := exponent? left
    if part.isEmpty ∧ power.isNone then
      let n := Text.number whole
      some (.int (if negative then -(n : Int) else n), left)
    else
      let m := Text.number (whole ++ part)
      some (.float (Decimal.toFloat negative m (power.getD 0 - part.length)), left)

/-- The words that are values. -/
def words : List (String × Json) :=
  [("null", .null), ("true", .bool true), ("false", .bool false), ("NaN", .float (0.0 / 0.0)),
   ("Infinity", .float (1.0 / 0.0)), ("-Infinity", .float (-1.0 / 0.0))]

def word? (cs : List Char) : Option (Json × List Char) :=
  words.findSome? fun w => (Text.rest? w.1.toList cs).map fun left => (w.2, left)

def scalar (cs : List Char) : Read Json :=
  match (word? cs).or (number? cs) with
  | some r => .ok r
  | none => refuse .expectingValue cs

mutual

def value : Nat → List Char → Read Json
  | 0, cs => refuse .expectingValue cs
  | fuel + 1, cs =>
    match cs with
    | '"' :: left => (string? left).map fun (s, left) => (.text s, left)
    | '[' :: left =>
      match skip left with
      | ']' :: left => .ok (.array [], left)
      | cs => (items fuel cs).map fun (vs, left) => (.array vs, left)
    | '\x7b' :: left =>
      match skip left with
      | '\x7d' :: left => .ok (.object [], left)
      | cs => (members fuel [] cs).map fun (fs, left) => (.object fs, left)
    | _ => scalar cs

def items : Nat → List Char → Except (Problem × Nat) (List Json × List Char)
  | 0, cs => refuse .expectingValue cs
  | fuel + 1, cs => do
    let (v, left) ← value fuel cs
    match skip left with
    | ']' :: left => pure ([v], left)
    | ',' :: left =>
      let (vs, left) ← items fuel (skip left)
      pure (v :: vs, left)
    | cs => refuse .expectingComma cs

def members : Nat → List (String × Json) → List Char →
    Except (Problem × Nat) (List (String × Json) × List Char)
  | 0, _, cs => refuse .expectingName cs
  | fuel + 1, seen, cs =>
    match cs with
    | '"' :: left => do
      let (name, left) ← string? left
      match skip left with
      | ':' :: left =>
        let (v, left) ← value fuel (skip left)
        let seen := putEntry name v seen
        match skip left with
        | '\x7d' :: left => pure (seen, left)
        | ',' :: left => members fuel seen (skip left)
        | cs => refuse .expectingComma cs
      | cs => refuse .expectingColon cs
    | _ => refuse .expectingName cs

end

def whole (cs : List Char) : Except (Problem × Nat) Json := do
  let (v, left) ← value (2 * cs.length + 2) (skip cs)
  match skip left with
  | [] => pure v
  | left => .error (.extraData, left.length)

/-- Line and column, both from one, of a place in a text. -/
def position (cs : List Char) (place : Nat) : Nat × Nat :=
  let before := cs.take place
  (before.count '\n' + 1, (before.reverse.takeWhile (· ≠ '\n')).length + 1)

def ofChars (cs : List Char) : Except Unreadable Json :=
  (whole cs).mapError fun (p, left) =>
    let place := cs.length - left
    let at_ := position cs place
    ⟨p, at_.1, at_.2, place⟩

/-- A text as a JSON value; a byte-order mark at its start is refused. -/
def ofText (s : String) : Except Unreadable Json :=
  match s.toList with
  | '\uFEFF' :: _ => .error ⟨.unexpectedMark, 1, 1, 0⟩
  | cs => ofChars cs

/-- The encodings of JSON are told apart by a byte-order mark or by where the zero bytes stand. -/
def decode (bs : List UInt8) : Except Text.Malformed (List Char) :=
  match bs with
  | 0x00 :: 0x00 :: 0xFE :: 0xFF :: rest => Text.utf32 true rest
  | 0xFF :: 0xFE :: 0x00 :: 0x00 :: rest => Text.utf32 false rest
  | 0xFE :: 0xFF :: rest => Text.utf16 true rest
  | 0xFF :: 0xFE :: rest => Text.utf16 false rest
  | 0xEF :: 0xBB :: 0xBF :: rest => Text.utf8 true rest
  | b0 :: b1 :: b2 :: b3 :: _ =>
    if b0 = 0 then
      if b1 = 0 then Text.utf32 true bs else Text.utf16 true bs
    else if b1 = 0 then
      if b2 = 0 ∧ b3 = 0 then Text.utf32 false bs else Text.utf16 false bs
    else Text.utf8 true bs
  | [b0, b1] =>
    if b0 = 0 then Text.utf16 true bs
    else if b1 = 0 then Text.utf16 false bs
    else Text.utf8 true bs
  | _ => Text.utf8 true bs

end PluginHost.Json
