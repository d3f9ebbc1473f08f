import PluginHost.Decimal
import PluginHost.Json
import PluginHost.Text.Class
import PluginHost.Text.Search

/-!
Plain scalars of a settings file. A scalar is a number, a truth value or null if it is spelled like
one, and text otherwise.
-/
namespace PluginHost.Scalar

def nullWords : List String := ["", "~", "null", "Null", "NULL"]

def trueWords : List String :=
  ["yes", "Yes", "YES", "true", "True", "TRUE", "on", "On", "ON"]

def falseWords : List String :=
  ["no", "No", "NO", "false", "False", "FALSE", "off", "Off", "OFF"]

def signed (cs : List Char) : Bool × List Char :=
  match cs with
  | '-' :: rest => (true, rest)
  | '+' :: rest => (false, rest)
  | _ => (false, cs)

def digitIn? (base : Nat) (c : Char) : Option Nat :=
  let d :=
    if c.isDigit then some (c.toNat - 48)
    else if 'a' ≤ c ∧ c ≤ 'f' then some (c.toNat - 87)
    else if 'A' ≤ c ∧ c ≤ 'F' then some (c.toNat - 55)
    else none
  d.filter (· < base)

/-- Digits of a base with underscores anywhere among them. -/
def inBase? (base : Nat) (cs : List Char) : Option Nat :=
  if cs.isEmpty then none
  else ((cs.filter (· ≠ '_')).mapM (digitIn? base)).map fun ds =>
    ds.foldl (fun n d => base * n + d) 0

/-- Parts between colons, each after the first below sixty. -/
def sexagesimal? (cs : List Char) : Option Nat := do
  match Text.pieces ':' cs with
  | first :: second :: more =>
    match first with
    | c :: _ =>
      if c = '0' ∨ !c.isDigit then none
      else
        let rest := second :: more
        if rest.all fun p => 0 < p.length && p.length ≤ 2 && p.all Char.isDigit then
          let values ← (first :: rest).mapM (inBase? 10)
          if (values.drop 1).all (· < 60) then pure (values.foldl (fun n d => 60 * n + d) 0)
          else none
        else none
    | [] => none
  | _ => none

def natural? (cs : List Char) : Option Nat :=
  match cs with
  | '0' :: 'b' :: rest => inBase? 2 rest
  | '0' :: 'x' :: rest => inBase? 16 rest
  | ['0'] => some 0
  | '0' :: rest => inBase? 8 rest
  | c :: rest =>
    if c.isDigit then (inBase? 10 (c :: rest)).or (sexagesimal? (c :: rest)) else none
  | [] => none

def integer? (cs : List Char) : Option Int :=
  let (negative, body) := signed cs
  (natural? body).map fun n => if negative then -(n : Int) else n

def infiniteWords : List String := [".inf", ".Inf", ".INF"]

def nanWords : List String := [".nan", ".NaN", ".NAN"]

def isDigitOrGap (c : Char) : Bool := c.isDigit || c = '_'

/-- An exponent must carry a sign. -/
def exponent? (cs : List Char) : Option Int :=
  match cs with
  | [] => some 0
  | m :: s :: ds =>
    if (m = 'e' ∨ m = 'E') ∧ (s = '+' ∨ s = '-') ∧ ds ≠ [] ∧ ds.all Char.isDigit then
      let n := Text.number (ds.map fun c => c.toNat - 48)
      some (if s = '-' then -(n : Int) else n)
    else none
  | _ => none

def startsWithDigit (cs : List Char) : Bool := (cs.head?.map Char.isDigit).getD false

/-- Digits with a point among, behind or before them. -/
def pointed? (negative : Bool) (cs : List Char) : Option Float :=
  let whole := cs.takeWhile isDigitOrGap
  match cs.dropWhile isDigitOrGap with
  | '.' :: rest =>
    let part := (rest.takeWhile isDigitOrGap).filter Char.isDigit
    if startsWithDigit whole || (whole.isEmpty && startsWithDigit rest) then
      (exponent? (rest.dropWhile isDigitOrGap)).map fun e =>
        let ds := ((whole.filter Char.isDigit) ++ part).map fun c => c.toNat - 48
        Decimal.toFloat negative (Text.number ds) (e - part.length)
    else none
  | _ => none

/-- Infinity and what starts with a digit may have a sign. -/
def float? (cs : List Char) : Option Float :=
  let (negative, body) := signed cs
  if String.ofList body ∈ infiniteWords then some (if negative then -1.0 / 0.0 else 1.0 / 0.0)
  else if startsWithDigit body then pointed? negative body
  else if String.ofList cs ∈ nanWords then some (0.0 / 0.0)
  else pointed? false cs

def resolve (cs : List Char) : Json :=
  let s := String.ofList cs
  if s ∈ nullWords then .null
  else if s ∈ trueWords then .bool true
  else if s ∈ falseWords then .bool false
  else
    match integer? cs with
    | some i => .int i
    | none =>
      match float? cs with
      | some x => .float x
      | none => .text s

end PluginHost.Scalar
