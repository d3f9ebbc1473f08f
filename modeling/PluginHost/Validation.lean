import PluginHost.Json.Reader
import PluginHost.Rejection
import PluginHost.Text.Class

/-!
Checking JSON values against the type of a field. Values that spell what a field wants are
converted, and all complaints are collected.
-/
namespace PluginHost

inductive Checked (α : Type) where
  | fits (value : α)
  | misfits (complaints : List Complaint)

namespace Checked

variable {α β : Type}

def complaints : Checked α → List Complaint
  | .fits _ => []
  | .misfits cs => cs

/-- Both values, or the complaints of both. -/
def apply (f : Checked (α → β)) (x : Checked α) : Checked β :=
  match f, x with
  | .fits f, .fits x => .fits (f x)
  | f, x => .misfits (f.complaints ++ x.complaints)

instance : Applicative Checked where
  pure := .fits
  seq f x := f.apply (x ())

def within (s : Step) : Checked α → Checked α
  | .fits x => .fits x
  | .misfits cs => .misfits (cs.map (·.within s))

def complain (m : Mismatch) : Checked α := .misfits [⟨[], m⟩]

def toExcept (model : String) : Checked α → Except Rejection α
  | .fits x => .ok x
  | .misfits cs => .error ⟨model, cs⟩

def each (check : Json → Checked α) : Nat → List Json → Checked (List α)
  | _, [] => .fits []
  | i, v :: vs => List.cons <$> (check v).within (.index i) <*> each check (i + 1) vs

def eachField (check : Json → Checked α) : List (String × Json) → Checked (List (String × α))
  | [] => .fits []
  | (name, v) :: fs =>
    List.cons <$> (Prod.mk name <$> (check v).within (.field name)) <*> eachField check fs

end Checked

namespace Validation

open Checked

def text : Json → Checked String
  | .text s => .fits s
  | _ => complain .notText

/-- White space without the information separators. -/
def isSpace (c : Char) : Bool := Text.isBlank c && !(0x1C ≤ c.toNat && c.toNat ≤ 0x1F)

def trimmed (s : String) : List Char :=
  ((s.toList.dropWhile isSpace).reverse.dropWhile isSpace).reverse

/-- Digits with single underscores between them. -/
def groupedDigits? (cs : List Char) : Option (List Nat) :=
  if (Text.pieces '_' cs).all fun p => !p.isEmpty && p.all Char.isDigit then
    some ((cs.filter (· ≠ '_')).map fun c => c.toNat - 48)
  else none

def signed (cs : List Char) : Bool × List Char :=
  match cs with
  | '-' :: rest => (true, rest)
  | '+' :: rest => (false, rest)
  | _ => (false, cs)

/-- A sign, digits and at most a fraction of zeros, between white space. -/
def integerText? (s : String) : Option Int := do
  let (negative, body) := signed (trimmed s)
  let whole := body.takeWhile (· ≠ '.')
  let part := (body.dropWhile (· ≠ '.')).drop 1
  if part.all (· = '0') then
    let n := Text.number (← groupedDigits? whole)
    pure (if negative then -(n : Int) else n)
  else none

def integer : Json → Checked Int
  | .int i => .fits i
  | .bool b => .fits (if b then 1 else 0)
  | .float x =>
    match Decimal.integer? x with
    | some i => .fits i
    | none => complain .fractionalInteger
  | .text s =>
    match integerText? s with
    | some i => .fits i
    | none => complain .unreadableInteger
  | _ => complain .notInteger

def trueTexts : List String := ["true", "t", "yes", "y", "on", "1"]

def falseTexts : List String := ["false", "f", "no", "n", "off", "0"]

def zeroOrOne (i : Int) : Checked Bool :=
  if i = 0 then .fits false else if i = 1 then .fits true else complain .unreadableBoolean

def boolean : Json → Checked Bool
  | .bool b => .fits b
  | .int i => zeroOrOne i
  | .float x =>
    match Decimal.integer? x with
    | some i => zeroOrOne i
    | none => complain .notBoolean
  | .text s =>
    if Text.lower s ∈ trueTexts then .fits true
    else if Text.lower s ∈ falseTexts then .fits false
    else complain .unreadableBoolean
  | _ => complain .notBoolean

/-- Texts of the values that no digits spell. -/
def specialNumber? (s : String) : Option Float :=
  if s ∈ ["inf", "infinity"] then some (1.0 / 0.0)
  else if s = "nan" then some (0.0 / 0.0)
  else none

def numberText? (s : String) : Option Float := do
  let (negative, body) := signed (trimmed s)
  match specialNumber? (Text.lower (String.ofList body)) with
  | some x => pure (if negative then -x else x)
  | none =>
    let plain := if (groupedDigits? (body.filter fun c => c.isDigit || c = '_')).isSome
      then body.filter (· ≠ '_') else body
    let whole := plain.takeWhile Char.isDigit
    let rest := plain.dropWhile Char.isDigit
    let part := match rest with
      | '.' :: rest => rest.takeWhile Char.isDigit
      | _ => []
    let rest := match rest with
      | '.' :: rest => rest.dropWhile Char.isDigit
      | _ => rest
    let power ← match rest with
      | [] => some 0
      | m :: rest =>
        if m = 'e' ∨ m = 'E' then
          let (down, ds) := signed rest
          if ds ≠ [] ∧ ds.all Char.isDigit then
            let n := Text.number (ds.map fun c => c.toNat - 48)
            some (if down then -(n : Int) else n)
          else none
        else none
    if whole.isEmpty ∧ part.isEmpty then none
    else
      let m := Text.number ((whole ++ part).map fun c => c.toNat - 48)
      pure (Decimal.toFloat negative m (power - part.length))

def number : Json → Checked Float
  | .float x => .fits x
  | .int i => .fits (Decimal.toFloat (i < 0) i.natAbs 0)
  | .bool b => .fits (if b then 1.0 else 0.0)
  | .text s =>
    match numberText? s with
    | some x => .fits x
    | none => complain .unreadableNumber
  | _ => complain .notNumber

def object : Json → Checked (List (String × Json))
  | .object fields => .fits fields
  | _ => complain .notObject

def model : Json → Checked (List (String × Json))
  | .object fields => .fits fields
  | _ => complain .notModel

def array : Json → Checked (List Json)
  | .array items => .fits items
  | _ => complain .notArray

def arrayOf {α : Type} (check : Json → Checked α) (v : Json) : Checked (List α) :=
  match v with
  | .array items => each check 0 items
  | _ => complain .notArray

def objectOf {α : Type} (check : Json → Checked α) (v : Json) : Checked (List (String × α)) :=
  match v with
  | .object fields => eachField check fields
  | _ => complain .notObject

def orNull {α : Type} (check : Json → Checked α) (v : Json) : Checked (Option α) :=
  match v with
  | .null => .fits none
  | v => some <$> check v

def atLeast (low : Int) (x : Checked Int) : Checked Int :=
  match x with
  | .fits i => if low ≤ i then .fits i else complain .tooSmall
  | x => x

/-- The spelling under which a field is given, and its value; earlier spellings win. -/
def given? (fields : List (String × Json)) (spellings : List String) : Option (String × Json) :=
  spellings.findSome? fun name => (lookup? name fields).map fun v => (name, v)

/-- A field that must be given under one of its spellings; the first is named when it is missing. -/
def required {α : Type} (fields : List (String × Json)) (spelling : String) (others : List String)
    (check : Json → Checked α) : Checked α :=
  match given? fields (spelling :: others) with
  | some (name, v) => (check v).within (.field name)
  | none => .misfits [⟨[.field spelling], .missing⟩]

def optional {α : Type} (fields : List (String × Json)) (spellings : List String) (default : α)
    (check : Json → Checked α) : Checked α :=
  match given? fields spellings with
  | some (name, v) => (check v).within (.field name)
  | none => .fits default

end Validation

end PluginHost
