import PluginHost.Script
import PluginHost.Script.Token

/-! Reading scripts, one statement to a line. -/
namespace PluginHost.Script

/-- Entries and bindings that are taken of an expression. -/
def suffixes (e : Expr) : List Token → Expr × List Token
  | .mark '[' :: .text key :: .mark ']' :: ts => suffixes (.item e key) ts
  | .mark '.' :: .name n :: ts => suffixes (.member e n) ts
  | ts => (e, ts)

def kindOf (word : String) : ModuleKind := if word = "preset" then .preset else .plugin

def word (n : String) : Expr :=
  if n = "None" then .null
  else if n = "True" then .bool true
  else if n = "False" then .bool false
  else .name n

mutual

def expr? : Nat → List Token → Option (Expr × List Token)
  | 0, _ => none
  | fuel + 1, ts => do
    let (e, ts) ← primary? fuel ts
    return suffixes e ts

def primary? (fuel : Nat) (ts : List Token) : Option (Expr × List Token) :=
  match fuel, ts with
  | 0, _ => none
  | fuel + 1, .name "require" :: .mark '(' :: ts => do
    let (e, ts) ← expr? fuel ts
    match ts with
    | .mark ')' :: ts => return (.require e, ts)
    | _ => none
  | _, .name "registry" :: .mark '.' :: .name "get" :: .mark '(' :: .text kind :: .mark ',' ::
      .text name :: .mark ')' :: ts => some (.installed (kindOf kind) name, ts)
  | _, .name n :: ts => some (word n, ts)
  | _, .int n :: ts => some (.int n, ts)
  | _, .mark '-' :: .int n :: ts => some (.int (-n), ts)
  | _, .text s :: ts => some (.text s, ts)
  | fuel + 1, .mark '[' :: ts => do
    let (es, ts) ← items? fuel ts
    return (.list es, ts)
  | fuel + 1, .mark '\x7b' :: ts => do
    let (es, ts) ← entries? fuel ts
    return (.dict es, ts)
  | _, _ => none

/-- Items up to the closing bracket. -/
def items? : Nat → List Token → Option (List Expr × List Token)
  | 0, _ => none
  | _, .mark ']' :: ts => some ([], ts)
  | fuel + 1, ts => do
    let (e, ts) ← expr? fuel ts
    match ts with
    | .mark ']' :: ts => return ([e], ts)
    | .mark ',' :: ts =>
      let (es, ts) ← items? fuel ts
      return (e :: es, ts)
    | _ => none

/-- Entries up to the closing brace. -/
def entries? : Nat → List Token → Option (List (String × Expr) × List Token)
  | 0, _ => none
  | _, .mark '\x7d' :: ts => some ([], ts)
  | fuel + 1, .text key :: .mark ':' :: ts => do
    let (e, ts) ← expr? fuel ts
    match ts with
    | .mark '\x7d' :: ts => return ([(key, e)], ts)
    | .mark ',' :: ts =>
      let (es, ts) ← entries? fuel ts
      return ((key, e) :: es, ts)
    | _ => none
  | _, _ => none

end

def whole? (ts : List Token) : Option Expr :=
  match expr? (3 * ts.length + 3) ts with
  | some (e, []) => some e
  | _ => none

/-- The statement of a line, if the line holds one. -/
def statement? : List Token → Option (List Statement)
  | [] => some []
  | [.name "raise", .name "ValueError", .mark '(', .text s, .mark ')'] => some [.raiseValue s]
  | [.name "raise", .name "RuntimeError", .mark '(', .text s, .mark ')'] => some [.raiseRuntime s]
  | .name n :: .mark '=' :: ts => (whole? ts).map fun e => [.bind n e]
  | ts => (whole? ts).map fun e => [.run e]

/-- The brackets that are still open behind a line, the innermost first. -/
def openBrackets (opened : List Char) : List Token → List Char
  | [] => opened
  | .mark c :: ts =>
    if c = '(' ∨ c = '[' ∨ c = '\x7b' then openBrackets (c :: opened) ts
    else if c = ')' ∨ c = ']' ∨ c = '\x7d' then openBrackets (opened.drop 1) ts
    else openBrackets opened ts
  | _ :: ts => openBrackets opened ts

def problem (ts : List Token) : String :=
  match openBrackets [] ts with
  | c :: _ => s!"'{c}' was never closed"
  | [] => "invalid syntax"

/-- What keeps a text from being a script, and the number of its line. -/
structure Unreadable where
  problem : String
  line : Nat

def ofLines (number : Nat) : List (List Char) → Except Unreadable Script
  | [] => .ok []
  | line :: lines =>
    match Token.ofChars? line with
    | none => .error ⟨"invalid syntax", number⟩
    | some ts =>
      match statement? ts with
      | none => .error ⟨problem ts, number⟩
      | some statements => (ofLines (number + 1) lines).map (statements ++ ·)

def ofChars (cs : List Char) : Except Unreadable Script := ofLines 1 (Text.pieces '\n' cs)

end PluginHost.Script
