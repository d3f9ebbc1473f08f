import PluginHost.Failure
import PluginHost.Json.Printer
import PluginHost.Settings
import PluginHost.Settings.Scalar

/-!
Settings files. A file is a block of `key: value` lines, of list items or a single value; values may
be indented blocks, bracketed collections, quoted texts or plain scalars.
-/
namespace PluginHost.Document

/-- A line by its indentation and what follows it. -/
structure Line where
  indent : Nat
  text : List Char

def isGap (c : Char) : Bool := c = ' ' || c = '\t' || c = '\n'

def trimGap (cs : List Char) : List Char :=
  ((cs.dropWhile isGap).reverse.dropWhile isGap).reverse

/-- White space and comments; a comment starts a line or follows white space. -/
def skipGap : Nat → List Char → List Char
  | 0, cs => cs
  | fuel + 1, cs =>
    match cs with
    | '#' :: rest => skipGap fuel (rest.dropWhile (· ≠ '\n'))
    | c :: rest => if isGap c then skipGap fuel rest else cs
    | [] => []

def skip (cs : List Char) : List Char :=
  match cs with
  | c :: _ => if isGap c then skipGap cs.length cs else cs
  | [] => []

/-- The rest of a text in single quotes; a doubled quote stands for one. -/
def singleQuoted : List Char → Option (List Char × List Char)
  | '\'' :: '\'' :: rest => (singleQuoted rest).map fun r => ('\'' :: r.1, r.2)
  | '\'' :: rest => some ([], rest)
  | c :: rest => (singleQuoted rest).map fun r => ((if c = '\n' then ' ' else c) :: r.1, r.2)
  | [] => none

def escapes : List (Char × Nat) :=
  [('0', 0), ('a', 7), ('b', 8), ('t', 9), ('n', 10), ('v', 11), ('f', 12), ('r', 13), ('e', 27),
   (' ', 32), ('"', 34), ('/', 47), ('\\', 92), ('N', 0x85), ('_', 0xA0), ('L', 0x2028),
   ('P', 0x2029)]

def coded? (digits : Nat) (cs : List Char) : Option Char :=
  if cs.length < digits then none
  else ((cs.take digits).mapM Json.hexDigit?).map fun ds =>
    Text.scalar (ds.foldl (fun n d => 16 * n + d) 0)

/-- The rest of a text in double quotes. -/
def doubleQuoted : Nat → List Char → Option (List Char × List Char)
  | 0, _ => none
  | fuel + 1, cs =>
    let go (c : Char) (rest : List Char) : Option (List Char × List Char) :=
      (doubleQuoted fuel rest).map fun r => (c :: r.1, r.2)
    match cs with
    | '"' :: rest => some ([], rest)
    | '\\' :: 'x' :: rest => (coded? 2 rest).bind fun c => go c (rest.drop 2)
    | '\\' :: 'u' :: rest => (coded? 4 rest).bind fun c => go c (rest.drop 4)
    | '\\' :: 'U' :: rest => (coded? 8 rest).bind fun c => go c (rest.drop 8)
    | '\\' :: c :: rest => (lookup? c escapes).bind fun n => go (Char.ofNat n) rest
    | c :: rest => go (if c = '\n' then ' ' else c) rest
    | [] => none

def isBracket (c : Char) : Bool := c ∈ [',', '[', ']', '\x7b', '\x7d']

/-- Characters that no plain scalar starts with. -/
def isIndicator (c : Char) : Bool :=
  isBracket c || c ∈ ['#', '&', '*', '!', '|', '>', '%', '@', '\x60', '\'', '"']

/-- A dash, question mark or colon starts a plain scalar only if a character follows it directly. -/
def startsPlain : List Char → Bool
  | c :: rest =>
    if c ∈ ['-', '?', ':'] then (rest.head?.map fun d => !isGap d).getD false
    else !isIndicator c && !isGap c
  | [] => false

/-- Whether a colon at the front separates a key from its value. -/
def separates (flow : Bool) : List Char → Bool
  | ':' :: c :: _ => isGap c || (flow && isBracket c)
  | [':'] => true
  | _ => false

/-- A plain scalar ends at a separating colon, before a comment, and in brackets at their marks. -/
def plain (flow : Bool) : List Char → List Char × List Char
  | [] => ([], [])
  | c :: rest =>
    if separates flow (c :: rest) || (flow && isBracket c)
        || (isGap c && rest.head? = some '#') then ([], c :: rest)
    else
      let r := plain flow rest
      (c :: r.1, r.2)

def textOf : Json → String
  | .text s => s
  | v => v.canonical

def quotedAt? (cs : List Char) : Option (Option (List Char × List Char)) :=
  match cs with
  | '\'' :: rest => some (singleQuoted rest)
  | '"' :: rest => some (doubleQuoted (rest.length + 1) rest)
  | _ => none

/-- A scalar in brackets and the text that it is spelled with. -/
def flowScalar (cs : List Char) : Option (Json × String × List Char) :=
  match quotedAt? cs with
  | some r => r.map fun (s, left) => (.text (String.ofList s), String.ofList s, left)
  | none =>
    if startsPlain cs then
      let (s, left) := plain true cs
      let s := trimGap s
      some (Scalar.resolve s, String.ofList s, left)
    else none

mutual

def flow : Nat → List Char → Option (Json × List Char)
  | 0, _ => none
  | fuel + 1, cs =>
    match skip cs with
    | '[' :: rest => (flowItems fuel rest).map fun r => (.array r.1, r.2)
    | '\x7b' :: rest => (flowFields fuel [] rest).map fun r => (.object r.1, r.2)
    | cs => (flowScalar cs).map fun r => (r.1, r.2.2)

def flowItems : Nat → List Char → Option (List Json × List Char)
  | 0, _ => none
  | fuel + 1, cs =>
    match skip cs with
    | ']' :: rest => some ([], rest)
    | cs => do
      let (v, left) ← flow fuel cs
      let left := skip left
      let (v, left) ←
        if separates true left then do
          let (w, left) ← flowValue fuel (left.drop 1)
          pure (Json.object [(textOf v, w)], skip left)
        else pure (v, left)
      match left with
      | ',' :: rest =>
        let (vs, left) ← flowItems fuel rest
        pure (v :: vs, left)
      | ']' :: rest => pure ([v], rest)
      | _ => none

def flowFields : Nat → List (String × Json) → List Char → Option (List (String × Json) × List Char)
  | 0, _, _ => none
  | fuel + 1, seen, cs =>
    match skip cs with
    | '\x7d' :: rest => some (seen, rest)
    | cs => do
      let (_, key, left) ← flowScalar cs
      let left := skip left
      let (v, left) ←
        match left with
        | ':' :: rest => flowValue fuel rest
        | _ => some (.null, left)
      let seen := putEntry key v seen
      match skip left with
      | ',' :: rest => flowFields fuel seen rest
      | '\x7d' :: rest => pure (seen, rest)
      | _ => none

/-- The value after a colon; nothing before the next mark is null. -/
def flowValue : Nat → List Char → Option (Json × List Char)
  | 0, _ => none
  | fuel + 1, cs =>
    match skip cs with
    | ',' :: rest => some (.null, ',' :: rest)
    | ']' :: rest => some (.null, ']' :: rest)
    | '\x7d' :: rest => some (.null, '\x7d' :: rest)
    | cs => flow fuel cs

end

/-- Nothing but white space and a comment. -/
def isRest (cs : List Char) : Bool :=
  match cs.dropWhile fun c => c = ' ' || c = '\t' || c = '\r' with
  | [] => true
  | '#' :: _ => true
  | _ => false

def isItem (cs : List Char) : Bool :=
  match cs with
  | ['-'] => true
  | '-' :: c :: _ => isGap c
  | _ => false

/-- A key at the front of a line, and what follows its colon. -/
def key? (cs : List Char) : Option (String × List Char) :=
  match quotedAt? cs with
  | some none => none
  | some (some (s, left)) =>
    let left := left.dropWhile isGap
    if separates false left then some (String.ofList s, left.drop 1) else none
  | none =>
    if startsPlain cs then
      let (s, left) := plain false cs
      if separates false left then some (String.ofList (trimGap s), left.drop 1) else none
    else none

/-- The lines that a plain scalar goes on in, up to one that is indented less. -/
def goesOn (least : Nat) : List Line → Option (List (List Char) × List Line)
  | [] => some ([], [])
  | l :: ls =>
    if l.indent < least then some ([], l :: ls)
    else
      let (s, left) := plain false l.text
      if isRest left then (goesOn least ls).map fun r => (trimGap s :: r.1, r.2) else none

/-- A value that starts in a line; what it goes on in is indented by at least `least`. -/
def inline (least : Nat) (cs : List Char) (ls : List Line) : Option (Json × List Line) :=
  match cs with
  | c :: _ =>
    if c ∈ ['[', '\x7b', '\'', '"'] then do
      let all := cs ++ ls.flatMap fun l => '\n' :: l.text
      let (v, left) ← flow (4 * all.length + 4) all
      if isRest (left.takeWhile (· ≠ '\n')) then
        pure (v, ls.drop (ls.length - left.count '\n'))
      else none
    else if startsPlain cs then do
      let (s, left) := plain false cs
      if isRest left then
        if left.isEmpty then
          let (more, ls) ← goesOn least ls
          let words := trimGap s :: more
          pure (Scalar.resolve (words.intersperse [' ']).flatten, ls)
        else pure (Scalar.resolve (trimGap s), ls)
      else none
    else none
  | [] => some (.null, ls)

/-- List items below a key may stand under it without indentation. -/
def itemsAt (indent : Nat) : List Line → Bool
  | l :: _ => l.indent = indent && isItem l.text
  | [] => false

mutual

def node : Nat → Nat → List Line → Option (Json × List Line)
  | 0, _, _ => none
  | _ + 1, _, [] => some (.null, [])
  | fuel + 1, least, l :: ls =>
    if l.indent < least then some (.null, l :: ls)
    else if isItem l.text then (itemLines fuel l.indent (l :: ls)).map fun r => (.array r.1, r.2)
    else if (key? l.text).isSome then
      (fieldLines fuel l.indent [] (l :: ls)).map fun r => (.object r.1, r.2)
    else inline least l.text ls

def itemLines : Nat → Nat → List Line → Option (List Json × List Line)
  | 0, _, _ => none
  | _ + 1, _, [] => some ([], [])
  | fuel + 1, indent, l :: ls =>
    if l.indent < indent ∨ (l.indent = indent ∧ !isItem l.text) then some ([], l :: ls)
    else if indent < l.indent then none
    else do
      let body := (l.text.drop 1).dropWhile isGap
      let (v, left) ←
        if isRest body then node fuel (indent + 1) ls
        else node fuel (indent + 1) (⟨indent + (l.text.length - body.length), body⟩ :: ls)
      let (vs, left) ← itemLines fuel indent left
      pure (v :: vs, left)

def fieldLines : Nat → Nat → List (String × Json) → List Line →
    Option (List (String × Json) × List Line)
  | 0, _, _, _ => none
  | _ + 1, _, seen, [] => some (seen, [])
  | fuel + 1, indent, seen, l :: ls =>
    if l.indent < indent then some (seen, l :: ls)
    else if indent < l.indent ∨ isItem l.text then none
    else do
      let (key, rest) ← key? l.text
      let body := rest.dropWhile isGap
      let (v, left) ←
        if isRest body then
          if itemsAt indent ls then
            (itemLines fuel indent ls).map fun r => (Json.array r.1, r.2)
          else node fuel (indent + 1) ls
        else inline (indent + 1) body ls
      fieldLines fuel indent (putEntry key v seen) left

end

/-- The lines that carry something. -/
def linesOf (s : String) : List Line :=
  (Text.split s '\n').filterMap fun l =>
    let cs := l.toList.filter (· ≠ '\r')
    let text := cs.dropWhile (· = ' ')
    if isRest text then none else some ⟨cs.length - text.length, text⟩

def isMark (mark : String) (l : Line) : Bool :=
  l.indent = 0 && l.text.take 3 = mark.toList && isRest (l.text.drop 3)

/-- The value of a document, if it is well formed. A file holds one document. -/
def read? (s : String) : Option Json :=
  let ls := linesOf s
  let ls := match ls with
    | l :: rest => if isMark "---" l then rest else ls
    | [] => []
  let ls := ls.takeWhile fun l => !isMark "..." l
  if ls.any (isMark "---") then none
  else
    match node (4 * s.length + 4) 0 ls with
    | some (v, []) => some v
    | _ => none

/-- Settings from the text of a file. A file that holds nothing gives the default settings. -/
def settings (s : String) : Except Fault Settings :=
  match read? s with
  | none => .error .badYaml
  | some v =>
    let v := if v.isNothing then .object [] else v
    (Settings.ofJson v).mapError .rejected

/-- Settings from the bytes of the file that is there, if one is. -/
def load (file : Option (List UInt8)) : Except Fault Settings :=
  match file with
  | none => .ok Settings.default
  | some bytes =>
    match Text.utf8 false bytes with
    | .error why => .error (.badText why)
    | .ok cs => settings (String.ofList cs)

end PluginHost.Document
