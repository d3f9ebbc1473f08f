import PluginHost.Text.Search

/-!
Paths of store files. A normal path is absolute, has no empty, `.` or `..` component and no slash at
its end.
-/
namespace PluginHost.Path

def dot : List Char := ['.']

def dots : List Char := ['.', '.']

/-- Components with the last one first. A `..` takes back the component before it; with nothing to
take back it is kept in a relative path and dropped in an absolute one. -/
def reduce (absolute : Bool) (kept : List (List Char)) : List (List Char) → List (List Char)
  | [] => kept
  | c :: cs =>
    if c = [] ∨ c = dot then reduce absolute kept cs
    else if c ≠ dots then reduce absolute (c :: kept) cs
    else
      match kept with
      | [] => if absolute then reduce absolute [] cs else reduce absolute [c] cs
      | k :: ks =>
        if k = dots then reduce absolute (c :: k :: ks) cs else reduce absolute ks cs

def joined : List (List Char) → List Char
  | [] => []
  | [c] => c
  | c :: cs => c ++ '/' :: joined cs

/-- Slashes that a path starts with: exactly two are kept, any other number counts as one. -/
def leading : List Char → Nat
  | '/' :: '/' :: '/' :: _ => 1
  | '/' :: '/' :: _ => 2
  | '/' :: _ => 1
  | _ => 0

/-- The shortest spelling of a path, absolute or relative; nothing left is the current directory. -/
def collapsed (p : List Char) : List Char :=
  let slashes := leading p
  let body := joined (reduce (slashes ≠ 0) [] (Text.pieces '/' p)).reverse
  match List.replicate slashes '/' ++ body with
  | [] => dot
  | q => q

def rooted (p : List Char) : List Char :=
  match p with
  | '/' :: _ => p
  | _ => '/' :: p

def oneSlash : List Char → List Char
  | '/' :: '/' :: p => '/' :: p
  | p => p

def normalized (p : List Char) : List Char := oneSlash (collapsed (rooted p))

/-- One path after another; an absolute one starts afresh. -/
def appended (p q : List Char) : List Char :=
  match q with
  | '/' :: _ => q
  | _ => if p = [] ∨ p.getLast? = some '/' then p ++ q else p ++ '/' :: q

/-- All up to the last slash, without the slashes at its end unless it holds nothing else. -/
def head (p : List Char) : List Char :=
  let h := (p.reverse.dropWhile (· ≠ '/')).reverse
  if h.all (· = '/') then h else (h.reverse.dropWhile (· = '/')).reverse

/-- What follows the last slash. -/
def lastName (p : List Char) : List Char := (p.reverse.takeWhile (· ≠ '/')).reverse

def collapse (p : String) : String := String.ofList (collapsed p.toList)

def normalize (p : String) : String := String.ofList (normalized p.toList)

def append (p q : String) : String := String.ofList (appended p.toList q.toList)

/-- The normal path of one part after the other. -/
def join (first : String) (rest : List String) : String := normalize (rest.foldl append first)

/-- The directory that holds a path. -/
def parent (p : String) : String :=
  match head (normalized p.toList) with
  | [] => "/"
  | h => String.ofList h

/-- Whether the last name has a dot behind some character that is none. -/
def hasExtension (p : String) : Bool := '.' ∈ (lastName p.toList).dropWhile (· = '.')

/-- The root with exactly one slash at its end: what the paths below it start with. -/
def under (root : String) : String := Text.trimEndChar root '/' ++ "/"

/-- The part of a path below a root. -/
def below? (root path : String) : Option String := Text.after? path (under root)

end PluginHost.Path
