import PluginHost.Failure
import PluginHost.Store.Layer

/-!
The store: a writable layer over one that is filled from the remote. Reads look at the writable
layer first and never fetch. The lower layer starts out as a copy of the project's files, made on
first need; until then the store is not ready.
-/
namespace PluginHost

/-- Tasks are numbered in the order in which they were started. -/
abbrev TaskId := Nat

structure Store where
  writable : Layer := .empty
  remote : Layer := .empty
  /-- Whether there is a project whose files are to be copied. -/
  hasProject : Bool := false
  ready : Bool := !hasProject
  /-- The task that copies the project's files. -/
  opening : Option TaskId := none
  /-- The number of resets so far. -/
  generation : Nat := 0

namespace Store

def read? (s : Store) (path : String) : Option Content :=
  (s.writable.read? path).or (s.remote.read? path)

def contains (s : Store) (path : String) : Bool := (s.read? path).isSome

def read (s : Store) (path : String) : Except Failure Content :=
  match s.read? path with
  | some c => .ok c
  | none => .error (Fault.storeMiss (Path.normalize path))

def readText (s : Store) (path : String) : Except Failure String :=
  (s.read path).bind fun c =>
    match Text.utf8 false c with
    | .ok cs => .ok (String.ofList cs)
    | .error why => .error (Fault.badText why)

def write (s : Store) (path : String) (c : Content) : Store :=
  { s with writable := s.writable.write path c }

/-- Places a fetched file. -/
def place (s : Store) (path : String) (c : Content) : Store :=
  { s with remote := s.remote.write path c }

def placeAll (s : Store) (files : Files) : Store :=
  { s with remote := s.remote.writeAll files }

/-- Takes the project's files in. -/
def copyProject (s : Store) (files : Files) : Store := { s.placeAll files with ready := true }

/-- Drops every file and asks for a new copy of the project. -/
def reset (s : Store) : Store :=
  { s with
    writable := .empty
    remote := .empty
    ready := !s.hasProject
    opening := none
    generation := s.generation + 1 }

def remotePaths (s : Store) : List String := s.remote.paths

/-- The number of files in both layers. -/
def size (s : Store) : Nat := s.writable.size + s.remote.size

@[simp] theorem read?_reset (s : Store) (path : String) : s.reset.read? path = none := rfl

theorem read?_write (s : Store) (path q : String) (c : Content) :
    (s.write path c).read? q
      = if Path.normalize path = Path.normalize q then some c else s.read? q := by
  by_cases h : Path.normalize path = Path.normalize q <;> simp [read?, write, Layer.read?_write, h]

theorem read?_place (s : Store) (path q : String) (c : Content) :
    (s.place path c).read? q
      = (s.writable.read? q).or
          (if Path.normalize path = Path.normalize q then some c else s.remote.read? q) := by
  simp [read?, place, Layer.read?_write]

end Store

end PluginHost
