import PluginHost.Path
import PluginHost.Table

/-! A layer of files in memory. Every spelling of a path names the file of its normal form. -/
namespace PluginHost

abbrev Content := List UInt8

/-- Files by path, in order of arrival. -/
abbrev Files := Table String Content

structure Layer where
  files : Files

namespace Layer

def empty : Layer := ⟨.empty⟩

instance : Inhabited Layer := ⟨empty⟩

def read? (l : Layer) (path : String) : Option Content := l.files.get? (Path.normalize path)

def contains (l : Layer) (path : String) : Bool := (l.read? path).isSome

def write (l : Layer) (path : String) (c : Content) : Layer :=
  ⟨l.files.insert (Path.normalize path) c⟩

def writeAll (l : Layer) (files : Files) : Layer :=
  files.entries.foldl (fun l f => l.write f.1 f.2) l

def paths (l : Layer) : List String := l.files.keys

def size (l : Layer) : Nat := l.files.size

def isEmpty (l : Layer) : Bool := l.files.isEmpty

@[simp] theorem read?_empty (path : String) : empty.read? path = none := rfl

theorem read?_write (l : Layer) (path q : String) (c : Content) :
    (l.write path c).read? q
      = if Path.normalize path = Path.normalize q then some c else l.read? q := by
  simp [read?, write]

end Layer

end PluginHost
