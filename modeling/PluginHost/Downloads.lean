import PluginHost.Store

/-!
Downloads: the paths that were fetched and the downloads on their way. What was fetched is forgotten
when the store turns out to have been reset.
-/
namespace PluginHost

structure Downloads where
  fetched : List String := []
  /-- The task of each download on its way, by path. -/
  pending : Table String TaskId := .empty
  /-- The generation of the store that the fetched paths belong to. -/
  generation : Nat := 0
  /-- The number of downloads that brought files. -/
  completed : Nat := 0

namespace Downloads

/-- Forgets what was fetched into an earlier generation of the store. -/
def sync (d : Downloads) (store : Store) : Downloads :=
  if d.generation = store.generation then d
  else { d with fetched := [], generation := store.generation }

def record (d : Downloads) (path : String) : Downloads :=
  if path ∈ d.fetched then d else { d with fetched := path :: d.fetched }

def started (d : Downloads) (path : String) (task : TaskId) : Downloads :=
  { d with pending := d.pending.insert path task }

def ended (d : Downloads) (path : String) : Downloads := { d with pending := d.pending.erase path }

def counted (d : Downloads) : Downloads := { d with completed := d.completed + 1 }

/-- The metadata of the package that a path belongs to. -/
def metadata? (root path : String) : Option String :=
  (Path.below? root path).map fun inside =>
    Path.join root [PackageName.ofRequest inside, "package.json"]

end Downloads

end PluginHost
