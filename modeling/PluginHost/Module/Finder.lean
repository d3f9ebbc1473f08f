import PluginHost.Store

/-!
What evaluated code can load: every request is answered from the store. A path is tried as it
stands, behind each extension, as the entry that its `package.json` names, and as a directory with
an index.
-/
namespace PluginHost

/-- A store file that answers a module request. -/
structure ModuleFile where
  path : String
  source : Content

structure Finder where
  root : String
  extensions : List String

namespace Finder

def defaultExtensions : List String := [".py", ".js", ".json"]

def ofRoot (packagesRoot : String) (extensions : List String := defaultExtensions) : Finder :=
  ⟨Path.normalize packagesRoot, extensions⟩

/-- The path that a request means, whether or not it is there. -/
def locate (p : Finder) (r : ModuleRequest) : String := r.path p.root

def candidates (p : Finder) (path : String) : List String :=
  path :: p.extensions.map (path ++ ·)

def file? (p : Finder) (store : Store) (path : String) : Option ModuleFile :=
  (p.candidates path).findSome? fun c =>
    (store.read? c).map fun source => ⟨Path.normalize c, source⟩

/-- The entry that metadata names. Only bytes that are no text in any encoding are an error. -/
def mainEntry (metadata : Content) : Except Failure (Option String) :=
  match Json.decode metadata with
  | .error why => .error (Fault.badText why)
  | .ok cs =>
    match Json.ofChars cs with
    | .error _ => .ok none
    | .ok v => .ok (((v.field? "main").bind Json.text?).filter (· ≠ ""))

/-- The file of an entry: the file itself or the index of a directory. -/
def entryFile? (p : Finder) (store : Store) (path main : String) : Option ModuleFile :=
  let entry := Path.join path [main]
  (p.file? store entry).or (p.file? store (Path.join entry ["index"]))

/-- The file that the metadata of a directory leads to. -/
def throughMetadata (p : Finder) (store : Store) (path : String) :
    Except Failure (Option ModuleFile) :=
  match store.read? (Path.join path ["package.json"]) with
  | none => .ok none
  | some metadata => (mainEntry metadata).map fun main => main.bind (p.entryFile? store path)

def resolvePath (p : Finder) (store : Store) (path : String) :
    Except Failure (Option ModuleFile) :=
  match p.file? store path with
  | some file => .ok (some file)
  | none => (p.throughMetadata store path).map fun found =>
      found.or (p.file? store (Path.join path ["index"]))

def resolve (p : Finder) (store : Store) (r : ModuleRequest) : Except Failure (Option ModuleFile) :=
  p.resolvePath store (p.locate r)

end Finder

end PluginHost
