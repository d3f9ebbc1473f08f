import PluginHost.Failure
import PluginHost.Store.Layer

/-!
Packages on a content delivery network. A store path below the packages root stands for the same
path below the network's address. A package directory is fetched through its `package.json`: its own
address may lead to its main file.
-/
namespace PluginHost

/-- What the network answers for an address. -/
inductive Cdn.Answer where
  | content (bytes : Content)
  | status (code : Int)
  | unreachable (reason : String)

structure Cdn where
  url : String
  root : String
  /-- Tried behind a name without one, in this order. -/
  extensions : List String
  answer : String → Cdn.Answer

namespace Cdn

def defaultExtensions : List String := [".js", ".py", ".json"]

/-- The network below an address, slashes at whose end do not count. -/
def below (url root : String) (extensions : List String) (answer : String → Answer) : Cdn :=
  ⟨Text.trimEndChar url '/', Path.normalize root, extensions, answer⟩

/-- Browsing keeps the addresses asked for, in order, also when it fails. -/
abbrev Browse := ExceptT Failure (StateM (List String))

variable (cdn : Cdn)

/-- The content at a path of the network; none if the network says that there is none. -/
def get (path : String) : Browse (Option Content) := do
  let url := cdn.url ++ "/" ++ path
  modify (· ++ [url])
  match cdn.answer url with
  | .content bytes => return some bytes
  | .status code =>
    if code = 404 then return none
    else throw (Failure.because (.unfetchable url (some s!"HTTP {code}")) (Fault.httpStatus code))
  | .unreachable reason =>
    throw (Failure.because (.unfetchable url (some reason)) (Fault.network reason))

/-- The first path with content, with the store path that stands for it. -/
def firstFound : List String → Browse (Option (String × Content))
  | [] => return none
  | path :: paths => do
    match ← cdn.get path with
    | some c => return some (Path.join cdn.root [path], c)
    | none => firstFound paths

def extended (path : String) : List String := cdn.extensions.map (path ++ ·)

def indexes (path : String) : List String := cdn.extended (path ++ "/index")

def badEntry (main : Json) : Fault :=
  .wrongType
    s!"join() argument must be str, bytes, or os.PathLike object, not {Text.quoted main.typeName}"

/-- The entry that the metadata of a package names, `index` if it names none. Metadata that cannot
be read as JSON names none. -/
def entryName (metadata : Content) : Except Failure String :=
  match Json.decode metadata with
  | .error why => .error (Fault.badText why)
  | .ok cs =>
    match Json.ofChars cs with
    | .error _ => .ok "index"
    | .ok v =>
      match (v.field? "main").getD .null with
      | .text s => .ok (if s = "" then "index" else s)
      | main => if main.isNothing then .ok "index" else .error (badEntry main)

/-- Where the entry of a directory may lie: as it stands, behind an extension, or as a directory. -/
def entryPaths (directory name : String) : List String :=
  let entry := Path.collapse (Path.append directory name)
  entry :: if Path.hasExtension entry then [] else cdn.extended entry ++ cdn.indexes entry

/-- The metadata of a directory and its entry file, or its index file if it has no metadata. -/
def directory (path : String) : Browse Files := do
  match ← cdn.get (path ++ "/package.json") with
  | none => return Table.ofList (← cdn.firstFound (cdn.indexes path)).toList
  | some metadata =>
    let files : Files := Table.ofList [(Path.join cdn.root [path, "package.json"], metadata)]
    let name ← entryName metadata
    return files.union (← cdn.firstFound (cdn.entryPaths path name)).toList

def filePaths (path : String) : List String :=
  path :: if Path.hasExtension path then [] else cdn.extended path

/-- The artifact at a path of the network. A package is first taken for a directory, anything inside
a package for a file. -/
def artifact (path : String) : Browse Files := do
  let isPackage := PackageName.ofRequest path = path
  let first : Files ← if isPackage then cdn.directory path else pure .empty
  if !first.isEmpty then return first
  match ← cdn.firstFound (cdn.filePaths path) with
  | some file => return Table.ofList [file]
  | none => if isPackage then return .empty else cdn.directory path

/-- Files to place in the store for a path. -/
def download (path : String) : Browse Files := do
  let path := Path.normalize path
  match Path.below? cdn.root path with
  | none => throw (Fault.unfetchable path (some s!"not under {cdn.root}") : Failure)
  | some inside =>
    let files ← cdn.artifact inside
    if files.isEmpty then throw (Fault.unfetchable path (some "not found on CDN") : Failure)
    return files

end Cdn

end PluginHost
