import PluginHost.Path

/-!
Requests for modules, and failure messages that report one as missing.
-/
namespace PluginHost

/-- A module request and the file that issued it. -/
structure ModuleRequest where
  request : String
  importer : Option String
deriving DecidableEq

namespace ModuleRequest

/-- A request that starts at the directory of its importer. -/
def isRelative (request : String) : Bool :=
  Text.startsWith request "./" || Text.startsWith request "../" || request = "." || request = ".."

def isAbsolute (request : String) : Bool := Text.startsWith request "/"

/-- A request that names a package. -/
def isBare (request : String) : Bool := !isRelative request && !isAbsolute request

/-- The most specific store path that a request can mean. A relative request without an importer
starts at the root, a bare one below the packages root. -/
def path (r : ModuleRequest) (packagesRoot : String) : String :=
  if isRelative r.request then
    let base := match r.importer with
      | some file => if file = "" then "/" else Path.parent file
      | none => "/"
    Path.join base [r.request]
  else if isAbsolute r.request then Path.join r.request []
  else Path.join packagesRoot [r.request]

/-- The text in single quotes that follows an opening, and what comes after the closing quote. -/
def quotedAfter? (opening : String) (s : List Char) : Option (List Char × List Char) :=
  match Text.rest? opening.toList s with
  | none => none
  | some s =>
    match s.takeWhile (· ≠ '\''), s.dropWhile (· ≠ '\'') with
    | c :: cs, '\'' :: rest => some (c :: cs, rest)
    | _, _ => none

def atStart? (s : List Char) : Option ModuleRequest :=
  (quotedAfter? "Cannot find module '" s).map fun (request, rest) =>
    ⟨String.ofList request,
      (quotedAfter? " from '" rest).map fun (importer, _) => String.ofList importer⟩

def find? : List Char → Option ModuleRequest
  | [] => none
  | c :: s => (atStart? (c :: s)).or (find? s)

/-- The first quoted request that a failure message reports as missing. -/
def ofMessage? (message : String) : Option ModuleRequest := find? message.toList

/-- Whether a message speaks of a missing module at all. -/
def isReported (message : String) : Bool := Text.holds message "Cannot find module"

/-- What an evaluated module is told when its request cannot be met. -/
def message (r : ModuleRequest) : String :=
  match r.importer with
  | some file => s!"Cannot find module '{r.request}' from '{file}'"
  | none => s!"Cannot find module '{r.request}'"

end ModuleRequest

end PluginHost
