import PluginHost.Failure
import PluginHost.Value

/-! Modules that come with the host. They have no parts that could be imported on their own. -/
namespace PluginHost

/-- Host modules by name, each with what it binds. -/
abbrev HostModules := List (String × List (String × Value))

namespace HostModules

/-- The name parts of a dotted name, each with all parts before it. -/
def stems (name : String) : List String :=
  ((Text.split name '.').foldl
    (fun done part =>
      match done with
      | [] => [part]
      | before :: _ => (before ++ "." ++ part) :: done) []).reverse

/-- Why a dotted name cannot be imported: its first part is unknown, or it has further parts. -/
def importProblem (hs : HostModules) (name : String) : Option Fault :=
  let unknown (n : String) := "No module named " ++ Text.quoted n
  match stems name with
  | first :: rest =>
    match lookup? first hs, rest with
    | none, _ => some (.noHostModule (unknown first))
    | some _, next :: _ =>
      some (.noHostModule (unknown next ++ "; " ++ Text.quoted first ++ " is not a package"))
    | some _, [] => none
  | [] => some (.noHostModule (unknown name))

def load (hs : HostModules) (name : String) : Except Fault (List (String × Value)) :=
  if Text.startsWith name "." then
    .error (.wrongType
      ("the 'package' argument is required to perform a relative import for " ++ Text.quoted name))
  else if name = "" then .error (.badValue "Empty module name")
  else
    match hs.importProblem name with
    | some problem => .error problem
    | none => .ok ((lookup? name hs).getD [])

/-- What an import path `module:member` leads to; without a member it is the module. -/
def import? (hs : HostModules) (path : String) : Except Fault Value :=
  let (name, member) :=
    match Text.cut? [':'] path.toList with
    | some (name, member) => (String.ofList name, String.ofList member)
    | none => (path, "")
  (hs.load name).bind fun bindings =>
    if member = "" then .ok (.module (.host name))
    else
      match lookup? member bindings with
      | some v => .ok v
      | none => .error (.missingAttribute s!"module '{name}' has no attribute '{member}'")

end HostModules

end PluginHost
