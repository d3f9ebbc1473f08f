import PluginHost.CommandLine

/-!
The program. The network is a table of addresses and contents that a file holds; without one no
address can be reached.
-/
namespace PluginHost

/-- The answers of a table; addresses that it lacks hold nothing. -/
def tableAnswer (table : Json) (url : String) : Cdn.Answer :=
  match table.field? url with
  | some (.text s) => .content s.toUTF8.toList
  | _ => .status 404

def readTable (path : Option String) : IO (String → Cdn.Answer) := do
  match path with
  | none => return fun _ => .unreachable "no network"
  | some path =>
    match Json.ofText (← IO.FS.readFile path) with
    | .ok table => return tableAnswer table
    | .error _ => return fun _ => .unreachable "unreadable table"

def readBytes? (path : String) : IO (Option Content) := do
  try
    return some (← IO.FS.readBinFile path).toList
  catch _ => return none

/-- The file that the words of a line or the environment name as settings, if one is there. -/
def readNamed (names : List String) : IO (List (String × Content)) := do
  let files ← names.mapM fun n => do return (← readBytes? n).map (n, ·)
  return files.filterMap id

end PluginHost

open PluginHost in
def main (args : List String) : IO UInt32 := do
  let config := (← IO.getEnv "TRANSPILE_WORKER_CONFIG").filter (· ≠ "")
  let named := match CommandLine.request args with
    | .run _ (some path) => [path]
    | _ => config.toList
  let files ← readNamed named
  let network ← readTable (← IO.getEnv "TRANSPILE_WORKER_CDN")
  let report := CommandLine.run ⟨fun path => lookup? path files, config, network⟩ args
  IO.print report.output
  IO.eprint report.errors
  if let some f := report.escaped then IO.eprintln f.message
  return UInt32.ofNat report.exitCode
