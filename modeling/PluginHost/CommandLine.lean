import PluginHost.Cdn
import PluginHost.CommandLine.Help
import PluginHost.CommandLine.Words
import PluginHost.Host.Run
import PluginHost.Ordering
import PluginHost.Settings.Document

/-!
The command line: `resolve` shows which package a name stands for, `fetch` shows which files a path
brings. Both ask the network and keep nothing.
-/
namespace PluginHost.CommandLine

inductive Command where
  | resolve (name : String) (kind : ModuleKind) (engine : Int)
  | fetch (path : String)

/-- What a line asks for. -/
inductive Request where
  | run (c : Command) (config : Option String)
  | print (text : String)
  /-- The line follows no form. -/
  | misused

/-- What the program can see of the world. -/
structure Surroundings where
  /-- The bytes of a file, if it can be read. -/
  file : String → Option Content
  /-- The settings file that the environment names. -/
  defaultConfig : Option String := none
  network : String → Cdn.Answer

/-- What a run leaves behind. A failure that is not reported leaves the program as it is. -/
structure Report where
  exitCode : Nat
  output : String := ""
  errors : String := ""
  escaped : Option Failure := none
  /-- The addresses that were asked for, in order. -/
  addresses : List String := []

def help : OptionSpec := { long := "--help" }

def shared : List OptionSpec :=
  [{ long := "--config", takesValue := true }, { long := "--verbose", short := some 'v' }, help]

def resolveOptions : List OptionSpec :=
  { long := "--preset" } :: { long := "--engine-version", takesValue := true } :: shared

/-- A number with a sign, in digits of any script, with single underscores between them. -/
def integer? (s : String) : Option Int :=
  let (negative, body) : Bool × List Char :=
    match Text.trim s.toList with
    | '-' :: rest => (true, rest)
    | '+' :: rest => (false, rest)
    | cs => (false, cs)
  if (Text.pieces '_' body).any List.isEmpty then none
  else
    ((body.filter (· ≠ '_')).mapM Text.digit?).map fun ds =>
      if negative then -(Text.number ds : Int) else Text.number ds

/-- The engine that is named, or the default one. -/
def engine? (w : Words) : Option Int :=
  match w.value? "--engine-version" with
  | none => some 7
  | some s => integer? s

def resolveRequest (w : Words) : Request :=
  if w.has "--help" then .print Help.resolve
  else
    match engine? w, w.arguments with
    | some engine, [name] =>
      let kind := if w.has "--preset" then .preset else .plugin
      .run (.resolve name kind engine) (w.value? "--config")
    | _, _ => .misused

def fetchRequest (w : Words) : Request :=
  if w.has "--help" then .print Help.fetch
  else
    match w.arguments with
    | [path] => .run (.fetch path) (w.value? "--config")
    | _ => .misused

def commandRequest (name : String) (args : List String) : Request :=
  if name = "resolve" then ((Words.read? resolveOptions true args).map resolveRequest).getD .misused
  else if name = "fetch" then ((Words.read? shared true args).map fetchRequest).getD .misused
  else .misused

def request (args : List String) : Request :=
  match Words.read? [{ long := "--version" }, help] false args with
  | none => .misused
  | some w =>
    match w.options, w.arguments with
    | (option, _) :: _, _ => .print (if option = "--version" then Help.version else Help.overview)
    | [], name :: args => commandRequest name args
    | [], [] => .misused

/-- A network that answers downloads. Nothing else is asked of it. -/
def world (cdn : Cdn) : World (List String) where
  meet _ _ q addresses :=
    match q with
    | .download path _ =>
      let (result, addresses) := (cdn.download path).run.run addresses
      (some (result.map .files), addresses)
    | .projectFiles _ => (some (.ok (.files .empty)), addresses)
    | .transform .. => (some (.error (Fault.general "no engine")), addresses)

def Command.job : Command → Job
  | .resolve name kind engine => .resolve ⟨kind, name, engine, .null⟩
  | .fetch path => .fetch path .null

/-- What a command shows once its job has succeeded. -/
def shown (command : Command) (h : Host) (r : Reply) : String :=
  match command, r with
  | .fetch _, _ =>
    Help.lines ((textsInOrder h.workspace.store.remotePaths).map ("  " ++ ·))
  | .resolve .., .path p => p ++ "\n"
  | .resolve .., _ => ""

def escape (f : Failure) : Report := { exitCode := 1, escaped := some f }

/-- Reported failures are shown; others leave the program. -/
def failed (f : Failure) : Report :=
  if f.fault.isReported then { exitCode := 1, errors := f.message ++ "\n" } else escape f

def execute (command : Command) (settings : Settings) (network : String → Cdn.Answer) : Report :=
  let cdn := Cdn.below settings.cdnUrl settings.packagesRoot Cdn.defaultExtensions network
  let start : Host := { workspace := Workspace.fresh settings {} [] [] [] }
  let (h, addresses) := (start.start [command.job]).settle (world cdn) []
  let report : Report :=
    match h.outcome? 0 with
    | some (.ok r) => { exitCode := 0, output := shown command h r }
    | some (.error f) => failed f
    | none => escape (Fault.general "the job has not ended")
  { report with addresses := addresses }

/-- A settings file that is named must be there; the one from the environment need not. -/
def runWith (s : Surroundings) (command : Command) (config : Option String) : Report :=
  let file := match config with
    | some path => s.file path
    | none => s.defaultConfig.bind s.file
  if config.isSome && file.isNone then { exitCode := 2 }
  else
    match Document.load file with
    | .ok settings => execute command settings s.network
    | .error f => escape f

def run (s : Surroundings) (args : List String) : Report :=
  match request args with
  | .misused => { exitCode := 2 }
  | .print text => { exitCode := 0, output := text }
  | .run command config => runWith s command config

end PluginHost.CommandLine
