import PluginHost.Workspace

/-!
Jobs that tasks run, what they ask of the engine and of the remote, and what comes of them.
-/
namespace PluginHost

/-- What a task asks of a collaborator. The answer may come at once or much later. -/
inductive Query where
  | download (path : String) (contextId : Json)
  | projectFiles (contextId : Json)
  | transform (code : String) (config : EngineConfig) (registry : Registry)

/-- Code that the engine returned, with what it reported about it. -/
structure Transformed where
  code : String
  metadata : Json

structure Compiled where
  code : String
  dependencies : List Dependency

/-- The answer at the request boundary. -/
inductive Handled where
  | compiled (c : Compiled)
  | failed (f : Fault)

inductive Reply where
  | nothing
  | path (p : String)
  | value (v : Value)
  | files (fs : Files)
  | transformed (t : Transformed)
  | compiled (c : Compiled)
  | handled (h : Handled)
  | flag (b : Bool)

abbrev Outcome := Except Failure Reply

def Outcome.isFailure : Outcome → Bool
  | .error _ => true
  | .ok _ => false

/-- A module to install, for an engine and on behalf of a loader context. -/
structure Wanted where
  kind : ModuleKind
  name : String
  engine : Int
  contextId : Json

namespace Wanted

/-- Installations of one module, however it is spelled, share this name. -/
def key (w : Wanted) : ModuleName := (w.kind, PackageName.short w.kind w.name)

end Wanted

/-- An installation and the number of recoveries that it has spent. -/
structure Installation where
  wanted : Wanted
  attempts : Nat := 0

/-- The modules that a configuration needs. -/
structure Needs where
  plugins : List String
  presets : List String
  engine : Int
  contextId : Json
  /-- Macros read the project's files while they are installed. -/
  hasMacros : Bool

namespace Needs

def wanted (n : Needs) (kind : ModuleKind) (name : String) : Wanted :=
  ⟨kind, name, n.engine, n.contextId⟩

end Needs

/-- A compile that has resolved its configuration. -/
structure Compilation where
  attempt : Nat
  request : CompileRequest
  config : EngineConfig
  needs : Needs
  recoveries : Nat := 0

inductive Job where
  /-- Wait until the store is ready. -/
  | openStore (contextId : Json)
  /-- Copy the project's files. -/
  | copyProject (contextId : Json)
  /-- Make sure that the store has what lies at a path. -/
  | fetch (path : String) (contextId : Json)
  | download (path : String) (contextId : Json)
  /-- Fetch the file whose absence caused a failure. -/
  | recover (f : Failure) (contextId : Json)
  /-- Find the package that a name stands for. -/
  | resolve (w : Wanted)
  | install (w : Wanted)
  /-- Install a module that is neither installed nor on its way. -/
  | installFresh (w : Wanted)
  /-- Install a module that a configuration needs. -/
  | installOne (w : Wanted)
  | installAll (n : Needs)
  | compile (r : CompileRequest)
  | compilePayload (payload : Json)
  | handle (payload : Json)
  | warmup

/-- Where a job goes on with the outcome that it waited for. -/
inductive Stage where
  | passOn
  | storeAwaited (task : TaskId)
  | projectCopied
  | downloadOwned (path : String)
  | downloaded (path : String) (contextId : Json)
  | metadataTried
  | recovered (path : String)
  | literalTried (w : Wanted)
  | prefixedTried (w : Wanted) (candidate : String)
  | installOwned (key : ModuleName)
  | storeReady (i : Installation)
  | named (i : Installation)
  | fetched (i : Installation) (canonical : String)
  | evaluationMended (i : Installation)
  | oneTried (w : Wanted)
  | macrosReady (n : Needs)
  | pluginsInstalled (n : Needs) (round : Nat)
  | presetsInstalled (n : Needs) (round : Nat)
  | needsInstalled (c : Compilation)
  | transformed (c : Compilation)
  | storeOpened (c : Compilation)
  | engineMended (c : Compilation)
  | compileHandled
  | warm

/-- What a task does next. -/
inductive Move where
  | finish (o : Outcome)
  /-- Run another job and go on with its outcome. -/
  | call (s : Stage) (j : Job)
  /-- Go on with the outcome of a task. -/
  | await (s : Stage) (task : TaskId)
  /-- Start a task of its own for a job and go on with its outcome. -/
  | launch (s : Stage) (j : Job)
  /-- Start a task for each job and go on when all have succeeded or one has failed. -/
  | gather (s : Stage) (js : List Job)
  | ask (s : Stage) (q : Query)

namespace Move

def done : Move := .finish (.ok .nothing)

def fail (f : Failure) : Move := .finish (.error f)

/-- An outcome of a form that its stage does not expect. -/
def unexpected : Move := fail (Fault.wrongType "unexpected outcome")

end Move

end PluginHost
