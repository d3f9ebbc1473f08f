import PluginHost.HostModules
import PluginHost.Module.Finder
import PluginHost.Module.Registry
import PluginHost.Script.Reader

/-!
Evaluation of store files. A file is evaluated once; files that require each other see what the
other has bound so far. A file whose evaluation fails is forgotten.
-/
namespace PluginHost

/-- A file whose evaluation has begun, with what it has bound so far. -/
structure EvaluatedModule where
  path : String
  bindings : List (String × Value) := []

structure Evaluator where
  /-- Every module whose evaluation was ever begun. -/
  modules : List EvaluatedModule := []
  /-- The modules that need no further evaluation, by path. -/
  loaded : Table String Nat := .empty
  /-- The number of evaluations that succeeded. -/
  evaluations : Nat := 0

namespace Evaluator

/-- Forgets every evaluation. Modules that were exported before live on. -/
def reset (s : Evaluator) : Evaluator := { s with loaded := .empty }

def bindings (s : Evaluator) (index : Nat) : List (String × Value) :=
  match s.modules[index]? with
  | some m => m.bindings
  | none => []

def bind (s : Evaluator) (index : Nat) (name : String) (v : Value) : Evaluator :=
  { s with
    modules := s.modules.modify index fun m => { m with bindings := putEntry name v m.bindings } }

/-- What a module exports: its `default` if it binds one, or else the module itself. -/
def exportOf (s : Evaluator) (index : Nat) : Value :=
  (lookup? "default" (s.bindings index)).getD (.module (.file index))

/-- The name that an evaluated file goes by. -/
def moduleName (path : String) : String :=
  let inner := path.toList.dropWhile (· = '/')
  "transpile_sandbox." ++ String.ofList (inner.map fun c => if Text.isWord c then c else '_')

/-- What evaluation can reach, the same for all files that one evaluation loads. -/
structure Reach where
  finder : Finder
  store : Store
  registry : Registry
  host : HostModules

/-- Evaluation keeps what it did to the evaluator, also when it fails. -/
abbrev Run := ExceptT Failure (StateM Evaluator)

def fail {α : Type} (f : Fault) : Run α := throw (f : Failure)

/-- What failures call the owner of members, and the members that it has. -/
def members (s : Evaluator) (host : HostModules) : Value → String × List (String × Value)
  | .module (.file index) =>
    match s.modules[index]? with
    | some m => (s!"module '{moduleName m.path}'", m.bindings)
    | none => ("module", [])
  | .module (.host name) => (s!"module '{name}'", (lookup? name host).getD [])
  | v => (s!"'{v.typeName}' object", [])

def noMember (owner name : String) : Fault :=
  .missingAttribute s!"{owner} has no attribute '{name}'"

/-- What a running file has at hand. -/
structure Scope where
  index : Nat
  reach : Reach
  require : Value → Run Value

namespace Scope

def memberOf (scope : Scope) (v : Value) (name : String) : Run Value := do
  let (owner, bindings) := (← get).members scope.reach.host v
  match lookup? name bindings with
  | some v => return v
  | none => fail (noMember owner name)

def itemOf (v : Value) (key : String) : Run Value :=
  match v with
  | .dict entries =>
    match lookup? key entries with
    | some v => return v
    | none => fail (.missingKey key)
  | .list _ => fail (.wrongType "list indices must be integers or slices, not str")
  | .text _ => fail (.wrongType "string indices must be integers, not 'str'")
  | v => fail (.wrongType s!"'{v.typeName}' object is not subscriptable")

def nameOf (scope : Scope) (name : String) : Run Value := do
  match lookup? name ((← get).bindings scope.index) with
  | some v => return v
  | none => fail (.unboundName name)

mutual

def value (scope : Scope) : Script.Expr → Run Value
  | .null => return .null
  | .bool b => return .bool b
  | .int i => return .int i
  | .text s => return .text s
  | .list es => return .list (← values scope es)
  | .dict es => return .dict (← entries scope [] es)
  | .name n => nameOf scope n
  | .item e key => do itemOf (← value scope e) key
  | .member e name => do memberOf scope (← value scope e) name
  | .require e => do scope.require (← value scope e)
  | .installed kind name => return scope.reach.registry.get kind name

def values (scope : Scope) : List Script.Expr → Run (List Value)
  | [] => return []
  | e :: es => do
    let v ← value scope e
    return v :: (← values scope es)

/-- Of two entries with one key the later value stays. -/
def entries (scope : Scope) (done : List (String × Value)) :
    List (String × Script.Expr) → Run (List (String × Value))
  | [] => return done
  | (key, e) :: es => do
    let v ← value scope e
    entries scope (putEntry key v done) es

end

def statement (scope : Scope) : Script.Statement → Run Unit
  | .bind name e => do
    let v ← value scope e
    modify (·.bind scope.index name v)
  | .run e => do let _ ← value scope e
  | .raiseValue text => fail (.badValue text)
  | .raiseRuntime text => fail (.runtime text)

def script (scope : Scope) : Script → Run Unit
  | [] => return ()
  | st :: rest => do
    statement scope st
    script scope rest

end Scope

def scriptProblem (path : String) (why : Script.Unreadable) : Fault :=
  .badScript s!"{why.problem} ({String.ofList (Path.lastName path.toList)}, line {why.line})"

/-- Fills the module of a file: a script is run, JSON is exported as it stands. -/
def fill (scope : Scope) (file : ModuleFile) : Run Unit := do
  match Text.utf8 false file.source with
  | .error why => fail (.badText why)
  | .ok cs =>
    if Text.endsWith file.path ".json" then
      match Json.ofText (String.ofList cs) with
      | .ok v => modify (·.bind scope.index "default" (.ofJson v))
      | .error why => fail (.badJson why)
    else
      match Script.ofChars cs with
      | .ok statements => scope.script statements
      | .error why => fail (scriptProblem file.path why)

def absent (finder : Finder) (r : ModuleRequest) : Fault :=
  .missingArtifact r.message (some (finder.locate r)) (some r.request) r.importer

def installed? (registry : Registry) (name : String) : Option Value :=
  let value? (kind : ModuleKind) := (registry.get? kind name).filter (!·.isNull)
  (value? .plugin).or (value? .preset)

/-- The export of what a request means. A bare request for an installed module is answered by it;
any other request is answered by a file, which `load` evaluates. -/
def exportFor (reach : Reach) (load : ModuleFile → Run Value) (r : ModuleRequest) : Run Value := do
  match ← (reach.finder.resolve reach.store r : Except Failure _) with
  | some file => load file
  | none => fail (absent reach.finder r)

def require (reach : Reach) (load : ModuleFile → Run Value) (importer : String) (v : Value) :
    Run Value :=
  match v with
  | .text request =>
    let installed :=
      if ModuleRequest.isBare request then installed? reach.registry request else none
    match installed with
    | some v => return v
    | none => exportFor reach load ⟨request, some importer⟩
  | v => do fail (noMember ((← get).members reach.host v).1 "startswith")

def opened (s : Evaluator) (path : String) : Evaluator :=
  { s with
    modules := s.modules ++ [⟨path, []⟩]
    loaded := s.loaded.insert path s.modules.length }

def forgotten (s : Evaluator) (path : String) : Evaluator :=
  { s with loaded := s.loaded.erase path }

def counted (s : Evaluator) : Evaluator := { s with evaluations := s.evaluations + 1 }

/-- The export of a file. Its module is there before the file runs, so that files that require each
other see it. Each level of `fuel` evaluates one more file inside another. -/
def load (reach : Reach) : Nat → ModuleFile → Run Value
  | 0, _ => fail (.general "too many files inside one another")
  | fuel + 1, file => do
    match (← get).loaded.get? file.path with
    | some index => return (← get).exportOf index
    | none =>
      let index := (← get).modules.length
      modify (·.opened file.path)
      let scope : Scope := ⟨index, reach, require reach (load reach fuel) file.path⟩
      try fill scope file
      catch f =>
        modify (·.forgotten file.path)
        throw f
      modify counted
      return (← get).exportOf index

/-- The export of the module at a path, and the evaluator afterwards. No file runs inside itself, so
as many levels as there are files are enough. -/
def evaluate (s : Evaluator) (reach : Reach) (path : String) : Except Failure Value × Evaluator :=
  (exportFor reach (load reach (reach.store.size + 1)) ⟨path, none⟩).run.run s

end Evaluator

end PluginHost
