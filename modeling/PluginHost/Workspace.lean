import PluginHost.Dependency
import PluginHost.Downloads
import PluginHost.Fingerprint
import PluginHost.Module.Evaluator
import PluginHost.Module.Inventory

/-!
Everything that compiles share: the store, what was fetched, installed and evaluated, and the
configuration that is active.
-/
namespace PluginHost

inductive CompileState where
  | resolvingConfig
  | installing
  | transforming
  | recovering
  | done
deriving DecidableEq

def CompileState.word : CompileState → String
  | .resolvingConfig => "resolving_config"
  | .installing => "installing_deps"
  | .transforming => "transforming"
  | .recovering => "recovering"
  | .done => "done"

/-- Compiles in progress, in the order in which they started. -/
structure Compiles where
  started : Nat := 0
  running : Table Nat CompileState := .empty

namespace Compiles

def start (c : Compiles) : Nat × Compiles :=
  (c.started, ⟨c.started + 1, c.running.insert c.started .resolvingConfig⟩)

def enter (c : Compiles) (attempt : Nat) (s : CompileState) : Compiles :=
  { c with running := c.running.insert attempt s }

def finish (c : Compiles) (attempt : Nat) : Compiles :=
  { c with running := c.running.erase attempt }

def states (c : Compiles) : List CompileState := c.running.values

/-- The state of the compile that started last, `done` if none is in progress. -/
def state (c : Compiles) : CompileState := c.states.getLast?.getD .done

end Compiles

structure Workspace where
  settings : Settings
  store : Store
  finder : Finder
  host : HostModules
  inventory : Inventory
  downloads : Downloads := {}
  evaluator : Evaluator := {}
  /-- The task of each installation on its way, by short name. -/
  installing : Table ModuleName TaskId := .empty
  compiles : Compiles := {}
  /-- The fingerprint of the configuration that is active. -/
  fingerprint : Option String := none
  engineResets : Nat := 0

namespace Workspace

/-- A workspace in which nothing was done yet. -/
def fresh (settings : Settings) (store : Store) (host : HostModules)
    (plugins presets : List (String × Value)) : Workspace where
  settings := settings
  store := store
  finder := Finder.ofRoot settings.packagesRoot
  host := host
  inventory := .seeded ⟨plugins, presets, settings.remaps⟩ 0

/-- The packages root in normal form. -/
def root (c : Workspace) : String := Path.normalize c.settings.packagesRoot

/-- The metadata of a package. -/
def metadataPath (c : Workspace) (package : String) : String :=
  Path.join c.settings.packagesRoot [package, "package.json"]

/-- Drops evaluated modules and whatever was made of them. -/
def forgetModules (c : Workspace) : Workspace :=
  { c with
    inventory := c.inventory.reset
    evaluator := c.evaluator.reset
    engineResets := c.engineResets + 1 }

/-- Drops evaluated modules, and also every file if asked. -/
def reset (c : Workspace) (includeStore : Bool) : Workspace :=
  let c := c.forgetModules
  { c with
    store := if includeStore then c.store.reset else c.store
    fingerprint := none }

/-- Makes a configuration the active one. Modules of another one are dropped; the flag says so. -/
def activate (c : Workspace) (fingerprint : String) : Bool × Workspace :=
  match c.fingerprint with
  | none => (false, { c with fingerprint := some fingerprint })
  | some active =>
    if fingerprint = active then (false, c)
    else (true, { c.forgetModules with fingerprint := some fingerprint })

def isFetched (c : Workspace) (path : String) : Bool × Workspace :=
  let downloads := c.downloads.sync c.store
  (decide (Path.normalize path ∈ downloads.fetched), { c with downloads := downloads })

/-- What the modules that are installed now let evaluated code reach. -/
def reach (c : Workspace) : Evaluator.Reach := ⟨c.finder, c.store, c.inventory.registry, c.host⟩

def evaluate (c : Workspace) (path : String) : Except Failure Value × Workspace :=
  let (result, evaluator) := c.evaluator.evaluate c.reach path
  (result, { c with evaluator := evaluator })

def register (c : Workspace) (kind : ModuleKind) (name : String) (v : Value)
    (canonical : Option String) (builtin : Bool) : Workspace :=
  { c with inventory := c.inventory.register kind name v canonical builtin }

/-- A plugin that comes with the host cannot be used if its module or member is not there. Other
failures to import it are passed on as they are. -/
def bundleFailure (name : String) (f : Fault) : Failure :=
  match f with
  | .noHostModule text | .missingAttribute text =>
    Failure.because (.notInstalled ModuleKind.plugin.word name text) f
  | f => f

/-- Registers the plugins among the names that come with the host, up to the first failure. -/
def addBundled (c : Workspace) : List String → Except Failure Unit × Workspace
  | [] => (.ok (), c)
  | name :: names =>
    match lookup? name c.settings.bundled, c.inventory.contains .plugin name with
    | some path, false =>
      match c.host.import? path with
      | .ok v => (c.register .plugin name v none true).addBundled names
      | .error f => (.error (bundleFailure name f), c)
    | _, _ => c.addBundled names

/-- Whether every name is installed. -/
def installed (c : Workspace) (kind : ModuleKind) (names : List String) : Bool :=
  names.all (c.inventory.contains kind)

def enter (c : Workspace) (attempt : Nat) (s : CompileState) : Workspace :=
  { c with compiles := c.compiles.enter attempt s }

/-- Whether a failure may come from a store that is not ready yet. -/
def isNotReady (c : Workspace) (f : Failure) : Bool :=
  !c.store.ready && (f.fault.isStoreNotReady || f.isMissingArtifact || f.fault.isIoError)

end Workspace

end PluginHost
