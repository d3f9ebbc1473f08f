import PluginHost.Job

/-!
Installing modules: a name is resolved, its package fetched and evaluated, and its export
registered. An evaluation that needs an absent file is mended by fetching the file and starting
over.
-/
namespace PluginHost.Work

/-- A module that is there keeps its slot and answers to the new spelling as well. -/
def reinstall (w : Wanted) (key : String) (m : Installed) (c : Workspace) : Workspace × Move :=
  match c.inventory.addAlias w.kind w.name key with
  | .ok inventory => ({ c with inventory := inventory }, .finish (.ok (.value m.value)))
  | .error f => (c, .fail f)

def install (fresh : TaskId) (w : Wanted) (c : Workspace) : Workspace × Move :=
  match c.inventory.find? w.kind w.name with
  | some (key, m) => reinstall w key m c
  | none =>
    match c.installing.get? w.key with
    | some task => (c, .await .passOn task)
    | none =>
      ({ c with installing := c.installing.insert w.key fresh },
        .launch (.installOwned w.key) (.installFresh w))

def installOwned (key : ModuleName) (o : Outcome) (c : Workspace) : Workspace × Move :=
  ({ c with installing := c.installing.erase key }, .finish o)

/-- Each try begins with a store that is ready. -/
def attempt (i : Installation) (c : Workspace) : Workspace × Move :=
  (c, .call (.storeReady i) (.openStore i.wanted.contextId))

def storeReady (i : Installation) (o : Outcome) (c : Workspace) : Workspace × Move :=
  match o with
  | .ok _ => (c, .call (.named i) (.resolve i.wanted))
  | .error f => (c, .fail f)

def modulePath (c : Workspace) (canonical : String) : String :=
  Path.join c.settings.packagesRoot [canonical]

def named (i : Installation) (o : Outcome) (c : Workspace) : Workspace × Move :=
  match o with
  | .ok (.path canonical) =>
    (c, .call (.fetched i canonical) (.fetch (modulePath c canonical) i.wanted.contextId))
  | .ok _ => (c, .unexpected)
  | .error f => (c, .fail f)

/-- Registers an export; an empty one cannot be installed. -/
def registered (w : Wanted) (canonical : String) (v : Value) (c : Workspace) : Workspace × Move :=
  if v.isNothing then (c, .fail (Fault.emptyExport w.kind.word w.name))
  else (c.register w.kind w.name v (some canonical) false, .finish (.ok (.value v)))

def mend (i : Installation) (f : Failure) (c : Workspace) : Workspace × Move :=
  if c.settings.maxRecoveries ≤ i.attempts then
    (c, .fail (.because (.recoveryLimit i.attempts (some f.message)) f))
  else
    (c, .call (.evaluationMended { i with attempts := i.attempts + 1 })
      (.recover f i.wanted.contextId))

def fetched (i : Installation) (canonical : String) (o : Outcome) (c : Workspace) :
    Workspace × Move :=
  match o with
  | .ok _ =>
    match c.evaluate (modulePath c canonical) with
    | (.ok v, c) => registered i.wanted canonical v c
    | (.error f, c) => mend i f c
  | .error f => (c, .fail f)

def evaluationMended (i : Installation) (o : Outcome) (c : Workspace) : Workspace × Move :=
  match o with
  | .ok _ => attempt i c.forgetModules
  | .error f => (c, .fail f)

def installOne (w : Wanted) (c : Workspace) : Workspace × Move :=
  (c, .call (.oneTried w) (.install w))

def oneTried (w : Wanted) (o : Outcome) (c : Workspace) : Workspace × Move :=
  match o with
  | .ok _ => (c, .done)
  | .error f => (c, .fail (.because (.notInstalled w.kind.word w.name f.message) f))

/-- What installs the modules of one kind. -/
def jobs (n : Needs) (kind : ModuleKind) (names : List String) : List Job :=
  names.map fun name => .installOne (n.wanted kind name)

/-- One round: bundled plugins are registered, and all plugins installed at the same time. -/
def installRound (n : Needs) (round : Nat) (c : Workspace) : Workspace × Move :=
  match c.addBundled n.plugins with
  | (.ok _, c) =>
    (c, .gather (.pluginsInstalled n round) (jobs n .plugin n.plugins))
  | (.error f, c) => (c, .fail f)

def installAll (n : Needs) (c : Workspace) : Workspace × Move :=
  if n.hasMacros then (c, .call (.macrosReady n) (.openStore n.contextId)) else installRound n 0 c

def macrosReady (n : Needs) (o : Outcome) (c : Workspace) : Workspace × Move :=
  match o with
  | .ok _ => installRound n 0 c
  | .error f => (c, .fail f)

def pluginsInstalled (n : Needs) (round : Nat) (o : Outcome) (c : Workspace) : Workspace × Move :=
  match o with
  | .ok _ =>
    (c, .gather (.presetsInstalled n round) (jobs n .preset n.presets))
  | .error f => (c, .fail f)

/-- A recovery in between may have dropped modules that were there already; then the round is
repeated. -/
def presetsInstalled (n : Needs) (round : Nat) (o : Outcome) (c : Workspace) : Workspace × Move :=
  match o with
  | .ok _ =>
    if c.installed .plugin n.plugins && c.installed .preset n.presets then (c, .done)
    else if round < c.settings.maxRecoveries then installRound n (round + 1) c
    else (c, .fail (Fault.recoveryLimit c.settings.maxRecoveries none))
  | .error f => (c, .fail f)

end PluginHost.Work
