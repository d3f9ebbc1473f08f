import PluginHost.CodeFrame
import PluginHost.Job

/-!
Compiling: the configuration of a request is resolved, what it needs is installed, and the engine
transforms the code. A failure of the engine that an absent file explains is mended by fetching the
file and starting over from the installation.
-/
namespace PluginHost.Work

/-- What a compile needs and what it hands to the engine. -/
def prepare (attempt : Nat) (r : CompileRequest) (s : Settings) : Except Fault Compilation := do
  let config ← s.configure r
  let engineConfig ← s.engineConfig r config
  let plugins ← config.pluginNames
  let presets ← config.presetNames
  return ⟨attempt, r, engineConfig, ⟨plugins, presets, r.engine, r.contextId, r.hasMacros⟩, 0⟩

def conclude (attempt : Nat) (o : Outcome) (c : Workspace) : Workspace × Move :=
  ({ c with compiles := c.compiles.finish attempt }, .finish o)

def installNeeds (comp : Compilation) (c : Workspace) : Workspace × Move :=
  (c.enter comp.attempt .installing, .call (.needsInstalled comp) (.installAll comp.needs))

def compile (r : CompileRequest) (c : Workspace) : Workspace × Move :=
  let (attempt, compiles) := c.compiles.start
  let (_, c) := { c with compiles := compiles }.activate r.fingerprint
  match prepare attempt r c.settings with
  | .ok comp => installNeeds comp c
  | .error f => conclude attempt (.error f) c

def needsInstalled (comp : Compilation) (o : Outcome) (c : Workspace) : Workspace × Move :=
  match o with
  | .ok _ =>
    (c.enter comp.attempt .transforming,
      .ask (.transformed comp) (.transform comp.request.code comp.config c.inventory.registry))
  | .error f => conclude comp.attempt (.error f) c

def compiled (comp : Compilation) (t : Transformed) (c : Workspace) : Outcome :=
  match c.settings.dependencies comp.request.engine t.metadata with
  | .ok ds => .ok (.compiled ⟨t.code, ds⟩)
  | .error f => .error f

/-- The engine's verdict on the source, with its path in place of an unknown one. Engines before the
modern ones leave it to the host to show the source. -/
def verdict (comp : Compilation) (f : Failure) (s : Settings) : Failure :=
  let text := Text.replaceFirst f.message "unknown" comp.request.path
  let shown :=
    if s.isModern comp.request.engine then text else CodeFrame.annotate text comp.request.code
  .because (.transform shown (some comp.request.path)) f

def mendEngine (comp : Compilation) (f : Failure) (c : Workspace) : Workspace × Move :=
  if c.isNotReady f then (c, .call (.storeOpened comp) (.openStore comp.request.contextId))
  else if f.isMissingArtifact then
    if c.settings.maxRecoveries ≤ comp.recoveries then
      conclude comp.attempt
        (.error (.because (.recoveryLimit comp.recoveries (some f.message)) f)) c
    else
      (c, .call (.engineMended { comp with recoveries := comp.recoveries + 1 })
        (.recover f comp.request.contextId))
  else conclude comp.attempt (.error (verdict comp f c.settings)) c

def transformed (comp : Compilation) (o : Outcome) (c : Workspace) : Workspace × Move :=
  match o with
  | .ok (.transformed t) => conclude comp.attempt (compiled comp t c) c
  | .ok _ => (c, .unexpected)
  | .error f => mendEngine comp f (c.enter comp.attempt .recovering)

def storeOpened (comp : Compilation) (o : Outcome) (c : Workspace) : Workspace × Move :=
  match o with
  | .ok _ => installNeeds comp c
  | .error f => conclude comp.attempt (.error f) c

def engineMended (comp : Compilation) (o : Outcome) (c : Workspace) : Workspace × Move :=
  match o with
  | .ok _ => installNeeds comp c.forgetModules
  | .error f => conclude comp.attempt (.error f) c

def compilePayload (payload : Json) (c : Workspace) : Workspace × Move :=
  match CompileRequest.ofJson payload with
  | .ok r => (c, .call .passOn (.compile r))
  | .error why => (c, .fail (Fault.rejected why))

/-- Failures that the host reports, and rejected requests, are answers; all others are passed on. -/
def compileHandled (o : Outcome) (c : Workspace) : Workspace × Move :=
  match o with
  | .ok (.compiled r) => (c, .finish (.ok (.handled (.compiled r))))
  | .ok _ => (c, .unexpected)
  | .error f =>
    if f.fault.isReported || f.fault.isRejection then
      (c, .finish (.ok (.handled (.failed f.fault))))
    else (c, .fail f)

/-- A trivial request that installs the common preset. -/
def warmupRequest (s : Settings) : CompileRequest where
  code := "const a = \"b\";"
  path := "test.js"
  config := { presets := some [.text "env"] }
  engine := s.modernMajor

def warmup (c : Workspace) : Workspace × Move :=
  (c, .call .warm (.compile (warmupRequest c.settings)))

def warm (o : Outcome) (c : Workspace) : Workspace × Move :=
  match o with
  | .ok _ => (c, .finish (.ok (.flag true)))
  | .error f => if f.fault.isReported then (c, .finish (.ok (.flag false))) else (c, .fail f)

end PluginHost.Work
