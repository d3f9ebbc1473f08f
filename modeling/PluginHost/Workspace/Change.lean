import PluginHost.Workspace

/-! What a caller can do to a workspace between the turns of its tasks. -/
namespace PluginHost

inductive Change where
  | write (path : String) (c : Content)
  | place (path : String) (c : Content)
  | resetStore
  | forgetModules
  | reset (includeStore : Bool)
  | activate (fingerprint : String)
  | evaluate (path : String)
  | resetSandbox
  | register (kind : ModuleKind) (name : String) (v : Value) (canonical : Option String)
      (builtin : Bool)
  | addAlias (kind : ModuleKind) (spelling name : String)
  | resetCache

namespace Workspace

/-- A workspace after a change. A further name for a module that is not installed changes
nothing. -/
def after (c : Workspace) : Change → Workspace
  | .write path content => { c with store := c.store.write path content }
  | .place path content => { c with store := c.store.place path content }
  | .resetStore => { c with store := c.store.reset }
  | .forgetModules => c.forgetModules
  | .reset includeStore => c.reset includeStore
  | .activate fingerprint => (c.activate fingerprint).2
  | .evaluate path => (c.evaluate path).2
  | .resetSandbox => { c with evaluator := c.evaluator.reset }
  | .register kind name v canonical builtin => c.register kind name v canonical builtin
  | .addAlias kind spelling name =>
    { c with inventory := ((c.inventory.addAlias kind spelling name).toOption).getD c.inventory }
  | .resetCache => { c with inventory := c.inventory.reset }

end Workspace

end PluginHost
