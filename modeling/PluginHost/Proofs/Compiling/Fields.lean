import PluginHost.Proofs.Compiling.Configurations
import PluginHost.Proofs.Compiling.Renaming

/-!
Fields of a configuration that the host does not interpret. The engine is handed them as they were
written, in their order and with all that is nested in them, but for the fields that are null: these
are dropped along with the lists that are not set.
-/
namespace PluginHost

namespace EngineConfig

variable {c d : EngineConfig}

/-- The fields that are neither plugins nor presets. -/
def others (c : EngineConfig) : EngineConfig :=
  c.filter fun f => f.1 ≠ "plugins" ∧ f.1 ≠ "presets"

end EngineConfig

namespace TransformConfig

variable {c : TransformConfig} {fs : List (String × Json)}

end TransformConfig

namespace Settings

variable {s : Settings} {r : CompileRequest} {c d : EngineConfig}

end Settings

namespace Work

variable {s : Settings} {r : CompileRequest} {fs : List (String × Json)}

end Work

/-- A request for a configuration. -/
def CompileRequest.configured (config : TransformConfig) : CompileRequest where
  code := "x"
  path := "/a.js"
  config := config

end PluginHost
