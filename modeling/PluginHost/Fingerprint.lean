import PluginHost.Json.Printer
import PluginHost.Request

/-! Fingerprints of configurations. They do not depend on the order of an object's fields. -/
namespace PluginHost

def fingerprint (parts : List Json) : String := (Json.array parts).canonical

/-- What makes two requests share their installed modules: configuration, engine and options. -/
def CompileRequest.fingerprint (r : CompileRequest) : String :=
  PluginHost.fingerprint [.object r.config.toEngine, .int r.engine, r.optionsJson]

end PluginHost
