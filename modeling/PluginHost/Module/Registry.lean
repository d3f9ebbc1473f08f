import PluginHost.PackageName
import PluginHost.Table
import PluginHost.Value

/-! Registries: every installed name at one moment, as the engine and evaluated code see it. -/
namespace PluginHost

structure Registry where
  plugins : Table String Value
  presets : Table String Value

namespace Registry

def empty : Registry := ⟨.empty, .empty⟩

instance : Inhabited Registry := ⟨empty⟩

def table (r : Registry) : ModuleKind → Table String Value
  | .plugin => r.plugins
  | .preset => r.presets

/-- The value of a name as it stands, or else of its short form. -/
def get? (r : Registry) (kind : ModuleKind) (name : String) : Option Value :=
  ((r.table kind).get? name).or ((r.table kind).get? (PackageName.short kind name))

/-- The value of a name; a name that is not installed has the same value as one installed as
null. -/
def get (r : Registry) (kind : ModuleKind) (name : String) : Value := (r.get? kind name).getD .null

end Registry

end PluginHost
