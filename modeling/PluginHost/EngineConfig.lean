import PluginHost.Failure
import PluginHost.Pattern
import PluginHost.Request
import PluginHost.Settings

/-!
The configuration that a request is compiled with: the author's own, or a conservative one for
external libraries, with the host's plugins around it.
-/
namespace PluginHost

abbrev EngineConfig := List (String × Json)

namespace Json

/-- The parts of a value, one after the other: items, characters or field names. -/
def parts (v : Json) : Except Fault (List Json) :=
  match v with
  | .array items => .ok items
  | .text s => .ok (s.toList.map fun c => .text (String.singleton c))
  | .object fields => .ok (fields.map fun f => .text f.1)
  | _ => .error (.wrongType "value has no parts")

/-- The parts of a value, none if it counts as nothing. -/
def partsOrNone (v : Json) : Except Fault (List Json) :=
  if v.isNothing then .ok [] else v.parts

end Json

namespace Entries

/-- The name of a plugin or preset entry: the entry itself or the first item of a list. -/
def name? : Json → Option String
  | .text s => some s
  | .array (.text s :: _) => some s
  | _ => none

def names (entries : Json) : Except Fault (List String) := do
  return (← entries.partsOrNone).filterMap name?

/-- An entry with the first occurrence of a text taken out of its name. -/
def shorten (text : String) : Json → Json
  | .text s => .text (Text.replaceFirst s text "")
  | .array (.text s :: rest) => .array (.text (Text.replaceFirst s text "") :: rest)
  | v => v

end Entries

namespace EngineConfig

def get (c : EngineConfig) (name : String) : Json := (lookup? name c).getD .null

def set (c : EngineConfig) (name : String) (v : Json) : EngineConfig := putEntry name v c

def shortened (c : EngineConfig) (name text : String) : Except Fault Json := do
  return .array ((← (c.get name).partsOrNone).map (Entries.shorten text))

/-- A modern engine knows its plugins and presets by their short names. -/
def forModern (c : EngineConfig) : Except Fault EngineConfig := do
  let plugins ← c.shortened "plugins" "@babel/plugin-"
  let presets ← c.shortened "presets" "@babel/preset-"
  return (c.set "plugins" plugins).set "presets" presets

def pluginNames (c : EngineConfig) : Except Fault (List String) := Entries.names (c.get "plugins")

def presetNames (c : EngineConfig) : Except Fault (List String) := Entries.names (c.get "presets")

end EngineConfig

namespace Settings

/-- The host's plugins at the end of every configuration. -/
def capabilities (s : Settings) (o : LoaderOptions) : List Json :=
  (if !o.disableBuiltin && o.cssModules then [.text s.cssModules] else [])
    ++ (if !o.disableBuiltin && o.loopGuard then [.text s.loopGuard] else [])
    ++ [.array [.text s.detective, .object s.detectiveOptions]]

def isExternal (s : Settings) (r : CompileRequest) : Bool :=
  r.loader.externalConfig && (Pattern.ofString s.externalPattern).occursIn r.path

def externalConfig (s : Settings) (engine : Int) : EngineConfig :=
  if s.isModern engine then s.externalModern else s.externalLegacy

/-- The configuration of a request. The plugin that renames imports comes first where there are
plugins besides the host's. -/
def configure (s : Settings) (r : CompileRequest) : Except Fault EngineConfig :=
  let added := s.capabilities r.loader
  if s.isExternal r then do
    let base := s.externalConfig r.engine
    let own ← ((lookup? "plugins" base).getD (.array [])).parts
    return base.set "plugins" (.array (.text s.renameImport :: own ++ added))
  else
    let config : EngineConfig := r.config.toEngine
    match r.config.plugins with
    | some own => .ok (config.set "plugins" (.array (.text s.renameImport :: own ++ added)))
    | none => .ok (config.set "plugins" (.array added))

/-- The configuration in the engine's own names. -/
def engineConfig (s : Settings) (r : CompileRequest) (c : EngineConfig) :
    Except Fault EngineConfig :=
  if s.isModern r.engine then c.forModern else .ok c

end Settings

end PluginHost
