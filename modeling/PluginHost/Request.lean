import PluginHost.Validation

/-!
Compile requests. A request is read from an object whose names may be spelled with inner capitals or
with underscores; where both are given, the capitals win.
-/
namespace PluginHost

/-- A configuration as its author wrote it. Only plugins and presets are interpreted. -/
structure TransformConfig where
  plugins : Option (List Json) := none
  presets : Option (List Json) := none
  others : List (String × Json) := []

namespace TransformConfig

open Validation in
/-- A bare name or a list that starts with one. -/
def entry (v : Json) : Checked Json :=
  match v with
  | .text _ | .array _ => .fits v
  | _ => .misfits [⟨[.field "str"], .notText⟩, ⟨[.field "list[any]"], .notArray⟩]

open Validation in
def check (v : Json) : Checked TransformConfig :=
  match model v with
  | .misfits cs => .misfits cs
  | .fits fs =>
    (fun plugins presets =>
      { plugins := plugins
        presets := presets
        others := fs.filter fun f => f.1 ≠ "plugins" ∧ f.1 ≠ "presets" })
      <$> optional fs ["plugins"] none (orNull (arrayOf entry))
      <*> optional fs ["presets"] none (orNull (arrayOf entry))

def ofJson (v : Json) : Except Rejection TransformConfig := (check v).toExcept "TransformConfig"

def listField (name : String) (entries : Option (List Json)) : List (String × Json) :=
  match entries with
  | some es => [(name, .array es)]
  | none => []

/-- What the engine is given: every field that is set. -/
def toEngine (c : TransformConfig) : List (String × Json) :=
  listField "plugins" c.plugins ++ listField "presets" c.presets
    ++ c.others.filter fun f => !f.2.isNull

def orNull (entries : Option (List Json)) : Json :=
  match entries with
  | some es => .array es
  | none => .null

def toJson (c : TransformConfig) : Json :=
  .object (("plugins", orNull c.plugins) :: ("presets", orNull c.presets) :: c.others)

end TransformConfig

/-- Switches for the plugins that a host adds to every configuration. -/
structure LoaderOptions where
  disableBuiltin : Bool := false
  cssModules : Bool := false
  loopGuard : Bool := true
  /-- Compile external libraries with a configuration of their own. -/
  externalConfig : Bool := false

namespace LoaderOptions

open Validation in
def check (v : Json) : Checked LoaderOptions :=
  match model v with
  | .misfits cs => .misfits cs
  | .fits fs =>
    mk <$> optional fs ["disableBuiltinPlugins", "disable_builtin_plugins"] false boolean
      <*> optional fs ["dynamicCSSModules", "dynamic_css_modules"] false boolean
      <*> optional fs ["infiniteLoopProtection", "infinite_loop_protection"] true boolean
      <*> optional fs ["compileNodeModulesWithEnv", "compile_node_modules_with_env"] false boolean

def toJson (o : LoaderOptions) : Json :=
  .object
    [("disable_builtin_plugins", .bool o.disableBuiltin),
     ("dynamic_css_modules", .bool o.cssModules),
     ("infinite_loop_protection", .bool o.loopGuard),
     ("compile_node_modules_with_env", .bool o.externalConfig)]

end LoaderOptions

structure CompileRequest where
  code : String
  path : String
  config : TransformConfig := {}
  engine : Int := 7
  contextId : Json := .null
  loader : LoaderOptions := {}
  options : Option (List (String × Json)) := none
  hasMacros : Bool := false

namespace CompileRequest

open Validation in
def check (v : Json) : Checked CompileRequest :=
  match model v with
  | .misfits cs => .misfits cs
  | .fits fs =>
    mk <$> required fs "sourceCode" ["source_code"] text
      <*> required fs "sourcePath" ["source_path"] text
      <*> optional fs ["config"] {} TransformConfig.check
      <*> optional fs ["engineVersion", "engine_version"] 7 integer
      <*> optional fs ["contextId", "context_id"] .null .fits
      <*> optional fs ["loaderOptions", "loader_options"] {} LoaderOptions.check
      <*> optional fs ["transpilerOptions", "transpiler_options"] none (Validation.orNull object)
      <*> optional fs ["hasMacros", "has_macros"] false boolean

def ofJson (v : Json) : Except Rejection CompileRequest := (check v).toExcept "CompileRequest"

def optionsJson (r : CompileRequest) : Json :=
  match r.options with
  | some fields => .object fields
  | none => .null

def toJson (r : CompileRequest) : Json :=
  .object
    [("source_code", .text r.code),
     ("source_path", .text r.path),
     ("config", r.config.toJson),
     ("engine_version", .int r.engine),
     ("context_id", r.contextId),
     ("loader_options", r.loader.toJson),
     ("transpiler_options", r.optionsJson),
     ("has_macros", .bool r.hasMacros)]

end CompileRequest

end PluginHost
