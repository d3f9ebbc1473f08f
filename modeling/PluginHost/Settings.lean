import PluginHost.Validation

/-!
Settings of a host: which built-in plugins it adds, which sources count as external libraries, and
how often a call may fetch and retry.
-/
namespace PluginHost

structure Settings where
  packagesRoot : String
  externalPattern : String
  externalModern : List (String × Json)
  externalLegacy : List (String × Json)
  renameImport : String
  detective : String
  detectiveOptions : List (String × Json)
  loopGuard : String
  cssModules : String
  runtimeHelpers : List String
  modernMajor : Int
  maxRecoveries : Nat
  /-- Plugins that come with the host, by name, as `module:attribute`. -/
  bundled : List (String × String)
  /-- Further names of built-in plugins, each with the name that it stands for. -/
  remaps : List (String × String)
  cdnUrl : String
  fetchTimeout : Float

namespace Settings

def texts (ss : List String) : Json := .array (ss.map .text)

def textFields (fs : List (String × String)) : Json := .object (fs.map fun f => (f.1, .text f.2))

def default : Settings where
  packagesRoot := "/node_modules"
  externalPattern := "^/node_modules/.*\\.js$"
  externalModern :=
    [("parserOpts", .object [("plugins", texts ["dynamicImport", "objectRestSpread"])]),
     ("presets", texts ["env", "react"]),
     ("plugins", texts
       ["transform-modules-commonjs", "proposal-class-properties",
        "@babel/plugin-transform-runtime"])]
  externalLegacy :=
    [("presets", texts ["es2015", "react", "stage-0"]),
     ("plugins", .array
       [.text "transform-es2015-modules-commonjs",
        .text "transform-class-properties",
        .array [.text "transform-runtime",
          .object
            [("helpers", .bool false), ("polyfill", .bool false), ("regenerator", .bool true)]],
        .array [.text "transform-regenerator", .object [("async", .bool false)]]])]
  renameImport := "babel-plugin-csb-rename-import"
  detective := "babel-plugin-detective"
  detectiveOptions := [("source", .bool true), ("nodes", .bool true), ("generated", .bool true)]
  loopGuard := "babel-plugin-transform-prevent-infinite-loops"
  cssModules := "dynamic-css-modules"
  runtimeHelpers :=
    ["@babel/runtime/helpers/interopRequireDefault",
     "@babel/runtime/helpers/interopRequireWildcard"]
  modernMajor := 7
  maxRecoveries := 10
  bundled := []
  remaps := [("syntax-dynamic-import", "proposal-dynamic-import")]
  cdnUrl := "https://unpkg.com"
  fetchTimeout := 60.0

open Validation in
/-- Settings from an object that gives some of them. Unknown names are ignored. -/
def ofFields (fs : List (String × Json)) : Checked Settings :=
  mk <$> optional fs ["packages_root"] default.packagesRoot text
    <*> optional fs ["external_library_pattern"] default.externalPattern text
    <*> optional fs ["external_config_modern"] default.externalModern object
    <*> optional fs ["external_config_legacy"] default.externalLegacy object
    <*> optional fs ["rename_import_plugin"] default.renameImport text
    <*> optional fs ["detective_plugin"] default.detective text
    <*> optional fs ["detective_options"] default.detectiveOptions object
    <*> optional fs ["loop_guard_plugin"] default.loopGuard text
    <*> optional fs ["dynamic_css_modules_plugin"] default.cssModules text
    <*> optional fs ["runtime_helpers"] default.runtimeHelpers (arrayOf text)
    <*> optional fs ["modern_engine_major"] default.modernMajor integer
    <*> optional fs ["max_recovery_attempts"] default.maxRecoveries
      (fun v => Int.toNat <$> atLeast 1 (integer v))
    <*> optional fs ["bundled_plugins"] default.bundled (objectOf text)
    <*> optional fs ["plugin_remaps"] default.remaps (objectOf text)
    <*> optional fs ["cdn_url"] default.cdnUrl text
    <*> optional fs ["fetch_timeout"] default.fetchTimeout number

def ofJson (v : Json) : Except Rejection Settings :=
  Checked.toExcept "WorkerSettings" <|
    match Validation.model v with
    | .fits fs => ofFields fs
    | .misfits cs => .misfits cs

def toJson (s : Settings) : Json :=
  .object
    [("packages_root", .text s.packagesRoot),
     ("external_library_pattern", .text s.externalPattern),
     ("external_config_modern", .object s.externalModern),
     ("external_config_legacy", .object s.externalLegacy),
     ("rename_import_plugin", .text s.renameImport),
     ("detective_plugin", .text s.detective),
     ("detective_options", .object s.detectiveOptions),
     ("loop_guard_plugin", .text s.loopGuard),
     ("dynamic_css_modules_plugin", .text s.cssModules),
     ("runtime_helpers", texts s.runtimeHelpers),
     ("modern_engine_major", .int s.modernMajor),
     ("max_recovery_attempts", .int s.maxRecoveries),
     ("bundled_plugins", textFields s.bundled),
     ("plugin_remaps", textFields s.remaps),
     ("cdn_url", .text s.cdnUrl),
     ("fetch_timeout", .float s.fetchTimeout)]

def isModern (s : Settings) (engine : Int) : Bool := decide (s.modernMajor ≤ engine)

end Settings

end PluginHost
