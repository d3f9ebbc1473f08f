import PluginHost.Text.Search

/-!
Names of plugin and preset packages. A configuration names them briefly; they are distributed under
prefixed names whose form depends on the generation of the engine.
-/
namespace PluginHost

inductive ModuleKind where
  | plugin
  | preset
deriving DecidableEq

def ModuleKind.word : ModuleKind → String
  | .plugin => "plugin"
  | .preset => "preset"

namespace PackageName

/-- The package that a module request belongs to: one component, or two for a scoped name. -/
def ofRequest (name : String) : String :=
  match Text.split name '/' with
  | scope :: rest :: _ => if Text.startsWith name "@" then scope ++ "/" ++ rest else scope
  | [only] => only
  | [] => name

/-- Generations from the first modern one on distribute under the engine's own scope. -/
def isModern (engine modern : Int) : Bool := decide (modern ≤ engine)

def carries (name start : String) : Bool := name = start || Text.startsWith name (start ++ "-")

/-- The conventional name of a package; a name that has the convention's form comes back
unchanged. -/
def prefixed (name : String) (kind : ModuleKind) (modern : Bool) : String :=
  let start := "babel-" ++ kind.word
  match Text.cut? ['/'] name.toList with
  | some (scope, rest) =>
    if !Text.startsWith name "@" then
      unscoped start
    else
      let scope := String.ofList scope
      let rest := String.ofList rest
      if rest = "" then scope ++ "/" ++ start
      else if scope = "@babel" && modern then
        if Text.startsWith rest (kind.word ++ "-") then name
        else "@babel/" ++ kind.word ++ "-" ++ rest
      else if carries rest start then name
      else scope ++ "/" ++ start ++ "-" ++ rest
  | none =>
    if Text.startsWith name "@" then name ++ "/" ++ start else unscoped start
where
  unscoped (start : String) : String :=
    if carries name start then name
    else if modern then "@babel/" ++ kind.word ++ "-" ++ name
    else start ++ "-" ++ name

/-- The starts of a distribution name that say no more than its kind. -/
def starts (kind : ModuleKind) : List String :=
  ["@babel/" ++ kind.word ++ "-", "babel-" ++ kind.word ++ "-", "@babel/"]

/-- The short form that all distribution spellings of a module share. -/
def short (kind : ModuleKind) (name : String) : String :=
  ((starts kind).findSome? (Text.after? name)).getD name

end PackageName

end PluginHost
