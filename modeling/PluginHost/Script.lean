import PluginHost.PackageName

/-!
Scripts: the statements of a module file, one to a line. A script binds names, requires other
modules and may raise a failure.
-/
namespace PluginHost

namespace Script

inductive Expr where
  | null
  | bool (b : Bool)
  | int (i : Int)
  | text (s : String)
  | list (items : List Expr)
  | dict (entries : List (String × Expr))
  | name (n : String)
  /-- The entry of a dictionary. -/
  | item (e : Expr) (key : String)
  /-- A binding of a module. -/
  | member (e : Expr) (name : String)
  /-- The export of another module. -/
  | require (request : Expr)
  /-- What is installed under a name, null if nothing is. -/
  | installed (kind : ModuleKind) (name : String)

inductive Statement where
  | bind (name : String) (e : Expr)
  | run (e : Expr)
  | raiseValue (text : String)
  | raiseRuntime (text : String)

end Script

abbrev Script := List Script.Statement

end PluginHost
