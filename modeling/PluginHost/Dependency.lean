import PluginHost.EngineConfig

/-!
Dependencies of transformed code, as the detective plugin reports them. Requests that the code
states are direct, requests from generated code are dynamic.
-/
namespace PluginHost

inductive DependencyType where
  | direct
  | dynamic
deriving DecidableEq

def DependencyType.word : DependencyType → String
  | .direct => "direct"
  | .dynamic => "dynamic"

structure Dependency where
  path : String
  type : DependencyType
deriving DecidableEq

namespace Dependency

/-- Records under a type for reported requests, in order of first occurrence. A request that cannot
be compared, or is no text, is refused. -/
def collect (type : DependencyType) (seen : List String) :
    List Json → Except Fault (List Dependency)
  | [] => .ok []
  | v :: vs =>
    match v with
    | .text path =>
      if path ∈ seen then collect type seen vs
      else do return ⟨path, type⟩ :: (← collect type (path :: seen) vs)
    | .array _ | .object _ => .error (.wrongType "request cannot be compared")
    | _ => .error (.rejected ⟨"DependencyRecord", [⟨[.field "path"], .notText⟩]⟩)

def fieldsOf : Json → Except Fault (List (String × Json))
  | .object fields => .ok fields
  | v => .error (.missingAttribute s!"'{v.typeName}' object has no attribute 'get'")

/-- The fields of what was reported; nothing reported counts as no fields. -/
def reported (metadata : Json) : Except Fault (List (String × Json)) := do
  let found := (lookup? "dependencies" (← fieldsOf metadata)).getD .null
  if found.isNothing then return [] else fieldsOf found

def ofMetadata (metadata : Json) : Except Fault (List Dependency) := do
  let found ← reported metadata
  let direct ← collect .direct [] (← ((lookup? "strings" found).getD .null).partsOrNone)
  let dynamic ← collect .dynamic [] (← ((lookup? "dynamic" found).getD .null).partsOrNone)
  return direct ++ dynamic

end Dependency

/-- The dependencies of a result. A modern engine does not report all of its runtime helpers, so
those that are absent are added. -/
def Settings.dependencies (s : Settings) (engine : Int) (metadata : Json) :
    Except Fault (List Dependency) := do
  let found ← Dependency.ofMetadata metadata
  if s.isModern engine then
    let helpers := s.runtimeHelpers.filter fun h => !(found.map (·.path)).contains h
    return found ++ helpers.map fun h => ⟨h, .direct⟩
  else return found

end PluginHost
