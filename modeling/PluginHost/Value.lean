import PluginHost.Json

/-! Values that evaluated modules bind and export. -/
namespace PluginHost

/-- A module: an evaluated file, by its place in the order of evaluations, or one that comes with
the host. -/
inductive ModuleRef where
  | file (index : Nat)
  | host (name : String)
deriving DecidableEq

inductive Value where
  | null
  | bool (b : Bool)
  | int (i : Int)
  | float (x : Float)
  | text (s : String)
  | list (items : List Value)
  | dict (entries : List (String × Value))
  | module (m : ModuleRef)

namespace Value

instance : Inhabited Value := ⟨.null⟩

/-- Null, false, zero and whatever is empty count as nothing. -/
def isNothing : Value → Bool
  | .null => true
  | .bool b => !b
  | .int i => i == 0
  | .float x => x == 0.0
  | .text s => s == ""
  | .list items => items.isEmpty
  | .dict entries => entries.isEmpty
  | .module _ => false

def isNull : Value → Bool
  | .null => true
  | _ => false

def typeName : Value → String
  | .null => "NoneType"
  | .bool _ => "bool"
  | .int _ => "int"
  | .float _ => "float"
  | .text _ => "str"
  | .list _ => "list"
  | .dict _ => "dict"
  | .module _ => "module"

mutual

def ofJson : Json → Value
  | .null => .null
  | .bool b => .bool b
  | .int i => .int i
  | .float x => .float x
  | .text s => .text s
  | .array items => .list (ofItems items)
  | .object fields => .dict (ofFields fields)

def ofItems : List Json → List Value
  | [] => []
  | v :: vs => ofJson v :: ofItems vs

def ofFields : List (String × Json) → List (String × Value)
  | [] => []
  | (name, v) :: fs => (name, ofJson v) :: ofFields fs

end

mutual

/-- A value as JSON, where modules are written as `describe` says. -/
def toJson (describe : ModuleRef → Json) : Value → Json
  | .null => .null
  | .bool b => .bool b
  | .int i => .int i
  | .float x => .float x
  | .text s => .text s
  | .list items => .array (toItems describe items)
  | .dict entries => .object (toFields describe entries)
  | .module m => describe m

def toItems (describe : ModuleRef → Json) : List Value → List Json
  | [] => []
  | v :: vs => toJson describe v :: toItems describe vs

def toFields (describe : ModuleRef → Json) : List (String × Value) → List (String × Json)
  | [] => []
  | (name, v) :: es => (name, toJson describe v) :: toFields describe es

end

end Value

end PluginHost
