import PluginHost.Table

/-! JSON values. The fields of an object stand in order of arrival and their names are distinct. -/
namespace PluginHost

inductive Json where
  | null
  | bool (b : Bool)
  | int (i : Int)
  | float (x : Float)
  | text (s : String)
  | array (items : List Json)
  | object (fields : List (String × Json))

namespace Json

instance : Inhabited Json := ⟨.null⟩

/-- Null, false, zero and whatever is empty count as nothing. -/
def isNothing : Json → Bool
  | .null => true
  | .bool b => !b
  | .int i => i == 0
  | .float x => x == 0.0
  | .text s => s == ""
  | .array items => items.isEmpty
  | .object fields => fields.isEmpty

def isNull : Json → Bool
  | .null => true
  | _ => false

/-- What failures call the type of a value. -/
def typeName : Json → String
  | .null => "NoneType"
  | .bool _ => "bool"
  | .int _ => "int"
  | .float _ => "float"
  | .text _ => "str"
  | .array _ => "list"
  | .object _ => "dict"

def text? : Json → Option String
  | .text s => some s
  | _ => none

/-- The value of a field; anything but an object has none. -/
def field? (name : String) : Json → Option Json
  | .object fields => lookup? name fields
  | _ => none

/-- The fields written over those of an object, one after the other. -/
def ofFields (fields : List (String × Json)) : Json :=
  .object (fields.foldl (fun fs f => putEntry f.1 f.2 fs) [])

def ofOption (v : Option String) : Json :=
  match v with
  | some s => .text s
  | none => .null

end Json

end PluginHost
