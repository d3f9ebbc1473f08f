import PluginHost.Failure
import PluginHost.Module.Registry
import PluginHost.Ordering

/-!
Installed modules. Each module has one slot under its short name; aliases lead every spelling to a
slot. The engine's own modules are there from the start and again after every reset.
-/
namespace PluginHost

/-- The key of a slot or of an alias. -/
abbrev ModuleName := ModuleKind × String

structure Installed where
  value : Value
  canonical : Option String
  /-- Every name that was bound to the module so far. -/
  aliases : List String := []
  builtin : Bool := false

def Installed.named (m : Installed) (name : String) : Installed :=
  if name ∈ m.aliases then m else { m with aliases := m.aliases ++ [name] }

/-- What an inventory holds from the start: the engine's own modules and further names for some of
them. -/
structure Builtins where
  plugins : List (String × Value) := []
  presets : List (String × Value) := []
  remaps : List (String × String) := []

structure Inventory where
  builtins : Builtins
  slots : Table ModuleName Installed
  aliases : Table ModuleName String
  /-- The number of resets so far. -/
  generation : Nat

namespace Inventory

/-- The key of the slot that a name leads to, by its spelling or by its short form. -/
def key? (c : Inventory) (kind : ModuleKind) (name : String) : Option String :=
  (c.aliases.get? (kind, name)).or (c.aliases.get? (kind, PackageName.short kind name))

/-- The module that a name leads to, with the key of its slot. -/
def find? (c : Inventory) (kind : ModuleKind) (name : String) : Option (String × Installed) := do
  let key ← c.key? kind name
  let m ← c.slots.get? (kind, key)
  return (key, m)

def contains (c : Inventory) (kind : ModuleKind) (name : String) : Bool :=
  (c.find? kind name).isSome

/-- The value of a name, null if it is not installed. -/
def value (c : Inventory) (kind : ModuleKind) (name : String) : Value :=
  match c.find? kind name with
  | some (_, m) => m.value
  | none => .null

/-- Makes a name lead to a slot. -/
def bind (c : Inventory) (kind : ModuleKind) (key name : String) : Inventory :=
  { c with
    aliases := c.aliases.insert (kind, name) key
    slots :=
      match c.slots.get? (kind, key) with
      | some m => c.slots.insert (kind, key) (m.named name)
      | none => c.slots }

def bindAll (c : Inventory) (kind : ModuleKind) (key : String) (names : List String) : Inventory :=
  names.foldl (fun c name => c.bind kind key name) c

/-- A canonical name counts if it is not empty. -/
def given (canonical : Option String) : Option String := canonical.filter (· ≠ "")

/-- The key of the slot that a module is installed in. -/
def slotKey (kind : ModuleKind) (name : String) (canonical : Option String) : String :=
  PackageName.short kind ((given canonical).getD name)

/-- Installs a value in the slot of its canonical name. A slot that is taken gets the new value and
keeps its origin. -/
def register (c : Inventory) (kind : ModuleKind) (name : String) (value : Value)
    (canonical : Option String := none) (builtin : Bool := false) : Inventory :=
  let key := slotKey kind name canonical
  let m : Installed :=
    match c.slots.get? (kind, key) with
    | some m => { m with value := value, canonical := (given canonical).or m.canonical }
    | none => { value := value, canonical := canonical, builtin := builtin }
  { c with slots := c.slots.insert (kind, key) m }.bindAll kind key
    ([name, PackageName.short kind name, key] ++ (given canonical).toList)

/-- Makes a further name lead to an installed module. -/
def addAlias (c : Inventory) (kind : ModuleKind) (spelling name : String) :
    Except Fault Inventory :=
  match c.find? kind name with
  | some (key, _) => .ok (c.bind kind key spelling)
  | none => .error (Fault.missingKey s!"No {kind.word} installed as '{name}'")

/-- A further name for a built-in plugin, if the name is free and its target is there. -/
def remap (c : Inventory) (alias_ target : String) : Inventory :=
  if c.contains .plugin alias_ then c
  else
    match c.find? .plugin target with
    | some (key, _) => c.bind .plugin key alias_
    | none => c

def registerBuiltins (c : Inventory) (kind : ModuleKind) (modules : List (String × Value)) :
    Inventory :=
  modules.foldl (fun c m => c.register kind m.1 m.2 none true) c

/-- An inventory of nothing but built-in modules. -/
def seeded (builtins : Builtins) (generation : Nat) : Inventory :=
  let c : Inventory := ⟨builtins, .empty, .empty, generation⟩
  let c := registerBuiltins c .plugin builtins.plugins
  let c := registerBuiltins c .preset builtins.presets
  builtins.remaps.foldl (fun c r => c.remap r.1 r.2) c

/-- Drops every module that is not built in. -/
def reset (c : Inventory) : Inventory := seeded c.builtins (c.generation + 1)

def names (c : Inventory) (kind : ModuleKind) : List String :=
  textsInOrder ((c.aliases.keys.filter (·.1 = kind)).map Prod.snd)

/-- The value of every name of a kind. -/
def available (c : Inventory) (kind : ModuleKind) : Table String Value :=
  Table.ofList <| c.aliases.entries.filterMap fun e =>
    if e.1.1 = kind then (c.slots.get? (kind, e.2)).map fun m => (e.1.2, m.value) else none

def registry (c : Inventory) : Registry := ⟨c.available .plugin, c.available .preset⟩

end Inventory

end PluginHost
