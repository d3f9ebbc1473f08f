import PluginHost.Module.Evaluator
import PluginHost.Proofs.Module.Builtins

/-!
Inventories that have the same under every name, whatever the order of their entries. They find the
same modules, and evaluated code cannot tell them apart.
-/
namespace PluginHost

/-- A module with further names. -/
def Installed.namedAll (m : Installed) (names : List String) : Installed :=
  names.foldl Installed.named m

namespace Inventory

variable {c d e : Inventory} {kind : ModuleKind} {name n s t : String} {v w : Value}
  {canonical : Option String} {builtin : Bool}

/-- Both inventories have the same under every name. -/
structure Alike (c d : Inventory) : Prop where
  builtins : d.builtins = c.builtins
  generation : d.generation = c.generation
  aliases : ∀ k, d.aliases.get? k = c.aliases.get? k
  slots : ∀ k, d.slots.get? k = c.slots.get? k

theorem slots_bind (c : Inventory) (kind : ModuleKind) (key name : String) (slot : ModuleName) :
    (c.bind kind key name).slots.get? slot =
      if (kind, key) = slot then (c.slots.get? slot).map (·.named name)
      else c.slots.get? slot := by
  unfold bind
  dsimp only
  split
  · rename_i m hm
    rw [Table.get?_insert]
    split
    · rename_i h
      rw [← h, hm]
      rfl
    · rfl
  · rename_i hn
    split
    · rename_i h
      rw [← h, hn]
      rfl
    · rfl

theorem slots_bindAll (c : Inventory) (kind : ModuleKind) (key : String) (names : List String)
    (slot : ModuleName) :
    (c.bindAll kind key names).slots.get? slot =
      if (kind, key) = slot then (c.slots.get? slot).map (·.namedAll names)
      else c.slots.get? slot := by
  induction names generalizing c with
  | nil => simp [bindAll, Installed.namedAll]
  | cons name names ih =>
    rw [bindAll_cons, ih, slots_bind]
    split
    · rw [Option.map_map]
      rfl
    · rfl

/-- What a registration makes of the module that its slot had. -/
def renewed (kind : ModuleKind) (name : String) (v : Value) (canonical : Option String)
    (builtin : Bool) (before : Option Installed) : Installed :=
  Installed.namedAll
    (match before with
    | some m => { m with value := v, canonical := (given canonical).or m.canonical }
    | none => { value := v, canonical := canonical, builtin := builtin })
    (bound kind name canonical)

theorem slots_register (c : Inventory) (kind : ModuleKind) (name : String) (v : Value)
    (canonical : Option String) (builtin : Bool) (slot : ModuleName) :
    (c.register kind name v canonical builtin).slots.get? slot =
      if (kind, slotKey kind name canonical) = slot then
        some (renewed kind name v canonical builtin (c.slots.get? slot))
      else c.slots.get? slot := by
  unfold register
  rw [slots_bindAll, Table.get?_insert]
  split
  · rename_i h
    rw [← h]
    rfl
  · rfl

namespace Alike

theorem refl (c : Inventory) : c.Alike c := ⟨rfl, rfl, fun _ => rfl, fun _ => rfl⟩

theorem trans (hc : c.Alike d) (hd : d.Alike e) : c.Alike e where
  builtins := hd.builtins.trans hc.builtins
  generation := hd.generation.trans hc.generation
  aliases k := (hd.aliases k).trans (hc.aliases k)
  slots k := (hd.slots k).trans (hc.slots k)

theorem key? (hc : c.Alike d) (kind : ModuleKind) (name : String) :
    d.key? kind name = c.key? kind name := by
  unfold Inventory.key?
  rw [hc.aliases, hc.aliases]

theorem find? (hc : c.Alike d) (kind : ModuleKind) (name : String) :
    d.find? kind name = c.find? kind name := by
  unfold Inventory.find?
  simp only [hc.key?, hc.slots]

theorem contains (hc : c.Alike d) (kind : ModuleKind) (name : String) :
    d.contains kind name = c.contains kind name := by
  rw [Inventory.contains, hc.find?, Inventory.contains]

theorem registry (hc : c.Alike d) (kind : ModuleKind) (name : String) :
    d.registry.get? kind name = c.registry.get? kind name := by
  have available (n : String) : (d.available kind).get? n = (c.available kind).get? n := by
    simp only [get?_available, slotValue, hc.aliases, hc.slots]
  unfold Registry.get?
  rw [table_registry, table_registry, available, available]

theorem bind (hc : c.Alike d) (kind : ModuleKind) (key name : String) :
    (c.bind kind key name).Alike (d.bind kind key name) where
  builtins := hc.builtins
  generation := hc.generation
  aliases k := by simp [Inventory.bind, hc.aliases]
  slots k := by rw [slots_bind, slots_bind, hc.slots]

theorem register (hc : c.Alike d) (kind : ModuleKind) (name : String) (v : Value)
    (canonical : Option String) (builtin : Bool) :
    (c.register kind name v canonical builtin).Alike
      (d.register kind name v canonical builtin) where
  builtins := by simp [hc.builtins]
  generation := by simp [hc.generation]
  aliases k := by rw [aliases_register, aliases_register, hc.aliases]
  slots k := by rw [slots_register, slots_register, hc.slots]

theorem reset (hc : c.Alike d) : d.reset = c.reset := by
  rw [Inventory.reset, hc.builtins, hc.generation, Inventory.reset]

end Alike

/-- Names with different short forms, neither of which is the other name. -/
def Distant (kind : ModuleKind) (s t : String) : Prop :=
  PackageName.short kind s ≠ PackageName.short kind t ∧ s ≠ PackageName.short kind t ∧
    t ≠ PackageName.short kind s

theorem Distant.symm (hs : Distant kind s t) : Distant kind t s :=
  ⟨hs.1.symm, hs.2.2, hs.2.1⟩

theorem mem_bound_none : t ∈ bound kind s none ↔ t = s ∨ t = PackageName.short kind s := by
  simp [bound, slotKey, given]

theorem Distant.not_mem_bound (hs : Distant kind s t)
    (hn : n = t ∨ n = PackageName.short kind t) : n ∉ bound kind s none := by
  obtain ⟨short, left, right⟩ := hs
  rw [mem_bound_none]
  obtain rfl | rfl := hn
  · rintro (rfl | h)
    · exact short rfl
    · exact right h
  · rintro (h | h)
    · exact left h.symm
    · exact short h.symm

/-- Modules with distant names may be registered in either order. -/
theorem Distant.register_comm (hs : Distant kind s t) (c : Inventory) (v w : Value) :
    ((c.register kind s v none builtin).register kind t w none builtin).Alike
      ((c.register kind t w none builtin).register kind s v none builtin) where
  builtins := by simp
  generation := by simp
  aliases k := by
    obtain ⟨_, n⟩ := k
    have apart : n ∈ bound kind t none → n ∉ bound kind s none := fun hn =>
      hs.not_mem_bound (mem_bound_none.1 hn)
    simp only [aliases_register]
    grind
  slots k := by
    have apart : slotKey kind s none ≠ slotKey kind t none := hs.1
    simp only [slots_register]
    grind

/-- Whether a name is installed does not depend on a module with a distant name. -/
theorem Distant.contains_register (hs : Distant kind s t) (hc : c.Sound) :
    (c.register kind s v none builtin).contains kind t = c.contains kind t := by
  have own := hs.not_mem_bound (.inl rfl)
  have short := hs.not_mem_bound (.inr rfl)
  have key : (c.register kind s v none builtin).key? kind t = c.key? kind t := by
    unfold key?
    rw [aliases_register, if_neg (own ·.2), aliases_register, if_neg (short ·.2)]
  rw [contains_eq, contains_eq, key]
  cases hk : c.key? kind t with
  | none => rfl
  | some key =>
    have slot : (c.slotValue (kind, key)).isSome = true := by
      obtain h | ⟨-, h⟩ := Option.or_eq_some_iff.1 hk <;> exact hc.slot h
    rw [Option.bind_some, Option.bind_some, slotValue_register]
    split
    · exact slot.symm
    · rfl

end Inventory

namespace Evaluator

/-- Both let evaluated code reach the same. -/
structure Reach.Alike (reach other : Reach) : Prop where
  finder : other.finder = reach.finder
  files : ∀ path, other.store.read? path = reach.store.read? path
  size : other.store.size = reach.store.size
  registry : ∀ kind name, other.registry.get? kind name = reach.registry.get? kind name
  host : other.host = reach.host

/-- What is at hand when code reaches something else. -/
def Scope.within (scope : Scope) (other : Reach) : Scope := { scope with reach := other }

variable {reach other : Reach} {scope : Scope}

theorem memberOf_within (hr : scope.reach.Alike other) (v : Value) (name : String) :
    (scope.within other).memberOf v name = scope.memberOf v name := by
  unfold Scope.memberOf
  rw [show (scope.within other).reach.host = scope.reach.host from hr.host]

mutual

theorem value_within (hr : scope.reach.Alike other) :
    ∀ e, (scope.within other).value e = scope.value e
  | .null | .bool _ | .int _ | .text _ => by simp only [Scope.value]
  | .name _ => by
    rw [Scope.value, Scope.value]
    rfl
  | .list es => by rw [Scope.value, Scope.value, values_within hr es]
  | .dict es => by rw [Scope.value, Scope.value, entries_within hr [] es]
  | .item e key => by rw [Scope.value, Scope.value, value_within hr e]
  | .member e name => by
    rw [Scope.value, Scope.value, value_within hr e]
    simp only [memberOf_within hr]
  | .require e => by
    rw [Scope.value, Scope.value, value_within hr e]
    rfl
  | .installed kind name => by
    have same : other.registry.get kind name = scope.reach.registry.get kind name := by
      rw [Registry.get, hr.registry, Registry.get]
    rw [Scope.value, Scope.value, ← same]
    rfl

theorem values_within (hr : scope.reach.Alike other) :
    ∀ es, (scope.within other).values es = scope.values es
  | [] => by rw [Scope.values, Scope.values]
  | e :: es => by rw [Scope.values, Scope.values, value_within hr e, values_within hr es]

theorem entries_within (hr : scope.reach.Alike other) :
    ∀ done es, (scope.within other).entries done es = scope.entries done es
  | _, [] => by rw [Scope.entries, Scope.entries]
  | done, (key, e) :: es => by
    rw [Scope.entries, Scope.entries, value_within hr e]
    exact congrArg _ (funext fun v => entries_within hr (putEntry key v done) es)

end

theorem statement_within (hr : scope.reach.Alike other) (st : Script.Statement) :
    (scope.within other).statement st = scope.statement st := by
  cases st with
  | bind name e =>
    rw [Scope.statement, Scope.statement, value_within hr e]
    rfl
  | run e => rw [Scope.statement, Scope.statement, value_within hr e]
  | _ => rfl

theorem script_within (hr : scope.reach.Alike other) (sts : Script) :
    (scope.within other).script sts = scope.script sts := by
  induction sts with
  | nil => rfl
  | cons st sts ih => rw [Scope.script, Scope.script, statement_within hr st, ih]

theorem fill_within (hr : scope.reach.Alike other) (file : ModuleFile) :
    fill (scope.within other) file = fill scope file := by
  unfold fill
  simp only [script_within hr]
  rfl

namespace Reach.Alike

theorem resolve (hr : reach.Alike other) (q : ModuleRequest) :
    other.finder.resolve other.store q = reach.finder.resolve reach.store q := by
  have file (path : String) :
      reach.finder.file? other.store path = reach.finder.file? reach.store path := by
    simp only [Finder.file?, hr.files]
  have entry (path : String) :
      reach.finder.entryFile? other.store path = reach.finder.entryFile? reach.store path := by
    funext main
    simp only [Finder.entryFile?, file]
  simp only [Finder.resolve, Finder.resolvePath, Finder.throughMetadata, hr.finder, hr.files, file,
    entry]

theorem exportFor (hr : reach.Alike other) (load : ModuleFile → Run Value) (q : ModuleRequest) :
    Evaluator.exportFor other load q = Evaluator.exportFor reach load q := by
  unfold Evaluator.exportFor
  rw [hr.resolve, hr.finder]

theorem require (hr : reach.Alike other) (load : ModuleFile → Run Value) (importer : String)
    (v : Value) : Evaluator.require other load importer v =
      Evaluator.require reach load importer v := by
  have installed (name : String) :
      installed? other.registry name = installed? reach.registry name := by
    simp only [installed?, hr.registry]
  unfold Evaluator.require
  simp only [installed, hr.exportFor, hr.host]

theorem load (hr : reach.Alike other) (fuel : Nat) (file : ModuleFile) :
    Evaluator.load other fuel file = Evaluator.load reach fuel file := by
  induction fuel generalizing file with
  | zero => rfl
  | succ fuel ih =>
    have filled (index : Nat) :
        let scope (r : Reach) : Scope :=
          ⟨index, r, Evaluator.require r (Evaluator.load reach fuel) file.path⟩
        fill (scope other) file = fill (scope reach) file := by
      intro scope
      have within : scope other = (scope reach).within other := by
        simp only [scope, Scope.within, funext (hr.require _ _)]
      rw [within, fill_within hr]
    rw [Evaluator.load, Evaluator.load, funext ih]
    simp only [filled]

/-- Evaluation depends on what can be reached alone. -/
theorem evaluate (hr : reach.Alike other) (s : Evaluator) (path : String) :
    s.evaluate other path = s.evaluate reach path := by
  unfold Evaluator.evaluate
  rw [hr.exportFor, hr.size, funext (hr.load (reach.store.size + 1))]

end Reach.Alike

end Evaluator

end PluginHost
