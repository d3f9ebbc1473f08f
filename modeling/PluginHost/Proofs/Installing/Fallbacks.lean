import PluginHost.Proofs.Module.Inventory
import PluginHost.Proofs.Resolving.Conventions
import PluginHost.Work.Installing
import PluginHost.Work.Resolving

/-!
What a name shares with the package that is tried in its place. Their short forms agree, so that the
package is installed in the slot of the name, and an installation of either is joined by an install
of the other.
-/
namespace PluginHost

namespace Inventory

/-- What is installed on a fallback is found under the name that was asked for and under the name of
the package. -/
theorem find?_register (i : Inventory) (kind : ModuleKind) (name : String) {package : String}
    (value : Value) (builtin : Bool) (named : package ≠ "") :
    ∃ m : Installed, m.value = value ∧ ∀ t, t = name ∨ t = package →
      (i.register kind name value (some package) builtin).find? kind t =
        some (PackageName.short kind package, m) := by
  have given : given (some package) = some package := by simp [given, named]
  have slot : slotKey kind name (some package) = PackageName.short kind package := by
    rw [slotKey, given, Option.getD_some]
  have filled := i.slotValue_register kind name value (some package) builtin
    (kind, PackageName.short kind package)
  rw [slot, if_pos rfl, slotValue, Option.map_eq_some_iff] at filled
  obtain ⟨m, there, holds⟩ := filled
  refine ⟨m, holds, fun t ht => find?_eq_some.2 ⟨?_, there⟩⟩
  have member : t ∈ bound kind name (some package) := by
    rcases ht with rfl | rfl <;> simp [bound, given]
  rw [key?, aliases_register, if_pos ⟨rfl, member⟩, slot, Option.some_or]

end Inventory

/-- The conventional name of what is wanted, for the engine that wants it. -/
def Wanted.conventional (w : Wanted) (s : Settings) : String :=
  PackageName.prefixed w.name w.kind (s.isModern w.engine)

/-- Wants the same module, under its name or under the conventional one. -/
structure Wanted.Spells (w : Wanted) (s : Settings) (v : Wanted) : Prop where
  kind : v.kind = w.kind
  name : v.name = w.name ∨ v.name = w.conventional s

/-- A name in no scope, or in that of a modern engine, has the short form of its conventional name,
which is that of the package that a request of the named package falls back to. So what is installed
on a fallback has the slot that the name itself is installed in, whichever request was made, and is
found there under the request and under the package. And as long as an installation is on its way
that was asked for under one of the two names, an install under the other waits for it. -/
theorem fallback_shared (w : Wanted) (s : Settings)
    (h : PackageName.Foldable (s.isModern w.engine) w.name) :
    PackageName.short w.kind (w.conventional s) = PackageName.short w.kind w.name ∧
      (∀ v : Wanted, v.kind = w.kind → v.engine = w.engine →
        PackageName.ofRequest v.name = w.name → Work.conventional v s = w.conventional s) ∧
      (∀ (i : Inventory) request value builtin, ∃ m : Installed, m.value = value ∧
        ∀ t, t = request ∨ t = w.conventional s →
          (i.register w.kind request value (some (w.conventional s)) builtin).find? w.kind t =
            some (Inventory.slotKey w.kind w.name none, m)) ∧
      ∀ (u v : Wanted) (c : Workspace) fresh task, w.Spells s u → w.Spells s v →
        c.installing.get? u.key = some task → c.inventory.find? v.kind v.name = none →
          Work.install fresh v c = (c, .await .passOn task) := by
  have short : PackageName.short w.kind (w.conventional s) = PackageName.short w.kind w.name :=
    h.short_prefixed w.kind
  have own : Inventory.slotKey w.kind w.name none = PackageName.short w.kind w.name := rfl
  refine ⟨short, ?_, ?_, ?_⟩
  · intro v kind engine package
    rw [Work.conventional, Wanted.conventional, kind, engine, package]
  · intro i request value builtin
    obtain ⟨m, holds, found⟩ := i.find?_register w.kind request value builtin
      (PackageName.prefixed_ne_empty w.name w.kind (s.isModern w.engine))
    refine ⟨m, holds, fun t ht => ?_⟩
    rw [own, ← short]
    exact found t ht
  · intro u v c fresh task hu hv pending missing
    have key : v.key = u.key := by
      have spelt {x : Wanted} (hx : w.Spells s x) : x.key = w.key := by
        rw [Wanted.key, Wanted.key, hx.kind]
        rcases hx.name with same | same
        · rw [same]
        · rw [same, short]
      rw [spelt hu, spelt hv]
    simp only [Work.install, missing, key, pending]

/-- A plugin in the scope of modern engines whose name nearly has the start of the kind. -/
def Wanted.plugins : Wanted := ⟨.plugin, "@babel/plugins", 7, .null⟩

/-- What is said of the module above, for the default settings. -/
theorem fallback_shared_plugins :
    PackageName.Foldable (Settings.default.isModern Wanted.plugins.engine) Wanted.plugins.name ∧
      Wanted.plugins.conventional .default = "@babel/plugin-plugins" ∧
      PackageName.short .plugin (Wanted.plugins.conventional .default) =
        PackageName.short .plugin Wanted.plugins.name ∧
      (∀ v : Wanted, v.kind = .plugin → v.engine = 7 →
        PackageName.ofRequest v.name = Wanted.plugins.name →
          Work.conventional v .default = Wanted.plugins.conventional .default) ∧
      (∀ (i : Inventory) request value builtin, ∃ m : Installed, m.value = value ∧
        ∀ t, t = request ∨ t = Wanted.plugins.conventional .default →
          (i.register .plugin request value (some (Wanted.plugins.conventional .default))
            builtin).find? .plugin t =
              some (Inventory.slotKey .plugin Wanted.plugins.name none, m)) ∧
      ∀ (u v : Wanted) (c : Workspace) fresh task, Wanted.plugins.Spells .default u →
        Wanted.plugins.Spells .default v → c.installing.get? u.key = some task →
          c.inventory.find? v.kind v.name = none →
            Work.install fresh v c = (c, .await .passOn task) := by
  have folds : PackageName.Foldable (Settings.default.isModern Wanted.plugins.engine)
      Wanted.plugins.name :=
    @PackageName.Foldable.own _ "plugins" (by decide) (by decide)
  exact ⟨folds, by decide, fallback_shared Wanted.plugins .default folds⟩

end PluginHost
