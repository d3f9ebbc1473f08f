import PluginHost.Proofs.Host.Branches
import PluginHost.Proofs.Json.Canonical

/-!
When a compile drops the modules that are there. Fingerprints tell configurations apart by their
content, so modules are dropped exactly if configuration, engine or options of a request differ from
the active ones by more than the order of fields.
-/
namespace PluginHost

/-- What a request shares with those that use the same modules. -/
def CompileRequest.content (r : CompileRequest) : List Json :=
  [.object r.config.toEngine, .int r.engine, r.optionsJson]

/-- Workspaces with the same modules and whatever was made of them. -/
structure Workspace.SharesModules (c d : Workspace) : Prop where
  inventory : d.inventory = c.inventory
  evaluator : d.evaluator = c.evaluator
  engineResets : d.engineResets = c.engineResets

variable {ps qs : List Json} {c d : Workspace} {fp : String}

theorem fingerprint_eq_iff (hp : ∀ v ∈ ps, v.Plain) (hq : ∀ v ∈ qs, v.Plain) :
    fingerprint ps = fingerprint qs ↔ List.Forall₂ Json.Alike ps qs := by
  have texts : fingerprint ps = fingerprint qs ↔ (Json.array ps).render = (Json.array qs).render :=
    ⟨fun h => String.ofList_injective h, fun h => congrArg String.ofList h⟩
  rw [texts, Json.render_eq_iff (.array hp) (.array hq)]
  refine ⟨fun h => ?_, .array⟩
  cases h with
  | array items => exact items

namespace Workspace

theorem activate_same (hc : c.fingerprint = some fp) : c.activate fp = (false, c) := by
  simp [activate, hc]

theorem activate_other {active : String} (hc : c.fingerprint = some active) (hne : fp ≠ active) :
    c.activate fp = (true, { c.forgetModules with fingerprint := some fp }) := by
  simp [activate, hc, hne]

theorem SharesModules.trans {e : Workspace} (hd : c.SharesModules d) (he : d.SharesModules e) :
    c.SharesModules e where
  inventory := he.inventory.trans hd.inventory
  evaluator := he.evaluator.trans hd.evaluator
  engineResets := he.engineResets.trans hd.engineResets

/-- A compile does nothing to the modules when it begins but what its activation does. -/
theorem sharesModules_compile (c : Workspace) (r : CompileRequest) :
    (c.activate r.fingerprint).2.SharesModules (Work.compile r c).1 := by
  have counted : (c.activate r.fingerprint).2.SharesModules (c.begun r) := by
    unfold begun activate
    dsimp only
    split
    · exact ⟨rfl, rfl, rfl⟩
    · split <;> exact ⟨rfl, rfl, rfl⟩
  have begins : (Job.compile r).Begins 0 c (Work.compile r c) := Work.begins_compile
  generalize Work.compile r c = x at begins
  cases begins with
  | compileBegun | compileRefused => exact counted.trans ⟨rfl, rfl, rfl⟩

end Workspace

/-- Fingerprints are equal exactly if what they were made of is equal up to the order of fields at
every depth. So while a configuration is active, the next compile keeps all modules if its content
is the same up to that order, and drops them otherwise. -/
theorem fingerprint_separates (hp : ∀ v ∈ ps, v.Plain) (hq : ∀ v ∈ qs, v.Plain) :
    (fingerprint ps = fingerprint qs ↔ List.Forall₂ Json.Alike ps qs) ∧
      ∀ (c : Workspace) (r s : CompileRequest), r.content = ps → s.content = qs →
        c.fingerprint = some r.fingerprint →
          (List.Forall₂ Json.Alike ps qs →
            c.activate s.fingerprint = (false, c) ∧ c.SharesModules (Work.compile s c).1) ∧
          (¬ List.Forall₂ Json.Alike ps qs →
            c.activate s.fingerprint =
                (true, { c.forgetModules with fingerprint := some s.fingerprint }) ∧
              c.forgetModules.SharesModules (Work.compile s c).1) := by
  have same := fingerprint_eq_iff hp hq
  refine ⟨same, ?_⟩
  rintro c r s rfl rfl active
  have compiles := c.sharesModules_compile s
  constructor
  · intro alike
    have kept : c.activate s.fingerprint = (false, c) :=
      Workspace.activate_same (active.trans (congrArg some (same.2 alike)))
    rw [kept] at compiles
    exact ⟨kept, compiles⟩
  · intro apart
    have differs : s.fingerprint ≠ r.fingerprint := fun h => apart (same.1 h.symm)
    have dropped := Workspace.activate_other active differs
    have forgot : c.forgetModules.SharesModules (c.activate s.fingerprint).2 := by
      rw [dropped]
      exact ⟨rfl, rfl, rfl⟩
    exact ⟨dropped, forgot.trans compiles⟩

/-- A request with some options. -/
def CompileRequest.tuned (options : List (String × Json)) : CompileRequest where
  code := "a"
  path := "/a.js"
  config := { presets := some [.text "env"] }
  options := some options

theorem CompileRequest.plain_tuned {options : List (String × Json)}
    (ho : (Json.object options).Plain) : ∀ v ∈ (tuned options).content, v.Plain := by
  have presets : (Json.array [.text "env"]).Plain := .array (by simpa using .text _)
  have config : (Json.object (tuned options).config.toEngine).Plain :=
    .object (by simp [tuned, TransformConfig.toEngine, TransformConfig.listField])
      (by simpa [tuned, TransformConfig.toEngine, TransformConfig.listField] using presets)
  simpa [content, optionsJson] using ⟨config, .int _, ho⟩

/-- Options in another order keep the modules, and another value at any depth drops them. -/
theorem fingerprint_separates_options :
    let one : Json := .object [("c", .int 1)]
    let yes : Json := .object [("c", .bool true)]
    let r := CompileRequest.tuned [("a", .text "😀"), ("b", one)]
    let s := CompileRequest.tuned [("b", one), ("a", .text "😀")]
    let t := CompileRequest.tuned [("b", yes), ("a", .text "😀")]
    let c : Workspace :=
      { Workspace.fresh .default {} [] [] [] with fingerprint := some r.fingerprint }
    c.activate s.fingerprint = (false, c) ∧ (c.activate t.fingerprint).1 = true := by
  intro one yes r s t c
  have small {v : Json} (hv : v.Plain) : (Json.object [("c", v)]).Plain :=
    .object (by simp) (by simpa using hv)
  have first (v : Json) (hv : v.Plain) : (Json.object [("a", .text "😀"), ("b", v)]).Plain :=
    .object (by simp) (by simpa using ⟨.text _, hv⟩)
  have second (v : Json) (hv : v.Plain) : (Json.object [("b", v), ("a", .text "😀")]).Plain :=
    .object (by simp) (by simpa using ⟨hv, .text _⟩)
  have hr := CompileRequest.plain_tuned (first one (small (.int 1)))
  have hs := CompileRequest.plain_tuned (second one (small (.int 1)))
  have ht := CompileRequest.plain_tuned (second yes (small (.bool true)))
  have self {v : Json} (hv : v.Plain) : v.Alike v := Json.alike_of_render hv hv rfl
  have options : (Json.object [("a", .text "😀"), ("b", one)]).Alike
      (.object [("b", one), ("a", .text "😀")]) :=
    .object rfl (.cons (.text _) (.cons (self (small (.int 1))) .nil)) (.swap ..)
  have same : List.Forall₂ Json.Alike r.content s.content :=
    .cons (self (hr _ (List.mem_cons_self ..))) (.cons (.int _) (.cons options .nil))
  have apart : ¬ List.Forall₂ Json.Alike r.content t.content :=
    mt (fingerprint_eq_iff hr ht).2 (by decide)
  exact ⟨(((fingerprint_separates hr hs).2 c r s rfl rfl rfl).1 same).1,
    congrArg Prod.fst (((fingerprint_separates hr ht).2 c r t rfl rfl rfl).2 apart).1⟩

end PluginHost
