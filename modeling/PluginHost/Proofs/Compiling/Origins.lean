import PluginHost.Proofs.Compiling.Snapshots
import PluginHost.Proofs.Host.Engines
import PluginHost.Proofs.Json.Delimited
import PluginHost.Proofs.Module.Builtins

/-!
Where the modules come from that a compile hands to the engine. They were installed for the same
engine unless work for two engines was under way at once.
-/
namespace PluginHost

/-- A compile for one engine begins while a task works for another one. -/
def Host.Meet (e f : Int) (h : Host) : Prop :=
  ∃ r, h.Begins r ∧ (r.engine = e ∧ h.Works f ∨ r.engine = f ∧ h.Works e)

/-- Where the value of an installed module comes from, if it was installed for an engine that `P`
holds of. -/
inductive Setup.Origin (u : Setup) (ls : List Host.Label) (h : Host) (P : Int → Prop)
    (kind : ModuleKind) (v : Value) : Prop where
  | builtin {name : String} (member : (name, v) ∈ u.builtins.ofKind kind) : Origin u ls h P kind v
  | bundled {name path : String} (plugin : kind = .plugin)
      (listed : lookup? name u.settings.bundled = some path)
      (there : u.modules.import? path = .ok v) : Origin u ls h P kind v
  | installed {e : Int} (engine : P e)
      (lately : u.Lately ls h fun m => ∃ w package, m.Installs w package v ∧ w.kind = kind ∧
        w.engine = e) : Origin u ls h P kind v

variable {u : Setup} {ls : List Host.Label} {h k : Host} {l : Host.Label} {P Q : Int → Prop}
  {kind : ModuleKind} {v : Value} {g e : Int}

namespace Setup

theorem Origin.mono (ho : u.Origin ls h P kind v) (hp : ∀ e, P e → Q e) :
    u.Origin ls h Q kind v := by
  cases ho with
  | builtin member => exact .builtin member
  | bundled plugin listed there => exact .bundled plugin listed there
  | installed engine lately => exact .installed (hp _ engine) lately

theorem Origin.snoc (ho : u.Origin ls h P kind v) (hs : Host.Step h l k)
    (hg : k.workspace.inventory.generation = h.workspace.inventory.generation) :
    u.Origin (ls ++ [l]) k P kind v := by
  cases ho with
  | builtin member => exact .builtin member
  | bundled plugin listed there => exact .bundled plugin listed there
  | installed engine lately => exact .installed engine (lately.snoc hs hg)

/-- Every installed module has an origin among the engines that `P` holds of. -/
def Known (u : Setup) (ls : List Host.Label) (h : Host) (P : Int → Prop) : Prop :=
  ∀ kind key v, h.workspace.inventory.slotValue (kind, key) = some v → u.Origin ls h P kind v

theorem known_seeded {generation : Nat}
    (hk : k.workspace.inventory = .seeded u.builtins generation) : u.Known ls k P := by
  intro kind key v hv
  rw [hk] at hv
  obtain ⟨name, member⟩ := Inventory.mem_of_slotValue_seeded hv
  exact .builtin member

/-- A step keeps the origins known if it installs nothing that they should not come from. -/
theorem Known.step (hr : u.Runs ls h) (hs : Host.Step h l k) (hl : l.Compiling)
    (known : u.Known ls h P)
    (new : ∀ w package v, h.Installs w package v → P w.engine) : u.Known (ls ++ [l]) k P := by
  have hc := Host.from_of_runs hr
  have shifts := hs.effect.shifts hc (Host.ordinary_of_compiling hl)
  generalize hi : k.workspace.inventory = i at shifts
  cases shifts with
  | same => exact fun kind key v hv => (known kind key v (hi ▸ hv)).snoc hs (by rw [hi])
  | reset => exact known_seeded hi
  | spell found spelt =>
    obtain ⟨key, m, -, rfl⟩ := Inventory.addAlias_eq_ok spelt
    intro kind key v hv
    rw [hi, Inventory.slotValue_bind] at hv
    exact (known kind key v hv).snoc hs (by rw [hi]; rfl)
  | @bundle names =>
    intro kind key v hv
    rw [hi] at hv
    obtain there | ⟨plugin, name, path, listed, there⟩ := Workspace.slotValue_addBundled hv
    · exact (known kind key v there).snoc hs (by rw [hi, Workspace.generation_addBundled])
    · exact .bundled plugin (hc.settings ▸ listed) (hc.host ▸ there)
  | @install w package v installs =>
    intro kind key x hv
    rw [hi, Inventory.slotValue_register] at hv
    split at hv
    · rename_i he
      obtain ⟨rfl, -⟩ := Prod.mk.inj he
      obtain rfl := Option.some.inj hv
      exact .installed (new _ _ _ installs)
        (.now hr hs ⟨w, package, installs, rfl, rfl⟩)
    · exact (known kind key x hv).snoc hs (by rw [hi]; simp)

end Setup

namespace Host

/-- An engine is in use while tasks work for it and while its configuration is the active one. -/
def Uses (h : Host) (g : Int) : Prop :=
  h.Works g ∨
    ∃ r : CompileRequest, h.workspace.fingerprint = some r.fingerprint ∧ r.engine = g

/-- While an engine is in use, nothing is done and nothing is installed for the engines that `P`
holds of. -/
structure Apart (u : Setup) (ls : List Label) (g : Int) (P : Int → Prop) (h : Host) : Prop where
  alone : h.Uses g → ∀ e, P e → ¬ h.Works e
  idle : h.workspace.fingerprint = none → ∀ e, ¬ h.Works e
  clean : h.Uses g ∨ h.workspace.fingerprint = none → u.Known ls h fun e => ¬ P e

/-- Only an engine that is being worked for has modules installed. -/
theorem Installs.works {w : Wanted} {package : String} (hi : h.Installs w package v) :
    h.Works w.engine := by
  obtain ⟨t, i, r, ss, d, -, cue, rfl, -, -⟩ := hi
  exact ⟨_, List.mem_of_getElem? (cue?_eq_told.1 cue), .inr ⟨_, List.mem_cons_self .., rfl⟩⟩

namespace Apart

theorem start (u : Setup) (g : Int) (P : Int → Prop) : Apart u [] g P u.host where
  alone _ _ _ := fun ⟨_, hv, _⟩ => by cases hv
  idle _ _ := fun ⟨_, hv, _⟩ => by cases hv
  clean _ := Setup.known_seeded rfl

variable {roots : List Job}

/-- A step at which a compile begins, while no task works for an engine that it should not meet. -/
theorem begun {r : CompileRequest} (hg : ¬ P g) (hi : Apart u ls g P h) (hr : u.Runs ls h)
    (hs : Step h l k) (hl : l.Compiling) (hb : h.Begins r) (hm : ∀ e, P e → ¬ h.Meet g e) :
    Apart u (ls ++ [l]) g P k := by
  obtain ⟨roots, hf⟩ := fits_of_runs hr
  have works {e : Int} (hw : k.Works e) : h.Works e ∨ e = r.engine := by
    obtain hw | ⟨r', hb', rfl⟩ := hs.effect.works (from_of_runs hr) hf hl hw
    · exact .inl hw
    · exact .inr (hb'.eq hb ▸ rfl)
  obtain ⟨active, inventory⟩ := hs.effect.activates hb
  have uses (hu : k.Uses g) : h.Works g ∨ g = r.engine := by
    obtain hw | ⟨r', hf, rfl⟩ := hu
    · exact works hw
    · exact .inr (CompileRequest.engine_of_fingerprint (Option.some.inj (hf.symm.trans active)))
  refine ⟨fun hu e he hw => ?_, fun none => (by cases active.symm.trans none), fun hk => ?_⟩
  · obtain hu | rfl := uses hu
    · obtain hw | rfl := works hw
      · exact hi.alone (.inl hu) e he hw
      · exact hm _ he ⟨r, hb, .inr ⟨rfl, hu⟩⟩
    · obtain hw | rfl := works hw
      · exact hm e he ⟨r, hb, .inl ⟨rfl, hw⟩⟩
      · exact hg he
  · have hu : k.Uses g := hk.resolve_right fun none => by cases active.symm.trans none
    obtain ⟨same, before⟩ | reset := inventory
    · have known : u.Known ls h fun e => ¬ P e := by
        obtain none | before := before
        · exact hi.clean (.inr none)
        · exact hi.clean (.inl ((uses hu).imp_right fun he => ⟨r, before, he.symm⟩))
      exact fun kind key v hv => (known kind key v (same ▸ hv)).snoc hs (by rw [same])
    · rw [Inventory.reset, (from_of_runs hr).builtins] at reset
      exact Setup.known_seeded reset

end Apart

end Host

namespace Host

end Host

/-- An engine that has nothing but the plugin that every configuration gets. -/
def Setup.detective : Setup where
  settings := .short
  plugins := [("babel-plugin-detective", .int 1)]

/-- A request for a preset whose package depends on the engine. -/
def CompileRequest.preset (engine : Int) : CompileRequest where
  code := "a"
  path := "/a.js"
  config := { presets := some [.text "p"] }
  loader := { disableBuiltin := true }
  engine := engine

end PluginHost
