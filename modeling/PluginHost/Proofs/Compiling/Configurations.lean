import PluginHost.Proofs.Module.Inventory
import PluginHost.Work.Compiling

/-!
Configurations of requests as they are read. Only the settings' own configuration for external
libraries can keep a request from being prepared.
-/
namespace PluginHost

namespace Checked

variable {α β : Type}

end Checked

/-- A configuration whose other fields are neither plugins nor presets. -/
def TransformConfig.Plain (c : TransformConfig) : Prop :=
  ∀ f ∈ c.others, f.1 ≠ "plugins" ∧ f.1 ≠ "presets"

/-- A value that is a list or null has parts. -/
def Json.Listed (v : Json) : Prop := v = .null ∨ ∃ items, v = .array items

namespace Json.Listed

variable {v : Json}

theorem partsOrNone (hv : v.Listed) : ∃ items, v.partsOrNone = .ok items := by
  obtain rfl | ⟨items, rfl⟩ := hv
  · exact ⟨[], rfl⟩
  · unfold Json.partsOrNone
    split
    · exact ⟨[], rfl⟩
    · exact ⟨items, rfl⟩

theorem names (hv : v.Listed) : ∃ ns, Entries.names v = .ok ns := by
  obtain ⟨items, hi⟩ := hv.partsOrNone
  exact ⟨_, by rw [Entries.names, hi]; rfl⟩

end Json.Listed

namespace EngineConfig

variable {c : EngineConfig}

theorem get_set (c : EngineConfig) (name other : String) (v : Json) :
    (c.set name v).get other = if name = other then v else c.get other := by
  unfold get set
  rw [lookup?_putEntry]
  split <;> rfl

theorem shortened_ok {name : String} (hc : (c.get name).Listed) (text : String) :
    ∃ v, c.shortened name text = .ok v := by
  obtain ⟨items, hi⟩ := hc.partsOrNone
  exact ⟨_, by rw [shortened, hi]; rfl⟩

theorem forModern_ok (hp : (c.get "plugins").Listed) (hs : (c.get "presets").Listed) :
    ∃ d, c.forModern = .ok d := by
  obtain ⟨p, hp⟩ := shortened_ok hp "@babel/plugin-"
  obtain ⟨s, hs⟩ := shortened_ok hs "@babel/preset-"
  exact ⟨_, by rw [forModern, hp, hs]; rfl⟩

end EngineConfig

namespace Settings

variable {s : Settings} {r : CompileRequest}

theorem presets_toEngine {c : TransformConfig} (hc : c.Plain) :
    (EngineConfig.get c.toEngine "presets").Listed := by
  have others : lookup? "presets" (c.others.filter fun f => !f.2.isNull) = none := by
    rw [lookup?_eq_none]
    intro hm
    obtain ⟨f, hf, hn⟩ := List.mem_map.1 hm
    exact (hc f (List.mem_filter.1 hf).1).2 hn
  unfold TransformConfig.toEngine EngineConfig.get
  cases c.plugins <;> cases c.presets <;>
    simp [TransformConfig.listField, lookup?, others, Json.Listed]

/-- A request's own configuration lists its plugins and its presets. -/
theorem configure_own (hr : r.config.Plain) (he : s.isExternal r = false) :
    ∃ c, s.configure r = .ok c ∧ (c.get "plugins").Listed ∧ (c.get "presets").Listed := by
  have listed (v : List Json) :
      let c := EngineConfig.set r.config.toEngine "plugins" (.array v)
      (c.get "plugins").Listed ∧ (c.get "presets").Listed := by
    simp only [EngineConfig.get_set]
    exact ⟨.inr ⟨v, rfl⟩, presets_toEngine hr⟩
  unfold configure
  simp only [he, Bool.false_eq_true, if_false]
  split
  · exact ⟨_, rfl, listed _⟩
  · exact ⟨_, rfl, listed _⟩

end Settings

/-- Only the settings' configuration for external libraries can be no configuration. -/
theorem Work.external_of_prepare_error {attempt : Nat} {r : CompileRequest} {s : Settings}
    {f : Fault} (hr : r.config.Plain) (hp : prepare attempt r s = .error f) :
    s.isExternal r = true := by
  cases he : s.isExternal r with
  | true => rfl
  | false =>
    obtain ⟨c, hc, hplugins, hpresets⟩ := Settings.configure_own hr he
    obtain ⟨d, hd⟩ : ∃ d, s.engineConfig r c = .ok d := by
      unfold Settings.engineConfig
      split
      · exact EngineConfig.forModern_ok hplugins hpresets
      · exact ⟨c, rfl⟩
    obtain ⟨ps, hps⟩ := hplugins.names
    obtain ⟨ns, hns⟩ := hpresets.names
    have hps : c.pluginNames = .ok ps := hps
    have hns : c.presetNames = .ok ns := hns
    simp [prepare, hc, hd, hps, hns, bind, Except.bind, pure, Except.pure] at hp

end PluginHost
