import PluginHost.Proofs.Compiling.Configurations
import PluginHost.Proofs.Host.Spellings

/-!
The configuration that a modern engine is handed. Its entries are those of the request, and the
names that they get are found like the names that were written, unless a start stands elsewhere than
at the start.
-/
namespace PluginHost

/-- The field of a configuration that lists modules of a kind. -/
def ModuleKind.field : ModuleKind → String
  | .plugin => "plugins"
  | .preset => "presets"

/-- The start of a name that a modern engine does without. -/
def ModuleKind.start (kind : ModuleKind) : String := "@babel/" ++ kind.word ++ "-"

namespace Entries

variable {P : String → String → Prop} {s t : String}

/-- An entry in the place of another one, under a name that is related to the other's. Whatever has
no name stays, and so does what follows a name. -/
inductive Renamed (P : String → String → Prop) : Json → Json → Prop where
  | unnamed {v : Json} (none : name? v = none) : Renamed P v v
  | text {s t : String} (names : P s t) : Renamed P (.text s) (.text t)
  | listed {s t : String} {rest : List Json} (names : P s t) :
      Renamed P (.array (.text s :: rest)) (.array (.text t :: rest))

theorem renamed_shorten (text : String) {v : Json}
    (h : ∀ s, name? v = some s → P s (Text.replaceFirst s text "")) :
    Renamed P v (shorten text v) := by
  unfold shorten
  split
  · exact .text (h _ rfl)
  · exact .listed (h _ rfl)
  · rename_i other nested
    refine .unnamed ?_
    unfold name?
    split
    · exact (other _ rfl).elim
    · exact (nested _ _ rfl).elim
    · rfl

/-- Taking a text out of the names of entries renames them one by one. -/
theorem renamed_map (text : String) {items : List Json}
    (h : ∀ s ∈ items.filterMap name?, P s (Text.replaceFirst s text "")) :
    List.Forall₂ (Renamed P) items (items.map (shorten text)) := by
  rw [List.forall₂_map_right_iff, List.forall₂_same]
  exact fun v hv => renamed_shorten text fun s hs => h s (List.mem_filterMap.2 ⟨v, hv, hs⟩)

theorem names_eq_ok {v : Json} {ns : List String} :
    names v = .ok ns ↔ ∃ items, v.partsOrNone = .ok items ∧ items.filterMap name? = ns := by
  unfold names
  cases v.partsOrNone <;> simp [bind, Except.bind, pure, Except.pure]

end Entries

namespace EngineConfig

variable {c : EngineConfig}

theorem forModern_eq_ok {plugins presets : List Json}
    (hp : (c.get (ModuleKind.field .plugin)).partsOrNone = .ok plugins)
    (hs : (c.get (ModuleKind.field .preset)).partsOrNone = .ok presets) :
    c.forModern = .ok
      ((c.set (ModuleKind.field .plugin)
        (.array (plugins.map (Entries.shorten (ModuleKind.start .plugin))))).set
          (ModuleKind.field .preset)
          (.array (presets.map (Entries.shorten (ModuleKind.start .preset))))) := by
  change (c.get "plugins").partsOrNone = .ok plugins at hp
  change (c.get "presets").partsOrNone = .ok presets at hs
  rw [forModern, shortened, shortened, hp, hs, show ModuleKind.start .plugin = "@babel/plugin-" from
    by decide, show ModuleKind.start .preset = "@babel/preset-" from by decide]
  rfl

end EngineConfig

namespace Text

/-- A text holds another one, but not at its start. -/
def Inside (s p : String) : Prop := ∃ a b, cut? p.toList s.toList = some (a, b) ∧ a ≠ []

/-- Taking the first occurrence of a text out of another one leaves the other one as it is, or takes
off its start, or takes something out of it. -/
theorem replaceFirst_cases (s p : String) :
    replaceFirst s p "" = s ∨ after? s p = some (replaceFirst s p "") ∨ Inside s p := by
  unfold replaceFirst
  cases hc : cut? p.toList s.toList with
  | none => exact .inl rfl
  | some r =>
    obtain ⟨a, b⟩ := r
    cases a with
    | nil =>
      refine .inr (.inl ?_)
      rw [after?, rest?_eq_some_iff.2 (by simpa using eq_append_of_cut? hc)]
      simp
    | cons c a => exact .inr (.inr ⟨c :: a, b, hc, by simp⟩)

end Text

theorem PackageName.short_of_after? {kind : ModuleKind} {s t : String}
    (h : Text.after? s kind.start = some t) : short kind s = t := by
  have first : (starts kind).findSome? (Text.after? s) = some t := by
    rw [starts, List.findSome?_cons, show Text.after? s ("@babel/" ++ kind.word ++ "-") = _ from h]
  simp [short, first]

variable {u : Setup} {h : Host} {ls : List Host.Label} {c : EngineConfig}

namespace Host

/-- What a renamed entry of a configuration may not be found like: what stands for a name that holds
the start elsewhere, and what has spellings that are kept apart. -/
def Misnames (u : Setup) (ls : List Label) (h : Host) (kind : ModuleKind) (name : String) : Prop :=
  Text.Inside name kind.start ∨ u.Parts kind (PackageName.short kind name) ∨
    u.Lately ls h (Parts kind (PackageName.short kind name))

/-- A name without the start that a modern engine does without is found like the name itself. -/
theorem registry_shortened {kind : ModuleKind} {name : String} (hr : u.Runs ls h)
    (ho : ∀ l ∈ ls, l.Ordinary) (found : h.workspace.inventory.contains kind name = true) :
    h.workspace.inventory.registry.get? kind (Text.replaceFirst name kind.start "") =
        h.workspace.inventory.registry.get? kind name ∨ Misnames u ls h kind name := by
  obtain same | start | inside := Text.replaceFirst_cases name kind.start
  · exact .inl (by rw [same])
  · by_cases hu : u.Parts kind (PackageName.short kind name)
    · exact .inr (.inr (.inl hu))
    · obtain agrees | lately := agrees_of_runs hu hr ho
      · have sound := sound_of_runs hr
        rw [← PackageName.short_of_after? start, sound.registry_get?, sound.registry_get?,
          agrees.find?_short rfl found]
        exact .inl rfl
      · exact .inr (.inr (.inr lately))
  · exact .inr (.inl inside)

/-- The configuration that a modern engine is handed has the fields and the entries of the one it is
made of, in their order and with their options, if every plugin and preset that it names is
installed. What a registry has under the name of an entry is what it has under the name that was
written, unless that one holds the start of its kind elsewhere than at the start, or its spellings
are kept apart. -/
theorem modern_names_kept (hr : u.Runs ls h) (ho : ∀ l ∈ ls, l.Ordinary)
    (installed : ∀ kind : ModuleKind, ∃ names, Entries.names (c.get kind.field) = .ok names ∧
      ∀ name ∈ names, h.workspace.inventory.contains kind name = true) :
    ∃ d, c.forModern = .ok d ∧
      (∀ field, (∀ kind : ModuleKind, kind.field ≠ field) → d.get field = c.get field) ∧
      ∀ kind : ModuleKind, ∃ items renamed, (c.get kind.field).partsOrNone = .ok items ∧
        d.get kind.field = .array renamed ∧
        List.Forall₂ (Entries.Renamed fun s t =>
          h.workspace.inventory.registry.get? kind t = h.workspace.inventory.registry.get? kind s ∨
            Misnames u ls h kind s) items renamed := by
  have renames {kind : ModuleKind} {items : List Json}
      (hi : (c.get kind.field).partsOrNone = .ok items) :
      List.Forall₂ (Entries.Renamed fun s t =>
        h.workspace.inventory.registry.get? kind t = h.workspace.inventory.registry.get? kind s ∨
          Misnames u ls h kind s) items (items.map (Entries.shorten kind.start)) := by
    obtain ⟨names, hn, found⟩ := installed kind
    obtain ⟨items', hi', rfl⟩ := Entries.names_eq_ok.1 hn
    obtain rfl : items = items' := Except.ok.inj (hi.symm.trans hi')
    exact Entries.renamed_map _ fun s hs => registry_shortened hr ho (found s hs)
  obtain ⟨_, hn, -⟩ := installed .plugin
  obtain ⟨plugins, hp, -⟩ := Entries.names_eq_ok.1 hn
  obtain ⟨_, hn, -⟩ := installed .preset
  obtain ⟨presets, hs, -⟩ := Entries.names_eq_ok.1 hn
  refine ⟨_, EngineConfig.forModern_eq_ok hp hs, fun field other => ?_, fun kind => ?_⟩
  · rw [EngineConfig.get_set, EngineConfig.get_set, if_neg, if_neg]
    · exact other .plugin
    · exact other .preset
  · cases kind with
    | plugin => exact ⟨plugins, _, hp, by simp [EngineConfig.get_set, ModuleKind.field], renames hp⟩
    | preset => exact ⟨presets, _, hs, by simp [EngineConfig.get_set, ModuleKind.field], renames hs⟩

end Host

/-- A configuration that names a plugin by a distribution name, with options, and by a file. -/
def EngineConfig.spelt : EngineConfig :=
  [("plugins", .array [.array [.text "@babel/plugin-x", .object [("loose", .bool true)]],
    .text "x/lib"])]

/-- A configuration whose plugins were installed from a package of their conventional name. -/
theorem modern_names_kept_spelt :
    ∃ ls h, Setup.onePlugin.Runs ls h ∧ (∀ l ∈ ls, l.Ordinary) ∧
      (∀ kind : ModuleKind, ∃ names, Entries.names (EngineConfig.spelt.get kind.field) = .ok names ∧
        ∀ name ∈ names, h.workspace.inventory.contains kind name = true) ∧
      ∃ d, EngineConfig.spelt.forModern = .ok d ∧
        (∀ field, (∀ kind : ModuleKind, kind.field ≠ field) →
          d.get field = EngineConfig.spelt.get field) ∧
        ∀ kind : ModuleKind, ∃ items renamed,
          (EngineConfig.spelt.get kind.field).partsOrNone = .ok items ∧
            d.get kind.field = .array renamed ∧
            List.Forall₂ (Entries.Renamed fun s t =>
              h.workspace.inventory.registry.get? kind t =
                  h.workspace.inventory.registry.get? kind s ∨
                Host.Misnames Setup.onePlugin ls h kind s) items renamed := by
  have hr := Setup.onePlugin.runs_run World.rivalled_admits [.install .file] 33 ()
  have ordinary := Wanted.ordinary_labels Setup.onePlugin (.steady Query.rivalled) 33 ()
  have installed : ∀ kind : ModuleKind, ∃ names,
      Entries.names (EngineConfig.spelt.get kind.field) = .ok names ∧ ∀ name ∈ names,
        ((Setup.onePlugin.host.start [.install .file]).run
          (.steady Query.rivalled) 33 ()).1.workspace.inventory.contains kind name = true := by
    intro kind
    cases kind with
    | plugin => exact ⟨["@babel/plugin-x", "x/lib"], rfl, by decide +kernel⟩
    | preset => exact ⟨[], rfl, by simp⟩
  exact ⟨_, _, hr, ordinary, installed, Host.modern_names_kept hr ordinary installed⟩

/-- The install of a module inside a package, whose path holds the start of a plugin's name. -/
def Wanted.inside : Wanted := ⟨.plugin, "p/@babel/plugin-y", 7, .null⟩

/-- A remote that has a package with a module inside it. -/
def Query.inside : Query → Option Outcome
  | .download "/n/p/package.json" _ =>
    some (.ok (.files (.ofList [("/n/p/package.json", "\x7b\x7d".toUTF8.toList)])))
  | .download "/n/p/@babel/plugin-y" _ =>
    some (.ok (.files (.ofList [("/n/p/@babel/plugin-y/index.json", "2".toUTF8.toList)])))
  | .download path _ => some (.error (Fault.unfetchable path none))
  | _ => none

theorem World.inside_admits : (World.steady Query.inside).Admits := by
  refine steady_admits fun q o h => ?_
  unfold Query.inside at h
  split at h <;> cases h <;> exact trivial

/-- An installed plugin is not found under the name that a modern engine gets for it, if the start
is taken out of the middle of its name. -/
theorem modern_names_can_differ :
    ¬ ∀ ls h name, Setup.bare.Runs ls h → (∀ l ∈ ls, l.Ordinary) →
      h.workspace.inventory.contains .plugin name = true →
      ∃ d renamed, EngineConfig.forModern [("plugins", .array [.text name])] = .ok d ∧
        d.pluginNames = .ok [renamed] ∧
        h.workspace.inventory.registry.get .plugin renamed =
          h.workspace.inventory.registry.get .plugin name := by
  intro always
  have hr := Setup.bare.runs_run World.inside_admits [.install .inside] 33 ()
  have ordinary : ∀ l ∈ Setup.bare.labels (.steady Query.inside) [.install .inside] 33 (),
      l.Ordinary :=
    List.forall_mem_cons.2 ⟨fun _ hv => by simp at hv,
      fun l hl => (Host.internal_labels _ 33 _ () l hl).ordinary⟩
  obtain ⟨d, renamed, modern, names, same⟩ :=
    always _ _ "p/@babel/plugin-y" hr ordinary (by decide +kernel)
  have made := @EngineConfig.forModern_eq_ok [("plugins", .array [.text "p/@babel/plugin-y"])]
    [.text "p/@babel/plugin-y"] [] rfl rfl
  obtain rfl := Except.ok.inj (modern.symm.trans made)
  obtain rfl : "p/y" = renamed := by
    obtain ⟨items, parts, named⟩ := Entries.names_eq_ok.1 names
    obtain rfl := Except.ok.inj (parts.symm.trans rfl)
    have short : Text.replaceFirst "p/@babel/plugin-y" (ModuleKind.start .plugin) "" = "p/y" := by
      decide
    simpa [Entries.shorten, Entries.name?, short] using named
  have apart : (((Setup.bare.host.start [.install .inside]).run
        (.steady Query.inside) 33 ()).1.workspace.inventory.registry.get .plugin
          "p/y").isNothing = true ∧
      (((Setup.bare.host.start [.install .inside]).run
        (.steady Query.inside) 33 ()).1.workspace.inventory.registry.get .plugin
          "p/@babel/plugin-y").isNothing = false := by decide +kernel
  rw [same] at apart
  cases apart.1.symm.trans apart.2

end PluginHost
