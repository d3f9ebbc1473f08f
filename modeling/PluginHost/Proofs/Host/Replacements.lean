import PluginHost.Proofs.Host.Installs
import PluginHost.Proofs.Host.Replay
import PluginHost.Proofs.Module.Builtins

/-!
Which built-in modules keep their values. A module is installed only under a name that nothing was
found under, but the package that it comes from may go by a built-in module's name.
-/
namespace PluginHost

variable {u : Setup} {s : Settings} {E : Expectation} {roots : List Job} {owner : Job} {q : Cue}
  {c : Workspace} {w : Wanted} {fresh : TaskId}

/-- A fresh installation is started only for a name that nothing was found under. -/
theorem Work.not_contains_of_launch (hq : q.For s E owner)
    (hs : (q.move fresh c).2.Suits s roots owner)
    (hj : Job.installFresh w ∈ (q.move fresh c).2.jobs) :
    c.inventory.contains w.kind w.name = false := by
  have begun {v : Wanted} (hq : q.For s E (.install v)) :
      c.inventory.contains w.kind w.name = false := by
    obtain ⟨o, hm⟩ | ⟨t, hm⟩ | ⟨-, free, hm⟩ := install_cases fresh c hq
    · simp [hm, Move.jobs] at hj
    · simp [hm, Move.jobs] at hj
    · obtain rfl := by simpa [hm, Move.jobs] using hj
      exact free
  generalize (q.move fresh c).2 = m at hs hj
  cases m with
  | launch st j =>
    obtain rfl : Job.installFresh w = j := by simpa [Move.jobs] using hj
    cases hs with
    | installJoined same => exact begun hq
    | installOwned => exact begun hq
  | gather st js =>
    have none {n : Needs} {kind : ModuleKind} {names : List String} :
        Job.installFresh w ∉ jobs n kind names := by
      intro h
      obtain ⟨name, -, hn⟩ := List.mem_map.1 h
      cases hn
    cases hs with
    | pluginsInstalled => exact (none hj).elim
    | presetsInstalled => exact (none hj).elim
  | _ => cases hj

/-- A fresh installation is never run in the place of another job. -/
theorem Job.Frames.eq_of_installFresh {root : Job} {ss : List Stage}
    (hf : root.Frames s (.installFresh w) ss) : root = .installFresh w := by
  cases hf with
  | root => rfl
  | under outer awaits => cases awaits

namespace Host

variable {h k : Host} {l : Label} {ls : List Label}

/-- A host in which the built-in modules answer to their names, and whatever is being installed has
nothing to do with them. -/
structure Seeded (u : Setup) (roots : List Job) (h : Host) : Prop where
  fits : h.Fits u.settings (.wellFormed u) roots
  free : ∀ w, Job.installFresh w ∈ roots → ∀ m ∈ u.builtins.ofKind w.kind,
    Inventory.Apart w.kind m.1 w.name
  sound : h.workspace.inventory.Sound
  knows : h.workspace.inventory.Knows u.builtins

theorem knows_seeded (hd : u.builtins.Distinct) (generation : Nat) :
    (Inventory.seeded u.builtins generation).Knows u.builtins := by
  refine ⟨fun kind m hm => ?_⟩
  have held := Inventory.holds_seeded hd generation hm
  exact ⟨by rw [Inventory.Answers, held.named]; rfl, by rw [Inventory.Answers, held.short]; rfl⟩

/-- A step keeps the aliases sound and the built-in modules within reach. -/
theorem Shifts.reach {i : Inventory} (hd : u.builtins.Distinct) (hi : Shifts u h i)
    (sound : h.workspace.inventory.Sound) (knows : h.workspace.inventory.Knows u.builtins) :
    i.Sound ∧ i.Knows u.builtins := by
  cases hi with
  | same => exact ⟨sound, knows⟩
  | reset => exact ⟨.seeded .., knows_seeded hd _⟩
  | spell found spelt =>
    obtain ⟨key, m, hk, rfl⟩ := Inventory.addAlias_eq_ok spelt
    obtain ⟨-, hm⟩ := Inventory.find?_eq_some.1 hk
    exact ⟨sound.bind (by simp [Inventory.slotValue, hm]) _, knows.bind ..⟩
  | bundle =>
    exact Workspace.addBundled_induction (P := fun i => i.Sound ∧ i.Knows u.builtins) _
      (fun i name path v _ _ _ hi => ⟨hi.1.register .., hi.2.register ..⟩) ⟨sound, knows⟩
  | install installs => exact ⟨sound.register .., knows.register ..⟩

namespace Seeded

theorem effect (hd : u.builtins.Distinct) (hc : h.workspace.From u) (hi : h.Seeded u roots)
    (hs : Effect h l k) (ho : l.Ordinary) :
    ∃ js, k.Seeded u (roots ++ js) := by
  have hE := Expectation.wellFormed_met u
  obtain ⟨js, spawns, fits⟩ := hi.fits.effect hE hc hs fun t q o _ ha => ha
  obtain ⟨sound, knows⟩ := (hs.shifts hc ho).reach hd hi.sound hi.knows
  refine ⟨js, fits, fun w hw m hm => ?_, sound, knows⟩
  obtain hw | hw := List.mem_append.1 hw
  · exact hi.free w hw m hm
  · cases spawns with
    | none apart => cases hw
    | @move l t q ss turn cue apart =>
      obtain ⟨root, owner, -, -, hq⟩ := hi.fits.cue cue
      have suits := hi.fits.suits hE.toFormed hc hq
      exact hi.knows.apart hi.sound (Work.not_contains_of_launch hq suits hw) hm
    | start => exact (ho w hw).elim

theorem start (hd : u.builtins.Distinct) : u.host.Seeded u [] :=
  ⟨.start u _, fun w hw => by simp at hw, .seeded .., knows_seeded hd _⟩

/-- What is installed has nothing to do with a built-in module, save for its package, which is the
one of the requested name or its conventional one. -/
theorem apart_of_installs {package : String} {v : Value} (hi : h.Seeded u roots)
    (hs : h.Installs w package v) {m : String × Value} (hm : m ∈ u.builtins.ofKind w.kind) :
    Inventory.Apart w.kind m.1 w.name ∧ w.Resolves u.settings package := by
  obtain ⟨t, i, r, ss, d, -, cue, rfl, -, -⟩ := hs
  obtain ⟨root, owner, hr, frames, hq⟩ := hi.fits.cue cue
  cases hq with
  | told awaits gives =>
    cases awaits with
    | fetched resolves =>
      obtain rfl := frames.eq_of_installFresh
      exact ⟨hi.free _ (List.mem_of_getElem? hr) m hm, resolves⟩

end Seeded

/-- Whether an installation under way replaces a built-in module: it falls back to a conventional
package that goes by the name of the module. -/
def Replaces (u : Setup) (kind : ModuleKind) (b : String) (h : Host) : Prop :=
  ∃ w v, h.Installs w (Work.conventional w u.settings) v ∧ w.kind = kind ∧
    ¬ Inventory.Apart kind b (Work.conventional w u.settings)

theorem Shifts.holds {i : Inventory} {kind : ModuleKind} {m : String × Value}
    (hd : u.builtins.Distinct) (hi : h.Seeded u roots) (hs : Shifts u h i)
    (hm : m ∈ u.builtins.ofKind kind) (held : h.workspace.inventory.Holds kind m.1 m.2) :
    i.Holds kind m.1 m.2 ∨
      h.Replaces u kind m.1 := by
  cases hs with
  | same => exact .inl held
  | reset => exact .inl (Inventory.holds_seeded hd _ hm)
  | spell found spelt => exact .inl (held.addAlias found spelt)
  | @bundle names =>
    have all := Workspace.addBundled_induction (c := h.workspace)
      (P := fun i => (i.Sound ∧ i.Knows u.builtins) ∧ i.Holds kind m.1 m.2) names
      (fun i name path v _ _ hn hi => ⟨⟨hi.1.1.register .., hi.1.2.register ..⟩,
        hi.2.register fun hk => by
          subst hk
          exact (hi.1.2.apart hi.1.1 hn hm).bound_none⟩)
      ⟨⟨hi.sound, hi.knows⟩, held⟩
    exact .inl all.2
  | @install w package v installs =>
    by_cases hk : kind = w.kind
    · subst hk
      obtain ⟨apart, resolves⟩ := hi.apart_of_installs installs hm
      obtain rfl | rfl := resolves
      · exact .inl (held.register fun _ => apart.bound (.inl rfl))
      · by_cases hp : Inventory.Apart w.kind m.1 (Work.conventional w u.settings)
        · exact .inl (held.register fun _ => apart.bound (.inr hp))
        · exact .inr ⟨w, v, installs, rfl, hp⟩
    · exact .inl (held.register fun h => (hk h).elim)

theorem Shifts.generation {i : Inventory} (hs : Shifts u h i) :
    i.generation = h.workspace.inventory.generation ∨
      i = .seeded u.builtins (h.workspace.inventory.generation + 1) := by
  cases hs with
  | same => exact .inl rfl
  | reset => exact .inr rfl
  | spell found spelt =>
    obtain ⟨key, m, -, rfl⟩ := Inventory.addAlias_eq_ok spelt
    exact .inl rfl
  | bundle => exact .inl (Workspace.generation_addBundled ..)
  | install installs => exact .inl (by simp)

/-- Every built-in module keeps its value unless, since the modules were last dropped, something was
installed from a package that has the conventional name for it. -/
theorem builtin_kept {kind : ModuleKind} {b : String} {v : Value} (hd : u.builtins.Distinct)
    (hr : u.Runs ls h) (ho : ∀ l ∈ ls, l.Ordinary) (hb : (b, v) ∈ u.builtins.ofKind kind) :
    h.workspace.inventory.value kind b = v ∨ u.Lately ls h (Replaces u kind b) := by
  have kept : (∀ l ∈ ls, l.Ordinary) → ∃ roots, h.Seeded u roots ∧
      (h.workspace.inventory.Holds kind b v ∨ u.Lately ls h (Replaces u kind b)) := by
    refine Steps.forward (P := fun ls k => (∀ l ∈ ls, l.Ordinary) → ∃ roots, k.Seeded u roots ∧
      (k.workspace.inventory.Holds kind b v ∨ u.Lately ls k (Replaces u kind b))) ?_ ?_ hr
    · exact fun _ => ⟨[], .start hd, .inl (Inventory.holds_seeded hd 0 hb)⟩
    · intro ls k m l hk hi hs ho
      obtain ⟨roots, seeded, held⟩ := hi fun l hl => ho l (by simp [hl])
      have ordinary : l.Ordinary := ho l (by simp)
      have hc := from_of_runs hk
      have shifts := hs.effect.shifts hc ordinary
      obtain ⟨js, hm⟩ := seeded.effect hd hc hs.effect ordinary
      refine ⟨_, hm, ?_⟩
      obtain held | lately := held
      · exact (shifts.holds hd seeded hb held).imp_right fun h => .now hk hs h
      · obtain same | reset := shifts.generation
        · exact .inr (lately.snoc hs same)
        · exact .inl (reset ▸ Inventory.holds_seeded hd _ hb)
  obtain ⟨roots, -, held⟩ := kept ho
  exact held.imp_left Inventory.Holds.value

theorem Label.Internal.ordinary {l : Label} (hl : l.Internal) : l.Ordinary := by
  cases l with
  | started => exact hl.elim
  | changed => exact hl.elim
  | _ => trivial

end Host

/-- An engine with one plugin. -/
def Setup.onePlugin : Setup where
  settings := .short
  plugins := [("x", .int 1)]

theorem Setup.onePlugin_distinct : onePlugin.builtins.Distinct := by
  refine ⟨fun kind => ?_, fun kind m hm n hn _ => ?_⟩
  · cases kind <;> simp [Builtins.ofKind, onePlugin, builtins]
  · cases kind <;> simp_all [Builtins.ofKind, onePlugin, builtins]

/-- An engine with a plugin that is named by the short name of another one. -/
def Setup.crossed : Setup where
  settings := .default
  plugins := [("babel-plugin-a", .int 1), ("babel-plugin-babel-plugin-a", .int 2)]

/-- A remote with a package that has the conventional name for the plugin of the engine. -/
def Query.rivalled : Query → Option Outcome
  | .download "/n/@babel/plugin-x/package.json" _ =>
    some (.ok (.files (.ofList
      [("/n/@babel/plugin-x/package.json", "\x7b\x7d".toUTF8.toList)])))
  | .download "/n/@babel/plugin-x" _ =>
    some (.ok (.files (.ofList [("/n/@babel/plugin-x/index.json", "2".toUTF8.toList)])))
  | .download path _ => some (.error (Fault.unfetchable path none))
  | _ => none

theorem World.rivalled_admits : (World.steady Query.rivalled).Admits := by
  refine steady_admits fun q o h => ?_
  unfold Query.rivalled at h
  split at h <;> cases h <;> exact trivial

/-- The install of a file of a package, of which only the package matters. -/
def Wanted.file : Wanted := ⟨.plugin, "x/lib", 7, .null⟩

theorem Wanted.ordinary_labels {σ : Type} (u : Setup) (w : World σ) (moves : Nat) (s : σ) :
    ∀ l ∈ u.labels w [.install file] moves s, l.Ordinary :=
  List.forall_mem_cons.2 ⟨fun _ hv => by simp at hv,
    fun l h => (Host.internal_labels w moves _ s l h).ordinary⟩

/-- A built-in module in a host that installs something else. -/
theorem builtin_kept_one_plugin :
    ∃ ls h, Setup.onePlugin.builtins.Distinct ∧ Setup.onePlugin.Runs ls h ∧
      (∀ l ∈ ls, l.Ordinary) ∧
      (("x", .int 1) : String × Value) ∈ Setup.onePlugin.builtins.ofKind .plugin ∧
      (h.workspace.inventory.value .plugin "x" = .int 1 ∨
        Setup.onePlugin.Lately ls h (Host.Replaces Setup.onePlugin .plugin "x")) := by
  have hr := Setup.onePlugin.runs_run World.rivalled_admits [.install .file] 10 ()
  have ordinary := Wanted.ordinary_labels Setup.onePlugin (.steady Query.rivalled) 10 ()
  have member : (("x", .int 1) : String × Value) ∈ Setup.onePlugin.builtins.ofKind .plugin :=
    List.mem_singleton.2 rfl
  exact ⟨_, _, Setup.onePlugin_distinct, hr, ordinary, member,
    Host.builtin_kept Setup.onePlugin_distinct hr ordinary member⟩

/-- A built-in module loses its value to a package that has the conventional name for it, and does
not have it to begin with if it is named by the short name of another one. -/
theorem builtin_can_change :
    (¬ ∀ ls h, Setup.onePlugin.Runs ls h → (∀ l ∈ ls, l.Ordinary) →
        h.workspace.inventory.value .plugin "x" = .int 1) ∧
      (Setup.crossed.builtins.plugins.map fun m => PackageName.short .plugin m.1).Nodup ∧
      Setup.crossed.host.workspace.inventory.value .plugin "babel-plugin-a" = .int 2 := by
  refine ⟨fun always => ?_, by decide, by rfl⟩
  have hr := Setup.onePlugin.runs_run World.rivalled_admits [.install .file] 33 ()
  have replaced : (match ((Setup.onePlugin.host.start [.install .file]).run
        (.steady Query.rivalled) 33 ()).1.workspace.inventory.value .plugin "x" with
      | .int n => decide (n = 2)
      | _ => false) = true := by decide +kernel
  rw [always _ _ hr (Wanted.ordinary_labels _ _ _ _)] at replaced
  cases replaced

end PluginHost
