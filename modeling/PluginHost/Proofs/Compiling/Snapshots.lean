import PluginHost.Proofs.Host.Outcomes
import PluginHost.Proofs.Host.Replay

/-!
The registry that a compile hands to the engine. What the configuration needs was found installed,
and the compile has kept its turn since.
-/
namespace PluginHost

variable {s : Settings} {E : Expectation} {u : Setup} {c : Workspace} {q : Cue} {owner : Job}
  {n : Needs} {comp : Compilation} {o : Outcome} {r : Reply} {fresh : TaskId}

/-- A workspace in which everything that is needed is installed. -/
def Workspace.Meets (c : Workspace) (n : Needs) : Prop :=
  c.installed .plugin n.plugins = true ∧ c.installed .preset n.presets = true

/-- A registry in which every plugin and every preset that a configuration names has a module. -/
def Registry.Covers (registry : Registry) (config : EngineConfig) : Prop :=
  ∃ plugins presets, config.pluginNames = .ok plugins ∧ config.presetNames = .ok presets ∧
    (∀ name ∈ plugins, (registry.get? .plugin name).isSome = true) ∧
      ∀ name ∈ presets, (registry.get? .preset name).isSome = true

theorem Workspace.Meets.registered {kind : ModuleKind} {names : List String}
    (hn : c.installed kind names = true) :
    ∀ name ∈ names, (c.inventory.registry.get? kind name).isSome = true :=
  fun name hm => Inventory.registry_of_contains (List.all_eq_true.1 hn name hm)

namespace Work

theorem installRound_ne_ok {round : Nat} : (installRound n round c).2 ≠ .finish (.ok r) := by
  have rounds := rounds_installRound n round c
  generalize installRound n round c = x at rounds
  cases rounds <;> simp [Move.fail]

/-- An installation of everything that is needed succeeds upon a check alone, at the end of a
round. -/
theorem meets_of_installAll (hq : q.For s E (.installAll n))
    (hm : (q.move fresh c).2 = .finish (.ok r)) :
    (∃ round o, q = .told (.presetsInstalled n round) o) ∧ (q.move fresh c).1 = c ∧
      c.Meets n := by
  have goes := q.goes fresh c
  generalize q.move fresh c = x at goes hm ⊢
  cases hq with
  | begin =>
    cases goes with
    | macrosFirst => cases hm
    | roundFirst => exact (installRound_ne_ok hm).elim
  | told awaits gives =>
    cases awaits with
    | macrosReady =>
      cases goes with
      | macrosReady => exact (installRound_ne_ok hm).elim
      | macrosUnready => cases hm
    | pluginsInstalled => cases goes <;> cases hm
    | presetsInstalled =>
      cases goes with
      | roundComplete plugins presets => exact ⟨⟨_, _, rfl⟩, rfl, plugins, presets⟩
      | roundRepeated => exact (installRound_ne_ok hm).elim
      | roundsSpent | presetsFailed => cases hm

/-- A compile asks the engine only once it was told that its modules are installed. -/
theorem told_of_transform {st : Stage} {code : String} {config : EngineConfig}
    {registry : Registry} {request : CompileRequest} (hq : q.For s E (.compile request))
    (hm : (q.move fresh c).2 = .ask st (.transform code config registry)) :
    ∃ comp r, q = .told (.needsInstalled comp) (.ok r) ∧ comp.Prepared s ∧
      st = .transformed comp ∧ comp.request.code = code ∧ comp.config = config ∧
      c.inventory.registry = registry := by
  have goes := q.goes fresh c
  generalize q.move fresh c = x at goes hm
  cases hq with
  | begin => cases goes <;> cases hm
  | told awaits gives =>
    cases awaits with
    | needsInstalled prepared =>
      cases goes with
      | needsInstalled =>
        cases hm
        exact ⟨_, _, rfl, prepared, rfl, rfl, rfl, rfl⟩
      | needsFailed => cases hm
    | transformed | storeOpened | engineMended => cases goes <;> cases hm

end Work

namespace Host

variable {h k : Host} {l : Label} {ls : List Label} {roots : List Job} {t : TaskId}

/-- Whoever was told that its modules are installed has the turn, and they are installed. -/
structure Checked (h : Host) : Prop where
  told : ∀ {t : TaskId} {comp : Compilation} {r : Reply} {ss : List Stage},
    h.tasks[t]? = some ⟨.resume (.ok r), .needsInstalled comp :: ss⟩ →
      h.turn = some t ∧ h.workspace.Meets comp.needs

/-- A task in another state than `h` has it in was not told that its modules are installed. -/
theorem Checked.cue (hi : h.Checked) {i : TaskId} {ss : List Stage}
    (ht : h.tasks[i]? = some ⟨.resume (.ok r), .needsInstalled comp :: ss⟩) :
    h.turn = some i ∧ h.cue? i = some (.told (.needsInstalled comp) (.ok r), ss) :=
  ⟨(hi.told ht).1, cue?_eq_told.2 ht⟩

/-- Only the installation of what a compile needs tells it so, in the move that checks it. -/
theorem Checked.move {ss rest : List Stage} (hf : h.Fits u.settings E roots) (hE : E.Formed u)
    (hc : h.workspace.From u) (cue : h.cue? t = some (q, ss))
    (ht : (h.move t ss (h.next q).2).1.tasks[t]? =
      some ⟨.resume (.ok r), .needsInstalled comp :: rest⟩) :
    (h.next q).2 = .finish (.ok r) ∧ (h.next q).1.Meets comp.needs := by
  obtain ⟨root, owner, hr, frames, hq⟩ := hf.cue cue
  have suits := hf.suits hE hc hq
  obtain ⟨hm, rfl⟩ | ⟨st, hst, ⟨v, hm⟩ | hm⟩ := resume_of_move ht
  · refine ⟨hm, ?_⟩
    cases frames with
    | under outer awaits =>
      cases awaits with
      | needsInstalled prepared =>
        obtain ⟨-, hw, meets⟩ := Work.meets_of_installAll hq hm
        exact hw ▸ meets
  · obtain ⟨rfl, -⟩ := List.cons.inj hst
    rw [hm] at suits
    obtain ⟨j, -, awaits⟩ := suits
    cases awaits
  · obtain ⟨rfl, -⟩ := List.cons.inj hst
    rw [hm] at suits
    cases suits

theorem Checked.effect (hi : h.Checked) (hf : h.Fits u.settings E roots) (hE : E.Formed u)
    (hc : h.workspace.From u) (hs : Effect h l k) : k.Checked := by
  refine ⟨fun {i comp r ss} ht => ?_⟩
  cases hs with
  | quiet still silent workspace tasks =>
    obtain ⟨turn, cue⟩ := hi.cue (tasks ▸ ht)
    simp [still i turn] at cue
  | @move t q ss k turn cue workspace tasks keeps =>
    rw [tasks] at ht
    by_cases he : i = t
    · subst he
      obtain ⟨hm, meets⟩ := Checked.move hf hE hc cue ht
      exact ⟨keeps _ hm, workspace ▸ meets⟩
    · obtain ht | ⟨-, j, -, hj⟩ := getElem?_of_move he ht
      · exact (he (Option.some.inj ((hi.told ht).1.symm.trans turn))).elim
      · cases hj
  | @announce t o k turn ended workspace tasks =>
    rw [tasks, List.getElem?_map] at ht
    obtain ⟨v, hv, heard⟩ := Option.map_eq_some_iff.1 ht
    obtain ⟨root, -, fits⟩ := hf.tasks hv
    obtain rfl | ⟨w, rfl⟩ | ⟨ws, rfl⟩ := resume_of_hear heard
    · obtain rfl := Option.some.inj (turn.symm.trans (hi.told hv).1)
      simp [ended] at hv
    · cases fits with
      | awaiting frames awaits job => cases awaits
    · cases fits with
      | gathering frames awaits jobs => cases awaits
  | @answer t q o ss k turn asked admits workspace tasks =>
    rw [tasks, List.getElem?_set] at ht
    split at ht
    · obtain ⟨root, -, fits⟩ := hf.tasks asked
      split at ht
      · obtain ⟨-, rfl⟩ := by simpa using ht
        cases fits with
        | asking frames awaits => cases awaits
      · cases ht
    · rename_i he
      exact (he (Option.some.inj (turn.symm.trans (hi.told ht).1))).elim
  | start idle workspace tasks =>
    rw [tasks, List.getElem?_append] at ht
    split at ht
    · have := (hi.told ht).1
      simp [idle] at this
    · rw [List.getElem?_map] at ht
      obtain ⟨j, -, hj⟩ := Option.map_eq_some_iff.1 ht
      cases hj
  | change idle workspace tasks =>
    have := (hi.told (tasks ▸ ht)).1
    simp [idle] at this

theorem checked_of_runs (hr : u.Runs ls h) : h.Checked := by
  have hE := Expectation.wellFormed_met u
  refine Steps.forward (P := fun _ k => k.Checked) ⟨fun ht => ?_⟩ (fun hk hi hs => ?_) hr
  · simp [Setup.host] at ht
  · obtain ⟨roots, hf⟩ := fits_of_runs hk
    exact hi.effect hf hE.toFormed (from_of_runs hk) hs.effect

/-- The engine is called by the task of a compile that was told that its modules are installed. -/
theorem Step.transforms {code : String} {config : EngineConfig} {registry : Registry}
    (hr : u.Runs ls h) (hs : Step h (.asked t (.transform code config registry)) k) :
    ∃ comp r ss, h.cue? t = some (.told (.needsInstalled comp) (.ok r), ss) ∧
      k.tasks[t]? = some ⟨.asking (.transform code config registry), .transformed comp :: ss⟩ ∧
        comp.Prepared u.settings ∧ comp.request.code = code ∧ comp.config = config ∧
        h.workspace.inventory.registry = registry := by
  obtain ⟨cue, ss, st, turn, found, hm, ht⟩ := hs.asked
  obtain ⟨roots, hf⟩ := fits_of_runs hr
  have hc := from_of_runs hr
  obtain ⟨root, owner, -, -, hq⟩ := hf.cue found
  have suits := hf.suits (Expectation.wellFormed_met u).toFormed hc hq
  rw [hm] at suits
  generalize hq' : Query.transform code config registry = query at suits
  cases suits with
  | transformed =>
    obtain ⟨comp, r, rfl, prepared, hst, -, -, hregistry⟩ := Work.told_of_transform hq (hq' ▸ hm)
    obtain rfl := Stage.transformed.inj hst
    obtain ⟨rfl, rfl, rfl⟩ := by simpa using hq'
    exact ⟨_, r, ss, found, ht, prepared, rfl, rfl, hregistry⟩
  | _ => cases hq'

/-- Whenever a compile calls the engine, every plugin and every preset of the configuration that was
built for its request has a module in the registry that it hands over. -/
theorem registry_covers_configuration {code : String} {config : EngineConfig} {registry : Registry}
    (hr : u.Runs ls h) (hs : Step h (.asked t (.transform code config registry)) k) :
    ∃ comp ss built,
      k.tasks[t]? = some ⟨.asking (.transform code config registry), .transformed comp :: ss⟩ ∧
        comp.request.code = code ∧ registry = h.workspace.inventory.registry ∧
        u.settings.configure comp.request = .ok built ∧
        u.settings.engineConfig comp.request built = .ok config ∧ registry.Covers built := by
  obtain ⟨comp, r, ss, cue, ht, prepared, hcode, hconfig, hregistry⟩ := hs.transforms hr
  have meets := ((checked_of_runs hr).told (cue?_eq_told.1 cue)).2
  obtain ⟨built, engineConfig, plugins, presets, hb, he, hp, hs, hcomp⟩ :=
    Work.prepare_eq_ok prepared
  have hneeds := congrArg Compilation.needs hcomp
  have hengine := congrArg Compilation.config hcomp
  dsimp only at hneeds hengine
  rw [hneeds] at meets
  refine ⟨comp, ss, built, ht, hcode, hregistry.symm, hb, hconfig ▸ hengine ▸ he, plugins, presets,
    hp, hs, ?_, ?_⟩
  · exact hregistry ▸ Workspace.Meets.registered meets.1
  · exact hregistry ▸ Workspace.Meets.registered meets.2

end Host

/-- A compile reaches the engine. -/
theorem registry_covers_env_configuration :
    ∃ ls h k code config registry, Setup.envOnly.Runs ls h ∧
      Host.Step h (.asked 0 (.transform code config registry)) k ∧
      ∃ comp ss built,
        k.tasks[0]? = some ⟨.asking (.transform code config registry), .transformed comp :: ss⟩ ∧
          comp.request.code = code ∧ registry = h.workspace.inventory.registry ∧
          Setup.envOnly.settings.configure comp.request = .ok built ∧
          Setup.envOnly.settings.engineConfig comp.request built = .ok config ∧
          registry.Covers built := by
  have hr := Setup.runs_run (w := .steady fun _ => none)
    (World.steady_admits (by simp)) Setup.envOnly [.compile .env] 17 ()
  obtain ⟨code, config, registry, hs⟩ := Host.step_transform
    (h := ((Setup.envOnly.host.start [.compile .env]).run (.steady fun _ => none) 17 ()).1) (t := 0)
    (by decide +kernel)
  exact ⟨_, _, _, code, config, registry, hr, hs, Host.registry_covers_configuration hr hs⟩

end PluginHost
