import PluginHost.Proofs.Host.Outcomes

/-!
How the installed modules change along a run, and what was installed since they were last dropped.
-/
namespace PluginHost

variable {c d : Workspace} {u : Setup} {s : Settings} {E : Expectation} {q : Cue} {w : Wanted}

/-- An installation starts a task only for a name that nothing was found under. -/
theorem Work.install_cases (fresh : TaskId) (c : Workspace) (hq : q.For s E (.install w)) :
    (∃ o, (q.move fresh c).2 = .finish o) ∨ (∃ t, (q.move fresh c).2 = .await .passOn t) ∨
      q = .begin (.install w) ∧ c.inventory.contains w.kind w.name = false ∧
        (q.move fresh c).2 = .launch (.installOwned w.key) (.installFresh w) := by
  have goes := q.goes fresh c
  generalize q.move fresh c = x at goes
  cases hq with
  | begin =>
    cases goes with
    | installThere | installUnspelt => exact .inl ⟨_, rfl⟩
    | installJoined => exact .inr (.inl ⟨_, rfl⟩)
    | installLaunched missing => exact .inr (.inr ⟨rfl, by simp [Inventory.contains, missing], rfl⟩)
  | told awaits gives =>
    cases awaits <;> cases goes <;> exact .inl ⟨_, rfl⟩

/-- Induction along the registration of the bundled plugins among some names. -/
theorem Workspace.addBundled_induction {P : Inventory → Prop} (names : List String)
    (register : ∀ i name path v, lookup? name c.settings.bundled = some path →
      c.host.import? path = .ok v → i.contains .plugin name = false → P i →
      P (i.register .plugin name v none true))
    (hc : P c.inventory) : P (c.addBundled names).2.inventory := by
  induction names generalizing c with
  | nil => exact hc
  | cons name names ih =>
    unfold Workspace.addBundled
    split
    · rename_i path hb hn
      split
      · rename_i v hv
        exact ih register (register _ name path v hb hv hn hc)
      · exact hc
    · exact ih register hc

theorem Workspace.generation_addBundled (c : Workspace) (names : List String) :
    (c.addBundled names).2.inventory.generation = c.inventory.generation :=
  addBundled_induction (P := fun i => i.generation = c.inventory.generation) names
    (fun i name path v _ _ _ hi => by simp [hi]) rfl

/-- Registering bundled plugins adds nothing but what the host modules export. -/
theorem Workspace.slotValue_addBundled {names : List String} {kind : ModuleKind} {key : String}
    {v : Value} (hv : (c.addBundled names).2.inventory.slotValue (kind, key) = some v) :
    c.inventory.slotValue (kind, key) = some v ∨ kind = .plugin ∧ ∃ name path,
      lookup? name c.settings.bundled = some path ∧ c.host.import? path = .ok v := by
  refine addBundled_induction (c := c)
    (P := fun i => ∀ v, i.slotValue (kind, key) = some v →
      c.inventory.slotValue (kind, key) = some v ∨ kind = .plugin ∧ ∃ name path,
        lookup? name c.settings.bundled = some path ∧ c.host.import? path = .ok v)
    names ?_ (fun _ => .inl) v hv
  intro i name path x listed there _ hi y hy
  rw [Inventory.slotValue_register] at hy
  split at hy
  · rename_i he
    obtain ⟨rfl, -⟩ := Prod.mk.inj he
    obtain rfl := Option.some.inj hy
    exact .inr ⟨rfl, name, path, listed, there⟩
  · exact hi y hy

theorem Workspace.fingerprint_addBundled (c : Workspace) (names : List String) :
    (c.addBundled names).2.fingerprint = c.fingerprint := by
  induction names generalizing c with
  | nil => rfl
  | cons name names ih =>
    unfold Workspace.addBundled
    split
    · split
      · exact ih _
      · rfl
    · exact ih c

/-- A round goes on with the plugins when those that come with the host are registered. -/
theorem Work.installRound_of_ok {n : Needs} {round : Nat}
    (done : c.addBundled n.plugins = (.ok (), d)) : installRound n round c =
      (d, .gather (.pluginsInstalled n round) (jobs n .plugin n.plugins)) := by
  rw [installRound, done]

/-- Activating a configuration drops the modules of another one. -/
theorem Workspace.activate_cases (c : Workspace) (fingerprint : String) :
    (c.activate fingerprint).2.fingerprint = some fingerprint ∧
      ((c.activate fingerprint).2.inventory = c.inventory ∧
          (c.fingerprint = none ∨ c.fingerprint = some fingerprint) ∨
        (c.activate fingerprint).2.inventory = c.inventory.reset) := by
  unfold Workspace.activate
  split
  · rename_i hf
    exact ⟨rfl, .inl ⟨rfl, .inl hf⟩⟩
  · rename_i active hf
    split
    · rename_i he
      exact ⟨he ▸ hf, .inl ⟨rfl, .inr (he ▸ hf)⟩⟩
    · exact ⟨rfl, .inr rfl⟩

/-- The task that has the turn installs an export that it fetched from a package. -/
def Host.Installs (h : Host) (w : Wanted) (package : String) (v : Value) : Prop :=
  ∃ t i r ss d, h.turn = some t ∧ h.cue? t = some (.told (.fetched i package) (.ok r), ss) ∧
    i.wanted = w ∧ h.workspace.evaluate (Work.modulePath h.workspace package) = (.ok v, d) ∧
      v.isNothing = false

/-- Labels of steps by which no caller installs a module behind the host's back. -/
def Host.Label.Ordinary : Host.Label → Prop
  | .started js => ∀ w, Job.installFresh w ∉ js
  | .changed (.register ..) | .changed (.addAlias ..) => False
  | _ => True

/-- The task that has the turn is about to install what a name stands for. -/
def Host.Wants (h : Host) (kind : ModuleKind) (name : String) : Prop :=
  ∃ t w ss, h.turn = some t ∧ h.cue? t = some (.begin (.install w), ss) ∧ w.kind = kind ∧
    w.name = name

/-- What a step may make of the installed modules. -/
inductive Host.Shifts (u : Setup) (h : Host) : Inventory → Prop where
  | same : Shifts u h h.workspace.inventory
  | reset : Shifts u h (.seeded u.builtins (h.workspace.inventory.generation + 1))
  | spell {kind : ModuleKind} {name key : String} {m : Installed} {i : Inventory}
      (found : h.workspace.inventory.find? kind name = some (key, m))
      (spelt : h.workspace.inventory.addAlias kind name key = .ok i) (wants : h.Wants kind name) :
      Shifts u h i
  | bundle {names : List String} : Shifts u h (h.workspace.addBundled names).2.inventory
  | install {w : Wanted} {package : String} {v : Value} (installs : h.Installs w package v) :
      Shifts u h (h.workspace.inventory.register w.kind w.name v (some package) false)

namespace Host

variable {h k m : Host} {l : Label} {ls : List Label}

theorem Effect.shifts (hw : h.workspace.From u) (hs : Effect h l k) (ho : l.Ordinary) :
    Shifts u h k.workspace.inventory := by
  have forgets : Shifts u h h.workspace.inventory.reset := by
    rw [Inventory.reset, hw.builtins]
    exact .reset
  have activate (fingerprint : String) :
      Shifts u h (h.workspace.activate fingerprint).2.inventory := by
    obtain ⟨-, ⟨he, -⟩ | he⟩ := h.workspace.activate_cases fingerprint
    · exact he ▸ .same
    · exact he ▸ forgets
  cases hs with
  | quiet still silent workspace => exact workspace ▸ .same
  | announce turn ended workspace => exact workspace ▸ .same
  | answer turn asked admits workspace => exact workspace ▸ .same
  | start idle workspace => exact workspace ▸ .same
  | @move t q ss k turn cue workspace =>
    rw [workspace]
    cases q.does h.tasks.length h.workspace with
    | nothing alike => exact (show (h.next q).1.inventory = _ from alike.inventory) ▸ .same
    | activate alike =>
      exact (show (h.next _).1.inventory = _ from alike.inventory) ▸ activate _
    | forget alike =>
      rw [show (h.next q).1.inventory = _ from alike.inventory]
      exact forgets
    | spell found spelt alike =>
      rw [show (h.next _).1.inventory = _ from alike.inventory]
      exact .spell found spelt ⟨t, _, ss, turn, cue, rfl, rfl⟩
    | bundle alike =>
      rw [show (h.next q).1.inventory = _ from alike.inventory]
      exact .bundle
    | @register i package r v d e evaluated given alike =>
      rw [show (h.next _).1.inventory = _ from alike.inventory]
      exact .install ⟨t, i, r, ss, e, turn, cue, rfl, evaluated, given⟩
  | @change change k idle workspace =>
    rw [workspace]
    cases change with
    | forgetModules => exact forgets
    | reset includeStore => exact forgets
    | resetCache => exact forgets
    | activate fingerprint => exact activate fingerprint
    | register => exact ho.elim
    | addAlias => exact ho.elim
    | _ => exact .same

end Host

/-- At some moment of a run, after its modules were last dropped, `P` held. -/
def Setup.Lately (u : Setup) (ls : List Host.Label) (h : Host) (P : Host → Prop) : Prop :=
  ∃ before l after m k, ls = before ++ l :: after ∧ u.Runs before m ∧ Host.Step m l k ∧
    Host.Steps k after h ∧ P m ∧ k.workspace.inventory.generation = h.workspace.inventory.generation

namespace Setup.Lately

variable {h k : Host} {l : Host.Label} {ls : List Host.Label} {P : Host → Prop}

theorem now (hr : u.Runs ls h) (hs : Host.Step h l k) (hp : P h) : u.Lately (ls ++ [l]) k P :=
  ⟨ls, l, [], h, k, rfl, hr, hs, .refl, hp, rfl⟩

theorem snoc (hl : u.Lately ls h P) (hs : Host.Step h l k)
    (hg : k.workspace.inventory.generation = h.workspace.inventory.generation) :
    u.Lately (ls ++ [l]) k P := by
  obtain ⟨before, first, after, m, n, rfl, hm, hn, hh, hp, same⟩ := hl
  exact ⟨before, first, after ++ [l], m, n, by simp, hm, hn, hh.snoc hs, hp, same.trans hg.symm⟩

end Setup.Lately

end PluginHost
