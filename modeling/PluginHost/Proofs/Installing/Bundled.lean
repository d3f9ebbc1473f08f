import PluginHost.Proofs.Host.Causes
import PluginHost.Proofs.Host.Replay
import PluginHost.Proofs.Installing.Hits

/-!
Installs of plugins that come with the host. A round registers them before it starts its installs,
so that such an install finds its plugin and has nothing to fetch. What was registered can be
dropped while an install waits for its turn, though: then it goes to the remote like any other.
-/
namespace PluginHost

namespace Inventory

variable {c d i : Inventory} {kind : ModuleKind} {key name : String}

/-- Nothing was dropped, and every name that was found is found. -/
structure Extends (c d : Inventory) : Prop where
  generation : d.generation = c.generation
  contains : ∀ kind name, c.contains kind name = true → d.contains kind name = true

namespace Extends

theorem refl (c : Inventory) : c.Extends c := ⟨rfl, fun _ _ => id⟩

theorem trans (hd : c.Extends d) (hi : d.Extends i) : c.Extends i where
  generation := hi.generation.trans hd.generation
  contains kind name found := hi.contains kind name (hd.contains kind name found)

theorem addAlias (sound : c.Sound) (spelt : c.addAlias kind name key = .ok i) : c.Extends i where
  generation := by
    obtain ⟨j, m, -, rfl⟩ := addAlias_eq_ok spelt
    rfl
  contains _ _ found := sound.contains_addAlias spelt found

theorem register (sound : c.Sound) (kind : ModuleKind) (name : String) (v : Value)
    (canonical : Option String) (builtin : Bool) :
    c.Extends (c.register kind name v canonical builtin) where
  generation := generation_register ..
  contains _ _ found := (sound.register kind name v canonical builtin).contains
    ((answers_of_contains found).imp (·.register ..) (·.register ..))

end Extends

/-- A name that was registered is found. -/
theorem Sound.contains_register (sound : c.Sound) (kind : ModuleKind) (name : String) (v : Value)
    (canonical : Option String) (builtin : Bool) :
    (c.register kind name v canonical builtin).contains kind name = true := by
  refine (sound.register kind name v canonical builtin).contains (.inl ?_)
  simp [aliases_register, bound]

end Inventory

namespace Workspace

variable {c d : Workspace} {names : List String} {name path : String}

theorem extends_addBundled (sound : c.inventory.Sound) (names : List String) :
    (c.addBundled names).2.inventory.Sound ∧ c.inventory.Extends (c.addBundled names).2.inventory :=
  addBundled_induction (P := fun i => i.Sound ∧ c.inventory.Extends i) names
    (fun _ _ _ _ _ _ _ hi => ⟨hi.1.register .., hi.2.trans (.register hi.1 ..)⟩)
    ⟨sound, .refl _⟩

end Workspace

namespace Work

variable {s : Settings} {E : Expectation} {q : Cue} {n n' : Needs} {round again : Nat}
  {js : List Job} {fresh : TaskId} {c d : Workspace}

end Work

namespace Host

variable {u : Setup} {h k m : Host} {l : Label} {ls rs : List Label} {t i : TaskId} {w : Wanted}
  {x : Task} {d : Inventory} {name path : String} {v : Value}

theorem Shifts.extends_or_drops (hs : Shifts u h d) (sound : h.workspace.inventory.Sound) :
    h.workspace.inventory.Extends d ∨ h.workspace.inventory.generation < d.generation := by
  cases hs with
  | same => exact .inl (.refl _)
  | reset => exact .inr (by simp)
  | spell found spelt => exact .inl (.addAlias sound spelt)
  | bundle => exact .inl (Workspace.extends_addBundled sound _).2
  | install => exact .inl (.register sound ..)

/-- Whatever happens, either all names that were found are found still or the modules were
dropped. -/
theorem Step.extends_or_drops (hr : u.Runs ls h) (hs : Step h l k) :
    h.workspace.inventory.Extends k.workspace.inventory ∨
      h.workspace.inventory.generation < k.workspace.inventory.generation := by
  have sound := sound_of_runs hr
  by_cases ordinary : l.Ordinary
  · exact (hs.effect.shifts (from_of_runs hr) ordinary).extends_or_drops sound
  · cases hs.effect with
    | quiet still silent workspace => exact .inl (workspace ▸ .refl _)
    | start idle workspace => exact .inl (workspace ▸ .refl _)
    | @move t q => exact (ordinary (by cases (h.next q).2 <;> trivial)).elim
    | @change change k idle workspace =>
      rw [workspace]
      cases change with
      | register kind name v canonical builtin => exact .inl (.register sound ..)
      | addAlias kind spelling name =>
        simp only [Workspace.after]
        cases spelt : h.workspace.inventory.addAlias kind spelling name with
        | error => exact .inl (.refl _)
        | ok i => exact .inl (.addAlias sound spelt)
      | _ => exact (ordinary trivial).elim
    | _ => exact (ordinary trivial).elim

/-- Along any run, either all names that were found are found still or the modules were dropped. -/
theorem Steps.extends_or_drops (hr : u.Runs ls h) (hk : Steps h rs k) :
    h.workspace.inventory.Extends k.workspace.inventory ∨
      h.workspace.inventory.generation < k.workspace.inventory.generation := by
  refine Steps.forward (P := fun _ k => h.workspace.inventory.Extends k.workspace.inventory ∨
    h.workspace.inventory.generation < k.workspace.inventory.generation) (.inl (.refl _)) ?_ hk
  intro rs k m l hk since hs
  obtain grown | dropped := hs.extends_or_drops (hr.trans hk)
  · exact since.imp (·.trans grown) fun earlier => grown.generation ▸ earlier
  · obtain same | earlier := since
    · exact .inr (same.generation ▸ dropped)
    · exact .inr (Nat.lt_trans earlier dropped)

end Host

/-- How a task stands that installs a module which is there: it fetches nothing and waits for
nobody, and it ends well. -/
inductive Task.Glides (w : Wanted) : Task → Prop where
  | started : Glides w ⟨.begin (.installOne w), []⟩
  | installing : Glides w ⟨.begin (.install w), [.oneTried w]⟩
  | installed {v : Value} : Glides w ⟨.resume (.ok (.value v)), [.oneTried w]⟩
  | ended : Glides w ⟨.resume (.ok .nothing), []⟩

theorem Task.Glides.hear {w : Wanted} {x : Task} (hx : x.Glides w) (t : TaskId) (o : Outcome) :
    x.hear t o = x := by
  cases hx <;> rfl

theorem Task.Glides.query? {w : Wanted} {x : Task} (hx : x.Glides w) : x.query? = none := by
  cases hx <;> rfl

theorem Task.Glides.outcome? {w : Wanted} {x : Task} {o : Outcome} (hx : x.Glides w)
    (ended : x.outcome? = some o) : o = .ok .nothing := by
  cases hx with
  | ended => exact (Option.some.inj ended).symm
  | _ => cases ended

namespace Host

variable {u : Setup} {h k m : Host} {l : Label} {ls rs : List Label} {t i : TaskId} {w : Wanted}
  {x : Task} {name path : String} {v : Value}

/-- The install of a module by a task has its turn, and the module is not found. So it goes to the
remote, by itself or along with another install. -/
structure Misses (i : TaskId) (w : Wanted) (h : Host) : Prop where
  turn : h.turn = some i
  cue : h.cue? i = some (.begin (.install w), [.oneTried w])
  absent : h.workspace.inventory.contains w.kind w.name = false
  fetches : (∃ task, (h.next (.begin (.install w))).2 = .await .passOn task) ∨
    (h.next (.begin (.install w))).2 = .launch (.installOwned w.key) (.installFresh w)

/-- On the way from one host to another an install has its turn after the modules were dropped, and
does not find its module. -/
def Strays (i : TaskId) (w : Wanted) (k : Host) (rs : List Label) (m : Host) : Prop :=
  ∃ before after d, rs = before ++ after ∧ Steps k before d ∧ Steps d after m ∧ d.Misses i w ∧
    k.workspace.inventory.generation < d.workspace.inventory.generation

theorem Strays.snoc {n : Host} (hm : k.Strays i w rs m) (hs : Step m l n) :
    k.Strays i w (rs ++ [l]) n := by
  obtain ⟨before, after, d, rfl, first, rest, misses, dropped⟩ := hm
  exact ⟨before, after ++ [l], d, by simp, first, rest.snoc hs, misses, dropped⟩

end Host

/-- Whether the task that has the turn is about to pause. -/
def Host.stops (h : Host) (t : TaskId) : Bool :=
  h.turn = some t && (h.query? t).isNone &&
    match (h.advance t).2 with
    | .paused => true
    | _ => false

/-- A host that comes with a plugin. -/
def Setup.bundling : Setup where
  settings := { Settings.short with bundled := [("b", "m")] }
  modules := [("m", [])]
  plugins := [("babel-plugin-csb-rename-import", .int 1), ("babel-plugin-detective", .int 2)]

def CompileRequest.bundled : CompileRequest where
  code := "a"
  path := "/a.js"
  config := { plugins := some [.text "b"] }
  loader := { disableBuiltin := true }

def Wanted.bundled : Wanted := ⟨.plugin, "b", 7, .null⟩

/-- The host when the first of some compiles is about to start its installs. -/
def Host.bundling (js : List Job) : Host :=
  ((Setup.bundling.host.start js).run (.steady Query.package) 2 ()).1

/-- The host when the installs are started. -/
def Host.bundled (js : List Job) : Host := ((bundling js).advance 0).1.pause

end PluginHost
