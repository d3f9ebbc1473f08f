import PluginHost.Proofs.Compiling.Provisions
import PluginHost.Proofs.Host.Spellings

/-!
A compile that is done over again. It finds everything that it needs, so it asks for nothing but one
transformation, and nothing is evaluated or dropped on its account.
-/
namespace PluginHost

variable {u : Setup} {s : Settings} {r : CompileRequest} {c d : Workspace} {n : Needs}
  {fresh : TaskId} {b : TaskId} {p : Nat} {v : Task} {kind : ModuleKind} {names : List String}

/-- What a workspace keeps of another one: its files, what was evaluated, and every name of an
installed module. -/
structure Workspace.Keeps (c d : Workspace) : Prop where
  fingerprint : d.fingerprint = c.fingerprint
  store : d.store = c.store
  evaluator : d.evaluator = c.evaluator
  generation : d.inventory.generation = c.inventory.generation
  names : ∀ kind name, c.inventory.contains kind name = true →
    d.inventory.contains kind name = true

namespace Workspace

theorem Keeps.refl (c : Workspace) : c.Keeps c := ⟨rfl, rfl, rfl, rfl, fun _ _ hn => hn⟩

theorem Keeps.trans {e : Workspace} (hd : c.Keeps d) (he : d.Keeps e) : c.Keeps e where
  fingerprint := he.fingerprint.trans hd.fingerprint
  store := he.store.trans hd.store
  evaluator := he.evaluator.trans hd.evaluator
  generation := he.generation.trans hd.generation
  names kind name hn := he.names kind name (hd.names kind name hn)

theorem Keeps.installed (hk : c.Keeps d) (hn : c.installed kind names = true) :
    d.installed kind names = true :=
  List.all_eq_true.2 fun name hm => hk.names kind name (List.all_eq_true.1 hn name hm)

/-- A workspace in which the needs of a request are met. -/
structure Suffices (s : Settings) (r : CompileRequest) (n : Needs) (c : Workspace) : Prop where
  settings : c.settings = s
  active : c.fingerprint = some r.fingerprint
  prepared : ∀ attempt, ∃ comp, Work.prepare attempt r s = .ok comp ∧ comp.needs = n
  meets : c.Meets n
  ready : n.hasMacros = true → c.store.ready = true
  sound : c.inventory.Sound
  keyed : c.inventory.Keyed

theorem Suffices.keeps (hc : c.Suffices s r n) (hk : c.Keeps d) (settings : d.settings = s)
    (sound : d.inventory.Sound) (keyed : d.inventory.Keyed) : d.Suffices s r n where
  settings := settings
  active := hk.fingerprint.trans hc.active
  prepared := hc.prepared
  meets := ⟨hk.installed hc.meets.1, hk.installed hc.meets.2⟩
  ready macros := by rw [hk.store, hc.ready macros]
  sound := sound
  keyed := keyed

theorem addBundled_of_installed (hn : c.installed .plugin names = true) :
    c.addBundled names = (.ok (), c) := by
  induction names with
  | nil => rfl
  | cons name names ih =>
    obtain ⟨first, rest⟩ : c.inventory.contains .plugin name = true ∧
      c.installed .plugin names = true := by simpa [Workspace.installed] using hn
    unfold Workspace.addBundled
    rw [first]
    split
    · rename_i none
      cases none
    · exact ih rest

end Workspace

namespace Work

theorem prepare_attempt {a : Nat} {comp : Compilation} (hp : prepare a r s = .ok comp) (b : Nat) :
    prepare b r s = .ok { comp with attempt := b } := by
  obtain ⟨config, engineConfig, plugins, presets, hc, he, hl, hr, rfl⟩ := prepare_eq_ok hp
  unfold prepare
  simp [hc, he, hl, hr, bind, Except.bind, pure, Except.pure]

theorem compile_again (hc : c.Suffices s r n) :
    ∃ comp, comp.needs = n ∧ (compile r c).2 = .call (.needsInstalled comp) (.installAll n) ∧
      c.Keeps (compile r c).1 := by
  obtain ⟨comp, prepared, rfl⟩ := hc.prepared c.compiles.started
  have active : c.begun r = { c with compiles := c.compiles.start.2 } := by
    simp [Workspace.begun, Workspace.activate, hc.active]
  have begins : (Job.compile r).Begins 0 c (installNeeds comp (c.begun r)) :=
    .compileBegun (hc.settings ▸ prepared)
  have started : compile r c = installNeeds comp { c with compiles := c.compiles.start.2 } :=
    active ▸ begins.eq
  rw [started]
  exact ⟨comp, rfl, rfl, ⟨rfl, rfl, rfl, rfl, fun _ _ hn => hn⟩⟩

theorem install_again {w : Wanted} (fresh : TaskId) (hc : c.Suffices s r n)
    (found : c.inventory.contains w.kind w.name = true) :
    ∃ v, (install fresh w c).2 = .finish (.ok (.value v)) ∧ c.Keeps (install fresh w c).1 := by
  obtain ⟨⟨key, m⟩, hf⟩ := Option.isSome_iff_exists.1 found
  obtain ⟨i, spelt⟩ := hc.keyed.spells hc.sound hf
  have generation : i.generation = c.inventory.generation := by
    obtain ⟨j, m', -, rfl⟩ := Inventory.addAlias_eq_ok spelt
    rfl
  have goes : install fresh w c = ({ c with inventory := i }, .finish (.ok (.value m.value))) :=
    (Job.Begins.installThere hf spelt).eq
  rw [goes]
  exact ⟨_, rfl, rfl, rfl, rfl, generation, fun _ _ hn => hc.sound.contains_addAlias spelt hn⟩

end Work

/-- A module that is among the needs of a configuration. -/
def Wanted.Needed (n : Needs) (w : Wanted) : Prop :=
  w.kind = .plugin ∧ w.name ∈ n.plugins ∨ w.kind = .preset ∧ w.name ∈ n.presets

theorem Workspace.Meets.contains {w : Wanted} (hc : c.Meets n) (hw : w.Needed n) :
    c.inventory.contains w.kind w.name = true := by
  obtain ⟨hk, hm⟩ | ⟨hk, hm⟩ := hw
  · exact hk ▸ List.all_eq_true.1 hc.1 _ hm
  · exact hk ▸ List.all_eq_true.1 hc.2 _ hm

namespace Task

/-- A task that installs what is installed already. -/
inductive Helping (n : Needs) : Task → Prop where
  | begin {w : Wanted} (needed : w.Needed n) : Helping n ⟨.begin (.installOne w), []⟩
  | install {w : Wanted} (needed : w.Needed n) : Helping n ⟨.begin (.install w), [.oneTried w]⟩
  | told {w : Wanted} {x : Reply} : Helping n ⟨.resume (.ok x), [.oneTried w]⟩
  | ended {x : Reply} : Helping n ⟨.resume (.ok x), []⟩

/-- The task `b` of a compile that is done over again. It has not asked the engine yet, or waits for
the answer, or has got one. -/
inductive Repeating (r : CompileRequest) (b : TaskId) (n : Needs) : Nat → Task → Prop where
  | begin : Repeating r b n 0 ⟨.begin (.compile r), []⟩
  | installing {comp : Compilation} :
      Repeating r b n 0 ⟨.begin (.installAll n), [.needsInstalled comp]⟩
  | opening {comp : Compilation} (macros : n.hasMacros = true) :
      Repeating r b n 0 ⟨.begin (.openStore n.contextId), [.macrosReady n, .needsInstalled comp]⟩
  | opened {comp : Compilation} {x : Reply} :
      Repeating r b n 0 ⟨.resume (.ok x), [.macrosReady n, .needsInstalled comp]⟩
  | gathering {comp : Compilation} {us : List TaskId} {st : Stage}
      (round : st = .pluginsInstalled n 0 ∨ st = .presetsInstalled n 0)
      (helpers : ∀ t ∈ us, b < t) :
      Repeating r b n 0 ⟨.gathering us, [st, .needsInstalled comp]⟩
  | gathered {comp : Compilation} {x : Reply} {st : Stage}
      (round : st = .pluginsInstalled n 0 ∨ st = .presetsInstalled n 0) :
      Repeating r b n 0 ⟨.resume (.ok x), [st, .needsInstalled comp]⟩
  | installed {comp : Compilation} {x : Reply} :
      Repeating r b n 0 ⟨.resume (.ok x), [.needsInstalled comp]⟩
  | asking {comp : Compilation} {code : String} {config : EngineConfig} {registry : Registry} :
      Repeating r b n 1 ⟨.asking (.transform code config registry), [.transformed comp]⟩
  | answered {comp : Compilation} {t : Transformed} :
      Repeating r b n 2 ⟨.resume (.ok (.transformed t)), [.transformed comp]⟩
  | ended {o : Outcome} : Repeating r b n 2 ⟨.resume o, []⟩

theorem Helping.waits (hv : v.Helping n) : v.waits = false := by cases hv <;> rfl

end Task

namespace Host

variable {h k m : Host} {q : Cue} {ss : List Stage} {t : TaskId} {l : Label} {ls : List Label}

theorem repeating_gather {comp : Compilation} {st : Stage} (hb : b < h.tasks.length)
    (round : st = .pluginsInstalled n 0 ∨ st = .presetsInstalled n 0) (js : List Job) :
    (h.moved [.needsInstalled comp] (.gather st js)).Repeating r b n 0 := by
  cases js with
  | nil => exact .gathered round
  | cons j js =>
    exact .gathering round fun t ht => Nat.lt_of_lt_of_le hb (List.mem_range'_1.1 ht).1

theorem needed_of_jobs {j : Job} (hn : ∀ name ∈ names, (n.wanted kind name).Needed n)
    (hj : j ∈ Work.jobs n kind names) : ∃ w : Wanted, w.Needed n ∧ j = .installOne w := by
  obtain ⟨name, hm, rfl⟩ := List.mem_map.1 hj
  exact ⟨_, hn name hm, rfl⟩

/-- What the task of a compile that is done over again does by its move. -/
structure Repeated (r : CompileRequest) (b : TaskId) (n : Needs) (p : Nat) (h : Host) (q : Cue)
    (ss : List Stage) : Prop where
  keeps : h.workspace.Keeps (h.next q).1
  helpers : ∀ j ∈ (h.next q).2.jobs, ∃ w : Wanted, w.Needed n ∧ j = .installOne w
  goes : ((h.moved ss (h.next q).2).Repeating r b n p ∧ p ≠ 1 ∧ (h.next q).2.label b = .moved b) ∨
    p = 0 ∧ (h.moved ss (h.next q).2).Repeating r b n 1 ∧ ∃ code config registry,
      (h.next q).2.label b = .asked b (.transform code config registry)

/-- A move that starts and asks nothing. -/
theorem Repeated.plain {d : Workspace} {m : Move} (hn : h.next q = (d, m))
    (keeps : h.workspace.Keeps d) (jobs : m.jobs = []) (label : m.label b = .moved b)
    (goes : (h.moved ss m).Repeating r b n p) (hp : p ≠ 1) : h.Repeated r b n p q ss := by
  refine ⟨hn ▸ keeps, fun j hj => ?_, .inl ⟨hn ▸ goes, hp, hn ▸ label⟩⟩
  rw [hn, jobs] at hj
  cases hj

/-- A move that gathers the installations of a round. -/
theorem Repeated.round {comp : Compilation} {st : Stage} (hb : b < h.tasks.length)
    (hn : h.next q = (h.workspace, .gather st (Work.jobs n kind names)))
    (side : st = .pluginsInstalled n 0 ∨ st = .presetsInstalled n 0)
    (needed : ∀ name ∈ names, (n.wanted kind name).Needed n) :
    h.Repeated r b n 0 q [.needsInstalled comp] := by
  refine ⟨hn ▸ .refl _, fun j hj => ?_, .inl ⟨?_, by simp, hn ▸ rfl⟩⟩
  · rw [hn] at hj
    exact needed_of_jobs needed hj
  · rw [hn]
    exact repeating_gather hb side _

theorem repeated (hc : h.workspace.Suffices s r n) (task : h.tasks[b]? = some v)
    (hv : v.Repeating r b n p) (cue : h.cue? b = some (q, ss)) : h.Repeated r b n p q ss := by
  have hb := lt_of_cue? cue
  have begin_ {j : Job} {rest : List Stage} (task : h.tasks[b]? = some ⟨.begin j, rest⟩) :
      q = .begin j ∧ ss = rest := by
    obtain ⟨rfl, rfl⟩ := cue?_inj cue (cue?_eq_begin.2 task)
    exact ⟨rfl, rfl⟩
  have told {o : Outcome} {st : Stage} {rest : List Stage}
      (task : h.tasks[b]? = some ⟨.resume o, st :: rest⟩) : q = .told st o ∧ ss = rest := by
    obtain ⟨rfl, rfl⟩ := cue?_inj cue (cue?_eq_told.2 task)
    exact ⟨rfl, rfl⟩
  have round : Work.installRound n 0 h.workspace =
      (h.workspace, .gather (.pluginsInstalled n 0) (Work.jobs n .plugin n.plugins)) :=
    Work.installRound_of_ok (Workspace.addBundled_of_installed hc.meets.1)
  cases hv with
  | begin =>
    obtain ⟨rfl, rfl⟩ := begin_ task
    obtain ⟨comp, -, hm, keeps⟩ := Work.compile_again hc
    have hn : h.next (.begin (.compile r)) = ((Work.compile r h.workspace).1,
        .call (.needsInstalled comp) (.installAll n)) := Prod.ext rfl hm
    exact .plain hn keeps rfl rfl .installing (by simp)
  | @installing comp =>
    obtain ⟨rfl, rfl⟩ := begin_ task
    by_cases macros : n.hasMacros = true
    · have hn : h.next (.begin (.installAll n)) =
          (h.workspace, .call (.macrosReady n) (.openStore n.contextId)) :=
        next_of_begins (.macrosFirst macros)
      exact .plain hn (.refl _) rfl rfl (.opening macros) (by simp)
    · have hn : h.next (.begin (.installAll n)) = Work.installRound n 0 h.workspace :=
        next_of_begins (.roundFirst (by simpa using macros))
      exact .round hb (hn.trans round) (.inl rfl) fun name hm => .inl ⟨rfl, hm⟩
  | opening macros =>
    obtain ⟨rfl, rfl⟩ := begin_ task
    have hn : h.next (.begin (.openStore n.contextId)) = (h.workspace, .done) :=
      next_of_begins (.storeOpen (hc.ready macros))
    exact .plain hn (.refl _) rfl rfl .opened (by simp)
  | opened =>
    obtain ⟨rfl, rfl⟩ := told task
    exact .round hb round (.inl rfl) fun name hm => .inl ⟨rfl, hm⟩
  | gathering round helpers => simp [cue?, task] at cue
  | gathered side =>
    obtain rfl | rfl := side
    · obtain ⟨rfl, rfl⟩ := told task
      exact .round hb rfl (.inr rfl) fun name hm => .inr ⟨rfl, hm⟩
    · obtain ⟨rfl, rfl⟩ := told task
      have hn (x : Reply) : h.next (.told (.presetsInstalled n 0) (.ok x)) =
          (h.workspace, .done) := by
        simp [next, Cue.move, Stage.resume, Work.presetsInstalled, hc.meets.1, hc.meets.2]
      exact .plain (hn _) (.refl _) rfl rfl .installed (by simp)
  | installed =>
    obtain ⟨rfl, rfl⟩ := told task
    exact ⟨⟨rfl, rfl, rfl, rfl, fun _ _ hn => hn⟩, fun j hj => (by cases hj),
      .inr ⟨rfl, .asking, _, _, _, rfl⟩⟩
  | asking => simp [cue?, task] at cue
  | answered =>
    obtain ⟨rfl, rfl⟩ := told task
    exact .plain rfl ⟨rfl, rfl, rfl, rfl, fun _ _ hn => hn⟩ rfl rfl .ended (by simp)
  | ended => simp [cue?, task] at cue

/-- A helper finds its module installed, and its move starts and asks nothing. -/
theorem helped (hc : h.workspace.Suffices s r n) (task : h.tasks[t]? = some v)
    (hv : v.Helping n) (cue : h.cue? t = some (q, ss)) :
    h.workspace.Keeps (h.next q).1 ∧ (h.moved ss (h.next q).2).Helping n ∧
      (h.next q).2.jobs = [] ∧ (h.next q).2.label t = .moved t := by
  cases hv with
  | begin needed =>
    obtain ⟨rfl, rfl⟩ := cue?_inj cue (cue?_eq_begin.2 task)
    exact ⟨.refl _, .install needed, rfl, rfl⟩
  | install needed =>
    obtain ⟨rfl, rfl⟩ := cue?_inj cue (cue?_eq_begin.2 task)
    obtain ⟨x, hm, keeps⟩ :=
      Work.install_again h.tasks.length hc (hc.meets.contains needed)
    refine ⟨keeps, ?_⟩
    rw [show (h.next (.begin (.install _))).2 = _ from hm]
    exact ⟨.told, rfl, rfl⟩
  | told =>
    obtain ⟨rfl, rfl⟩ := cue?_inj cue (cue?_eq_told.2 task)
    exact ⟨.refl _, .ended, rfl, rfl⟩
  | ended => simp [cue?, task] at cue

/-- What the engine answers, as a label says. -/
def Label.verdict? : Label → Option Outcome
  | .answered _ (.transform ..) o => some o
  | _ => none

/-- A host on which the compile of a request is done over again by the task `b`, while nothing else
is at work. -/
structure Again (u : Setup) (r : CompileRequest) (b : TaskId) (n : Needs) (c : Workspace)
    (ls : List Label) (h : Host) : Prop where
  before : ∀ t < b, ∃ o, h.outcome? t = some o
  own : ∃ v p, h.tasks[b]? = some v ∧ v.Repeating r b n p ∧ ls.countP Label.asks = min p 1 ∧
    (p ≠ 2 → ls.filterMap Label.verdict? = [])
  helpers : ∀ t v, b < t → h.tasks[t]? = some v → v.Helping n
  keeps : c.Keeps h.workspace
  asks : ∀ t q, .asked t q ∈ ls → ∃ code config registry, q = .transform code config registry

namespace Again

/-- A step that is labelled as a move, after which the task of the compile has asked as often as
before. -/
theorem moved (hi : h.Again u r b n c ls) (hs : Step h (.moved t) k)
    (own : ∀ {v : Task} {p : Nat}, h.tasks[b]? = some v → v.Repeating r b n p →
      ∃ x, k.tasks[b]? = some x ∧ x.Repeating r b n p)
    (helpers : ∀ t v, b < t → k.tasks[t]? = some v → v.Helping n)
    (keeps : h.workspace.Keeps k.workspace) : k.Again u r b n c (ls ++ [.moved t]) := by
  obtain ⟨v, p, task, repeating, count, silent⟩ := hi.own
  obtain ⟨x, hx, same⟩ := own task repeating
  refine ⟨fun i lt => ?_, ⟨x, p, hx, same, ?_, fun hp => ?_⟩, helpers, hi.keeps.trans keeps,
    fun i q hm => hi.asks i q (by simpa using hm)⟩
  · obtain ⟨o, ended⟩ := hi.before i lt
    exact ⟨o, hs.ended ended⟩
  · simpa [Label.asks] using count
  · simpa [Label.verdict?] using silent hp

/-- The tasks that are told of the end of another one go on as before. -/
theorem heard {o : Outcome} (hi : h.Again u r b n c ls)
    (ended : h.tasks[t]? = some ⟨.resume o, []⟩) (hv : h.tasks[b]? = some v)
    (repeating : v.Repeating r b n p) : (v.hear t o).Repeating r b n p := by
  cases goes : v.waits with
  | false => rwa [Task.hear_of_waits goes]
  | true =>
    cases repeating with
    | @gathering comp us st round members =>
      by_cases hm : t ∈ us
      · obtain ⟨x, rfl⟩ : ∃ x, o = .ok x := by
          generalize hw : (⟨.resume o, []⟩ : Task) = w at ended
          cases hi.helpers t w (members t hm) ended with
          | ended =>
            cases hw
            exact ⟨_, rfl⟩
          | _ => cases hw
        by_cases last : us.all (· = t) = true
        · have heard : (⟨.gathering us, [st, .needsInstalled comp]⟩ : Task).hear t (.ok x) =
              ⟨.resume (.ok .nothing), [st, .needsInstalled comp]⟩ := by
            simp [Task.hear, Task.afterEnd?, hm, Outcome.isFailure, last]
          exact heard ▸ .gathered round
        · have heard : (⟨.gathering us, [st, .needsInstalled comp]⟩ : Task).hear t (.ok x) =
              ⟨.gathering (us.filter (· ≠ t)), [st, .needsInstalled comp]⟩ := by
            simp [Task.hear, Task.afterEnd?, hm, Outcome.isFailure, last]
          exact heard ▸ .gathering round fun i hi => members i (List.mem_filter.1 hi).1
      · have heard : (⟨.gathering us, [st, .needsInstalled comp]⟩ : Task).hear t o =
            ⟨.gathering (us.filter (· ≠ t)), [st, .needsInstalled comp]⟩ := by
          simp [Task.hear, Task.afterEnd?, hm]
        exact heard ▸ .gathering round fun i hi => members i (List.mem_filter.1 hi).1
    | _ => cases goes

/-- A step at which only turns change. -/
theorem still (hi : h.Again u r b n c ls) (hl : l.Silent) (tasks : k.tasks = h.tasks)
    (workspace : k.workspace = h.workspace) : k.Again u r b n c (ls ++ [l]) := by
  obtain ⟨v, p, task, repeating, count, silent⟩ := hi.own
  refine ⟨fun t lt => ?_, ⟨v, p, tasks ▸ task, repeating, ?_, fun hp => ?_⟩,
    fun t v lt hv => hi.helpers t v lt (tasks ▸ hv), workspace ▸ hi.keeps, fun t q hm => ?_⟩
  · rw [outcome?, tasks]
    exact hi.before t lt
  · cases l <;> first | exact hl.elim | simpa [Label.asks] using count
  · cases l <;> first | exact hl.elim | simpa [Label.verdict?] using silent hp
  · refine hi.asks t q ((List.mem_append.1 hm).resolve_right fun hm => ?_)
    obtain rfl := List.mem_singleton.1 hm
    exact hl

/-- The tasks behind that of the compile, but the one that moves, after a move that starts none but
helpers. -/
theorem helping_of_move (hi : h.Again u r b n c ls)
    (tasks : k.tasks = (h.move t ss (h.next q).2).1.tasks)
    (jobs : ∀ j ∈ (h.next q).2.jobs, ∃ w : Wanted, w.Needed n ∧ j = .installOne w) {i : TaskId}
    (lt : b < i) (hv : k.tasks[i]? = some v) (hne : i ≠ t) : v.Helping n := by
  obtain old | ⟨-, j, hj, rfl⟩ := getElem?_of_move hne (tasks ▸ hv)
  · exact hi.helpers i v lt old
  · obtain ⟨w, needed, rfl⟩ := jobs j hj
    exact .begin needed

/-- The task of the compile goes on, or it asks the engine. -/
theorem went_own (hc : h.workspace.Suffices s r n) (hi : h.Again u r b n c ls)
    (hs : Step h ((h.next q).2.label b) k) (cue : h.cue? b = some (q, ss))
    (workspace : k.workspace = (h.next q).1)
    (tasks : k.tasks = (h.move b ss (h.next q).2).1.tasks) :
    k.Again u r b n c (ls ++ [(h.next q).2.label b]) := by
  obtain ⟨v, p, task, repeating, count, silent⟩ := hi.own
  have placed : k.tasks[b]? = some (h.moved ss (h.next q).2) :=
    getElem?_moved (lt_of_cue? cue) tasks
  have own := repeated hc task repeating cue
  have helpers (i : TaskId) (x : Task) (lt : b < i) (hx : k.tasks[i]? = some x) : x.Helping n :=
    hi.helping_of_move tasks own.helpers lt hx (Nat.ne_of_gt lt)
  obtain ⟨-, -, hl⟩ | ⟨rfl, asking, code, config, registry, hl⟩ := own.goes
  · rw [hl] at hs ⊢
    refine hi.moved hs (fun {v p} hv repeating => ⟨_, placed, ?_⟩) helpers (workspace ▸ own.keeps)
    obtain ⟨same, -⟩ | ⟨-, -, _, _, _, asked⟩ := (repeated hc hv repeating cue).goes
    · exact same
    · cases hl.symm.trans asked
  · rw [hl]
    refine ⟨fun i lt => ?_, ⟨_, 1, placed, asking, ?_, fun _ => ?_⟩, helpers,
      hi.keeps.trans (workspace ▸ own.keeps), fun i q hm => ?_⟩
    · obtain ⟨o, ended⟩ := hi.before i lt
      exact ⟨o, hs.ended ended⟩
    · simpa [Label.asks] using count
    · simpa [Label.verdict?] using silent (by simp)
    · obtain hm | hm := List.mem_append.1 hm
      · exact hi.asks i q hm
      · cases List.mem_singleton.1 hm
        exact ⟨code, config, registry, rfl⟩

/-- A helper goes on. -/
theorem went_helper (hc : h.workspace.Suffices s r n) (hi : h.Again u r b n c ls)
    (hs : Step h ((h.next q).2.label t) k) (cue : h.cue? t = some (q, ss)) (gt : b < t)
    (workspace : k.workspace = (h.next q).1)
    (tasks : k.tasks = (h.move t ss (h.next q).2).1.tasks) :
    k.Again u r b n c (ls ++ [(h.next q).2.label t]) := by
  have placed : k.tasks[t]? = some (h.moved ss (h.next q).2) :=
    getElem?_moved (lt_of_cue? cue) tasks
  obtain ⟨x, hx⟩ : ∃ x, h.tasks[t]? = some x :=
    ⟨_, List.getElem?_eq_getElem (lt_of_cue? cue)⟩
  obtain ⟨keeps, helping, jobs, hl⟩ := helped hc hx (hi.helpers t x gt hx) cue
  rw [hl] at hs ⊢
  refine hi.moved hs (fun {v p} hv repeating => ⟨v, ?_, repeating⟩) (fun i y lt hy => ?_)
    (workspace ▸ keeps)
  · exact kept_of_move (Nat.ne_of_lt gt) hv tasks
  · by_cases he : i = t
    · subst he
      obtain rfl := Option.some.inj (placed.symm.trans hy)
      exact helping
    · exact hi.helping_of_move tasks (fun j hj => by simp [jobs] at hj) lt hy he

/-- The compile hears the first answer of the engine, which is not a failure. -/
theorem answered {q : Query} {o : Outcome} (hi : h.Again u r b n c ls)
    (hs : Step h (.answered b q o) k) (asked : h.tasks[b]? = some ⟨.asking q, ss⟩)
    (admits : q.Admits o) (workspace : k.workspace = h.workspace)
    (tasks : k.tasks = h.tasks.set b ⟨.resume o, ss⟩)
    (heard : ∀ p, ((ls ++ [Label.answered b q o]).filterMap Label.verdict?).head? = some p →
      p.isFailure = false) : k.Again u r b n c (ls ++ [.answered b q o]) := by
  obtain ⟨v, p, task, repeating, count, silent⟩ := hi.own
  obtain rfl := Option.some.inj (task.symm.trans asked)
  cases repeating with
  | @asking comp code config registry =>
    have first : o.isFailure = false := heard o (by
      rw [List.filterMap_append, silent (by simp)]
      rfl)
    obtain ⟨x, rfl⟩ : ∃ x, o = .ok (.transformed x) := by
      cases o with
      | error f => cases first
      | ok x => cases x <;> first | exact admits.elim | exact ⟨_, rfl⟩
    have after : k.tasks[b]? = some ⟨.resume (.ok (.transformed x)), [.transformed comp]⟩ := by
      rw [tasks, List.getElem?_set_self (List.getElem?_eq_some_iff.1 asked).1]
    refine ⟨fun i lt => ?_, ⟨_, 2, after, .answered, ?_, fun hp => (hp rfl).elim⟩,
      fun i x lt hx => ?_, workspace ▸ hi.keeps, fun i q hm => hi.asks i q (by simpa using hm)⟩
    · obtain ⟨o, ended⟩ := hi.before i lt
      exact ⟨o, hs.ended ended⟩
    · simpa [Label.asks] using count
    · rw [tasks, List.getElem?_set_ne (Nat.ne_of_lt lt)] at hx
      exact hi.helpers i x lt hx

theorem step (hc : h.workspace.Suffices s r n) (hi : h.Again u r b n c ls) (hs : Step h l k)
    (internal : l.Internal)
    (heard : ∀ o, ((ls ++ [l]).filterMap Label.verdict?).head? = some o → o.isFailure = false) :
    k.Again u r b n c (ls ++ [l]) := by
  have effect := hs.effect
  cases effect with
  | quiet still silent workspace tasks => exact hi.still silent tasks workspace
  | @move t q ss k turn cue workspace tasks =>
    rcases Nat.lt_trichotomy t b with lt | rfl | gt
    · obtain ⟨o, ended⟩ := hi.before t lt
      cases (outcome?_of_cue? cue).symm.trans ended
    · exact hi.went_own hc hs cue workspace tasks
    · exact hi.went_helper hc hs cue gt workspace tasks
  | @announce t o k turn ended workspace tasks =>
    refine hi.moved hs (fun {v p} hv repeating => ⟨v.hear t o, ?_, hi.heard ended hv repeating⟩)
      (fun i x lt hx => ?_) (workspace ▸ .refl _)
    · rw [tasks, List.getElem?_map, hv]
      rfl
    · rw [tasks, List.getElem?_map] at hx
      obtain ⟨v, hv, rfl⟩ := Option.map_eq_some_iff.1 hx
      have helping := hi.helpers i v lt hv
      rwa [Task.hear_of_waits helping.waits]
  | @answer t q o ss k turn asked admits workspace tasks =>
    rcases Nat.lt_trichotomy t b with lt | rfl | gt
    · obtain ⟨o, ended⟩ := hi.before t lt
      cases (outcome?_eq asked).symm.trans ended
    · exact hi.answered hs asked admits workspace tasks heard
    · generalize hv : (⟨.asking q, ss⟩ : Task) = x at asked
      cases hi.helpers t x gt asked <;> cases hv
  | start => exact internal.elim
  | change => exact internal.elim

end Again

theorem suffices_of_equipped (hr : u.Runs ls h) (he : h.workspace.Equipped u.settings r) :
    ∃ n, h.workspace.Suffices u.settings r n := by
  obtain ⟨comp, rfl, prepared, meets, ready⟩ := he.supplied
  exact ⟨comp.needs, (from_of_runs hr).settings, he.active,
    fun attempt => ⟨_, Work.prepare_attempt prepared attempt, rfl⟩, meets, ready,
    sound_of_runs hr, keyed_of_runs hr⟩

/-- When the compile of a request is started on a host on which every task has ended. -/
theorem Again.start (rest : ∀ t < h.tasks.length, ∃ o, h.outcome? t = some o)
    (hs : Step h (.started [.compile r]) k) :
    k.Again u r h.tasks.length n h.workspace [] := by
  have workspace : k.workspace = h.workspace ∧
      k.tasks = h.tasks ++ [⟨.begin (.compile r), []⟩] := by
    cases hs with
    | start idle => exact ⟨rfl, rfl⟩
  obtain ⟨workspace, tasks⟩ := workspace
  refine ⟨fun t lt => ?_, ⟨_, 0, ?_, .begin, rfl, fun _ => rfl⟩, fun t v lt hv => ?_,
    workspace ▸ .refl _, fun t q hm => by cases hm⟩
  · obtain ⟨o, ended⟩ := rest t lt
    exact ⟨o, hs.ended ended⟩
  · rw [tasks, List.getElem?_concat_length]
  · have bound := (List.getElem?_eq_some_iff.1 hv).1
    rw [tasks, List.length_append, List.length_singleton] at bound
    exact (Nat.not_lt_of_le (Nat.le_of_lt_succ bound) lt).elim

/-- When a request was compiled with success on a host where nothing else was at work, compiling it
once more asks for nothing but one transformation, unless the engine fails at it. Nothing is
evaluated and the installed modules are not dropped; and the compile ends, with its transformation
asked for, when nothing is left to be done. -/
theorem compile_repeats {p : Reply} {xs ys zs : List Label} {g m' : Host}
    (hr : u.Runs xs h) (rest : ∀ t < h.tasks.length, ∃ o, h.outcome? t = some o)
    (first : Step h (.started [.compile r]) k) (hk : Steps k ys m) (alone : ∀ l ∈ ys, l.Internal)
    (done : m.outcome? h.tasks.length = some (.ok p))
    (again : Step m (.started [.compile r]) g) (hg : Steps g zs m') (still : ∀ l ∈ zs, l.Internal)
    (heard : ∀ o, (zs.filterMap Label.verdict?).head? = some o → o.isFailure = false) :
    (∀ t q, .asked t q ∈ zs → ∃ code config registry, q = .transform code config registry) ∧
      m'.workspace.evaluator = m.workspace.evaluator ∧
      m'.workspace.inventory.generation = m.workspace.inventory.generation ∧
      zs.countP Label.asks ≤ 1 ∧
      (∀ o, m'.outcome? m.tasks.length = some o → zs.countP Label.asks = 1) ∧
      (m'.Rests → ∃ o, m'.outcome? m.tasks.length = some o) := by
  obtain ⟨equipped, ended⟩ := equipped_of_compiled hr rest first hk alone done
  have hm : u.Runs (xs ++ [.started [.compile r]] ++ ys) m := (hr.snoc first).trans hk
  obtain ⟨needs, enough⟩ := suffices_of_equipped hm equipped
  have hm' := hm.snoc again
  have kept : (∀ l ∈ zs, l.Internal) →
      (∀ o, (zs.filterMap Label.verdict?).head? = some o → o.isFailure = false) →
        m'.Again u r m.tasks.length needs m.workspace zs := by
    refine Steps.forward (P := fun zs k => (∀ l ∈ zs, l.Internal) →
      (∀ o, (zs.filterMap Label.verdict?).head? = some o → o.isFailure = false) →
        k.Again u r m.tasks.length needs m.workspace zs) (fun _ _ => .start ended again) ?_ hg
    intro ls h k l hh ih hs internal heard
    have hi := ih (fun l hl => internal l (by simp [hl])) fun o ho => heard o (by
      rw [List.filterMap_append, List.head?_append, ho]
      rfl)
    have hr := hm'.trans hh
    have enough := enough.keeps hi.keeps (from_of_runs hr).settings (sound_of_runs hr)
      (keyed_of_runs hr)
    exact hi.step enough hs (internal l (by simp)) heard
  have hi := kept still heard
  obtain ⟨v, phase, task, repeating, count, -⟩ := hi.own
  refine ⟨hi.asks, hi.keeps.evaluator, hi.keeps.generation, count ▸ Nat.min_le_right .., ?_, ?_⟩
  · intro o ended
    obtain rfl := Task.outcome?_eq_some.1 ((outcome?_eq task).symm.trans ended)
    cases repeating with
    | ended => exact count
  · intro rests
    have hr := hm'.trans hg
    obtain ⟨roots, hf⟩ := fits_of_runs hr
    obtain ⟨root, job, -⟩ := hf.tasks task
    exact rests.idle.ended (awake_of_runs hr) hf job

end Host

/-- An engine that returns all code as it is. -/
def Query.unchanged : Query → Option Outcome
  | .transform code _ _ => some (.ok (.transformed ⟨code, .object []⟩))
  | _ => none

theorem World.unchanged_admits : (World.steady Query.unchanged).Admits := by
  refine steady_admits fun q o h => ?_
  unfold Query.unchanged at h
  split at h <;> cases h
  exact trivial

/-- A compile is done over again, to its end. -/
theorem compile_repeats_env :
    ∃ ls h k zs m, Setup.envOnly.Runs ls h ∧ Host.Step h (.started [.compile .env]) k ∧
      Host.Steps k zs m ∧ m.Rests ∧ zs.countP Host.Label.asks = 1 ∧
      m.workspace.evaluator = h.workspace.evaluator := by
  let w := World.steady Query.unchanged
  let k := Setup.envOnly.host.start [.compile .env]
  let m := (k.run w 25 ()).1
  let g := m.start [.compile .env]
  have hk : Host.Steps k (Host.labels w 25 k ()) m := Host.steps_run World.unchanged_admits 25 k ()
  have hg : Host.Steps g (Host.labels w 25 g ()) (g.run w 25 ()).1 :=
    Host.steps_run World.unchanged_admits 25 g ()
  have idle : m.turn = none := by decide +kernel
  obtain ⟨p, done⟩ : ∃ p, m.outcome? 0 = some (.ok p) := by
    have success : (m.outcome? 0).any (!·.isFailure) = true := by decide +kernel
    cases ho : m.outcome? 0 with
    | none => simp [ho] at success
    | some o =>
      cases o with
      | error f => simp [ho, Outcome.isFailure] at success
      | ok p => exact ⟨p, rfl⟩
  have heard : ∀ o, ((Host.labels w 25 g ()).filterMap Host.Label.verdict?).head? = some o →
      o.isFailure = false := by
    have success : ((Host.labels w 25 g ()).filterMap Host.Label.verdict?).head?.all
        (!·.isFailure) = true := by decide +kernel
    intro o ho
    simpa [ho] using success
  have rests : (g.run w 25 ()).1.Rests := Host.Idle.rests (by decide +kernel)
  have hr : Setup.envOnly.Runs [] Setup.envOnly.host := .refl
  obtain ⟨-, evaluator, -, -, asked, ends⟩ := Host.compile_repeats hr
    (fun t ht => absurd ht (Nat.not_lt_zero t)) (.start rfl) hk (Host.internal_labels w 25 k ())
    done (.start idle) hg (Host.internal_labels w 25 g ()) heard
  obtain ⟨o, ended⟩ := ends rests
  exact ⟨_, m, g, _, _, (hr.snoc (.start rfl)).trans hk, .start idle, hg, rests, asked o ended,
    evaluator⟩

end PluginHost
