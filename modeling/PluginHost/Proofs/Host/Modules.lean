import PluginHost.Proofs.Host.Branches
import PluginHost.Proofs.Module.Inventory

/-!
What a move does to the installed modules. Almost every move leaves them alone, and no step changes
what a workspace was made of.
-/
namespace PluginHost

variable {c d : Workspace} {o : Outcome} {u : Setup}

/-- Workspaces that differ in nothing that installed modules depend on. -/
structure Workspace.Alike (c d : Workspace) : Prop where
  settings : d.settings = c.settings
  host : d.host = c.host
  fingerprint : d.fingerprint = c.fingerprint
  inventory : d.inventory = c.inventory

namespace Workspace.Alike

theorem refl (c : Workspace) : c.Alike c := ⟨rfl, rfl, rfl, rfl⟩

theorem trans {e : Workspace} (hd : c.Alike d) (he : d.Alike e) : c.Alike e where
  settings := he.settings.trans hd.settings
  host := he.host.trans hd.host
  fingerprint := he.fingerprint.trans hd.fingerprint
  inventory := he.inventory.trans hd.inventory

end Workspace.Alike

/-- What the move upon a cue may do to the modules of a workspace. -/
inductive Cue.Does (c : Workspace) : Cue → Workspace → Prop where
  | nothing {q : Cue} {d : Workspace} (alike : c.Alike d) : Does c q d
  | activate {r : CompileRequest} {d : Workspace}
      (alike : (c.activate r.fingerprint).2.Alike d) : Does c (.begin (.compile r)) d
  | forget {q : Cue} {d : Workspace} (alike : c.forgetModules.Alike d) : Does c q d
  /-- An installed module answers to one more spelling. -/
  | spell {w : Wanted} {key : String} {m : Installed} {i : Inventory} {d : Workspace}
      (found : c.inventory.find? w.kind w.name = some (key, m))
      (spelt : c.inventory.addAlias w.kind w.name key = .ok i)
      (alike : { c with inventory := i }.Alike d) : Does c (.begin (.install w)) d
  | bundle {q : Cue} {names : List String} {d : Workspace}
      (alike : (c.addBundled names).2.Alike d) : Does c q d
  | register {i : Installation} {package : String} {r : Reply} {v : Value} {d e : Workspace}
      (evaluated : c.evaluate (Work.modulePath c package) = (.ok v, e))
      (given : v.isNothing = false)
      (alike : (c.register i.wanted.kind i.wanted.name v (some package) false).Alike d) :
      Does c (.told (.fetched i package) (.ok r)) d

/-- A compile begins by making its configuration the active one. -/
theorem Workspace.alike_begun (c : Workspace) (r : CompileRequest) :
    (c.activate r.fingerprint).2.Alike (c.begun r) := by
  unfold begun activate
  dsimp only
  split
  · exact ⟨rfl, rfl, rfl, rfl⟩
  · split <;> exact ⟨rfl, rfl, rfl, rfl⟩

theorem Work.alike_compile {r : CompileRequest} :
    (c.activate r.fingerprint).2.Alike (compile r c).1 := by
  have begins : (Job.compile r).Begins 0 c (compile r c) := begins_compile
  generalize compile r c = x at begins
  cases begins with
  | compileBegun | compileRefused => exact (c.alike_begun r).trans ⟨rfl, rfl, rfl, rfl⟩

open Cue.Does

variable {r : Workspace × Move} {fresh : TaskId}

theorem Needs.Rounds.does {n : Needs} {round : Nat} {q : Cue} (hr : n.Rounds round c r) :
    q.Does c r.1 := by
  cases hr with
  | gathers | fails => exact bundle (.refl _)

theorem Job.Begins.does {j : Job} (hr : j.Begins fresh c r) : (Cue.begin j).Does c r.1 := by
  cases hr with
  | installThere found spelt => exact spell found spelt (.refl _)
  | roundFirst => exact (Work.rounds_installRound ..).does
  | compileBegun | compileRefused => exact activate ((c.alike_begun _).trans ⟨rfl, rfl, rfl, rfl⟩)
  | _ => exact nothing ⟨rfl, rfl, rfl, rfl⟩

theorem Stage.Resumes.does {st : Stage} (hr : st.Resumes c o r) : (Cue.told st o).Does c r.1 := by
  cases hr with
  | registered evaluated given => exact register (Prod.ext evaluated rfl) given ⟨rfl, rfl, rfl, rfl⟩
  | macrosReady | roundRepeated => exact (Work.rounds_installRound ..).does
  | evaluationMended | engineMended => exact forget ⟨rfl, rfl, rfl, rfl⟩
  | _ => exact nothing ⟨rfl, rfl, rfl, rfl⟩

/-- What every move does to the installed modules. -/
theorem Cue.does (q : Cue) (fresh : TaskId) (c : Workspace) : q.Does c (q.move fresh c).1 := by
  cases q with
  | begin j => exact (j.begins fresh c).does
  | told st o => exact (st.resumes o c).does

/-- A workspace with the settings, the host modules and the built-in modules of a setup. -/
structure Workspace.From (u : Setup) (c : Workspace) : Prop where
  settings : c.settings = u.settings
  host : c.host = u.modules
  builtins : c.inventory.builtins = u.builtins

namespace Workspace.From

theorem start (u : Setup) : u.workspace.From u := ⟨rfl, rfl, Inventory.builtins_seeded _ _⟩

theorem alike (hc : c.From u) (hd : c.Alike d) : d.From u :=
  ⟨hd.settings.trans hc.settings, hd.host.trans hc.host,
    (congrArg Inventory.builtins hd.inventory).trans hc.builtins⟩

theorem forgetModules (hc : c.From u) : c.forgetModules.From u :=
  ⟨hc.settings, hc.host, (Inventory.builtins_reset _).trans hc.builtins⟩

theorem activate (hc : c.From u) (fingerprint : String) : (c.activate fingerprint).2.From u := by
  unfold Workspace.activate
  split
  · exact ⟨hc.settings, hc.host, hc.builtins⟩
  · split
    · exact hc
    · exact ⟨hc.settings, hc.host, hc.forgetModules.builtins⟩

theorem register (hc : c.From u) (kind : ModuleKind) (name : String) (v : Value)
    (canonical : Option String) (builtin : Bool) :
    (c.register kind name v canonical builtin).From u :=
  ⟨hc.settings, hc.host, (Inventory.builtins_register ..).trans hc.builtins⟩

theorem addAlias {kind : ModuleKind} {spelling name : String} {i : Inventory} (hc : c.From u)
    (hi : c.inventory.addAlias kind spelling name = .ok i) : { c with inventory := i }.From u := by
  obtain ⟨key, m, -, rfl⟩ := Inventory.addAlias_eq_ok hi
  exact ⟨hc.settings, hc.host, hc.builtins⟩

theorem addBundled (hc : c.From u) (names : List String) : (c.addBundled names).2.From u := by
  induction names generalizing c with
  | nil => exact hc
  | cons name names ih =>
    unfold Workspace.addBundled
    split
    · split
      · exact ih (hc.register ..)
      · exact hc
    · exact ih hc

theorem does {q : Cue} (hc : c.From u) (hq : q.Does c d) : d.From u := by
  cases hq with
  | nothing alike => exact hc.alike alike
  | activate alike => exact (hc.activate _).alike alike
  | forget alike => exact hc.forgetModules.alike alike
  | spell found spelt alike => exact (hc.addAlias spelt).alike alike
  | bundle alike => exact (hc.addBundled _).alike alike
  | register evaluated given alike => exact (hc.register ..).alike alike

theorem after (hc : c.From u) (change : Change) : (c.after change).From u := by
  cases change with
  | forgetModules => exact hc.forgetModules
  | reset includeStore => exact ⟨hc.settings, hc.host, hc.forgetModules.builtins⟩
  | activate fingerprint => exact hc.activate fingerprint
  | register kind name v canonical builtin => exact hc.register ..
  | addAlias kind spelling name =>
    cases hi : c.inventory.addAlias kind spelling name with
    | ok i => simpa [Workspace.after, hi, Except.toOption] using hc.addAlias hi
    | error f => simpa [Workspace.after, hi, Except.toOption] using hc
  | resetCache => exact ⟨hc.settings, hc.host, hc.forgetModules.builtins⟩
  | _ => exact ⟨hc.settings, hc.host, hc.builtins⟩

end Workspace.From

namespace Host

variable {h k : Host} {l : Label} {ls : List Label}

theorem Effect.from (hw : h.workspace.From u) (hs : Effect h l k) : k.workspace.From u := by
  cases hs with
  | quiet still silent workspace => exact workspace ▸ hw
  | @move t q ss k turn cue workspace =>
    exact workspace ▸ hw.does (q.does h.tasks.length h.workspace)
  | announce turn ended workspace => exact workspace ▸ hw
  | answer turn asked admits workspace => exact workspace ▸ hw
  | start idle workspace => exact workspace ▸ hw
  | change idle workspace => exact workspace ▸ hw.after _

/-- A host keeps the settings, the host modules and the built-in modules that it was made with. -/
theorem from_of_runs (hr : u.Runs ls h) : h.workspace.From u :=
  Steps.forward (P := fun _ k => k.workspace.From u) (.start u) (fun _ hk hs => hs.effect.from hk)
    hr

end Host

end PluginHost
