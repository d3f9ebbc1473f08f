import PluginHost.Proofs.Store.Moves

/-!
What moves do to the lists of the installations and of the compiles on their way. Most leave both
alone. The others put an installation or a compile on its list, take it off, or say how far a
compile has come, and whoever does so waits at a stage that stands for the entry.
-/
namespace PluginHost

/-- The installation that a task is to run. -/
def Job.installs? : Job → Option Wanted
  | .installFresh w => some w
  | _ => none

/-- What is listed of a compile that waits at a stage: its number and how far it has come. -/
def Stage.progress? : Stage → Option (Nat × CompileState)
  | .needsInstalled comp => some (comp.attempt, .installing)
  | .transformed comp => some (comp.attempt, .transforming)
  | .storeOpened comp | .engineMended comp => some (comp.attempt, .recovering)
  | _ => none

/-- Whether a stage stands for an entry of one of the lists. -/
def Stage.listed : Stage → Bool
  | .installOwned _ => true
  | st => st.progress?.isSome

def Cue.progress? : Cue → Option (Nat × CompileState)
  | .begin _ => none
  | .told st _ => st.progress?

/-- Whether a cue is for a compile, which is to begin or to go on. -/
def Cue.compiles : Cue → Bool
  | .begin (.compile _) => true
  | q => q.progress?.isSome

/-- Whether a task that gets a cue begins a compile, or waited for an entry of one of the lists. -/
def Cue.listed : Cue → Bool
  | .told (.installOwned _) _ => true
  | q => q.compiles

def Move.progress? (m : Move) : Option (Nat × CompileState) := m.stage?.bind Stage.progress?

/-- How far a compile may have come next. -/
inductive CompileState.Precedes : CompileState → CompileState → Prop where
  | configured : Precedes .resolvingConfig .installing
  | installed : Precedes .installing .transforming
  | failed : Precedes .transforming .recovering
  | mended : Precedes .recovering .installing

namespace Move

/-- A move that starts no installation and leaves nobody to wait for an entry of the lists. -/
structure Unlisted (m : Move) : Prop where
  jobs : ∀ j ∈ m.jobs, j.installs? = none
  stage : ∀ st, m.stage? = some st → st.listed = false

namespace Unlisted

variable {st : Stage} {j : Job}

theorem finish {o : Outcome} : (Move.finish o).Unlisted :=
  ⟨fun _ hj => (by cases hj), fun _ hst => (by cases hst)⟩

theorem call (hs : st.listed = false) : (Move.call st j).Unlisted :=
  ⟨fun _ hj => (by cases hj), fun _ hst => Option.some.inj hst ▸ hs⟩

theorem await {u : TaskId} (hs : st.listed = false) : (Move.await st u).Unlisted :=
  ⟨fun _ hj => (by cases hj), fun _ hst => Option.some.inj hst ▸ hs⟩

theorem launch (hs : st.listed = false) (hj : j.installs? = none) : (Move.launch st j).Unlisted :=
  ⟨fun _ hi => List.mem_singleton.1 hi ▸ hj, fun _ hst => Option.some.inj hst ▸ hs⟩

theorem gather {n : Needs} {kind : ModuleKind} {names : List String} (hs : st.listed = false) :
    (Move.gather st (Work.jobs n kind names)).Unlisted := by
  refine ⟨fun j hj => ?_, fun _ hst => Option.some.inj hst ▸ hs⟩
  obtain ⟨name, -, rfl⟩ := List.mem_map.1 hj
  rfl

theorem ask {q : Query} (hs : st.listed = false) : (Move.ask st q).Unlisted :=
  ⟨fun _ hj => (by cases hj), fun _ hst => Option.some.inj hst ▸ hs⟩

end Unlisted

end Move

/-- Workspaces with the same lists of installations and compiles. -/
structure Workspace.Level (c d : Workspace) : Prop where
  installing : d.installing = c.installing
  compiles : d.compiles = c.compiles

namespace Workspace

variable {c d e : Workspace}

theorem Level.refl (c : Workspace) : c.Level c := ⟨rfl, rfl⟩

theorem Level.trans (hd : c.Level d) (he : d.Level e) : c.Level e :=
  ⟨he.installing.trans hd.installing, he.compiles.trans hd.compiles⟩

theorem level_addBundled (c : Workspace) (names : List String) :
    c.Level (c.addBundled names).2 := by
  obtain ⟨i, goes⟩ := c.addBundled_frame names
  rw [goes]
  exact ⟨rfl, rfl⟩

theorem level_activate (c : Workspace) (fp : String) : c.Level (c.activate fp).2 := by
  obtain ⟨i, e, resets, goes⟩ := c.activate_frame fp
  rw [goes]
  exact ⟨rfl, rfl⟩

/-- Callers do not touch the lists. -/
theorem level_after (c : Workspace) (change : Change) : c.Level (c.after change) := by
  cases change with
  | activate fp => exact c.level_activate fp
  | _ => exact ⟨rfl, rfl⟩

end Workspace

namespace Table

variable {κ α : Type} [DecidableEq κ]

/-- What is taken out of a table might as well never have been put there. -/
theorem erase_insert (t : Table κ α) (k : κ) (v : α) : (t.insert k v).erase k = t.erase k := by
  have same (es : List (κ × α)) :
      (putEntry k v es).filter (fun e => e.1 ≠ k) = es.filter (fun e => e.1 ≠ k) := by
    induction es with
    | nil => simp [putEntry]
    | cons e es ih =>
      by_cases he : e.1 = k
      · simp [putEntry, he]
      · simp only [putEntry, he, if_false, List.filter_cons]
        rw [ih]
  simp only [insert, erase, same]

end Table

theorem Compiles.finish_enter (c : Compiles) (attempt : Nat) (s : CompileState) :
    (c.enter attempt s).finish attempt = c.finish attempt := by
  simp only [enter, finish, Table.erase_insert]

/-- What the move upon a cue does to the lists. -/
inductive Cue.Lists (fresh : TaskId) (c : Workspace) : Cue → Workspace × Move → Prop where
  | aside {q : Cue} {d : Workspace} {m : Move} (level : c.Level d)
      (cue : q.listed = false) (move : m.Unlisted) :
      Lists fresh c q (d, m)
  | launches {w : Wanted} (missing : c.inventory.find? w.kind w.name = none)
      (free : c.installing.get? w.key = none) :
      Lists fresh c (.begin (.install w))
        ({ c with installing := c.installing.insert w.key fresh },
          .launch (.installOwned w.key) (.installFresh w))
  | settles {key : ModuleName} {o : Outcome} :
      Lists fresh c (.told (.installOwned key) o)
        ({ c with installing := c.installing.erase key }, .finish o)
  | starts {r : CompileRequest} {comp : Compilation} {d : Workspace}
      (attempt : comp.attempt = c.compiles.started) (installing : d.installing = c.installing)
      (compiles : d.compiles = c.compiles.start.2.enter c.compiles.started .installing) :
      Lists fresh c (.begin (.compile r)) (d, .call (.needsInstalled comp) (.installAll comp.needs))
  /-- A configuration that cannot be resolved ends a compile at once. -/
  | refuses {r : CompileRequest} {o : Outcome} {d : Workspace}
      (installing : d.installing = c.installing)
      (compiles : d.compiles = c.compiles.start.2.finish c.compiles.started) :
      Lists fresh c (.begin (.compile r)) (d, .finish o)
  | proceeds {q : Cue} {d : Workspace} {m : Move} {attempt : Nat} {s s' : CompileState}
      (cue : q.progress? = some (attempt, s)) (move : m.progress? = some (attempt, s'))
      (precedes : s.Precedes s') (jobs : m.jobs = []) (installing : d.installing = c.installing)
      (compiles : d.compiles = c.compiles.enter attempt s') : Lists fresh c q (d, m)
  | concludes {q : Cue} {d : Workspace} {o : Outcome} {attempt : Nat} {s : CompileState}
      (cue : q.progress? = some (attempt, s)) (installing : d.installing = c.installing)
      (compiles : d.compiles = c.compiles.finish attempt) : Lists fresh c q (d, .finish o)
  /-- An answer of another form than the engine's. -/
  | misled {comp : Compilation} {r : Reply} (odd : ∀ t, r ≠ .transformed t) :
      Lists fresh c (.told (.transformed comp) (.ok r)) (c, .unexpected)

open Cue.Lists Move.Unlisted

variable {c : Workspace} {fresh : TaskId} {o : Outcome} {q : Cue} {r : Workspace × Move}

theorem Needs.Rounds.lists {n : Needs} {round : Nat} (hr : n.Rounds round c r)
    (unlisted : q.listed = false) : q.Lists fresh c r := by
  cases hr with
  | gathers => exact aside (c.level_addBundled _) unlisted (gather rfl)
  | fails => exact aside (c.level_addBundled _) unlisted finish

theorem Job.Begins.lists {j : Job} (hr : j.Begins fresh c r) : (Cue.begin j).Lists fresh c r := by
  cases hr with
  | installLaunched missing free => exact launches missing free
  | @compileBegun r comp prepared =>
    have level := Workspace.level_activate { c with compiles := c.compiles.start.2 } r.fingerprint
    obtain ⟨_, _, _, _, -, -, -, -, rfl⟩ := Work.prepare_eq_ok prepared
    exact starts rfl level.installing
      (congrArg (Compiles.enter · c.compiles.started .installing) level.compiles)
  | @compileRefused r =>
    have level := Workspace.level_activate { c with compiles := c.compiles.start.2 } r.fingerprint
    exact refuses level.installing
      (congrArg (Compiles.finish · c.compiles.started) level.compiles)
  | roundFirst => exact (Work.rounds_installRound ..).lists rfl
  | storeJoined | installJoined => exact aside (.refl c) rfl (await rfl)
  | fetchJoined => exact aside ⟨rfl, rfl⟩ rfl (await rfl)
  | storeLaunched | fetchLaunched => exact aside ⟨rfl, rfl⟩ rfl (launch rfl rfl)
  | projectAsked | downloadAsked => exact aside (.refl c) rfl (ask rfl)
  | recovers | resolves | installBegun | oneBegun | macrosFirst | payloadRead | handled
  | warmupBegun => exact aside (.refl c) rfl (call rfl)
  | storeOpen | projectless | fetchKnown | fetchThere | unrecoverable | installThere
  | installUnspelt | payloadRejected => exact aside ⟨rfl, rfl⟩ rfl finish

theorem Stage.Resumes.lists {st : Stage} (hr : st.Resumes c o r) :
    (Cue.told st o).Lists fresh c r := by
  cases hr with
  | installEnded => exact settles
  | needsInstalled => exact proceeds rfl rfl .installed rfl rfl rfl
  | engineUnready | engineMends => exact proceeds rfl rfl .failed rfl rfl rfl
  | storeOpened | engineMended => exact proceeds rfl rfl .mended rfl rfl rfl
  | needsFailed | transformed | storeUnopened | engineUnmended => exact concludes rfl rfl rfl
  | engineSpent | engineRefused => exact concludes rfl rfl (c.compiles.finish_enter ..)
  | engineOdd odd => exact misled odd
  | macrosReady | roundRepeated => exact (Work.rounds_installRound ..).lists rfl
  | pluginsInstalled => exact aside (.refl c) rfl (gather rfl)
  | placedFirst | literalAbsent | storeReady | named | evaluationMends | evaluationMended =>
    exact aside ⟨rfl, rfl⟩ rfl (call rfl)
  | _ => exact aside ⟨rfl, rfl⟩ rfl finish

/-- What every move does to the lists of installations and compiles. -/
theorem Cue.lists (q : Cue) (fresh : TaskId) (c : Workspace) :
    q.Lists fresh c (q.move fresh c) := by
  cases q with
  | begin j => exact (j.begins fresh c).lists
  | told st o => exact (st.resumes o c).lists

end PluginHost
