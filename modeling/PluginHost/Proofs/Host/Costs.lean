import Mathlib.Algebra.GroupWithZero.Nat
import PluginHost.Proofs.Host.Waiting

/-!
What jobs may cost. The cost of a job bounds the moves that are made on its behalf, those of the
tasks that it starts included, and every move costs less than what it is made upon was worth.
-/
namespace PluginHost

variable {s : Settings} {c : Workspace} {o : Outcome} {fresh : TaskId} {n : Needs}
  {comp : Compilation} {b : Bool}

/-- How many further paths are fetched on account of a path. -/
def Settings.turns (s : Settings) (path : String) : Nat :=
  Downloads.turns (Path.normalize s.packagesRoot) 3 path

/-- The installation of a single module, with all the recoveries that it may spend. -/
def Settings.moduleCost (s : Settings) : Nat := 174 * s.maxRecoveries + 141

def Settings.modulesCost (s : Settings) (names : List String) : Nat :=
  names.length * (s.moduleCost + 2)

/-- The rounds that follow a round. -/
def Needs.cost (n : Needs) (s : Settings) (round : Nat) : Nat :=
  (s.maxRecoveries - round) * (s.modulesCost n.plugins + s.modulesCost n.presets + 6)

def Needs.fullCost (n : Needs) (s : Settings) : Nat :=
  n.cost s 0 + s.modulesCost n.plugins + s.modulesCost n.presets + 17

/-- The recoveries that a compilation has left, each with a new installation. -/
def Compilation.cost (c : Compilation) (s : Settings) : Nat :=
  (s.maxRecoveries - c.recoveries) * (c.needs.fullCost s + 45)

/-- What it costs a compilation to wait for the store and to start over. Nobody has to in a host
whose store is ready. -/
def Compilation.detour (c : Compilation) (s : Settings) (ready : Bool) : Nat :=
  if ready then 0 else c.needs.fullCost s + 13

namespace Stage

/-- What may be spent from a stage on, in a host whose store is ready or not. -/
def cost (s : Settings) (ready : Bool) : Stage → Nat
  | .downloaded p _ => 10 * s.turns p + 1
  | .literalTried _ => 41
  | .storeReady i => 174 * (s.maxRecoveries - i.attempts) + 123
  | .named i => 174 * (s.maxRecoveries - i.attempts) + 41
  | .fetched i _ => 174 * (s.maxRecoveries - i.attempts) + 1
  | .evaluationMended i => 174 * (s.maxRecoveries - i.attempts) + 133
  | .macrosReady n => n.cost s 0 + s.modulesCost n.plugins + s.modulesCost n.presets + 7
  | .pluginsInstalled n round => n.cost s round + s.modulesCost n.presets + 4
  | .presetsInstalled n round => n.cost s round + 1
  | .needsInstalled c => c.cost s + c.detour s ready + 3
  | .transformed c => c.cost s + c.detour s ready + 1
  | .storeOpened c => c.cost s + c.needs.fullCost s + 4
  | .engineMended c => c.cost s + c.detour s ready + c.needs.fullCost s + 4
  | _ => 1

/-- What a stage may cost besides, if it is told that the store is ready and it no longer is. -/
def excess (s : Settings) : Stage → Nat
  | .storeOpened c => c.detour s false
  | _ => 0

end Stage

def Work.compileCost (s : Settings) (ready : Bool) (r : CompileRequest) : Nat :=
  match Work.prepare 0 r s with
  | .ok c => c.cost s + c.detour s ready + c.needs.fullCost s + 4
  | .error _ => 1

/-- What may be spent on a job in a host whose store is ready or not. -/
def Job.cost (s : Settings) (ready : Bool) : Job → Nat
  | .openStore _ => 9
  | .copyProject _ => 3
  | .fetch p _ => 10 * s.turns (Path.normalize p) + 9
  | .download p _ => 10 * s.turns p + 3
  | .recover .. => 41
  | .resolve _ => 81
  | .installFresh _ => 174 * s.maxRecoveries + 133
  | .install _ => 174 * s.maxRecoveries + 139
  | .installOne _ => s.moduleCost
  | .installAll n => n.fullCost s
  | .compile r => Work.compileCost s ready r
  | .compilePayload payload =>
    match CompileRequest.ofJson payload with
    | .ok r => Work.compileCost s ready r + 2
    | .error _ => 1
  | .handle payload =>
    match CompileRequest.ofJson payload with
    | .ok r => Work.compileCost s ready r + 4
    | .error _ => 3
  | .warmup => Work.compileCost s ready (Work.warmupRequest s) + 2

/-- What a move leaves to be spent, by its own task and by those that it starts. -/
def Move.cost (s : Settings) (ready : Bool) : Move → Nat
  | .finish _ => 0
  | .call st j => st.cost s ready + j.cost s ready
  | .await st _ => st.cost s ready + 2
  | .launch st j => st.cost s ready + j.cost s ready + 4
  | .gather st js => st.cost s ready + 2 + (js.map fun j => j.cost s ready + 2).sum
  | .ask st _ => st.cost s ready + 1

theorem Settings.turns_le (s : Settings) (path : String) : s.turns path ≤ 3 :=
  Downloads.turns_le ..

namespace Work

theorem cost_fetch_le (s : Settings) (b : Bool) (path : String) (contextId : Json) :
    (Job.fetch path contextId).cost s b ≤ 39 := by
  have := s.turns_le (Path.normalize path)
  simp only [Job.cost]
  omega

theorem cost_jobs (n : Needs) (s : Settings) (b : Bool) (kind : ModuleKind) (names : List String) :
    ((jobs n kind names).map fun j => j.cost s b + 2).sum = s.modulesCost names := by
  induction names with
  | nil => simp [jobs, Settings.modulesCost]
  | cons name names ih =>
    simp only [jobs, List.map_cons, List.map_map, List.sum_cons] at ih ⊢
    rw [ih]
    simp only [Settings.modulesCost, List.length_cons, Nat.succ_mul, Job.cost]
    omega

theorem cost_installNeeds : (installNeeds comp c).2.cost s b =
    comp.cost s + comp.detour s b + 3 + comp.needs.fullCost s := rfl

/-- What a compile may cost does not depend on how many there were before. -/
theorem compileCost_eq {attempt : Nat} {r : CompileRequest} (hp : prepare attempt r s = .ok comp) :
    compileCost s b r = comp.cost s + comp.detour s b + comp.needs.fullCost s + 4 := by
  obtain ⟨config, engineConfig, plugins, presets, hc, he, hl, hr, rfl⟩ := prepare_eq_ok hp
  have first : prepare 0 r s = .ok ⟨0, r, engineConfig,
      ⟨plugins, presets, r.engine, r.contextId, r.hasMacros⟩, 0⟩ := by
    simp [prepare, hc, he, hl, hr, bind, Except.bind, pure, Except.pure]
  rw [compileCost, first]
  rfl

theorem compileCost_pos (s : Settings) (b : Bool) (r : CompileRequest) :
    0 < compileCost s b r := by
  unfold compileCost
  split <;> omega

end Work

theorem Job.cost_pos (s : Settings) (b : Bool) (j : Job) : 0 < j.cost s b := by
  cases j with
  | compile r => exact Work.compileCost_pos s b r
  | compilePayload payload | handle payload =>
    simp only [cost]
    split <;> omega
  | _ =>
    simp only [cost, Settings.moduleCost, Needs.fullCost]
    omega

theorem Stage.cost_pos (s : Settings) (b : Bool) (st : Stage) : 0 < st.cost s b := by
  cases st <;> simp only [cost] <;> omega

variable {r : Workspace × Move}

theorem Needs.Rounds.cost_lt {round : Nat} (hr : n.Rounds round c r) (s : Settings) (b : Bool) :
    r.2.cost s b < n.cost s round + s.modulesCost n.plugins + s.modulesCost n.presets + 7 := by
  cases hr with
  | gathers =>
    simp only [Move.cost, Work.cost_jobs, Stage.cost]
    omega
  | fails => exact Nat.succ_pos _

theorem Job.Begins.cost_lt {j : Job} (hr : j.Begins fresh c r) (hs : c.settings = s) (b : Bool) :
    r.2.cost s b < j.cost s b := by
  cases hr with
  | @recovers f a p =>
    have := Work.cost_fetch_le s b p a
    show _ < 41
    simp only [Move.cost, Stage.cost]
    omega
  | @resolves w =>
    have := Work.cost_fetch_le s b (c.metadataPath (PackageName.ofRequest w.name)) w.contextId
    show _ < 81
    simp only [Move.cost, Stage.cost]
    omega
  | installBegun =>
    simp only [Work.attempt, Move.cost, Stage.cost, Job.cost]
    omega
  | @roundFirst n =>
    have := (Work.rounds_installRound n 0 c).cost_lt s b
    simp only [Job.cost, Needs.fullCost]
    omega
  | compileBegun prepared =>
    simp only [Work.cost_installNeeds, Job.cost, Work.compileCost_eq (hs ▸ prepared)]
    omega
  | payloadRead read =>
    simp only [Move.cost, Stage.cost, Job.cost, read]
    omega
  | handled =>
    simp only [Move.cost, Stage.cost, Job.cost]
    split <;> omega
  | warmupBegun =>
    simp only [Move.cost, Stage.cost, Job.cost, hs]
    omega
  | storeJoined | storeLaunched | projectAsked | fetchJoined | fetchLaunched | downloadAsked
  | installJoined | installLaunched | oneBegun | macrosFirst =>
    simp only [Move.cost, Stage.cost, Job.cost, Settings.moduleCost, Needs.fullCost]
    omega
  | _ => exact Job.cost_pos ..

/-- What is left to be spent on what a cue begins or goes on with. -/
def Cue.cost (s : Settings) (ready : Bool) : Cue → Nat
  | .begin j => j.cost s ready
  | .told st _ => st.cost s ready

/-- What a success may cost besides that is no longer one. -/
def Cue.excess (s : Settings) (ready : Bool) : Cue → Nat
  | .told st o => if o.isFailure = false ∧ ready = false then st.excess s else 0
  | .begin _ => 0

theorem Stage.Resumes.cost_lt {st : Stage} (hr : st.Resumes c o r) (hs : c.settings = s) :
    r.2.cost s c.store.ready <
      st.cost s c.store.ready + (Cue.told st o).excess s c.store.ready := by
  have within {m : Nat} (hm : m < st.cost s c.store.ready) :
      m < st.cost s c.store.ready + (Cue.told st o).excess s c.store.ready :=
    Nat.lt_of_lt_of_le hm (Nat.le_add_right ..)
  cases hr with
  -- Metadata that is fetched along with a path has fewer turns left than the path.
  | @placedFirst p metadata a fs listed apart absent =>
    rw [Workspace.root, hs] at listed
    have fewer := Downloads.turns_lt listed apart
    refine within ?_
    simp only [Move.cost, Stage.cost, Job.cost, Settings.turns]
    omega
  | @literalAbsent w =>
    have := Work.cost_fetch_le s c.store.ready
      (c.metadataPath (Work.conventional w c.settings)) w.contextId
    refine within ?_
    simp only [Move.cost, Stage.cost]
    omega
  | @named i package =>
    have := Work.cost_fetch_le s c.store.ready (Work.modulePath c package) i.wanted.contextId
    refine within ?_
    simp only [Move.cost, Stage.cost]
    omega
  | evaluationMends evaluated left =>
    rw [hs] at left
    refine within ?_
    simp only [Move.cost, Stage.cost, Job.cost]
    omega
  | @macrosReady n => exact within ((Work.rounds_installRound n 0 c).cost_lt s _)
  | pluginsInstalled =>
    refine within ?_
    simp only [Move.cost, Work.cost_jobs, Stage.cost]
    omega
  -- The last round is followed by none.
  | @roundRepeated n round r lost left =>
    rw [hs] at left
    have next := (Work.rounds_installRound n (round + 1) c).cost_lt s c.store.ready
    have fewer : s.maxRecoveries - round = s.maxRecoveries - (round + 1) + 1 := by omega
    refine within ?_
    simp only [Stage.cost]
    rw [Needs.cost, fewer, Nat.succ_mul]
    rw [Needs.cost] at next
    omega
  -- Waiting for the store is paid for as long as it is not ready, a recovery as long as there are
  -- some left.
  | engineUnready unready =>
    have closed : c.store.ready = false := by
      unfold Workspace.isNotReady at unready
      simpa using (Bool.and_eq_true_iff.1 unready).1
    refine within ?_
    simp only [closed, Move.cost, Stage.cost, Job.cost, Compilation.detour, Bool.false_eq_true,
      if_false]
    omega
  | @engineMends comp f settled missing left =>
    rw [hs] at left
    have fewer : s.maxRecoveries - comp.recoveries =
        s.maxRecoveries - (comp.recoveries + 1) + 1 := by omega
    refine within ?_
    simp only [Move.cost, Stage.cost, Job.cost, Compilation.cost, Compilation.detour]
    rw [fewer, Nat.succ_mul]
    omega
  | storeOpened =>
    rw [Work.cost_installNeeds]
    cases c.store.ready <;>
      simp [Cue.excess, Stage.cost, Stage.excess, Compilation.detour, Outcome.isFailure] <;> omega
  | engineMended =>
    rw [Work.cost_installNeeds]
    refine within ?_
    simp only [Stage.cost]
    omega
  | evaluationMended =>
    refine within ?_
    simp only [Work.attempt, Move.cost, Stage.cost, Job.cost]
    omega
  | storeReady | needsInstalled =>
    refine within ?_
    simp only [Move.cost, Stage.cost, Job.cost]
    omega
  | _ => exact within (Stage.cost_pos ..)

/-- A move leaves less to be spent than it is made upon. -/
theorem Cue.cost_move (q : Cue) (hs : c.settings = s) :
    (q.move fresh c).2.cost s c.store.ready <
      q.cost s c.store.ready + q.excess s c.store.ready := by
  cases q with
  | begin j => exact (j.begins fresh c).cost_lt hs _
  | told st o => exact (st.resumes o c).cost_lt hs

end PluginHost
