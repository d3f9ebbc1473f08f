import Mathlib.Order.Nat
import PluginHost.Proofs.Host.Counting

/-!
How often a compile tries. Every recovery that a compile, an installation or a round of
installations spends is taken from what the settings allow for, and a compile waits for the store at
most once, because a store that is ready stays so.
-/
namespace PluginHost

variable {s : Settings} {u : Setup} {owner : Job} {roots : List Job} {q : Cue} {m : Move}
  {E : Expectation} {c : Workspace} {fresh : TaskId} {b : Bool} {g : Gauge}

/-- Whether a job is a compile, or has one run in its place. -/
def Job.compiles : Job → Bool
  | .compile _ | .compilePayload _ | .handle _ | .warmup => true
  | _ => false

/-- What a compile does next, or a job that has one run in its place. -/
inductive Work.Compiles (c : Workspace) : Cue → Move → Prop where
  | ends {q : Cue} {o : Outcome} : Compiles c q (.finish o)
  | relays {j i : Job} {st : Stage} (outer : j.compiles = true) (inner : i.compiles = true)
      (plain : st = .passOn ∨ st = .compileHandled ∨ st = .warm) :
      Compiles c (.begin j) (.call st i)
  | begins {r : CompileRequest} {comp : Compilation} (unspent : comp.recoveries = 0) :
      Compiles c (.begin (.compile r)) (.call (.needsInstalled comp) (.installAll comp.needs))
  | asks {comp : Compilation} {r : Reply} {query : Query} :
      Compiles c (.told (.needsInstalled comp) (.ok r)) (.ask (.transformed comp) query)
  | opens {comp : Compilation} {f : Failure} {a : Json} (unready : c.store.ready = false) :
      Compiles c (.told (.transformed comp) (.error f)) (.call (.storeOpened comp) (.openStore a))
  | mends {comp : Compilation} {f : Failure} {a : Json} (missing : f.isMissingArtifact = true)
      (left : comp.recoveries < c.settings.maxRecoveries) :
      Compiles c (.told (.transformed comp) (.error f))
        (.call (.engineMended { comp with recoveries := comp.recoveries + 1 }) (.recover f a))
  | opened {comp : Compilation} {r : Reply} :
      Compiles c (.told (.storeOpened comp) (.ok r))
        (.call (.needsInstalled comp) (.installAll comp.needs))
  | mended {comp : Compilation} {r : Reply} :
      Compiles c (.told (.engineMended comp) (.ok r))
        (.call (.needsInstalled comp) (.installAll comp.needs))

theorem Work.compiles (hc : owner.compiles = true) (hq : q.For s E owner) :
    Compiles c q (q.move fresh c).2 := by
  have goes := q.goes fresh c
  generalize q.move fresh c = x at goes
  cases hq with
  | begin =>
    cases goes with
    | compileBegun prepared =>
      obtain ⟨_, _, _, _, -, -, -, -, rfl⟩ := prepare_eq_ok prepared
      exact .begins rfl
    | compileRefused | payloadRejected => exact .ends
    | payloadRead => exact .relays rfl rfl (.inl rfl)
    | handled => exact .relays rfl rfl (.inr (.inl rfl))
    | warmupBegun => exact .relays rfl rfl (.inr (.inr rfl))
    | _ => cases hc
  | told awaits gives =>
    cases awaits with
    | needsInstalled prepared =>
      cases goes with
      | needsInstalled => exact .asks
      | needsFailed => exact .ends
    | transformed prepared =>
      cases goes with
      | engineUnready unready =>
        refine .opens ?_
        unfold Workspace.isNotReady at unready
        simpa using (Bool.and_eq_true_iff.1 unready).1
      | engineMends settled missing left => exact .mends missing left
      | transformed | engineOdd | engineSpent | engineRefused => exact .ends
    | storeOpened prepared =>
      cases goes with
      | storeOpened => exact .opened
      | storeUnopened => exact .ends
    | engineMended prepared =>
      cases goes with
      | engineMended => exact .mended
      | engineUnmended => exact .ends
    | payloadRead | compileHandled | warm => cases goes <;> exact .ends
    | _ => cases hc

namespace Gauge

/-- How much of something a source may do that is run in the place of a task. -/
def source (g : Gauge) (b : Bool) : Source → Nat
  | .called j => g.job b j
  | _ => 0

/-- Nothing that a gauge counts is done on behalf of a job. -/
def Skips (g : Gauge) (s : Settings) (owner : Job) : Prop :=
  ∀ (b : Bool) {st : Stage} {src : Source}, st.Awaits s owner src →
    g.stage b st + g.source b src = 0

theorem Skips.move (skips : g.Skips s owner) (suits : m.Suits s roots owner) : g.move b m = 0 := by
  cases m with
  | finish o => rfl
  | await st w =>
    obtain ⟨j, -, awaits⟩ := suits
    exact skips b awaits
  | call st j | launch st j | gather st js | ask st query => exact skips b suits

/-- How often a compile may still wait for the store. -/
def waits (ready : Bool) : Nat := if ready then 0 else 1

/-- How often a task may still call the engine. -/
def transforms (s : Settings) : Gauge where
  job b j := if j.compiles then s.maxRecoveries + 1 + waits b else 0
  stage b
    | .needsInstalled comp | .engineMended comp => s.maxRecoveries - comp.recoveries + 1 + waits b
    | .storeOpened comp => s.maxRecoveries - comp.recoveries + 1
    | .transformed comp => s.maxRecoveries - comp.recoveries + waits b
    | _ => 0

/-- How often a task may still recover from failures of the engine. -/
def recoveries (s : Settings) : Gauge where
  job _ j := if j.compiles then s.maxRecoveries else 0
  stage _
    | .needsInstalled comp | .engineMended comp | .storeOpened comp | .transformed comp =>
      s.maxRecoveries - comp.recoveries
    | _ => 0

/-- How many rounds a task may still run to install what a configuration needs. A call for that
grants it all of them. -/
def rounds (s : Settings) : Gauge where
  job _ _ := 0
  stage _
    | .macrosReady _ => s.maxRecoveries + 1
    | .pluginsInstalled _ round | .presetsInstalled _ round => s.maxRecoveries - round
    | _ => 0

/-- How often a task may still evaluate the module that it installs. -/
def evaluations (s : Settings) : Gauge where
  job _
    | .installFresh _ => s.maxRecoveries + 1
    | _ => 0
  stage _
    | .storeReady i | .named i | .fetched i _ | .evaluationMended i =>
      s.maxRecoveries - i.attempts + 1
    | _ => 0

end Gauge

/-- The round of installations that a cue begins, and what is installed. -/
def Cue.round? (c : Workspace) : Cue → Option (Needs × Nat)
  | .begin (.installAll n) => if n.hasMacros then none else some (n, 0)
  | .told (.macrosReady n) (.ok _) => some (n, 0)
  | .told (.presetsInstalled n round) (.ok _) =>
    if c.installed .plugin n.plugins && c.installed .preset n.presets then none
    else if round < c.settings.maxRecoveries then some (n, round + 1)
    else none
  | _ => none

namespace Meter

/-- Calls of the engine. -/
def transforms : Meter
  | _, _, .ask _ (.transform ..) => 1
  | _, _, _ => 0

/-- Recoveries from failures of the engine. -/
def recoveries : Meter
  | _, _, .call (.engineMended _) (.recover ..) => 1
  | _, _, _ => 0

/-- Calls to install what a configuration needs. -/
def installs : Meter
  | _, .begin (.installAll _), _ => 1
  | _, _, _ => 0

/-- Rounds of such installations. -/
def rounds : Meter := fun c q _ => (q.round? c).toList.length

/-- Evaluations of modules that are installed. -/
def evaluations : Meter
  | _, .told (.fetched ..) (.ok _), _ => 1
  | _, _, _ => 0

end Meter

namespace Gauge

/-- What a round leaves for further ones. -/
theorem rounds_installRound (n : Needs) (round : Nat) :
    (rounds s).move b (Work.installRound n round c).2 ≤ s.maxRecoveries - round := by
  have goes := Work.rounds_installRound n round c
  generalize Work.installRound n round c = x at goes
  cases goes with
  | gathers => exact Nat.le_refl _
  | fails => exact Nat.zero_le _

end Gauge

/-- In the place of a job that does not open the store, no rounds are left to those who wait. -/
theorem Job.Frames.rounds {root : Job} {ss : List Stage} (hf : root.Frames s owner ss)
    (ho : ∀ a, owner ≠ .openStore a) : (ss.map ((Gauge.rounds s).stage b)).sum = 0 := by
  refine hf.sum_eq_zero ho fun awaits apart => ?_
  cases awaits with
  | macrosReady => exact (apart _ rfl).elim
  | _ => rfl

namespace Host

variable {h k m : Host} {l : Label} {ls rs : List Label} {t v : TaskId} {js : List Job} {j : Job}
  {i : Nat} {ss : List Stage} {n : Needs}

/-- Whether a task calls the engine. -/
def Label.transforms (t : TaskId) : Label → Bool
  | .asked v (.transform ..) => v == t
  | _ => false

end Host

end PluginHost
