import PluginHost.Proofs.Compiling.Configurations
import PluginHost.Proofs.Host.Causes
import PluginHost.Proofs.Host.Endings
import PluginHost.Proofs.Host.Replay

/-!
Which failures leave a request. The host converts what it reports itself; a few failures that it is
told by others pass through every job on the way to the answer.
-/
namespace PluginHost

variable {u : Setup} {ls : List Host.Label} {f : Failure} {q : Cue} {c : Workspace} {fresh : TaskId}

/-- Failures that no job converts on the way to the modules that a configuration needs. -/
inductive Unconverted (u : Setup) (ls : List Host.Label) : Failure → Prop where
  | project {t : TaskId} {a : Json} {f : Failure}
      (answered : .answered t (.projectFiles a) (.error f) ∈ ls) : Unconverted u ls f
  | download {t : TaskId} {p : String} {a : Json} {f : Failure}
      (answered : .answered t (.download p a) (.error f) ∈ ls) : Unconverted u ls f
  /-- A plugin that comes with the host has an import path that is no path at all. -/
  | bundled {name path : String} {fault : Fault}
      (bundled : lookup? name u.settings.bundled = some path)
      (imported : u.modules.import? path = .error fault) : Unconverted u ls fault

/-- Failures that a compile of a request may end with besides those that the host reports. -/
inductive Escapes (u : Setup) (ls : List Host.Label) (r : CompileRequest) : Failure → Prop where
  | passed {f : Failure} (unconverted : Unconverted u ls f) : Escapes u ls r f
  /-- The settings' configuration for external libraries does not list plugins and presets. -/
  | external {attempt : Nat} {fault : Fault} (external : u.settings.isExternal r = true)
      (prepared : Work.prepare attempt r u.settings = .error fault) : Escapes u ls r fault
  /-- The engine reports dependencies in a form that is none. -/
  | unreadable {t : TaskId} {code : String} {config : EngineConfig} {registry : Registry}
      {result : Transformed} {fault : Fault}
      (answered : .answered t (.transform code config registry) (.ok (.transformed result)) ∈ ls)
      (read : u.settings.dependencies r.engine result.metadata = .error fault) :
      Escapes u ls r fault

/-- What a job that does not succeed may end with, where it matters to a request. -/
def Job.FailsWith (u : Setup) (ls : List Host.Label) : Job → Failure → Prop
  | .openStore _, f | .copyProject _, f | .fetch .., f | .download .., f | .recover .., f
  | .installAll _, f => f.fault.isReported = true ∨ Unconverted u ls f
  | .installOne _, f => f.fault.isReported = true
  | .compile r, f => f.fault.isReported = true ∨ (r.config.Plain → Escapes u ls r f)
  | .compilePayload payload, f =>
    f.fault.isRejection = true ∨ ∃ r, CompileRequest.ofJson payload = .ok r ∧
      (f.fault.isReported = true ∨ Escapes u ls r f)
  | .handle payload, f =>
    f.fault.isReported = false ∧ f.fault.isRejection = false ∧
      ∃ r, CompileRequest.ofJson payload = .ok r ∧ Escapes u ls r f
  | _, _ => True

/-- Jobs fail as described, and collaborators give the answers that a run shows. -/
def Expectation.failing (u : Setup) (ls : List Host.Label) : Expectation where
  ends j o := (∀ r, o = .ok r → j.Returns u.settings r) ∧ ∀ f, o = .error f → j.FailsWith u ls f
  answers q o := q.Admits o ∧ ∃ t, .answered t q o ∈ ls

namespace Work

variable {n : Needs} {r : CompileRequest}

end Work

namespace Host

variable {h k m : Host} {rs : List Label} {js : List Job} {i : Nat} {payload : Json}

end Host

/-- An engine that accepts everything beside a project whose files cannot be had. -/
def Query.acceptedWithoutProject : Query → Option Outcome
  | .projectFiles _ => some (.error (Fault.connection "controller unavailable"))
  | .transform code _ _ => some (.ok (.transformed ⟨code, .object []⟩))
  | .download path _ => some (.error (Fault.unfetchable path none))

theorem World.acceptedWithoutProject_admits :
    (World.steady Query.acceptedWithoutProject).Admits :=
  steady_admits fun q o h => by cases q <;> cases h <;> exact trivial

end PluginHost
