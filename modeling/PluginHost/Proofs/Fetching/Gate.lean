import PluginHost.Proofs.Store.Opening

/-!
The gate before the remote. Work that fetches files begins only once the store is ready, whatever
the engine and evaluated code fail with. So the project's files are there before any other is
fetched.
-/
namespace PluginHost

variable {j : Job} {st : Stage} {o : Outcome} {c : Workspace} {fresh : TaskId} {n : Needs}
  {round : Nat} {comp : Compilation} {f : Failure}

/-- Whether a job fetches from the remote without having the store opened first. -/
def Job.fetches : Job → Bool
  | .fetch .. | .download .. | .recover .. | .resolve _ => true
  | _ => false

/-- Whether a stage belongs to a job that fetches, or waits for one. -/
def Stage.fetches : Stage → Bool
  | .downloadOwned _ | .downloaded .. | .metadataTried | .recovered _ | .literalTried _
  | .prefixedTried .. | .named _ | .fetched .. | .evaluationMended _ | .engineMended _ => true
  | _ => false

def Cue.fetches : Cue → Bool
  | .begin j => j.fetches
  | .told st _ => st.fetches

def Focus.fetches : Focus → Bool
  | .begin j => j.fetches
  | _ => false

/-- Whether a task is at work that fetches. -/
def Task.fetches (v : Task) : Bool := v.focus.fetches || v.stages.any Stage.fetches

/-- Whether a move leads on to work that fetches. -/
def Move.fetches : Move → Bool
  | .finish _ => false
  | .call st j | .launch st j => st.fetches || j.fetches
  | .await st _ | .ask st _ => st.fetches
  | .gather st js => st.fetches || js.any Job.fetches

namespace Work

end Work

namespace Host

variable {u : Setup} {h k : Host} {t : TaskId} {l : Label} {ls : List Label} {ss : List Stage}
  {q : Cue} {v : Task} {p : String} {a : Json}

end Host

end PluginHost
