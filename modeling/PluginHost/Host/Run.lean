import PluginHost.Host

/-!
Running a host: tasks take turns in the order in which they became able to go on, until each has
ended or waits for an answer.
-/
namespace PluginHost

/-- Collaborators with a state of their own. A query is answered at once or has to wait. -/
structure World (σ : Type) where
  meet : Host → TaskId → Query → σ → Option Outcome × σ

namespace Host

variable {σ : Type}

/-- Runs at most `moves` moves. -/
def run (w : World σ) : Nat → Host → σ → Host × σ
  | 0, h, s => (h, s)
  | moves + 1, h, s =>
    match h.turn with
    | none =>
      match h.ready with
      | [] => (h, s)
      | t :: _ => run w moves (h.take t) s
    | some t =>
      match h.advance t with
      | (h, .running) => run w moves h s
      | (h, .paused) => run w moves h.pause s
      | (h, .asking q) =>
        match w.meet h t q s with
        | (some o, s) => run w moves (h.answer t o) s
        | (none, s) => run w moves h.pause s

/-- More moves than the tasks of a host make in one go. -/
def patience : Nat := 100000000

/-- Runs until nothing can go on. -/
def settle (w : World σ) (h : Host) (s : σ) : Host × σ := h.run w patience s

end Host

end PluginHost
