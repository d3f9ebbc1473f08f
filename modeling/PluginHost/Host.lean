import PluginHost.Work

/-!
Hosts: a workspace and the tasks that work on it. Tasks are cooperative. A task runs until it has to
wait for another task or for a collaborator, and nothing else happens to the workspace meanwhile.
-/
namespace PluginHost

inductive Focus where
  | begin (j : Job)
  | resume (o : Outcome)
  | awaiting (task : TaskId)
  /-- Some of the tasks that it started have not ended yet. -/
  | gathering (tasks : List TaskId)
  | asking (q : Query)

/-- What a task is at, and the stages that wait for it, the innermost first. -/
structure Task where
  focus : Focus
  stages : List Stage := []

namespace Task

/-- What came of a task that has ended. -/
def outcome? (t : Task) : Option Outcome :=
  match t.focus, t.stages with
  | .resume o, [] => some o
  | _, _ => none

def query? (t : Task) : Option Query :=
  match t.focus with
  | .asking q => some q
  | _ => none

/-- The focus of a task that hears of the end of another one, if that lets it go on. A gathering
ends with the first failure or with the last success. -/
def afterEnd? (u : TaskId) (o : Outcome) (t : Task) : Option Focus :=
  match t.focus with
  | .awaiting v => if v = u then some (.resume o) else none
  | .gathering vs =>
    if u ∈ vs then
      if o.isFailure then some (.resume o)
      else if vs.all (· = u) then some (.resume (.ok .nothing))
      else none
    else none
  | _ => none

/-- A task that hears of the end of another one. -/
def hear (u : TaskId) (o : Outcome) (t : Task) : Task :=
  match t.afterEnd? u o with
  | some focus => { t with focus := focus }
  | none =>
    match t.focus with
    | .gathering vs => { t with focus := .gathering (vs.filter (· ≠ u)) }
    | _ => t

end Task

structure Host where
  workspace : Workspace
  /-- Every task that was ever started, by number. -/
  tasks : List Task := []
  /-- The tasks that can go on, in the order in which they became able to. -/
  ready : List TaskId := []
  /-- The task whose turn it is. -/
  turn : Option TaskId := none

/-- How a task stands after a move. -/
inductive Progress where
  | running
  | paused
  | asking (q : Query)

namespace Host

def outcome? (h : Host) (t : TaskId) : Option Outcome := (h.tasks[t]?).bind Task.outcome?

/-- Starts tasks, one for each job, which run when their turn comes. -/
def start (h : Host) (js : List Job) : Host :=
  { h with
    tasks := h.tasks ++ js.map fun j => ⟨.begin j, []⟩
    ready := h.ready ++ List.range' h.tasks.length js.length }

def setTask (h : Host) (t : TaskId) (task : Task) : Host := { h with tasks := h.tasks.set t task }

/-- A move of a task, beneath which `stages` wait. -/
def move (h : Host) (t : TaskId) (stages : List Stage) : Move → Host × Progress
  | .finish o => (h.setTask t ⟨.resume o, stages⟩, .running)
  | .call s j => (h.setTask t ⟨.begin j, s :: stages⟩, .running)
  | .await s u =>
    match h.outcome? u with
    | some o => (h.setTask t ⟨.resume o, s :: stages⟩, .running)
    | none => (h.setTask t ⟨.awaiting u, s :: stages⟩, .paused)
  | .launch s j => ((h.start [j]).setTask t ⟨.awaiting h.tasks.length, s :: stages⟩, .paused)
  | .gather s [] => (h.setTask t ⟨.resume (.ok .nothing), s :: stages⟩, .running)
  | .gather s js =>
    let started := List.range' h.tasks.length js.length
    ((h.start js).setTask t ⟨.gathering started, s :: stages⟩, .paused)
  | .ask s q => (h.setTask t ⟨.asking q, s :: stages⟩, .asking q)

/-- Tells every task that a task has ended; those that waited for it become able to go on. -/
def announce (h : Host) (u : TaskId) (o : Outcome) : Host :=
  { h with
    tasks := h.tasks.map (Task.hear u o)
    ready := h.ready ++
      (h.tasks.zipIdx.filter fun t => (t.1.afterEnd? u o).isSome).map Prod.snd }

/-- A move of a task together with what it does to the workspace. -/
def follow (h : Host) (t : TaskId) (stages : List Stage) (r : Workspace × Move) : Host × Progress :=
  { h with workspace := r.1 }.move t stages r.2

/-- The next move of a task. One that waits for another task makes none. -/
def advance (h : Host) (t : TaskId) : Host × Progress :=
  match h.tasks[t]? with
  | none => (h, .paused)
  | some ⟨.begin j, stages⟩ => h.follow t stages (j.begin h.tasks.length h.workspace)
  | some ⟨.resume o, s :: stages⟩ => h.follow t stages (s.resume o h.workspace)
  | some ⟨.resume o, []⟩ => (h.announce t o, .paused)
  | some ⟨.asking q, _⟩ => (h, .asking q)
  | some ⟨.awaiting _, _⟩ => (h, .paused)
  | some ⟨.gathering _, _⟩ => (h, .paused)

/-- A task whose query is answered. -/
def answer (h : Host) (t : TaskId) (o : Outcome) : Host :=
  match h.tasks[t]? with
  | some ⟨.asking _, stages⟩ => h.setTask t ⟨.resume o, stages⟩
  | _ => h

/-- Makes waiting tasks able to go on. -/
def wake (h : Host) (ts : List TaskId) : Host := { h with ready := h.ready ++ ts }

/-- Gives a task its turn. -/
def take (h : Host) (t : TaskId) : Host := { h with turn := some t, ready := h.ready.erase t }

/-- Ends the turn of the task that has it. -/
def pause (h : Host) : Host := { h with turn := none }

end Host

end PluginHost
