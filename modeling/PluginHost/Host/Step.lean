import PluginHost.Host.Run
import PluginHost.Workspace.Change

/-!
Every way in which a host can go on: tasks take turns in any order, collaborators answer at once or
later, and callers start jobs and change the workspace between turns. Running a host is one of these
ways.
-/
namespace PluginHost

/-- Whether an answer has the form that a query asks for. -/
def Query.Admits (q : Query) (o : Outcome) : Prop :=
  match q, o with
  | _, .error _ => True
  | .download .., .ok (.files _) => True
  | .projectFiles _, .ok (.files _) => True
  | .transform .., .ok (.transformed _) => True
  | _, _ => False

namespace Host

/-- What a task that has asked a collaborator waits for. -/
def query? (h : Host) (t : TaskId) : Option Query := (h.tasks[t]?).bind Task.query?

/-- A host after a change of its workspace. -/
def changed (h : Host) (c : Change) : Host := { h with workspace := h.workspace.after c }

inductive Label where
  | took (t : TaskId)
  | moved (t : TaskId)
  | asked (t : TaskId) (q : Query)
  | answered (t : TaskId) (q : Query) (o : Outcome)
  /-- A task ends its turn without an answer to its query. -/
  | kept (t : TaskId)
  /-- A task whose answer was kept back can go on. -/
  | released (t : TaskId)
  | started (js : List Job)
  | changed (c : Change)

inductive Step : Host → Label → Host → Prop where
  | take {h : Host} {t : TaskId} (idle : h.turn = none) (ready : t ∈ h.ready) :
      Step h (.took t) (h.take t)
  | move {h k : Host} {t : TaskId} (turn : h.turn = some t) (free : h.query? t = none)
      (next : h.advance t = (k, .running)) : Step h (.moved t) k
  | stop {h k : Host} {t : TaskId} (turn : h.turn = some t) (free : h.query? t = none)
      (next : h.advance t = (k, .paused)) : Step h (.moved t) k.pause
  | ask {h k : Host} {t : TaskId} {q : Query} (turn : h.turn = some t) (free : h.query? t = none)
      (next : h.advance t = (k, .asking q)) : Step h (.asked t q) k
  | answer {h : Host} {t : TaskId} {q : Query} {o : Outcome} (turn : h.turn = some t)
      (asked : h.query? t = some q) (admits : q.Admits o) : Step h (.answered t q o) (h.answer t o)
  | keep {h : Host} {t : TaskId} {q : Query} (turn : h.turn = some t)
      (asked : h.query? t = some q) : Step h (.kept t) h.pause
  | release {h : Host} {t : TaskId} {q : Query} (idle : h.turn = none)
      (asked : h.query? t = some q) (apart : t ∉ h.ready) : Step h (.released t) (h.wake [t])
  | start {h : Host} {js : List Job} (idle : h.turn = none) : Step h (.started js) (h.start js)
  | change {h : Host} {c : Change} (idle : h.turn = none) : Step h (.changed c) (h.changed c)

inductive Steps : Host → List Label → Host → Prop where
  | refl {h : Host} : Steps h [] h
  | cons {h k m : Host} {l : Label} {ls : List Label} (first : Step h l k) (rest : Steps k ls m) :
      Steps h (l :: ls) m

theorem Steps.trans {h k m : Host} {ls rs : List Label} (hk : Steps h ls k) (km : Steps k rs m) :
    Steps h (ls ++ rs) m := by
  induction hk with
  | refl => exact km
  | cons first _ ih => exact .cons first (ih km)

theorem query?_setTask {h : Host} {t : TaskId} {task : Task} (ht : t < h.tasks.length) :
    (h.setTask t task).query? t = task.query? := by
  simp [query?, setTask, ht]

theorem move_asking {h k : Host} {t : TaskId} {stages : List Stage} {m : Move} {q : Query}
    (ht : t < h.tasks.length) (hm : h.move t stages m = (k, .asking q)) : k.query? t = some q := by
  cases m with
  | ask s r =>
    obtain ⟨rfl, hr⟩ := Prod.mk.inj hm
    cases hr
    rw [query?_setTask ht]
    rfl
  | await s u =>
    simp only [move] at hm
    split at hm <;> simp at hm
  | gather s js => cases js <;> simp [move] at hm
  | finish o => simp [move] at hm
  | call s j => simp [move] at hm
  | launch s j => simp [move] at hm

/-- A move that asks a collaborator leaves the task waiting for the answer. -/
theorem query?_of_advance {h k : Host} {t : TaskId} {q : Query}
    (ha : h.advance t = (k, .asking q)) : k.query? t = some q := by
  have follows {stages : List Stage} {r : Workspace × Move} {task : Task}
      (ht : h.tasks[t]? = some task) (hr : h.follow t stages r = (k, .asking q)) :
      k.query? t = some q :=
    move_asking (h := { h with workspace := r.1 }) (List.getElem?_eq_some_iff.1 ht).1 hr
  unfold advance at ha
  split at ha
  case h_2 ht => exact follows ht ha
  case h_3 ht => exact follows ht ha
  case h_5 ht =>
    obtain ⟨rfl, hr⟩ := Prod.mk.inj ha
    cases hr
    simp [query?, ht, Task.query?]
  all_goals simp at ha

/-- A task that waits for an answer makes no move. -/
theorem advance_of_query? {h : Host} {t : TaskId} {q : Query} (hq : h.query? t = some q) :
    h.advance t = (h, .asking q) := by
  obtain ⟨⟨focus, stages⟩, ht, hf⟩ := Option.bind_eq_some_iff.1 hq
  cases focus with
  | asking r =>
    cases hf
    simp [advance, ht]
  | _ => simp [Task.query?] at hf

theorem turn_move (h : Host) (t : TaskId) (stages : List Stage) (m : Move) :
    (h.move t stages m).1.turn = h.turn := by
  cases m with
  | await s u => simp only [move]; split <;> rfl
  | gather s js => cases js <;> rfl
  | _ => rfl

/-- A move leaves the turn where it is. -/
theorem turn_advance (h : Host) (t : TaskId) : (h.advance t).1.turn = h.turn := by
  unfold advance
  split
  case h_2 => exact turn_move _ _ _ _
  case h_3 => exact turn_move _ _ _ _
  all_goals rfl

end Host

/-- Collaborators whose answers have the form that is asked for. -/
def World.Admits {σ : Type} (w : World σ) : Prop :=
  ∀ h t q s o r, w.meet h t q s = (some o, r) → q.Admits o

namespace Host

variable {σ : Type}

/-- The labels of the steps by which a host is run. -/
def labels (w : World σ) : Nat → Host → σ → List Label
  | 0, _, _ => []
  | moves + 1, h, s =>
    match h.turn with
    | none =>
      match h.ready with
      | [] => []
      | t :: _ => .took t :: labels w moves (h.take t) s
    | some t =>
      match h.advance t with
      | (k, .running) => .moved t :: labels w moves k s
      | (k, .paused) => .moved t :: labels w moves k.pause s
      | (k, .asking q) =>
        (if (h.query? t).isSome then [] else [.asked t q]) ++
          match w.meet k t q s with
          | (some o, s) => .answered t q o :: labels w moves (k.answer t o) s
          | (none, s) => .kept t :: labels w moves k.pause s

/-- A query that has been asked is answered or kept. -/
theorem steps_meet {w : World σ} {n : Nat} {h : Host} {t : TaskId} {q : Query} {s : σ}
    (hw : w.Admits) (ht : h.turn = some t) (hq : h.query? t = some q)
    (ih : ∀ h s, Steps h (labels w n h s) (run w n h s).1) :
    Steps h
      (match w.meet h t q s with
        | (some o, s) => .answered t q o :: labels w n (h.answer t o) s
        | (none, s) => .kept t :: labels w n h.pause s)
      (match w.meet h t q s with
        | (some o, s) => run w n (h.answer t o) s
        | (none, s) => run w n h.pause s).1 := by
  split
  · rename_i o r hm
    exact .cons (.answer ht hq (hw _ _ _ _ _ _ hm)) (ih _ _)
  · exact .cons (.keep ht hq) (ih _ _)

/-- Running a host is one of the ways in which it can go on. -/
theorem steps_run {w : World σ} (hw : w.Admits) (n : Nat) (h : Host) (s : σ) :
    Steps h (labels w n h s) (run w n h s).1 := by
  induction n generalizing h s with
  | zero => exact .refl
  | succ n ih =>
    cases turn : h.turn with
    | none =>
      cases hr : h.ready with
      | nil =>
        simp only [run, labels, turn, hr]
        exact .refl
      | cons t ready =>
        simp only [run, labels, turn, hr]
        exact .cons (.take turn (by simp [hr])) (ih _ _)
    | some t =>
      cases hq : h.query? t with
      | some q =>
        simp only [run, labels, turn, advance_of_query? hq, hq, Option.isSome_some, if_true,
          List.nil_append]
        exact steps_meet hw turn hq ih
      | none =>
        rcases next : h.advance t with ⟨k, p⟩
        cases p with
        | running =>
          simp only [run, labels, turn, next]
          exact .cons (.move turn hq next) (ih _ _)
        | paused =>
          simp only [run, labels, turn, next]
          exact .cons (.stop turn hq next) (ih _ _)
        | asking q =>
          have hk : k.turn = some t := by
            have := turn_advance h t
            rw [next] at this
            exact this.trans turn
          simp only [run, labels, turn, next, hq, Option.isSome_none, Bool.false_eq_true, if_false]
          exact .cons (.ask turn hq next) (steps_meet hw hk (query?_of_advance next) ih)

end Host

end PluginHost
