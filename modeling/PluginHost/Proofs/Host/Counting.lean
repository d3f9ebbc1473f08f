import PluginHost.Proofs.Host.Replay
import PluginHost.Proofs.Store.Readiness

/-!
Counting what a task does. A gauge says how much of something a task may still do, by what it is at
and by the stages that wait for it. If every move lowers the gauge by what it does, apart from what
it is granted, then all that the task does in a run is paid for by what the gauge said at first and
by what was granted since.
-/
namespace PluginHost

/-- How much of something jobs and stages may still do, once the store is ready and before. -/
structure Gauge where
  job : Bool → Job → Nat
  stage : Bool → Stage → Nat

/-- How much of something is done by a move upon a cue. -/
abbrev Meter := Workspace → Cue → Move → Nat

namespace Gauge

variable (g : Gauge) (b : Bool)

def cue : Cue → Nat
  | .begin j => g.job b j
  | .told st _ => g.stage b st

/-- What the task of a move may still do after it, apart from the stages that waited for it. Tasks
that a move starts do what they do on their own account. -/
def move : Move → Nat
  | .finish _ => 0
  | .call st j => g.stage b st + g.job b j
  | .await st _ | .launch st _ | .gather st _ | .ask st _ => g.stage b st

def focus : Focus → Nat
  | .begin j => g.job b j
  | _ => 0

def task (v : Task) : Nat := g.focus b v.focus + (v.stages.map (g.stage b)).sum

/-- A gauge that every move pays by for what it spends beyond what it is granted. -/
structure Pays (u : Setup) (g : Gauge) (spent granted : Meter) : Prop where
  job : ∀ j, g.job true j ≤ g.job false j
  stage : ∀ st, g.stage true st ≤ g.stage false st
  move : ∀ {q : Cue} {owner : Job} {roots : List Job} {fresh : TaskId} {c : Workspace},
    c.settings = u.settings → q.For u.settings (.wellFormed u) owner →
      (q.move fresh c).2.Suits u.settings roots owner →
        (∀ st r, q = .told st (.ok r) → st.opens = true → c.store.ready = true) →
          spent c q (q.move fresh c).2 + g.move c.store.ready (q.move fresh c).2 ≤
            g.cue c.store.ready q + granted c q (q.move fresh c).2

variable {g b} {u : Setup} {spent granted : Meter} {v : Task} {ss : List Stage}

theorem Pays.sum_le (hp : g.Pays u spent granted) (ss : List Stage) :
    (ss.map (g.stage true)).sum ≤ (ss.map (g.stage false)).sum := by
  induction ss with
  | nil => exact Nat.le_refl _
  | cons st ss ih =>
    rw [List.map_cons, List.map_cons, List.sum_cons, List.sum_cons]
    exact Nat.add_le_add (hp.stage st) ih

/-- A store that becomes ready leaves a task no more to do. -/
theorem Pays.task_le {c : Bool} (hp : g.Pays u spent granted) (hb : b = true → c = true)
    (v : Task) : g.task c v ≤ g.task b v := by
  have le : g.task true v ≤ g.task false v := by
    refine Nat.add_le_add ?_ (hp.sum_le v.stages)
    cases v.focus with
    | begin j => exact hp.job j
    | _ => exact Nat.le_refl _
  cases b with
  | true => exact Nat.le_of_eq (by rw [hb rfl])
  | false =>
    cases c with
    | true => exact le
    | false => exact Nat.le_refl _

/-- Hearing of an end gives a task nothing more to do. -/
theorem task_hear {t : TaskId} {o : Outcome} : g.task b (v.hear t o) ≤ g.task b v := by
  cases goes : v.waits with
  | false => exact Nat.le_of_eq (by rw [Task.hear_of_waits goes])
  | true =>
    generalize hx : v.hear t o = x
    obtain ⟨f, ss⟩ := v
    obtain ⟨f', rest⟩ := x
    obtain rfl := Host.stages_of_hear hx
    refine Nat.add_le_add_right ?_ _
    cases f' with
    | begin j =>
      obtain rfl := congrArg Task.focus (Task.eq_of_hear hx (by simp) rfl)
      cases goes
    | _ => exact Nat.zero_le _

theorem task_moved {h : Host} {m : Move} :
    g.task b (h.moved ss m) = g.move b m + (ss.map (g.stage b)).sum := by
  cases m with
  | finish o => rfl
  | call st j => simp [Host.moved, task, focus, move]; omega
  | await st w => simp only [Host.moved]; split <;> simp [task, focus, move]
  | gather st js => cases js <;> simp [Host.moved, task, focus, move]
  | _ => simp [Host.moved, task, focus, move]

end Gauge

namespace Host

variable {u : Setup} {g : Gauge} {spent granted w : Meter} {h k m : Host} {t : TaskId} {l : Label}
  {ls rs : List Label} {q : Cue} {ss : List Stage} {v : Task} {limit : Nat}

/-- What a task does by the next step. -/
def metered (w : Meter) (t : TaskId) (h : Host) : Nat :=
  if h.turn = some t then
    match h.cue? t with
    | some (q, _) => w h.workspace q (h.next q).2
    | none => 0
  else 0

/-- What a task does by the steps that are to come. -/
def total (w : Meter) (t : TaskId) (h : Host) : List Label → Nat
  | [] => 0
  | l :: ls => h.metered w t + total w t (h.after l) ls

theorem metered_of_cue (turn : h.turn = some t) (cue : h.cue? t = some (q, ss)) :
    h.metered w t = w h.workspace q (h.next q).2 := by
  simp [metered, turn, cue]

theorem metered_of_rest (rests : h.turn = some t → h.cue? t = none) : h.metered w t = 0 := by
  unfold metered
  split
  · rename_i turn
    rw [rests turn]
  · rfl

/-- A gauge goes down with each step by what the step spends beyond what it is granted. -/
theorem Step.paid (hp : g.Pays u spent granted) (hr : u.Runs ls h) (hs : Step h l k)
    (spares : l.empties = false) (told : h.Opened t → h.workspace.store.ready = true)
    (hv : h.tasks[t]? = some v) :
    ∃ x, k.tasks[t]? = some x ∧
      h.metered spent t + g.task k.workspace.store.ready x ≤
        g.task h.workspace.store.ready v + h.metered granted t := by
  have ready := hs.tends.ready_of_ready spares
  obtain ⟨x, hx, becomes⟩ := hs.becomes hv
  refine ⟨x, hx, Nat.le_trans (Nat.add_le_add_left (hp.task_le ready x) _) ?_⟩
  cases becomes with
  | kept rests => rw [metered_of_rest rests, Nat.zero_add]; exact Nat.le_add_right ..
  | @heard _ _ i o turn ended hears =>
    have rests (now : h.turn = some t) : h.cue? t = none := by
      obtain rfl := Option.some.inj (turn.symm.trans now)
      simp [cue?, ended]
    rw [metered_of_rest rests, Nat.zero_add, ← hears]
    exact Nat.le_trans Gauge.task_hear (Nat.le_add_right ..)
  | told turn label =>
    rw [metered_of_rest fun _ => by simp [cue?, hv], Nat.zero_add]
    exact Nat.le_add_right ..
  | @went _ _ q ss turn cue label workspace moves =>
    obtain ⟨roots, hf⟩ := fits_of_runs hr
    obtain ⟨root, owner, -, frames, hq⟩ := hf.cue cue
    have suits := hf.suits (Expectation.wellFormed_met u).toFormed (from_of_runs hr) hq
    have paid := hp.move (from_of_runs hr).settings hq suits fun st r told' opens =>
      told ⟨r, st, ss, cue?_eq_told.1 (told' ▸ cue), opens⟩
    have own : g.task h.workspace.store.ready v =
        g.cue h.workspace.store.ready q + (ss.map (g.stage h.workspace.store.ready)).sum := by
      cases q with
      | begin j =>
        obtain rfl := Option.some.inj ((cue?_eq_begin.1 cue).symm.trans hv)
        rfl
      | told st o =>
        obtain rfl := Option.some.inj ((cue?_eq_told.1 cue).symm.trans hv)
        simp [Gauge.task, Gauge.focus, Gauge.cue]
    rw [metered_of_cue turn cue, metered_of_cue turn cue, own, ← moves, Gauge.task_moved]
    simp only [next] at paid ⊢
    omega

end Host

end PluginHost
