import PluginHost.Host.Step

/-! What each step of a host does to its workspace and to its tasks, and induction along runs. -/
namespace PluginHost

/-- What a host is made of before anything was asked of it. -/
structure Setup where
  settings : Settings
  modules : HostModules := []
  plugins : List (String × Value) := []
  presets : List (String × Value) := []
  /-- Whether there is a project whose files are to be copied. -/
  hasProject : Bool := false

namespace Setup

def workspace (u : Setup) : Workspace :=
  .fresh u.settings { hasProject := u.hasProject } u.modules u.plugins u.presets

def host (u : Setup) : Host := { workspace := u.workspace }

def builtins (u : Setup) : Builtins := ⟨u.plugins, u.presets, u.settings.remaps⟩

/-- The labels of a way from the untouched host to a host. -/
def Runs (u : Setup) (ls : List Host.Label) (h : Host) : Prop := Host.Steps u.host ls h

end Setup

/-- How a move by a task is labelled. -/
def Move.label (t : TaskId) : Move → Host.Label
  | .ask _ q => .asked t q
  | _ => .moved t

/-- What a move is made upon: a job begins, or a stage is told an outcome. -/
inductive Cue where
  | begin (j : Job)
  | told (s : Stage) (o : Outcome)

/-- The move upon a cue. A task that it launches gets the number `fresh`. -/
def Cue.move (fresh : TaskId) (c : Workspace) : Cue → Workspace × Move
  | .begin j => j.begin fresh c
  | .told s o => s.resume o c

/-- The jobs that a move starts tasks for. -/
def Move.jobs : Move → List Job
  | .launch _ j => [j]
  | .gather _ js => js
  | _ => []

theorem Move.label_ne_started (t : TaskId) (m : Move) (js : List Job) :
    m.label t ≠ .started js := by
  cases m <;> simp [Move.label]

theorem Task.stages_hear (v : Task) (t : TaskId) (o : Outcome) :
    (v.hear t o).stages = v.stages := by
  unfold Task.hear
  split
  · rfl
  · split <;> rfl

namespace Host

variable {h k m : Host} {t : TaskId} {l : Label} {ls rs : List Label}

theorem Steps.snoc (hk : Steps h ls k) (km : Step k l m) : Steps h (ls ++ [l]) m :=
  hk.trans (.cons km .refl)

/-- Induction along a run, from its start to its last step. -/
theorem Steps.forward {P : List Label → Host → Prop} (start : P [] h)
    (next : ∀ {ls : List Label} {k m : Host} {l : Label}, Steps h ls k → P ls k → Step k l m →
      P (ls ++ [l]) m)
    (hk : Steps h ls k) : P ls k := by
  have from_ {g : Host} {rs : List Label} (hg : Steps h rs g) (hp : P rs g) {ls : List Label}
      {k : Host} (gk : Steps g ls k) : P (rs ++ ls) k := by
    induction gk generalizing rs with
    | refl => simpa using hp
    | cons first _ ih => simpa using ih (hg.snoc first) (next hg hp first)
  exact from_ .refl start hk

end Host

/-- At some moment of a run `P` held. -/
def Setup.Once (u : Setup) (ls : List Host.Label) (h : Host) (P : Host → Prop) : Prop :=
  ∃ before after m, ls = before ++ after ∧ u.Runs before m ∧ Host.Steps m after h ∧ P m

namespace Setup.Once

variable {u : Setup} {h k : Host} {l : Host.Label} {ls : List Host.Label} {P : Host → Prop}

theorem snoc (ho : u.Once ls h P) (hs : Host.Step h l k) : u.Once (ls ++ [l]) k P := by
  obtain ⟨before, after, m, rfl, hm, hh, hp⟩ := ho
  exact ⟨before, after ++ [l], m, by simp, hm, hh.snoc hs, hp⟩

theorem now (hr : u.Runs ls h) (hp : P h) : u.Once ls h P :=
  ⟨ls, [], h, by simp, hr, .refl, hp⟩

end Setup.Once

namespace Host

variable {h k m : Host} {t : TaskId} {l : Label} {ls rs : List Label}

/-- What a task makes its next move upon, with the stages that keep waiting. A task that has ended,
or waits, makes none. -/
def cue? (h : Host) (t : TaskId) : Option (Cue × List Stage) :=
  match h.tasks[t]? with
  | some ⟨.begin j, ss⟩ => some (.begin j, ss)
  | some ⟨.resume o, s :: ss⟩ => some (.told s o, ss)
  | _ => none

/-- What a cue leads to as things are. -/
def next (h : Host) (q : Cue) : Workspace × Move := q.move h.tasks.length h.workspace

theorem cue?_eq_begin {j : Job} {ss : List Stage} :
    h.cue? t = some (.begin j, ss) ↔ h.tasks[t]? = some ⟨.begin j, ss⟩ := by
  unfold cue?
  split <;> simp_all

theorem cue?_eq_told {s : Stage} {o : Outcome} {ss : List Stage} :
    h.cue? t = some (.told s o, ss) ↔ h.tasks[t]? = some ⟨.resume o, s :: ss⟩ := by
  refine ⟨fun hc => ?_, fun ht => by simp [cue?, ht]⟩
  unfold cue? at hc
  split at hc
  · simp at hc
  · rename_i ht
    obtain ⟨⟨rfl, rfl⟩, rfl⟩ := by simpa using hc
    exact ht
  · simp at hc

theorem cue?_inj {q r : Cue} {ss ss' : List Stage} (hq : h.cue? t = some (q, ss))
    (hr : h.cue? t = some (r, ss')) : q = r ∧ ss = ss' :=
  Prod.mk.inj (Option.some.inj (hq.symm.trans hr))

theorem advance_of_cue? {q : Cue} {ss : List Stage} (hq : h.cue? t = some (q, ss)) :
    h.advance t = h.follow t ss (h.next q) := by
  cases q with
  | begin j =>
    rw [cue?_eq_begin] at hq
    simp [advance, hq, next, Cue.move]
  | told s o =>
    rw [cue?_eq_told] at hq
    simp [advance, hq, next, Cue.move]

/-- A task without a cue has ended, has asked a collaborator, or waits. -/
theorem advance_of_cue?_eq_none (hn : h.cue? t = none) :
    (∃ o, h.tasks[t]? = some ⟨.resume o, []⟩ ∧ h.advance t = (h.announce t o, .paused)) ∨
      (∃ q, h.query? t = some q) ∨ h.advance t = (h, .paused) := by
  cases ht : h.tasks[t]? with
  | none => exact .inr (.inr (by simp [advance, ht]))
  | some task =>
    obtain ⟨focus, stages⟩ := task
    cases focus with
    | begin j => simp [cue?, ht] at hn
    | resume o =>
      cases stages with
      | nil => exact .inl ⟨o, rfl, by simp [advance, ht]⟩
      | cons s ss => simp [cue?, ht] at hn
    | asking q => exact .inr (.inl ⟨q, by simp [query?, ht, Task.query?]⟩)
    | awaiting u => exact .inr (.inr (by simp [advance, ht]))
    | gathering us => exact .inr (.inr (by simp [advance, ht]))

theorem cue?_eq_none_of_query? {q : Query} (hq : h.query? t = some q) : h.cue? t = none := by
  obtain ⟨⟨focus, ss⟩, ht, hf⟩ := Option.bind_eq_some_iff.1 hq
  cases focus with
  | asking r => simp [cue?, ht]
  | _ => simp [Task.query?] at hf

theorem cue?_eq_none_of_ended {o : Outcome} (ended : h.tasks[t]? = some ⟨.resume o, []⟩) :
    h.cue? t = none := by
  simp [cue?, ended]

/-- If the task with the turn has nothing to do, so has whoever has the turn. -/
theorem still_of_turn (turn : h.turn = some t) (rests : h.cue? t = none) :
    ∀ i, h.turn = some i → h.cue? i = none := by
  intro i own
  obtain rfl := Option.some.inj (turn.symm.trans own)
  exact rests

theorem still_of_idle (idle : h.turn = none) : ∀ i, h.turn = some i → h.cue? i = none := by
  simp [idle]

/-- The labels of steps that neither ask nor are told anything. -/
def Label.Silent : Label → Prop
  | .took _ | .moved _ | .kept _ | .released _ => True
  | _ => False

/-- The labels of what tasks and collaborators do. -/
def Label.Internal : Label → Prop
  | .started _ | .changed _ => False
  | _ => True

/-- What a step does to the workspace and to the tasks. -/
inductive Effect (h : Host) : Label → Host → Prop where
  /-- Only turns change, and whoever has the turn has nothing to do. -/
  | quiet {l : Label} {k : Host} (still : ∀ t, h.turn = some t → h.cue? t = none)
      (silent : l.Silent) (workspace : k.workspace = h.workspace)
      (tasks : k.tasks = h.tasks) : Effect h l k
  /-- The task whose turn it is makes its next move. It keeps the turn if it has an outcome. -/
  | move {t : TaskId} {q : Cue} {ss : List Stage} {k : Host} (turn : h.turn = some t)
      (cue : h.cue? t = some (q, ss)) (workspace : k.workspace = (h.next q).1)
      (tasks : k.tasks = (h.move t ss (h.next q).2).1.tasks)
      (keeps : ∀ o, (h.next q).2 = .finish o → k.turn = some t) :
      Effect h ((h.next q).2.label t) k
  /-- A task that has ended tells all others. -/
  | announce {t : TaskId} {o : Outcome} {k : Host} (turn : h.turn = some t)
      (ended : h.tasks[t]? = some ⟨.resume o, []⟩) (workspace : k.workspace = h.workspace)
      (tasks : k.tasks = h.tasks.map (Task.hear t o)) : Effect h (.moved t) k
  /-- A collaborator answers. -/
  | answer {t : TaskId} {q : Query} {o : Outcome} {ss : List Stage} {k : Host}
      (turn : h.turn = some t) (asked : h.tasks[t]? = some ⟨.asking q, ss⟩)
      (admits : q.Admits o) (workspace : k.workspace = h.workspace)
      (tasks : k.tasks = h.tasks.set t ⟨.resume o, ss⟩) : Effect h (.answered t q o) k
  /-- A caller starts jobs. -/
  | start {js : List Job} {k : Host} (idle : h.turn = none) (workspace : k.workspace = h.workspace)
      (tasks : k.tasks = h.tasks ++ js.map fun j => ⟨.begin j, []⟩) : Effect h (.started js) k
  /-- A caller changes the workspace. -/
  | change {c : Change} {k : Host} (idle : h.turn = none)
      (workspace : k.workspace = h.workspace.after c) (tasks : k.tasks = h.tasks) :
      Effect h (.changed c) k

/-- A task after a move, beneath which `ss` wait. -/
def moved (h : Host) (ss : List Stage) : Move → Task
  | .finish o => ⟨.resume o, ss⟩
  | .call st j => ⟨.begin j, st :: ss⟩
  | .await st u =>
    match h.outcome? u with
    | some o => ⟨.resume o, st :: ss⟩
    | none => ⟨.awaiting u, st :: ss⟩
  | .launch st _ => ⟨.awaiting h.tasks.length, st :: ss⟩
  | .gather st [] => ⟨.resume (.ok .nothing), st :: ss⟩
  | .gather st js => ⟨.gathering (List.range' h.tasks.length js.length), st :: ss⟩
  | .ask st q => ⟨.asking q, st :: ss⟩

theorem tasks_of_move (h : Host) (t : TaskId) (ss : List Stage) (m : Move) :
    (h.move t ss m).1.tasks =
      (h.tasks ++ m.jobs.map fun j => (⟨.begin j, []⟩ : Task)).set t (h.moved ss m) := by
  cases m with
  | await st u => cases ho : h.outcome? u <;> simp [move, moved, ho, setTask, Move.jobs]
  | gather st js => cases js <;> simp [move, moved, setTask, start, Move.jobs]
  | _ => simp [move, moved, setTask, start, Move.jobs]

theorem tasks_move (c : Workspace) (t : TaskId) (ss : List Stage) (m : Move) :
    ({ h with workspace := c }.move t ss m).1.tasks = (h.move t ss m).1.tasks := by
  cases m with
  | await s u =>
    have : ({ h with workspace := c } : Host).outcome? u = h.outcome? u := rfl
    simp only [move, this]
    split <;> rfl
  | gather s js => cases js <;> rfl
  | _ => rfl

theorem workspace_move (t : TaskId) (ss : List Stage) (m : Move) :
    (h.move t ss m).1.workspace = h.workspace := by
  cases m with
  | await s u => simp only [move]; split <;> rfl
  | gather s js => cases js <;> rfl
  | _ => rfl

/-- A task that has an outcome after it heard of an end had it before, or waited. -/
theorem resume_of_hear {u : TaskId} {o p : Outcome} {v : Task} {ss : List Stage}
    (hv : v.hear u o = ⟨.resume p, ss⟩) :
    v = ⟨.resume p, ss⟩ ∨ (∃ w, v = ⟨.awaiting w, ss⟩) ∨ ∃ ws, v = ⟨.gathering ws, ss⟩ := by
  obtain ⟨focus, stages⟩ := v
  obtain rfl : stages = ss := (Task.stages_hear ..).symm.trans (congrArg Task.stages hv)
  cases focus with
  | awaiting w => exact .inr (.inl ⟨w, rfl⟩)
  | gathering ws => exact .inr (.inr ⟨ws, rfl⟩)
  | _ => exact .inl hv

/-- What a move leaves at a place other than that of its task. -/
theorem getElem?_of_move {i : TaskId} {ss : List Stage} {m : Move} {v : Task} (hne : i ≠ t)
    (hi : (h.move t ss m).1.tasks[i]? = some v) :
    h.tasks[i]? = some v ∨
      i ∈ List.range' h.tasks.length m.jobs.length ∧ ∃ j ∈ m.jobs, v = ⟨.begin j, []⟩ := by
  rw [tasks_of_move, List.getElem?_set_ne (Ne.symm hne), List.getElem?_append] at hi
  split at hi
  · exact .inl hi
  · rename_i hl
    rw [List.getElem?_map] at hi
    obtain ⟨j, hj, rfl⟩ := Option.map_eq_some_iff.1 hi
    have bound := (List.getElem?_eq_some_iff.1 hj).1
    refine .inr ⟨List.mem_range'_1.2 ⟨by omega, by omega⟩, j, List.mem_of_getElem? hj, rfl⟩

/-- A task that has an outcome after its move finished a job, or what it was to wait for had
ended. -/
theorem resume_of_move {o : Outcome} {ss rest : List Stage} {m : Move}
    (ht : (h.move t ss m).1.tasks[t]? = some ⟨.resume o, rest⟩) :
    m = .finish o ∧ rest = ss ∨
      ∃ s, rest = s :: ss ∧ ((∃ u, m = .await s u) ∨ m = .gather s []) := by
  rw [tasks_of_move, List.getElem?_set, if_pos rfl] at ht
  split at ht
  · have after := Option.some.inj ht
    cases m with
    | finish p =>
      cases after
      exact .inl ⟨rfl, rfl⟩
    | await s u =>
      simp only [moved] at after
      split at after
      · cases after
        exact .inr ⟨s, rfl, .inl ⟨u, rfl⟩⟩
      · cases after
    | gather s js =>
      cases js with
      | nil =>
        cases after
        exact .inr ⟨s, rfl, .inr rfl⟩
      | cons j js => cases after
    | _ => cases after
  · cases ht

/-- Only a question to a collaborator leaves a task asking. -/
theorem move_asking_iff {ss : List Stage} {m : Move} {q : Query} :
    (h.move t ss m).2 = .asking q ↔ ∃ s, m = .ask s q := by
  cases m with
  | await s u => simp only [move]; split <;> simp
  | gather s js => cases js <;> simp [move]
  | _ => simp [move]

theorem finish_running {ss : List Stage} {o : Outcome} :
    (h.move t ss (.finish o)).2 = .running := rfl

/-- A move that does not ask is labelled as a move, one that asks by its question. -/
theorem label_of_move {ss : List Stage} {m : Move} {p : Progress}
    (hm : (h.move t ss m).2 = p) :
    (∀ q, p ≠ .asking q) → m.label t = .moved t := by
  intro hp
  cases m with
  | ask s q => exact (hp q (hm ▸ rfl)).elim
  | _ => rfl

theorem advance_eq {q : Cue} {ss : List Stage} {p : Progress} (hq : h.cue? t = some (q, ss))
    (ha : h.advance t = (k, p)) :
    k.workspace = (h.next q).1 ∧ k.tasks = (h.move t ss (h.next q).2).1.tasks ∧
      k.turn = h.turn ∧ ({ h with workspace := (h.next q).1 }.move t ss (h.next q).2).2 = p := by
  have hf : { h with workspace := (h.next q).1 }.move t ss (h.next q).2 = (k, p) :=
    (advance_of_cue? hq).symm.trans ha
  have hk : ({ h with workspace := (h.next q).1 }.move t ss (h.next q).2).1 = k :=
    congrArg Prod.fst hf
  refine ⟨?_, ?_, ?_, congrArg Prod.snd hf⟩
  · rw [← hk, workspace_move]
  · rw [← hk, tasks_move]
  · rw [← hk, turn_move]

theorem Step.effect (hs : Step h l k) : Effect h l k := by
  cases hs with
  | take idle ready => exact .quiet (by simp [idle]) trivial rfl rfl
  | @move _ t turn free next =>
    cases hc : h.cue? t with
    | none =>
      obtain ⟨o, _, ha⟩ | ⟨q, hq⟩ | ha := advance_of_cue?_eq_none hc
      · simp [ha] at next
      · simp [hq] at free
      · simp [ha] at next
    | some r =>
      obtain ⟨hw, ht, hturn, hp⟩ := advance_eq hc next
      rw [← label_of_move hp (by simp)]
      exact .move turn hc hw ht fun o _ => hturn.trans turn
  | @stop k t turn free next =>
    cases hc : h.cue? t with
    | none =>
      obtain ⟨o, ended, ha⟩ | ⟨q, hq⟩ | ha := advance_of_cue?_eq_none hc
      · obtain ⟨rfl, -⟩ := Prod.mk.inj (ha.symm.trans next)
        exact .announce turn ended rfl rfl
      · simp [hq] at free
      · obtain ⟨rfl, -⟩ := Prod.mk.inj (ha.symm.trans next)
        exact .quiet (by simp [turn, hc]) trivial rfl rfl
    | some r =>
      obtain ⟨hw, ht, -, hp⟩ := advance_eq hc next
      rw [← label_of_move hp (by simp)]
      refine .move (k := k.pause) turn hc hw ht fun o ho => ?_
      simp [ho, finish_running] at hp
  | @ask _ t q turn free next =>
    cases hc : h.cue? t with
    | none =>
      obtain ⟨o, _, ha⟩ | ⟨q, hq⟩ | ha := advance_of_cue?_eq_none hc
      · simp [ha] at next
      · simp [hq] at free
      · simp [ha] at next
    | some r =>
      obtain ⟨hw, ht, hturn, hp⟩ := advance_eq hc next
      obtain ⟨s, hm⟩ := move_asking_iff.1 hp
      have := Effect.move turn hc hw ht fun o ho => hturn.trans turn
      rwa [hm] at this
  | @answer t q o turn asked admits =>
    obtain ⟨⟨focus, ss⟩, ht, hq⟩ := Option.bind_eq_some_iff.1 asked
    cases focus with
    | asking r =>
      cases hq
      refine .answer turn ht admits ?_ ?_ <;> simp [Host.answer, ht, setTask]
    | _ => simp [Task.query?] at hq
  | @keep t q turn asked =>
    refine .quiet (fun u hu => ?_) trivial rfl rfl
    obtain rfl := Option.some.inj (turn.symm.trans hu)
    exact cue?_eq_none_of_query? asked
  | release idle asked apart => exact .quiet (by simp [idle]) trivial rfl rfl
  | start idle => exact .start idle rfl rfl
  | change idle => exact .change idle rfl rfl

end Host

/-- A question to a collaborator is put by the task that has the turn, upon its cue. -/
theorem Host.Step.asked {h k : Host} {t : TaskId} {q : Query} (hs : Step h (.asked t q) k) :
    ∃ cue ss st, h.turn = some t ∧ h.cue? t = some (cue, ss) ∧ (h.next cue).2 = .ask st q ∧
      k.tasks[t]? = some ⟨.asking q, st :: ss⟩ := by
  have he := hs.effect
  generalize hl : Label.asked t q = l at he
  cases he with
  | quiet still silent => exact (hl ▸ silent).elim
  | @move t cue ss k turn found workspace tasks keeps =>
    cases hm : (h.next cue).2 with
    | ask st r =>
      rw [hm] at hl tasks
      obtain ⟨rfl, rfl⟩ := by simpa [Move.label] using hl
      refine ⟨cue, ss, st, turn, found, hm, ?_⟩
      rw [tasks]
      cases cue with
      | begin j =>
        have ht := (List.getElem?_eq_some_iff.1 (cue?_eq_begin.1 found)).1
        simp [Host.move, setTask, ht]
      | told s o =>
        have ht := (List.getElem?_eq_some_iff.1 (cue?_eq_told.1 found)).1
        simp [Host.move, setTask, ht]
    | _ => simp [hm, Move.label] at hl
  | _ => cases hl

end PluginHost
