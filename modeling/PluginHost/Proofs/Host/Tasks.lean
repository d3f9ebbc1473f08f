import PluginHost.Proofs.Store.Moves

/-!
What a step makes of a single task. A task that waits for another one stands still until that one
ends, and then it goes on with what the other one ended with.
-/
namespace PluginHost.Host

variable {h k : Host} {t i w : TaskId} {l : Label} {ls : List Label} {v x : Task} {o : Outcome}
  {ss : List Stage} {st : Stage} {u : Setup}

/-- What a step makes of a task that is there. -/
inductive Becomes (h : Host) (l : Label) (k : Host) (i : TaskId) : Task → Task → Prop where
  /-- It stays as it is, and has nothing to do if it has the turn. -/
  | kept {v : Task} (rests : h.turn = some i → h.cue? i = none) : Becomes h l k i v v
  /-- It hears of the end of a task. -/
  | heard {v x : Task} {t : TaskId} {o : Outcome} (turn : h.turn = some t)
      (ended : h.tasks[t]? = some ⟨.resume o, []⟩) (hears : v.hear t o = x) : Becomes h l k i v x
  /-- It is told the answer to its question. -/
  | told {q : Query} {o : Outcome} {ss : List Stage} (turn : h.turn = some i)
      (label : l = .answered i q o) : Becomes h l k i ⟨.asking q, ss⟩ ⟨.resume o, ss⟩
  /-- It makes its next move. -/
  | went {v x : Task} {q : Cue} {ss : List Stage} (turn : h.turn = some i)
      (cue : h.cue? i = some (q, ss)) (label : l = (h.next q).2.label i)
      (workspace : k.workspace = (h.next q).1) (moves : h.moved ss (h.next q).2 = x) :
      Becomes h l k i v x

/-- What a step starts a task for. -/
inductive Launches (h : Host) (l : Label) (k : Host) (i : TaskId) (j : Job) : Prop where
  | launched {t : TaskId} {q : Cue} {ss : List Stage} (turn : h.turn = some t)
      (cue : h.cue? t = some (q, ss)) (job : j ∈ (h.next q).2.jobs)
      (new : i ∈ List.range' h.tasks.length (h.next q).2.jobs.length)
      (workspace : k.workspace = (h.next q).1) : Launches h l k i j
  | started {js : List Job} (label : l = .started js) (job : j ∈ js) : Launches h l k i j

/-- A move leaves the other tasks as they are. -/
theorem kept_of_move {m : Move} (hne : i ≠ t) (hv : h.tasks[i]? = some v)
    (tasks : k.tasks = (h.move t ss m).1.tasks) : k.tasks[i]? = some v := by
  rw [tasks, tasks_of_move, List.getElem?_set_ne (Ne.symm hne),
    List.getElem?_append_left (List.getElem?_eq_some_iff.1 hv).1, hv]

/-- A task that puts a question by its move waits for the answer alone. -/
theorem ask_of_moved {m : Move} {q : Query} {rest : List Stage}
    (hm : h.moved ss m = ⟨.asking q, rest⟩) : ∃ st, m = .ask st q ∧ rest = st :: ss := by
  cases m with
  | ask st r =>
    cases hm
    exact ⟨st, rfl, rfl⟩
  | await st w =>
    simp only [moved] at hm
    split at hm <;> cases hm
  | gather st js => cases js <;> cases hm
  | _ => cases hm

theorem stages_moved {m : Move} (hm : m.stage? = some st) : (h.moved ss m).stages = st :: ss := by
  cases m with
  | await st w =>
    cases hm
    simp only [moved]
    split <;> rfl
  | gather st js =>
    cases hm
    cases js <;> rfl
  | _ => cases hm <;> rfl

/-- The stages of a task after its move. -/
theorem stages_of_moved {m : Move} {f : Focus} {rest : List Stage}
    (hm : h.moved ss m = ⟨f, rest⟩) :
    (∃ o, m = .finish o ∧ f = .resume o ∧ rest = ss) ∨
      ∃ st, m.stage? = some st ∧ rest = st :: ss := by
  cases hst : m.stage? with
  | some st => exact .inr ⟨st, rfl, (congrArg Task.stages hm).symm.trans (stages_moved hst)⟩
  | none =>
    cases m with
    | finish o =>
      cases hm
      exact .inl ⟨o, rfl, rfl, rfl⟩
    | _ => cases hst

theorem Step.becomes (hs : Step h l k) (hv : h.tasks[i]? = some v) :
    ∃ x, k.tasks[i]? = some x ∧ h.Becomes l k i v x := by
  have apart {t : TaskId} (hi : h.turn = some t) (hne : i ≠ t) :
      h.turn = some i → h.cue? i = none := by
    intro turn
    cases hne (Option.some.inj (turn.symm.trans hi))
  have away (idle : h.turn = none) : h.turn = some i → h.cue? i = none := by
    intro turn
    cases idle.symm.trans turn
  cases hs.effect with
  | quiet still silent workspace tasks => exact ⟨v, tasks ▸ hv, .kept (still i)⟩
  | @move t q ss k turn cue workspace tasks =>
    by_cases hit : i = t
    · subst hit
      exact ⟨_, getElem?_moved (lt_of_cue? cue) tasks, .went turn cue rfl workspace rfl⟩
    · exact ⟨v, kept_of_move hit hv tasks, .kept (apart turn hit)⟩
  | @announce t o k turn ended workspace tasks =>
    exact ⟨v.hear t o, by rw [tasks, List.getElem?_map, hv]; rfl, .heard turn ended rfl⟩
  | @answer t q o ss k turn asked admits workspace tasks =>
    by_cases hit : i = t
    · subst hit
      obtain rfl := Option.some.inj (asked.symm.trans hv)
      refine ⟨_, ?_, .told turn rfl⟩
      rw [tasks, List.getElem?_set_self (List.getElem?_eq_some_iff.1 hv).1]
    · refine ⟨v, ?_, .kept (apart turn hit)⟩
      rw [tasks, List.getElem?_set_ne (Ne.symm hit), hv]
  | start idle workspace tasks =>
    refine ⟨v, ?_, .kept (away idle)⟩
    rw [tasks, List.getElem?_append_left (List.getElem?_eq_some_iff.1 hv).1, hv]
  | change idle workspace tasks => exact ⟨v, tasks ▸ hv, .kept (away idle)⟩

/-- A task that finishes a job goes on with what came of it. -/
theorem advance_of_finish {q : Cue} (cue : h.cue? t = some (q, ss))
    (finishes : (h.next q).2 = .finish o) :
    h.advance t = ((h.follow t ss (h.next q)).1, .running) := by
  rw [advance_of_cue? cue, follow, finishes]
  rfl

theorem query?_of_cue? {q : Cue} (cue : h.cue? t = some (q, ss)) : h.query? t = none := by
  cases asked : h.query? t with
  | none => rfl
  | some r => cases (cue?_eq_none_of_query? asked).symm.trans cue

/-- A task that finishes a job keeps its turn. -/
theorem Step.of_finish {q : Cue} (turn : h.turn = some t) (cue : h.cue? t = some (q, ss))
    (finishes : (h.next q).2 = .finish o) :
    ∃ k, Step h (.moved t) k ∧ k.tasks[t]? = some ⟨.resume o, ss⟩ := by
  refine ⟨_, .move turn (query?_of_cue? cue) (advance_of_finish cue finishes), ?_⟩
  rw [follow, finishes]
  exact List.getElem?_set_self (lt_of_cue? cue)

/-- A task that has the turn and a cue makes its move. -/
theorem Step.went {q : Cue} (hs : Step h l k) (turn : h.turn = some t)
    (cue : h.cue? t = some (q, ss)) :
    l = (h.next q).2.label t ∧ k.workspace = (h.next q).1 ∧
      k.tasks[t]? = some (h.moved ss (h.next q).2) := by
  obtain ⟨v, task⟩ : ∃ v, h.tasks[t]? = some v :=
    ⟨_, List.getElem?_eq_getElem (lt_of_cue? cue)⟩
  obtain ⟨x, hx, becomes⟩ := hs.becomes task
  cases becomes with
  | kept rests => cases (rests turn).symm.trans cue
  | heard now ended =>
    obtain rfl := Option.some.inj (now.symm.trans turn)
    cases (outcome?_of_cue? cue).symm.trans (outcome?_eq ended)
  | told => simp [cue?, task] at cue
  | went now found label workspace moves =>
    obtain ⟨rfl, rfl⟩ := cue?_inj found cue
    exact ⟨label, workspace, moves ▸ hx⟩

/-- Where a task comes from that a step leaves. -/
theorem Step.came (hs : Step h l k) (hx : k.tasks[i]? = some x) :
    (∃ v, h.tasks[i]? = some v ∧ h.Becomes l k i v x) ∨
      ∃ j, x = ⟨.begin j, []⟩ ∧ h.Launches l k i j := by
  cases hv : h.tasks[i]? with
  | some v =>
    obtain ⟨y, hy, becomes⟩ := hs.becomes hv
    obtain rfl := Option.some.inj (hy.symm.trans hx)
    exact .inl ⟨v, rfl, becomes⟩
  | none =>
    right
    cases hs.effect with
    | quiet still silent workspace tasks => cases hv.symm.trans (tasks ▸ hx)
    | @move t q ss k turn cue workspace tasks =>
      have hne : i ≠ t := by
        rintro rfl
        exact Nat.not_le_of_lt (lt_of_cue? cue) (List.getElem?_eq_none_iff.1 hv)
      rcases getElem?_of_move hne (tasks ▸ hx) with old | ⟨new, j, job, rfl⟩
      · cases hv.symm.trans old
      · exact ⟨j, rfl, .launched turn cue job new workspace⟩
    | announce turn ended workspace tasks =>
      rw [tasks, List.getElem?_map, hv] at hx
      cases hx
    | answer turn asked admits workspace tasks =>
      have hk := (List.getElem?_eq_some_iff.1 hx).1
      rw [List.getElem?_eq_none_iff] at hv
      rw [tasks, List.length_set] at hk
      omega
    | start idle workspace tasks =>
      rw [List.getElem?_eq_none_iff] at hv
      rw [tasks, List.getElem?_append_right hv, List.getElem?_map] at hx
      obtain ⟨j, hj, rfl⟩ := Option.map_eq_some_iff.1 hx
      exact ⟨j, rfl, .started rfl (List.mem_of_getElem? hj)⟩
    | change idle workspace tasks => cases hv.symm.trans (tasks ▸ hx)

/-- A stage that a task waits at after a step was there before, or its move has put it there. -/
theorem Step.mem_stages (hs : Step h l k) (hx : k.tasks[i]? = some x) (hst : st ∈ x.stages) :
    (∃ v, h.tasks[i]? = some v ∧ st ∈ v.stages) ∨
      ∃ q ss, h.cue? i = some (q, ss) ∧ (h.next q).2.stage? = some st := by
  obtain ⟨v, hv, becomes⟩ | ⟨j, rfl, -⟩ := hs.came hx
  · cases becomes with
    | kept => exact .inl ⟨_, hv, hst⟩
    | @heard _ _ t o turn ended hears => exact .inl ⟨v, hv, v.stages_hear t o ▸ hears ▸ hst⟩
    | told turn label => exact .inl ⟨_, hv, hst⟩
    | @went _ _ q ss turn cue label workspace moves =>
      have old (hst : st ∈ ss) : st ∈ v.stages := by
        cases q with
        | begin j =>
          obtain rfl := Option.some.inj (hv.symm.trans (cue?_eq_begin.1 cue))
          exact hst
        | told st' o =>
          obtain rfl := Option.some.inj (hv.symm.trans (cue?_eq_told.1 cue))
          exact List.mem_cons_of_mem _ hst
      obtain ⟨f, rest⟩ := x
      obtain ⟨o, -, -, rfl⟩ | ⟨st', stage, rfl⟩ := stages_of_moved moves
      · exact .inl ⟨v, hv, old hst⟩
      · rcases List.mem_cons.1 hst with rfl | hst
        · exact .inr ⟨q, ss, cue, stage⟩
        · exact .inl ⟨v, hv, old hst⟩
  · cases hst

/-- A task that has ended stays as it ended. -/
theorem Step.ended (hs : Step h l k) (ho : h.outcome? t = some o) : k.outcome? t = some o := by
  obtain ⟨v, hv, ended⟩ := Option.bind_eq_some_iff.1 ho
  obtain rfl := Task.outcome?_eq_some.1 ended
  obtain ⟨x, hx, becomes⟩ := hs.becomes hv
  rw [outcome?_eq hx]
  cases becomes with
  | kept => rfl
  | heard turn ended hears => exact hears ▸ rfl
  | went turn cue => cases (outcome?_of_cue? cue).symm.trans ho

theorem Steps.ended (hk : Steps h ls k) (ho : h.outcome? t = some o) : k.outcome? t = some o := by
  induction hk with
  | refl => exact ho
  | cons first _ ih => exact ih (first.ended ho)

/-- At this focus a task waits for another one, or it was told what the other one ended with. -/
def Heeds (h : Host) (w : TaskId) (f : Focus) : Prop :=
  f = .awaiting w ∨ ∃ o, f = .resume o ∧ h.outcome? w = some o

variable {f g : Focus}

theorem Step.heeds_kept (hs : Step h l k) (hg : h.Heeds w g) : k.Heeds w g :=
  hg.imp_right fun ⟨o, hg, ho⟩ => ⟨o, hg, hs.ended ho⟩

/-- Whoever heeds a task hears of its end alone. -/
theorem Step.heeds_heard (hs : Step h l k) (ended : h.tasks[t]? = some ⟨.resume o, []⟩)
    (hg : h.Heeds w g) (hears : (⟨g, ss⟩ : Task).hear t o = ⟨f, ss⟩) : k.Heeds w f := by
  obtain rfl | ⟨p, rfl, hp⟩ := hg
  · by_cases hit : w = t
    · subst hit
      have resumes : Focus.resume o = f := by
        simpa [Task.hear, Task.afterEnd?] using congrArg Task.focus hears
      exact .inr ⟨o, resumes.symm, hs.ended ((outcome?_eq ended).trans rfl)⟩
    · have waits : Focus.awaiting w = f := by
        simpa [Task.hear, Task.afterEnd?, hit] using congrArg Task.focus hears
      exact .inl waits.symm
  · have told : Focus.resume p = f := congrArg Task.focus hears
    exact .inr ⟨p, told.symm, hs.ended hp⟩

/-- Whoever goes on with the outcome of a task heeds it. -/
theorem Heeds.of_await {rest : List Stage} (hm : h.moved ss (.await st w) = ⟨f, rest⟩) :
    h.Heeds w f := by
  simp only [moved] at hm
  split at hm
  · rename_i o ho
    cases hm
    exact .inr ⟨o, rfl, ho⟩
  · cases hm
    exact .inl rfl

theorem stages_of_hear {rest : List Stage} (hears : (⟨g, rest⟩ : Task).hear t o = ⟨f, ss⟩) :
    rest = ss :=
  (Task.stages_hear ..).symm.trans (congrArg Task.stages hears)

/-- A task that heeds another one goes on doing so until it makes a move upon what that one ended
with. -/
theorem Step.heeds (hs : Step h l k) (hi : h.tasks[i]? = some ⟨g, st :: ss⟩) (hg : h.Heeds w g) :
    (∃ f, k.tasks[i]? = some ⟨f, st :: ss⟩ ∧ k.Heeds w f) ∨
      ∃ o, h.outcome? w = some o ∧
        k.tasks[i]? = some (h.moved ss (h.next (.told st o)).2) := by
  obtain ⟨x, hx, becomes⟩ := hs.becomes hi
  cases becomes with
  | kept => exact .inl ⟨g, hx, hs.heeds_kept hg⟩
  | @heard _ _ t o turn ended hears =>
    obtain ⟨f, rest⟩ := x
    obtain rfl := stages_of_hear hears
    exact .inl ⟨f, hx, hs.heeds_heard ended hg hears⟩
  | told turn label => obtain h | ⟨o, h, -⟩ := hg <;> cases h
  | @went _ _ q rest turn cue label workspace moves =>
    obtain rfl | ⟨o, rfl, ho⟩ := hg
    · simp [cue?, hi] at cue
    · obtain ⟨rfl, rfl⟩ := cue?_inj (cue?_eq_told.2 hi) cue
      exact .inr ⟨o, ho, moves ▸ hx⟩

end PluginHost.Host
