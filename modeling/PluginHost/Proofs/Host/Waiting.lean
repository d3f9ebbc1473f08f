import PluginHost.Proofs.Host.Outcomes
import PluginHost.Proofs.Path.Metadata

/-!
Nobody waits in vain. Tasks wait only for tasks whose jobs rank below their own, and they hear of
every end that they wait for. So while a task has not ended, some task can go on or a collaborator
owes an answer.
-/
namespace PluginHost

variable {s : Settings} {E : Expectation} {roots : List Job} {root owner j : Job} {st : Stage}
  {ss : List Stage} {src : Source} {v : Task} {m : Move} {o : Outcome}

/-- Jobs wait only for jobs that rank lower. Among fetches those rank lower that fewer further paths
are fetched on account of. -/
def Job.rank (s : Settings) : Job → Nat
  | .copyProject _ => 0
  | .openStore _ => 1
  | .download p _ => 2 * Downloads.turns (Path.normalize s.packagesRoot) 3 p + 1
  | .fetch p _ => 2 * Downloads.turns (Path.normalize s.packagesRoot) 3 (Path.normalize p) + 2
  | .recover .. | .resolve _ => 9
  | .installFresh _ => 10
  | .install _ => 11
  | .installOne _ => 12
  | .installAll _ => 13
  | .compile _ => 14
  | .compilePayload _ | .warmup => 15
  | .handle _ => 16

/-- The jobs that a stage may wait for. -/
def Source.jobs : Source → List Job
  | .called j | .joined j => [j]
  | .gathered js => js
  | .asked _ => []

theorem Job.rank_fetch_lt (s : Settings) (p : String) (a : Json) : (Job.fetch p a).rank s < 9 := by
  have := Downloads.turns_le (Path.normalize s.packagesRoot) 3 (Path.normalize p)
  simp only [Job.rank]
  omega

/-- A job waits only for jobs that rank below it. -/
theorem Stage.Awaits.rank_lt (ha : st.Awaits s owner src) (hj : j ∈ src.jobs) :
    j.rank s < owner.rank s := by
  have fetch (p : String) (a : Json) := Job.rank_fetch_lt s p a
  cases ha with
  | pluginsInstalled =>
    obtain ⟨name, -, rfl⟩ := List.mem_map.1 hj
    simp [Job.rank]
  | presetsInstalled =>
    obtain ⟨name, -, rfl⟩ := List.mem_map.1 hj
    simp [Job.rank]
  | metadataTried metadata apart =>
    obtain rfl := List.mem_singleton.1 hj
    have := Downloads.turns_lt metadata apart
    simp only [Job.rank]
    omega
  | recovered missing =>
    obtain rfl := List.mem_singleton.1 hj
    exact fetch _ _
  | literalTried =>
    obtain rfl := List.mem_singleton.1 hj
    exact fetch _ _
  | prefixedTried =>
    obtain rfl := List.mem_singleton.1 hj
    exact fetch _ _
  | @fetched i package p =>
    obtain rfl := List.mem_singleton.1 hj
    have := fetch p i.wanted.contextId
    simp only [Job.rank] at this ⊢
    omega
  | projectCopied => cases hj
  | downloaded => cases hj
  | transformed => cases hj
  | _ =>
    obtain rfl := List.mem_singleton.1 hj
    simp [Job.rank]

theorem Job.Frames.rank_le (hf : root.Frames s owner ss) : owner.rank s ≤ root.rank s := by
  induction hf with
  | root => exact Nat.le_refl _
  | under outer awaits ih =>
    have := awaits.rank_lt (List.mem_singleton_self _)
    omega

theorem Task.outcome?_eq_some : v.outcome? = some o ↔ v = ⟨.resume o, []⟩ := by
  obtain ⟨focus, stages⟩ := v
  constructor
  · intro h
    cases focus <;> cases stages <;> simp_all [Task.outcome?]
  · intro h
    rw [h]
    rfl

namespace Task

/-- Whether a task waits for others. -/
def waits (v : Task) : Bool :=
  match v.focus with
  | .awaiting _ | .gathering _ => true
  | _ => false

theorem hear_of_waits {u : TaskId} (hv : v.waits = false) : v.hear u o = v := by
  obtain ⟨focus, stages⟩ := v
  cases focus with
  | awaiting w => cases hv
  | gathering ws => cases hv
  | _ => rfl

/-- Whoever goes on upon an end goes on with an outcome. -/
theorem resume_of_afterEnd? {u : TaskId} {f : Focus} (hf : v.afterEnd? u o = some f) :
    ∃ p, f = .resume p := by
  unfold afterEnd? at hf
  split at hf
  · split at hf <;> cases hf
    exact ⟨_, rfl⟩
  · split at hf
    · split at hf
      · cases hf
        exact ⟨_, rfl⟩
      · split at hf <;> cases hf
        exact ⟨_, rfl⟩
    · cases hf
  · cases hf

theorem waits_hear {u : TaskId} (hv : (v.afterEnd? u o).isSome = true) :
    (v.hear u o).waits = false := by
  obtain ⟨f, hf⟩ := Option.isSome_iff_exists.1 hv
  obtain ⟨p, rfl⟩ := resume_of_afterEnd? hf
  rw [hear, hf]
  rfl

end Task

namespace Host

variable {h k : Host} {t u i : TaskId} {l : Label} {ls : List Label}

theorem ready_of_move (h : Host) (t : TaskId) (ss : List Stage) (m : Move) :
    (h.move t ss m).1.ready = h.ready ++ List.range' h.tasks.length m.jobs.length := by
  cases m with
  | await st u =>
    simp only [move]
    split <;> simp [setTask, Move.jobs]
  | gather st js => cases js <;> simp [move, setTask, start, Move.jobs]
  | _ => simp [move, setTask, start, Move.jobs]

theorem ready_of_advance {q : Cue} {p : Progress} (hq : h.cue? t = some (q, ss))
    (ha : h.advance t = (k, p)) : k.ready = (h.move t ss (h.next q).2).1.ready := by
  have hf := (advance_of_cue? hq).symm.trans ha
  have hk : ({ h with workspace := (h.next q).1 }.move t ss (h.next q).2).1 = k :=
    congrArg Prod.fst hf
  rw [← hk, ready_of_move, ready_of_move]

theorem outcome?_eq (ht : h.tasks[t]? = some v) : h.outcome? t = v.outcome? := by
  simp [outcome?, ht]

theorem lt_of_outcome? (ho : h.outcome? u = some o) : u < h.tasks.length := by
  obtain ⟨v, hv, -⟩ := Option.bind_eq_some_iff.1 ho
  exact (List.getElem?_eq_some_iff.1 hv).1

/-- Whether the others are still to be told of the end of a task. -/
def Owes (h : Host) (u : TaskId) : Prop := h.outcome? u = none ∨ h.turn = some u

/-- A task that waits in vain for nothing. -/
inductive Alert (h : Host) (t : TaskId) : Task → Prop where
  | able {v : Task} (next : t ∈ h.ready ∨ h.turn = some t) (goes : v.waits = false) : Alert h t v
  | ended {v : Task} {o : Outcome} (outcome : v.outcome? = some o) : Alert h t v
  | asking {q : Query} {ss : List Stage} : Alert h t ⟨.asking q, ss⟩
  | awaiting {u : TaskId} {ss : List Stage} (owes : h.Owes u) : Alert h t ⟨.awaiting u, ss⟩
  | gathering {us : List TaskId} {ss : List Stage} (some : us ≠ [])
      (owe : ∀ u ∈ us, h.Owes u) : Alert h t ⟨.gathering us, ss⟩

/-- No task waits in vain. -/
structure Awake (h : Host) : Prop where
  alert : ∀ {t : TaskId} {v : Task}, h.tasks[t]? = some v → h.Alert t v

theorem Alert.mono (ha : h.Alert t v) (able : t ∈ h.ready ∨ h.turn = some t →
    t ∈ k.ready ∨ k.turn = some t) (owe : ∀ u, h.Owes u → k.Owes u) : k.Alert t v := by
  cases ha with
  | able next goes => exact .able (able next) goes
  | ended outcome => exact .ended outcome
  | asking => exact .asking
  | awaiting owes => exact .awaiting (owe _ owes)
  | gathering some owes => exact .gathering some fun u hu => owe u (owes u hu)

/-- A task that pauses has not ended. -/
theorem outcome?_of_paused (hp : (h.move t ss m).2 = .paused) : (h.moved ss m).outcome? = none := by
  cases m with
  | await st u =>
    simp only [move] at hp
    simp only [moved]
    split at hp <;> simp_all [Task.outcome?]
  | gather st js => cases js <;> simp_all [move, moved, Task.outcome?]
  | launch st j => rfl
  | _ => simp [move] at hp

theorem waits_of_running (hp : (h.move t ss m).2 ≠ .paused) : (h.moved ss m).waits = false := by
  cases m with
  | await st u => cases ho : h.outcome? u <;> simp_all [move, moved, Task.waits]
  | gather st js => cases js <;> simp_all [move, moved, Task.waits]
  | launch st j => exact (hp rfl).elim
  | _ => rfl

theorem getElem?_moved (ht : t < h.tasks.length) (tasks : k.tasks = (h.move t ss m).1.tasks) :
    k.tasks[t]? = some (h.moved ss m) := by
  rw [tasks, tasks_of_move, List.getElem?_set_self]
  rw [List.length_append]
  exact Nat.lt_add_right _ ht

theorem outcome?_of_move (hne : i ≠ t) (hi : h.outcome? i = none) (tasks : k.tasks =
    (h.move t ss m).1.tasks) : k.outcome? i = none := by
  cases hv : k.tasks[i]? with
  | none => simp [outcome?, hv]
  | some v =>
    rw [outcome?_eq hv]
    rcases getElem?_of_move hne (tasks ▸ hv) with old | ⟨-, j, -, rfl⟩
    · rw [← outcome?_eq old, hi]
    · rfl

/-- A task that has the turn may start others, and it keeps the turn unless it has to wait. -/
theorem Awake.move (hw : h.Awake) (turn : h.turn = some t) (ht : t < h.tasks.length)
    (tasks : k.tasks = (h.move t ss m).1.tasks) (ready : k.ready = (h.move t ss m).1.ready)
    (next : k.turn = some t ∧ (h.move t ss m).2 ≠ .paused ∨
      k.turn = none ∧ (h.move t ss m).2 = .paused) : k.Awake := by
  have own := getElem?_moved ht tasks
  have owe (u : TaskId) (hu : h.Owes u) : k.Owes u := by
    by_cases he : u = t
    · subst he
      rcases next with ⟨next, -⟩ | ⟨-, paused⟩
      · exact .inr next
      · exact .inl ((outcome?_eq own).trans (outcome?_of_paused paused))
    · rcases hu with none | now
      · exact .inl (outcome?_of_move he none tasks)
      · exact (he (Option.some.inj (now.symm.trans turn))).elim
  have started {u : TaskId} (hu : h.tasks.length ≤ u) : h.Owes u := by
    left
    simp [outcome?, List.getElem?_eq_none hu]
  refine ⟨fun {i v} hv => ?_⟩
  by_cases he : i = t
  · subst he
    obtain rfl := Option.some.inj (own.symm.trans hv)
    rcases next with ⟨next, running⟩ | ⟨-, paused⟩
    · exact .able (.inr next) (waits_of_running running)
    cases m with
    | await st u =>
      cases ho : h.outcome? u with
      | some o => simp [Host.move, ho] at paused
      | none =>
        simp only [moved, ho]
        exact .awaiting (owe u (.inl ho))
    | launch st j => exact .awaiting (owe _ (started (Nat.le_refl _)))
    | gather st js =>
      cases js with
      | nil => simp [Host.move] at paused
      | cons j js =>
        refine .gathering (by simp) fun u hu => owe u (started ?_)
        exact (List.mem_range'_1.1 hu).1
    | _ => simp [Host.move] at paused
  · rcases getElem?_of_move he (tasks ▸ hv) with old | ⟨new, j, -, rfl⟩
    · refine (hw.alert old).mono (fun able => .inl ?_) owe
      rw [ready, ready_of_move]
      rcases able with able | now
      · exact List.mem_append_left _ able
      · exact (he (Option.some.inj (now.symm.trans turn))).elim
    · refine .able (.inl ?_) rfl
      rw [ready, ready_of_move]
      exact List.mem_append_right _ new

/-- A step at which at most the turn and the tasks that can go on change. -/
theorem Awake.same (hw : h.Awake) (tasks : k.tasks = h.tasks)
    (able : ∀ t v, h.tasks[t]? = some v → v.waits = false → t ∈ h.ready ∨ h.turn = some t →
      k.Alert t v)
    (turn : ∀ u, h.turn = some u → k.turn = some u ∨ h.outcome? u = none) : k.Awake := by
  have owe (u : TaskId) (hu : h.Owes u) : k.Owes u := by
    rw [Owes, outcome?, tasks]
    exact hu.elim .inl fun now => (turn u now).symm
  refine ⟨fun {t v} hv => ?_⟩
  rw [tasks] at hv
  cases hw.alert hv with
  | able next goes => exact able t v hv goes next
  | ended outcome => exact .ended outcome
  | asking => exact .asking
  | awaiting owes => exact .awaiting (owe _ owes)
  | gathering some owes => exact .gathering some fun u hu => owe u (owes u hu)

/-- Hearing of an end ends no task: whoever waits has a stage to go on with. -/
theorem Fits.outcome?_of_hear (hf : h.Fits s E roots) (hu : h.tasks[u]? = some v)
    (hn : v.outcome? = none) : (v.hear t o).outcome? = none := by
  cases ho : (v.hear t o).outcome? with
  | none => rfl
  | some p =>
    obtain ⟨root, -, fits⟩ := hf.tasks hu
    rcases resume_of_hear (Task.outcome?_eq_some.1 ho) with rfl | ⟨w, rfl⟩ | ⟨ws, rfl⟩
    · cases hn
    · cases fits
    · cases fits

theorem mem_ready_announce (hv : h.tasks[i]? = some v) (ha : (v.afterEnd? t o).isSome = true) :
    i ∈ (h.announce t o).pause.ready := by
  refine List.mem_append_right _ (List.mem_map.2 ⟨(v, i), List.mem_filter.2 ⟨?_, ha⟩, rfl⟩)
  exact List.mem_zipIdx_iff_getElem?.2 hv

/-- Those who wait for a task that has ended go on; the others wait for tasks that have not. -/
theorem Awake.announce (hw : h.Awake) (hf : h.Fits s E roots) (turn : h.turn = some t)
    (ended : h.tasks[t]? = some ⟨.resume o, []⟩) : (h.announce t o).pause.Awake := by
  have heard {i : TaskId} {v : Task} (hv : h.tasks[i]? = some v) :
      (h.announce t o).pause.tasks[i]? = some (v.hear t o) := by
    simp [Host.announce, pause, hv]
  have owe {u : TaskId} (hu : h.Owes u) (hne : u ≠ t) : (h.announce t o).pause.Owes u := by
    left
    have hn : h.outcome? u = none :=
      hu.resolve_right fun now => hne (Option.some.inj (now.symm.trans turn))
    cases hv : h.tasks[u]? with
    | none => simp [outcome?, Host.announce, pause, hv]
    | some v =>
      rw [outcome?_eq (heard hv)]
      exact hf.outcome?_of_hear hv ((outcome?_eq hv).symm.trans hn)
  refine ⟨fun {i w} hi => ?_⟩
  obtain ⟨v, hv, rfl⟩ : ∃ v, h.tasks[i]? = some v ∧ w = v.hear t o := by
    simp only [Host.announce, pause, List.getElem?_map] at hi
    obtain ⟨v, hv, rfl⟩ := Option.map_eq_some_iff.1 hi
    exact ⟨v, hv, rfl⟩
  by_cases resumes : (v.afterEnd? t o).isSome = true
  · exact .able (.inl (mem_ready_announce hv resumes)) (Task.waits_hear resumes)
  · rw [Option.not_isSome_iff_eq_none] at resumes
    cases hw.alert hv with
    | able next goes =>
      rw [Task.hear_of_waits goes]
      rcases next with next | now
      · exact .able (.inl (List.mem_append_left _ next)) goes
      · obtain rfl := Option.some.inj (now.symm.trans turn)
        obtain rfl := Option.some.inj (hv.symm.trans ended)
        exact .ended rfl
    | ended outcome =>
      obtain rfl := Task.outcome?_eq_some.1 outcome
      exact .ended rfl
    | asking => exact .asking
    | @awaiting u ss owes =>
      have hne : u ≠ t := by
        rintro rfl
        simp [Task.afterEnd?] at resumes
      rw [Task.hear, resumes]
      exact .awaiting (owe owes hne)
    | @gathering us ss some owes =>
      rw [Task.hear, resumes]
      refine .gathering ?_ fun u hu => ?_
      · intro none
        rw [List.filter_eq_nil_iff] at none
        have all : ∀ u ∈ us, u = t := by simpa using none
        obtain ⟨u, hu⟩ := List.exists_mem_of_ne_nil us some
        have ht : t ∈ us := all u hu ▸ hu
        have every : us.all (· = t) = true := List.all_eq_true.2 (by simpa using all)
        simp only [Task.afterEnd?, if_pos ht, every, if_true] at resumes
        split at resumes <;> cases resumes
      · obtain ⟨hu, hne⟩ := List.mem_filter.1 hu
        exact owe (owes u hu) (by simpa using hne)

theorem Awake.start (hw : h.Awake) (idle : h.turn = none) (js : List Job) :
    (h.start js).Awake := by
  have owe (u : TaskId) (hu : h.Owes u) : (h.start js).Owes u := by
    have hn : h.outcome? u = none := hu.resolve_right (by simp [idle])
    left
    simp only [outcome?, Host.start, List.getElem?_append, List.getElem?_map] at hn ⊢
    split
    · exact hn
    · cases js[u - h.tasks.length]? <;> rfl
  refine ⟨fun {i v} hv => ?_⟩
  simp only [Host.start, List.getElem?_append] at hv
  split at hv
  · refine (hw.alert hv).mono (fun able => .inl ?_) owe
    exact List.mem_append_left _ (able.resolve_right (by simp [idle]))
  · rename_i hl
    rw [List.getElem?_map] at hv
    obtain ⟨j, hj, rfl⟩ := Option.map_eq_some_iff.1 hv
    have bound := (List.getElem?_eq_some_iff.1 hj).1
    refine .able (.inl (List.mem_append_right _ (List.mem_range'_1.2 ⟨?_, ?_⟩))) rfl <;> omega

theorem lt_of_cue? {q : Cue} (hc : h.cue? t = some (q, ss)) : t < h.tasks.length := by
  cases q with
  | begin j => exact (List.getElem?_eq_some_iff.1 (cue?_eq_begin.1 hc)).1
  | told st o => exact (List.getElem?_eq_some_iff.1 (cue?_eq_told.1 hc)).1

theorem outcome?_of_cue? {q : Cue} (hc : h.cue? t = some (q, ss)) : h.outcome? t = none := by
  cases q with
  | begin j => exact outcome?_eq (cue?_eq_begin.1 hc)
  | told st o => exact outcome?_eq (cue?_eq_told.1 hc)

/-- A task that does not wait can go on, has ended, or has asked a collaborator. -/
theorem goes_cases (hv : h.tasks[t]? = some v) (goes : v.waits = false) :
    (∃ q ss, h.cue? t = some (q, ss)) ∨ (∃ o, h.outcome? t = some o) ∨
      ∃ q, h.query? t = some q := by
  obtain ⟨focus, ss⟩ := v
  cases focus with
  | begin j => exact .inl ⟨_, _, cue?_eq_begin.2 hv⟩
  | resume o =>
    cases ss with
    | nil => exact .inr (.inl ⟨o, outcome?_eq hv⟩)
    | cons st ss => exact .inl ⟨_, _, cue?_eq_told.2 hv⟩
  | awaiting u => cases goes
  | gathering us => cases goes
  | asking q => exact .inr (.inr ⟨q, by simp [query?, hv, Task.query?]⟩)

/-- A task that has the turn goes on, tells the others of its end, or has nothing to do. -/
theorem Awake.advance {p : Progress} (hw : h.Awake) (hf : h.Fits s E roots) (turn : h.turn = some t)
    (free : h.query? t = none) (ha : h.advance t = (k, p)) :
    (p = .paused → k.pause.Awake) ∧ (p ≠ .paused → k.Awake) := by
  cases hc : h.cue? t with
  | none =>
    cases ho : h.outcome? t with
    | some o =>
      obtain ⟨v, hv, outcome⟩ := Option.bind_eq_some_iff.1 ho
      obtain rfl := Task.outcome?_eq_some.1 outcome
      obtain ⟨rfl, rfl⟩ : h.announce t o = k ∧ .paused = p := by simpa [Host.advance, hv] using ha
      exact ⟨fun _ => hw.announce hf turn hv, fun h => (h rfl).elim⟩
    | none =>
      rcases advance_of_cue?_eq_none hc with ⟨o, ended, -⟩ | ⟨q, hq⟩ | hn
      · cases (outcome?_eq ended).symm.trans ho
      · cases free.symm.trans hq
      · obtain ⟨rfl, rfl⟩ := Prod.mk.inj (hn.symm.trans ha)
        refine ⟨fun _ => hw.same rfl (fun i v hv goes next => ?_) fun u hu => ?_,
          fun h => (h rfl).elim⟩
        · rcases next with next | now
          · exact .able (.inl next) goes
          · obtain rfl := Option.some.inj (now.symm.trans turn)
            rcases goes_cases hv goes with ⟨q, ss, hq⟩ | ⟨o, hq⟩ | ⟨q, hq⟩
            · cases hc.symm.trans hq
            · cases ho.symm.trans hq
            · cases free.symm.trans hq
        · obtain rfl := Option.some.inj (hu.symm.trans turn)
          exact .inr ho
  | some r =>
    obtain ⟨q, ss⟩ := r
    let g : Host := { h with workspace := (h.next q).1 }
    have hg : g.Awake := hw.same rfl (fun i v hv goes next => .able next goes) fun u hu => .inl hu
    have hm : g.move t ss (h.next q).2 = (k, p) := (advance_of_cue? hc).symm.trans ha
    have hk : (g.move t ss (h.next q).2).1 = k := congrArg Prod.fst hm
    have hp : (g.move t ss (h.next q).2).2 = p := congrArg Prod.snd hm
    refine ⟨fun paused => ?_, fun running => ?_⟩
    · exact hg.move (k := k.pause) turn (lt_of_cue? hc) (by rw [hk]; rfl) (by rw [hk]; rfl)
        (.inr ⟨rfl, hp.trans paused⟩)
    · refine hg.move turn (lt_of_cue? hc) (by rw [hk]) (by rw [hk]) (.inl ⟨?_, hp ▸ running⟩)
      rw [← hk, turn_move]
      exact turn

theorem Awake.step (hw : h.Awake) (hf : h.Fits s E roots) (hs : Step h l k) : k.Awake := by
  cases hs with
  | @take t idle ready =>
    refine hw.same rfl (fun i v hv goes next => .able ?_ goes) (by simp [idle])
    by_cases he : i = t
    · exact .inr (congrArg some he.symm)
    · exact .inl ((List.mem_erase_of_ne he).2 (next.resolve_right (by simp [idle])))
  | move turn free next => exact (hw.advance hf turn free next).2 (by simp)
  | stop turn free next => exact (hw.advance hf turn free next).1 rfl
  | ask turn free next => exact (hw.advance hf turn free next).2 (by simp)
  | @answer t q o turn asked admits =>
    obtain ⟨⟨focus, ss⟩, ht, hq⟩ := Option.bind_eq_some_iff.1 asked
    cases focus with
    | asking r =>
      have tasks : (h.answer t o).tasks = (h.move t ss (.finish o)).1.tasks := by
        simp [Host.answer, ht, Host.move]
      refine hw.move turn (List.getElem?_eq_some_iff.1 ht).1 tasks ?_
        (.inl ⟨?_, by simp [Host.move]⟩)
      · simp [Host.answer, ht, Host.move, setTask]
      · simp [Host.answer, ht, setTask, turn]
    | _ => simp [Task.query?] at hq
  | @keep t q turn asked =>
    obtain ⟨⟨focus, ss⟩, ht, hq⟩ := Option.bind_eq_some_iff.1 asked
    cases focus with
    | asking r =>
      refine hw.same rfl (fun i v hv goes next => ?_) fun u hu => ?_
      · rcases next with next | now
        · exact .able (.inl next) goes
        · obtain rfl := Option.some.inj (now.symm.trans turn)
          obtain rfl := Option.some.inj (hv.symm.trans ht)
          exact .asking
      · obtain rfl := Option.some.inj (hu.symm.trans turn)
        exact .inr (outcome?_eq ht)
    | _ => simp [Task.query?] at hq
  | release idle asked apart =>
    refine hw.same rfl (fun i v hv goes next => .able (.inl ?_) goes) (by simp [idle])
    exact List.mem_append_left _ (next.resolve_right (by simp [idle]))
  | start idle => exact hw.start idle _
  | change idle => exact hw.same rfl (fun i v hv goes next => .able next goes) (by simp [idle])

theorem awake_of_runs {u : Setup} (hr : u.Runs ls h) : h.Awake := by
  refine Steps.forward (P := fun _ k => k.Awake) ⟨fun hv => by simp [Setup.host] at hv⟩ ?_ hr
  intro ls k m l hk hw hs
  obtain ⟨roots, hf⟩ := fits_of_runs hk
  exact hw.step hf hs

/-- Nothing can go on and no collaborator owes an answer. -/
structure Idle (h : Host) : Prop where
  turn : h.turn = none
  ready : h.ready = []
  queries : ∀ t, h.query? t = none

instance (h : Host) : Decidable h.Idle :=
  decidable_of_iff (h.turn = none ∧ h.ready = [] ∧ ∀ v ∈ h.tasks, v.query?.isNone = true)
    ⟨fun ⟨turn, ready, queries⟩ => ⟨turn, ready, fun t => by
      cases hv : h.tasks[t]? with
      | none => simp [query?, hv]
      | some v => simpa [query?, hv] using queries v (List.mem_of_getElem? hv)⟩,
    fun hi => ⟨hi.turn, hi.ready, fun v hv => by
      obtain ⟨t, ht⟩ := List.getElem?_of_mem hv
      simpa [query?, ht] using hi.queries t⟩⟩

/-- Neither tasks nor collaborators have anything left to do. -/
def Rests (h : Host) : Prop := ∀ l k, Step h l k → ¬ l.Internal

theorem Idle.rests (hi : h.Idle) : h.Rests := by
  intro l k hs internal
  cases hs with
  | take idle ready => simp [hi.ready] at ready
  | release idle asked => cases (hi.queries _).symm.trans asked
  | start idle => exact internal
  | change idle => exact internal
  | move turn | stop turn | ask turn | answer turn | keep turn => cases hi.turn.symm.trans turn

theorem Rests.idle (hr : h.Rests) : h.Idle := by
  have turn : h.turn = none := by
    cases turn : h.turn with
    | none => rfl
    | some t =>
      cases hq : h.query? t with
      | some q => exact (hr _ _ (.keep turn hq) trivial).elim
      | none =>
        rcases next : h.advance t with ⟨k, p⟩
        cases p with
        | running => exact (hr _ _ (.move turn hq next) trivial).elim
        | paused => exact (hr _ _ (.stop turn hq next) trivial).elim
        | asking q => exact (hr _ _ (.ask turn hq next) trivial).elim
  have ready : h.ready = [] := by
    cases ready : h.ready with
    | nil => rfl
    | cons t ts => exact (hr _ _ (.take turn (ready ▸ List.mem_cons_self)) trivial).elim
  refine ⟨turn, ready, fun t => ?_⟩
  cases hq : h.query? t with
  | none => rfl
  | some q => exact (hr _ _ (.release turn hq (by simp [ready])) trivial).elim

/-- In a host in which nothing is left to be done every task has ended. -/
theorem Idle.ended (hi : h.Idle) (hw : h.Awake) (hf : h.Fits s E roots)
    (hj : roots[t]? = some root) : ∃ o, h.outcome? t = some o := by
  induction hn : root.rank s using Nat.strongRecOn generalizing t root with
  | _ n ih =>
    have ht : t < h.tasks.length := hf.length ▸ (List.getElem?_eq_some_iff.1 hj).1
    obtain ⟨v, hv⟩ : ∃ v, h.tasks[t]? = some v := ⟨_, List.getElem?_eq_getElem ht⟩
    obtain ⟨root', hr, fits⟩ := hf.tasks hv
    obtain rfl := Option.some.inj (hj.symm.trans hr)
    have told {u : TaskId} {j : Job} {owner : Job} {src : Source} {st : Stage} {ss : List Stage}
        (frames : root.Frames s owner ss) (awaits : st.Awaits s owner src) (hs : j ∈ src.jobs)
        (hu : roots[u]? = some j) : ¬ h.Owes u := by
      have lower := awaits.rank_lt hs
      have le := frames.rank_le
      obtain ⟨o, ho⟩ := ih (j.rank s) (by omega) hu rfl
      rintro (none | now)
      · cases none.symm.trans ho
      · cases hi.turn.symm.trans now
    cases hw.alert hv with
    | able next =>
      rw [hi.ready, hi.turn] at next
      simp at next
    | ended outcome => exact ⟨_, (outcome?_eq hv).trans outcome⟩
    | @asking q ss =>
      have := hi.queries t
      simp [query?, hv, Task.query?] at this
    | awaiting owes =>
      cases fits with
      | awaiting frames awaits job =>
        exact (told frames awaits (by simp [Source.jobs]) job owes).elim
    | @gathering us ss some owe =>
      cases fits with
      | gathering frames awaits jobs =>
        obtain ⟨u, hu⟩ := List.exists_mem_of_ne_nil us some
        obtain ⟨j, hj, job⟩ := jobs u hu
        exact (told frames awaits hj job (owe u hu)).elim

end Host

end PluginHost
