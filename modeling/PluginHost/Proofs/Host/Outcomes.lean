import PluginHost.Proofs.Host.Jobs
import PluginHost.Proofs.Host.Modules

/-!
Every task keeps to the control flow of the job that it was started for, and ends as is expected of
that job.
-/
namespace PluginHost

/-- What jobs are expected to end with and collaborators to answer. -/
structure Expectation where
  ends : Job → Outcome → Prop
  answers : Query → Outcome → Prop

variable {E : Expectation} {u : Setup} {s : Settings} {roots : List Job} {root owner j : Job}
  {st : Stage} {ss : List Stage} {o : Outcome} {task : Task} {t : TaskId}

/-- What a stage may be told from a source. A gathering fails with one of its tasks. -/
def Source.Gives (E : Expectation) : Source → Outcome → Prop
  | .called j, o | .joined j, o => E.ends j o
  | .gathered js, o => o = .ok .nothing ∨ o.isFailure = true ∧ ∃ j ∈ js, E.ends j o
  | .asked q, o => E.answers q o

/-- The cues for moves on behalf of a job. -/
inductive Cue.For (s : Settings) (E : Expectation) : Cue → Job → Prop where
  | begin {j : Job} : For s E (.begin j) j
  | told {st : Stage} {o : Outcome} {owner : Job} {src : Source}
      (awaits : st.Awaits s owner src) (gives : src.Gives E o) : For s E (.told st o) owner

/-- An expectation under which successes have the form that the control flow needs. -/
structure Expectation.Formed (u : Setup) (E : Expectation) : Prop where
  returns : ∀ {j : Job} {r : Reply}, E.ends j (.ok r) → j.Returns u.settings r
  admits : ∀ {q : Query} {r : Reply}, E.answers q (.ok r) → q.Admits (.ok r)

theorem Source.Gives.returns {src : Source} {r : Reply} (hE : E.Formed u)
    (hg : src.Gives E (.ok r)) : src.Returns u.settings r := by
  cases src with
  | called j => exact hE.returns hg
  | joined j => exact hE.returns hg
  | gathered js =>
    obtain h | ⟨h, -⟩ := hg
    · exact Except.ok.inj h
    · cases h
  | asked q => exact hE.admits hg

theorem Cue.For.lawful {q : Cue} {c : Workspace} (hE : E.Formed u) (hc : c.From u)
    (hq : q.For u.settings E owner) (hk : c.Knows roots) :
    Move.Lawful u.settings roots owner (q.move roots.length c) := by
  cases hq with
  | begin => exact Job.lawful_begin _ hc.settings hk
  | told awaits gives =>
    refine Stage.lawful_resume awaits hc.settings hk fun r hr => ?_
    subst hr
    exact gives.returns hE

/-- An expectation that every single move meets. -/
structure Expectation.Met (u : Setup) (E : Expectation) : Prop extends E.Formed u where
  finishes : ∀ {q : Cue} {owner : Job} {roots : List Job} {c : Workspace} {o : Outcome},
    c.From u → c.Knows roots → q.For u.settings E owner →
      (q.move roots.length c).2 = .finish o → E.ends owner o

/-- Whatever has the right form is expected. -/
def Expectation.wellFormed (u : Setup) : Expectation where
  ends j o := ∀ r, o = .ok r → j.Returns u.settings r
  answers := Query.Admits

theorem Expectation.wellFormed_met (u : Setup) : (wellFormed u).Met u where
  returns h := h _ rfl
  admits h := h
  finishes hc hk hq hm r hr := by
    have hE : (wellFormed u).Formed u := ⟨fun h => h _ rfl, fun h => h⟩
    have suits := (hq.lawful hE hc hk).suits
    rw [hm] at suits
    exact suits r hr

/-- The stages that wait for a job beneath the job that their task was started for. -/
inductive Job.Frames (s : Settings) (root : Job) : Job → List Stage → Prop where
  | root : Frames s root root []
  | under {owner j : Job} {st : Stage} {ss : List Stage} (outer : Frames s root owner ss)
      (awaits : st.Awaits s owner (.called j)) : Frames s root j (st :: ss)

/-- A task started for `root` that keeps to its control flow when tasks were started for `roots`. -/
inductive Task.Fits (s : Settings) (E : Expectation) (roots : List Job) (root : Job) :
    Task → Prop where
  | begin {j : Job} {ss : List Stage} (frames : root.Frames s j ss) :
      Fits s E roots root ⟨.begin j, ss⟩
  | ended {o : Outcome} (ends : E.ends root o) : Fits s E roots root ⟨.resume o, []⟩
  | told {st : Stage} {o : Outcome} {owner : Job} {src : Source} {ss : List Stage}
      (frames : root.Frames s owner ss) (awaits : st.Awaits s owner src)
      (gives : src.Gives E o) : Fits s E roots root ⟨.resume o, st :: ss⟩
  | awaiting {st : Stage} {u : TaskId} {owner j : Job} {ss : List Stage}
      (frames : root.Frames s owner ss) (awaits : st.Awaits s owner (.joined j))
      (job : roots[u]? = some j) : Fits s E roots root ⟨.awaiting u, st :: ss⟩
  | gathering {st : Stage} {us : List TaskId} {owner : Job} {js : List Job} {ss : List Stage}
      (frames : root.Frames s owner ss) (awaits : st.Awaits s owner (.gathered js))
      (jobs : ∀ u ∈ us, ∃ j ∈ js, roots[u]? = some j) :
      Fits s E roots root ⟨.gathering us, st :: ss⟩
  | asking {st : Stage} {q : Query} {owner : Job} {ss : List Stage}
      (frames : root.Frames s owner ss) (awaits : st.Awaits s owner (.asked q)) :
      Fits s E roots root ⟨.asking q, st :: ss⟩

/-- A host whose tasks were started for `roots` and keep to their control flow. -/
structure Host.Fits (s : Settings) (E : Expectation) (roots : List Job) (h : Host) : Prop where
  length : h.tasks.length = roots.length
  tasks : ∀ {t : TaskId} {task : Task}, h.tasks[t]? = some task →
    ∃ root, roots[t]? = some root ∧ task.Fits s E roots root
  knows : h.workspace.Knows roots

theorem getElem?_grow {u : TaskId} (hu : roots[u]? = some j) (js : List Job) :
    (roots ++ js)[u]? = some j := by
  rw [List.getElem?_append_left (List.getElem?_eq_some_iff.1 hu).1, hu]

namespace Task.Fits

theorem mono (ht : task.Fits s E roots root) (js : List Job) :
    task.Fits s E (roots ++ js) root := by
  cases ht with
  | begin frames => exact .begin frames
  | ended ends => exact .ended ends
  | told frames awaits gives => exact .told frames awaits gives
  | awaiting frames awaits job => exact .awaiting frames awaits (getElem?_grow job js)
  | gathering frames awaits jobs =>
    refine .gathering frames awaits fun u hu => ?_
    obtain ⟨j, hj, hu⟩ := jobs u hu
    exact ⟨j, hj, getElem?_grow hu js⟩
  | asking frames awaits => exact .asking frames awaits

/-- A task whose job has the given outcome goes on as expected. -/
theorem finish (frames : root.Frames s j ss) (ends : E.ends j o) :
    Task.Fits s E roots root ⟨.resume o, ss⟩ := by
  cases frames with
  | root => exact .ended ends
  | under outer awaits => exact .told outer awaits ends

theorem answer {q : Query} (ht : Task.Fits s E roots root ⟨.asking q, ss⟩)
    (ho : E.answers q o) : Task.Fits s E roots root ⟨.resume o, ss⟩ := by
  cases ht with
  | asking frames awaits => exact .told frames awaits ho

theorem hear (ht : task.Fits s E roots root) (hu : roots[t]? = some j) (ho : E.ends j o) :
    (task.hear t o).Fits s E roots root := by
  cases ht with
  | begin frames => exact .begin frames
  | ended ends => exact .ended ends
  | told frames awaits gives => exact .told frames awaits gives
  | asking frames awaits => exact .asking frames awaits
  | awaiting frames awaits job =>
    unfold Task.hear Task.afterEnd?
    dsimp only
    split
    · rename_i hf
      split at hf
      · rename_i he
        obtain rfl := Option.some.inj hf
        obtain rfl := Option.some.inj (job.symm.trans (he ▸ hu))
        exact .told frames awaits ho
      · cases hf
    · exact .awaiting frames awaits job
  | @gathering st us owner js ss frames awaits jobs =>
    unfold Task.hear Task.afterEnd?
    dsimp only
    split
    · rename_i hf
      split at hf
      · rename_i hm
        obtain ⟨i, hi, hj⟩ := jobs t hm
        obtain rfl := Option.some.inj (hj.symm.trans hu)
        split at hf
        · rename_i failure
          obtain rfl := Option.some.inj hf
          exact .told frames awaits (.inr ⟨failure, i, hi, ho⟩)
        · split at hf
          · obtain rfl := Option.some.inj hf
            exact .told frames awaits (.inl rfl)
          · cases hf
      · cases hf
    · exact .gathering frames awaits fun v hv => jobs v (List.mem_filter.1 hv).1

end Task.Fits

/-- The jobs that a step starts tasks for. -/
inductive Host.Spawns (h : Host) : Host.Label → List Job → Prop where
  | none {l : Host.Label} (apart : ∀ js, l ≠ .started js) : Spawns h l []
  | move {l : Host.Label} {t : TaskId} {q : Cue} {ss : List Stage} (turn : h.turn = some t)
      (cue : h.cue? t = some (q, ss)) (apart : ∀ js, l ≠ .started js) :
      Spawns h l (h.next q).2.jobs
  | start {js : List Job} : Spawns h (.started js) js

namespace Host

variable {h k : Host} {l : Label} {ls : List Label}

theorem Spawns.started {started js : List Job} (hs : h.Spawns (.started started) js) :
    js = started := by
  cases hs with
  | none apart => exact (apart _ rfl).elim
  | move turn cue apart => exact (apart _ rfl).elim
  | start => rfl

namespace Fits

/-- A task that has ended did so as is expected of its job. -/
theorem ends (hf : h.Fits s E roots) (ht : h.outcome? t = some o) (hj : roots[t]? = some j) :
    E.ends j o := by
  obtain ⟨⟨focus, ss⟩, hv, ho⟩ := Option.bind_eq_some_iff.1 ht
  obtain ⟨root, hr, fits⟩ := hf.tasks hv
  obtain rfl := Option.some.inj (hj.symm.trans hr)
  unfold Task.outcome? at ho
  split at ho
  · rename_i hfocus hss
    obtain rfl := Option.some.inj ho
    dsimp only at hfocus hss
    subst hfocus hss
    cases fits with
    | ended ends => exact ends
  · cases ho

/-- A cue belongs to the job on whose behalf the move upon it is made. -/
theorem cue {q : Cue} (hf : h.Fits s E roots) (hq : h.cue? t = some (q, ss)) :
    ∃ root owner, roots[t]? = some root ∧ root.Frames s owner ss ∧ q.For s E owner := by
  cases q with
  | begin j =>
    obtain ⟨root, hr, fits⟩ := hf.tasks (cue?_eq_begin.1 hq)
    cases fits with
    | begin frames => exact ⟨root, j, hr, frames, .begin⟩
  | told st o =>
    obtain ⟨root, hr, fits⟩ := hf.tasks (cue?_eq_told.1 hq)
    cases fits with
    | told frames awaits gives => exact ⟨root, _, hr, frames, .told awaits gives⟩

/-- A move leaves its task fitting and puts the jobs that it starts after the others. -/
theorem moved {m : Move} (hf : h.Fits s E roots) (frames : root.Frames s owner ss)
    (hm : m.Suits s roots owner) (finishes : ∀ o, m = .finish o → E.ends owner o) :
    ∃ v, (h.move t ss m).1.tasks =
        (h.tasks ++ m.jobs.map fun j => (⟨.begin j, []⟩ : Task)).set t v ∧
      v.Fits s E (roots ++ m.jobs) root := by
  cases m with
  | finish o => exact ⟨_, by simp [move, setTask, Move.jobs], .finish frames (finishes o rfl)⟩
  | call st j => exact ⟨_, by simp [move, setTask, Move.jobs], .begin (.under frames hm)⟩
  | await st u =>
    obtain ⟨j, hj, awaits⟩ := hm
    cases ho : h.outcome? u with
    | some o =>
      exact ⟨_, by simp [move, ho, setTask, Move.jobs], .told frames awaits (hf.ends ho hj)⟩
    | none =>
      exact ⟨_, by simp [move, ho, setTask, Move.jobs],
        .awaiting frames awaits (getElem?_grow hj _)⟩
  | launch st j =>
    refine ⟨_, by simp [move, setTask, start, Move.jobs]; rfl, .awaiting frames hm ?_⟩
    rw [hf.length]
    exact Work.getElem?_fresh j
  | gather st js =>
    cases js with
    | nil => exact ⟨_, by simp [move, setTask, Move.jobs], .told frames hm (.inl rfl)⟩
    | cons j js =>
      refine ⟨_, rfl, .gathering frames hm fun u hu => ?_⟩
      rw [hf.length, List.mem_range'_1] at hu
      obtain ⟨lo, hi⟩ := hu
      have hi : u - roots.length < (j :: js).length := Nat.sub_lt_left_of_lt_add lo hi
      refine ⟨(j :: js)[u - roots.length], List.getElem_mem hi, ?_⟩
      rw [Move.jobs, List.getElem?_append_right lo]
      exact List.getElem?_eq_getElem hi
  | ask st q => exact ⟨_, by simp [move, setTask, Move.jobs], .asking frames hm⟩

theorem set {v : Task} (hf : h.Fits s E roots) (hr : roots[t]? = some root)
    (hv : v.Fits s E roots root) (knows : k.workspace.Knows roots)
    (tasks : k.tasks = h.tasks.set t v) : k.Fits s E roots := by
  refine ⟨by simp [tasks, hf.length], fun {i task} hi => ?_, knows⟩
  rw [tasks, List.getElem?_set] at hi
  split at hi
  · rename_i he
    split at hi
    · obtain rfl := Option.some.inj hi
      exact ⟨root, he ▸ hr, hv⟩
    · cases hi
  · exact hf.tasks hi

theorem grow (hf : h.Fits s E roots) (js : List Job) (knows : k.workspace.Knows (roots ++ js))
    (tasks : k.tasks = h.tasks ++ js.map fun j => ⟨.begin j, []⟩) : k.Fits s E (roots ++ js) := by
  refine ⟨by simp [tasks, hf.length], fun {i task} hi => ?_, knows⟩
  rw [tasks, List.getElem?_append] at hi
  split at hi
  · obtain ⟨root, hr, fits⟩ := hf.tasks hi
    exact ⟨root, getElem?_grow hr js, fits.mono js⟩
  · rename_i hl
    rw [List.getElem?_map] at hi
    obtain ⟨j, hj, rfl⟩ := Option.map_eq_some_iff.1 hi
    rw [hf.length] at hl hj
    refine ⟨j, ?_, .begin .root⟩
    rw [List.getElem?_append_right (by omega), hj]

theorem same (hf : h.Fits s E roots) (knows : k.workspace.Knows roots)
    (tasks : k.tasks = h.tasks) : k.Fits s E roots :=
  ⟨tasks ▸ hf.length, fun hi => hf.tasks (tasks ▸ hi), knows⟩

/-- The next move of a task keeps to its control flow. -/
theorem suits {q : Cue} (hf : h.Fits u.settings E roots) (hE : E.Formed u)
    (hc : h.workspace.From u) (hq : q.For u.settings E owner) :
    (h.next q).2.Suits u.settings roots owner := by
  have lawful := hq.lawful hE hc hf.knows
  rw [← hf.length] at lawful
  exact lawful.suits

/-- A step keeps every task to its control flow and starts tasks for some further jobs, if the jobs
that it finishes end as is expected. -/
theorem effect_of (hE : E.Formed u) (hc : h.workspace.From u) (hf : h.Fits u.settings E roots)
    (hs : Effect h l k) (answers : ∀ t q o, l = .answered t q o → q.Admits o → E.answers q o)
    (finishes : ∀ {t : TaskId} {q : Cue} {ss : List Stage} {root owner : Job} {o : Outcome},
      h.cue? t = some (q, ss) → root.Frames u.settings owner ss → q.For u.settings E owner →
        (h.next q).2 = .finish o → E.ends owner o) :
    ∃ js, h.Spawns l js ∧ k.Fits u.settings E (roots ++ js) := by
  cases hs with
  | quiet still silent workspace tasks =>
    refine ⟨[], .none fun js hl => (by subst hl; exact silent.elim), ?_⟩
    rw [List.append_nil]
    exact hf.same (workspace ▸ hf.knows) tasks
  | @move t q ss k turn cue workspace tasks keeps =>
    obtain ⟨root, owner, hr, frames, hq⟩ := hf.cue cue
    have lawful := hq.lawful hE hc hf.knows
    rw [← hf.length] at lawful
    obtain ⟨v, hv, fits⟩ := hf.moved (t := t) frames lawful.suits fun o ho =>
      finishes cue frames hq ho
    refine ⟨(h.next q).2.jobs, .move turn cue (Move.label_ne_started t _), ?_⟩
    let g : Host := { k with tasks := h.tasks ++ (h.next q).2.jobs.map fun j => ⟨.begin j, []⟩ }
    have hg : g.Fits u.settings E (roots ++ (h.next q).2.jobs) :=
      hf.grow _ (workspace ▸ lawful.knows) rfl
    exact hg.set (getElem?_grow hr _) fits hg.knows (tasks.trans hv)
  | announce turn ended workspace tasks =>
    obtain ⟨root, hr, fits⟩ := hf.tasks ended
    refine ⟨[], .none (by simp), ?_⟩
    rw [List.append_nil]
    refine ⟨by simp [tasks, hf.length], fun {i task} hi => ?_, workspace ▸ hf.knows⟩
    rw [tasks, List.getElem?_map] at hi
    obtain ⟨v, hv, rfl⟩ := Option.map_eq_some_iff.1 hi
    obtain ⟨root', hr', fits'⟩ := hf.tasks hv
    cases fits with
    | ended ends => exact ⟨root', hr', fits'.hear hr ends⟩
  | @answer t q o ss k turn asked admits workspace tasks =>
    obtain ⟨root, hr, fits⟩ := hf.tasks asked
    refine ⟨[], .none (by simp), ?_⟩
    rw [List.append_nil]
    exact hf.set hr (fits.answer (answers t q o rfl admits)) (workspace ▸ hf.knows) tasks
  | @start js k idle workspace tasks =>
    exact ⟨js, .start, hf.grow js (workspace ▸ hf.knows.mono js) tasks⟩
  | change idle workspace tasks =>
    refine ⟨[], .none (by simp), ?_⟩
    rw [List.append_nil]
    exact hf.same (workspace ▸ hf.knows.after _) tasks

theorem effect (hE : E.Met u) (hc : h.workspace.From u) (hf : h.Fits u.settings E roots)
    (hs : Effect h l k) (answers : ∀ t q o, l = .answered t q o → q.Admits o → E.answers q o) :
    ∃ js, h.Spawns l js ∧ k.Fits u.settings E (roots ++ js) :=
  hf.effect_of hE.toFormed hc hs answers fun _ _ hq hm =>
    hE.finishes hc hf.knows hq (hf.length ▸ hm)

theorem start (u : Setup) (E : Expectation) : u.host.Fits u.settings E [] :=
  ⟨rfl, fun hi => (by simp [Setup.host] at hi),
    ⟨fun _ hu => (by cases hu), fun _ _ hu => (by cases hu), fun _ _ hu => (by cases hu)⟩⟩

theorem steps (hE : E.Met u) (hc : h.workspace.From u) (hf : h.Fits u.settings E roots)
    (hk : Steps h ls k)
    (answers : ∀ t q o, .answered t q o ∈ ls → q.Admits o → E.answers q o) :
    ∃ js, k.Fits u.settings E (roots ++ js) := by
  induction hk generalizing roots with
  | refl => exact ⟨[], by simpa using hf⟩
  | cons first _ ih =>
    obtain ⟨js, -, hg⟩ := hf.effect hE hc first.effect fun t q o hl =>
      answers t q o (by simp [hl])
    obtain ⟨is, hk⟩ := ih (first.effect.from hc) hg fun t q o hl => answers t q o (by simp [hl])
    exact ⟨js ++ is, by rwa [← List.append_assoc]⟩

end Fits

/-- In every run all tasks keep to the control flow of the jobs that they were started for. -/
theorem fits_of_runs (hr : u.Runs ls h) :
    ∃ roots, h.Fits u.settings (.wellFormed u) roots := by
  obtain ⟨js, hf⟩ := 
    (Fits.start u _).steps (Expectation.wellFormed_met u) (.start u) hr fun _ _ _ _ ha => ha
  exact ⟨_, hf⟩

section Started

variable {m : Host} {xs rs : List Label} {js : List Job} {i : Nat} {P : List Job → Host → Prop}

/-- What each step of a run keeps while it starts tasks for further jobs holds behind the run. -/
theorem kept_of_steps (hr : u.Runs xs h) (hp : P roots h) (hk : Steps h rs k)
    (step : ∀ {ys : List Label} {g n : Host} {l : Label} {roots : List Job}, l ∈ rs → u.Runs ys g →
      P roots g → Step g l n → ∃ js, g.Spawns l js ∧ P (roots ++ js) n) :
    ∃ js, P (roots ++ js) k := by
  induction hk generalizing roots xs with
  | refl => exact ⟨[], by rwa [List.append_nil]⟩
  | cons first _ ih =>
    obtain ⟨js, -, next⟩ := step (List.mem_cons_self ..) hr hp first
    obtain ⟨more, last⟩ := ih (hr.snoc first) next fun hl => step (List.mem_cons_of_mem _ hl)
    exact ⟨js ++ more, by rwa [← List.append_assoc]⟩

/-- What each step of a run keeps holds behind the run, with a job that was started in it at the
place of its task. -/
theorem kept_of_started (hr : u.Runs xs h) (hs : Step h (.started js) k) (hk : Steps k rs m)
    (hj : js[i]? = some j) (start : P [] u.host)
    (length : ∀ {roots : List Job} {g : Host}, P roots g → g.tasks.length = roots.length)
    (step : ∀ {ys : List Label} {g n : Host} {l : Label} {roots : List Job},
      l ∈ xs ++ .started js :: rs → u.Runs ys g → P roots g → Step g l n →
        ∃ js, g.Spawns l js ∧ P (roots ++ js) n) :
    ∃ roots, P roots m ∧ roots[h.tasks.length + i]? = some j := by
  obtain ⟨roots, before⟩ := kept_of_steps .refl start hr fun hl => step (by simp [hl])
  obtain ⟨started, spawns, begun⟩ := step (by simp) hr before hs
  obtain rfl := spawns.started
  obtain ⟨more, after⟩ := kept_of_steps (hr.snoc hs) begun hk fun hl => step (by simp [hl])
  refine ⟨_, after, getElem?_grow ?_ more⟩
  rw [length before, List.getElem?_append_right (Nat.le_add_right ..), Nat.add_sub_cancel_left, hj]

end Started

end Host

end PluginHost
