import PluginHost.Proofs.Host.Copying
import PluginHost.Proofs.Host.Costs

/-!
How long a host goes on by itself. Each step leaves less to be spent, unless it puts a task back in
line whose answer is still owed. So when callers let a host be and collaborators answer, all tasks
end.
-/
namespace PluginHost

variable {s : Settings} {E : Expectation} {roots js : List Job} {root owner : Job} {st : Stage}
  {ss : List Stage} {src : Source} {v : Task} {o : Outcome} {b : Bool} {q : Cue} {m : Move}

def Focus.cost (s : Settings) (ready : Bool) : Focus → Nat
  | .begin j => j.cost s ready
  | .resume _ => 0
  | .awaiting _ | .gathering _ => 2
  | .asking _ => 1

namespace Task

/-- What a task may spend besides that goes on with a success although the store is not ready. -/
def excess (s : Settings) (ready : Bool) (v : Task) : Nat :=
  match v.focus with
  | .resume (.ok _) => if ready then 0 else (v.stages.map (Stage.excess s)).sum
  | _ => 0

/-- What a task may still spend. -/
def cost (s : Settings) (ready : Bool) (v : Task) : Nat :=
  v.focus.cost s ready + (v.stages.map (Stage.cost s ready)).sum + v.excess s ready

theorem cost_eq (v : Task) (s : Settings) (ready : Bool) : v.cost s ready =
    v.focus.cost s ready + (v.stages.map (Stage.cost s ready)).sum + v.excess s ready := rfl

theorem excess_of_ready (s : Settings) (v : Task) : v.excess s true = 0 := by
  unfold excess
  split <;> rfl

theorem excess_resume (s : Settings) (o : Outcome) (ss : List Stage) :
    (⟨.resume o, ss⟩ : Task).excess s false =
      if o.isFailure = false then (ss.map (Stage.excess s)).sum else 0 := by
  cases o <;> rfl

end Task

/-- What a host may still spend by itself. -/
def Host.budget (h : Host) (s : Settings) : Nat :=
  (h.tasks.map (Task.cost s h.workspace.store.ready)).sum + 2 * h.ready.length +
    h.turn.toList.length

section Ready

theorem Compilation.detour_ready (c : Compilation) (s : Settings) (b : Bool) :
    c.detour s true ≤ c.detour s b := Nat.zero_le _

theorem Stage.cost_ready (s : Settings) (b : Bool) (st : Stage) : st.cost s true ≤ st.cost s b := by
  cases st with
  | needsInstalled c | transformed c | engineMended c =>
    have := c.detour_ready s b
    simp only [cost]
    omega
  | _ => exact Nat.le_refl _

theorem Work.compileCost_ready (s : Settings) (b : Bool) (r : CompileRequest) :
    compileCost s true r ≤ compileCost s b r := by
  unfold compileCost
  split
  · rename_i c _
    have := c.detour_ready s b
    omega
  · exact Nat.le_refl _

theorem Job.cost_ready (s : Settings) (b : Bool) (j : Job) : j.cost s true ≤ j.cost s b := by
  have compile (r : CompileRequest) := Work.compileCost_ready s b r
  cases j with
  | compile r => exact compile r
  | compilePayload payload | handle payload =>
    simp only [cost]
    split
    · rename_i r _
      have := compile r
      omega
    · exact Nat.le_refl _
  | warmup =>
    have := compile (Work.warmupRequest s)
    simp only [cost]
    omega
  | _ => simp only [cost, Nat.le_refl]

/-- In a host whose store is ready there is less to be spent. -/
theorem Task.cost_ready (s : Settings) (b : Bool) (v : Task) : v.cost s true ≤ v.cost s b := by
  have focus : v.focus.cost s true ≤ v.focus.cost s b := by
    cases v.focus with
    | begin j => exact j.cost_ready s b
    | _ => exact Nat.le_refl _
  have stages : (v.stages.map (Stage.cost s true)).sum ≤ (v.stages.map (Stage.cost s b)).sum := by
    induction v.stages with
    | nil => simp
    | cons st ss ih =>
      have := st.cost_ready s b
      simp only [List.map_cons, List.sum_cons]
      omega
  rw [cost, cost, excess_of_ready]
  omega

end Ready

/-- What only stages are worth that wait for the store to be opened is nothing where no such wait is
on the way. -/
theorem Job.Frames.sum_eq_zero {worth : Stage → Nat} (hf : root.Frames s owner ss)
    (ho : ∀ a, owner ≠ .openStore a)
    (free : ∀ {owner j : Job} {st : Stage}, st.Awaits s owner (.called j) →
      (∀ a, j ≠ .openStore a) → worth st = 0) : (ss.map worth).sum = 0 := by
  induction hf with
  | root => rfl
  | @under owner j st ss outer awaits ih =>
    have apart : ∀ a, owner ≠ .openStore a := by
      rintro a rfl
      cases awaits
    rw [List.map_cons, List.sum_cons, free awaits ho, ih apart]

/-- Only above a wait for the store there may be anything to spend besides. -/
theorem Job.Frames.excess (hf : root.Frames s owner ss) (ho : ∀ a, owner ≠ .openStore a) :
    (ss.map (Stage.excess s)).sum = 0 := by
  refine hf.sum_eq_zero ho fun awaits apart => ?_
  cases awaits with
  | storeOpened => exact (apart _ rfl).elim
  | _ => rfl

/-- Only a stage that a job is run in the place of may spend anything besides. -/
theorem Stage.Awaits.excess (ha : st.Awaits s owner src) (hs : ∀ j, src ≠ .called j) :
    st.excess s = 0 := by
  cases ha with
  | storeOpened => exact (hs _ rfl).elim
  | _ => rfl

/-- A task that does not wait for the store has nothing besides to spend on what it is told. -/
theorem Task.excess_told (frames : root.Frames s owner ss) (awaits : st.Awaits s owner src)
    (hs : ∀ j, src ≠ .called j) (apart : ∀ a, owner ≠ .openStore a) (o : Outcome) (b : Bool) :
    (⟨.resume o, st :: ss⟩ : Task).excess s b = 0 := by
  cases b with
  | true => exact excess_of_ready s _
  | false =>
    rw [excess_resume, List.map_cons, List.sum_cons, frames.excess apart,
      awaits.excess hs]
    split <;> rfl

namespace Host

variable {h k : Host} {t u : TaskId} {l : Label} {ls rs : List Label}

/-- What a move leaves to its task and to those that it starts. -/
theorem cost_moved (h : Host) (s : Settings) (b : Bool) (ss : List Stage) (m : Move) :
    (h.moved ss m).focus.cost s b + ((h.moved ss m).stages.map (Stage.cost s b)).sum +
      (m.jobs.map fun j => j.cost s b + 2).sum ≤ m.cost s b + (ss.map (Stage.cost s b)).sum := by
  cases m with
  | await st u =>
    simp only [moved]
    split <;> simp only [Focus.cost, Move.jobs, Move.cost, List.map_cons, List.map_nil,
      List.sum_cons, List.sum_nil] <;> omega
  | gather st js =>
    cases js <;> simp only [moved, Focus.cost, Move.jobs, Move.cost, List.map_cons, List.map_nil,
      List.sum_cons, List.sum_nil] <;> omega
  | _ =>
    simp only [moved, Focus.cost, Move.jobs, Move.cost, List.map_cons, List.map_nil, List.sum_cons,
      List.sum_nil]
    omega

/-- While the store is not ready, opening it succeeds only for those who were told so before. -/
theorem excess_openStore {a : Json} (hc : h.Copies roots) (knows : h.workspace.Knows roots)
    (unready : h.workspace.store.ready = false) :
    (h.moved ss (h.next (.begin (.openStore a))).2).excess s false = 0 := by
  have goes := (Cue.begin (.openStore a)).goes h.tasks.length h.workspace
  rw [next]
  generalize Cue.move h.tasks.length h.workspace (.begin (.openStore a)) = x at goes
  cases goes with
  | storeOpen ready => cases unready.symm.trans ready
  | storeLaunched => rfl
  | @storeJoined _ u _ opening =>
    obtain ⟨b, job⟩ := knows.opening u opening
    rw [moved]
    cases ho : h.outcome? u with
    | none => rfl
    | some o =>
      cases o with
      | error f => rfl
      | ok r => exact (hc unready u b r (.inl opening) job ho).elim

/-- A move gives its task nothing besides to spend that the task did not have before. -/
theorem excess_moved (hc : h.Copies roots) (knows : h.workspace.Knows roots)
    (ht : h.tasks[t]? = some v) (cue : h.cue? t = some (q, ss)) (frames : root.Frames s owner ss)
    (hq : q.For s E owner) (suits : (h.next q).2.Suits s roots owner)
    (hb : h.workspace.store.ready = b) :
    (h.moved ss (h.next q).2).excess s b + q.excess s b ≤ v.excess s b := by
  cases b with
  | true => cases q <;> simp [Task.excess_of_ready, Cue.excess]
  | false =>
    by_cases opens : ∃ a, owner = .openStore a
    · obtain ⟨a, rfl⟩ := opens
      cases hq with
      | begin => simp [excess_openStore hc knows hb, Cue.excess]
      | @told _ o _ _ awaits gives =>
        cases awaits with
        | @storeAwaited u _ _ =>
          obtain rfl := Option.some.inj (ht.symm.trans (cue?_eq_told.1 cue))
          have goes := (Cue.told (.storeAwaited u) o).goes h.tasks.length h.workspace
          rw [Task.excess_resume, next]
          generalize Cue.move h.tasks.length h.workspace (.told (.storeAwaited u) o) = x at goes
          cases goes with
          | storeOpen =>
            simp [Move.done, moved, Task.excess_resume, Cue.excess, Stage.excess, Outcome.isFailure]
          | storeAbandoned | storeLost => exact Nat.le_refl 0
    · have apart : ∀ a, owner ≠ .openStore a := fun a ha => opens ⟨a, ha⟩
      have after : (h.moved ss (h.next q).2).excess s false = 0 := by
        generalize (h.next q).2 = m at suits
        cases m with
        | finish o =>
          rw [moved, Task.excess_resume, frames.excess apart]
          split <;> rfl
        | await st u =>
          obtain ⟨j, -, ha⟩ := suits
          simp only [moved]
          split
          · exact Task.excess_told frames ha (by simp) apart _ _
          · rfl
        | gather st js =>
          cases js with
          | nil => exact Task.excess_told frames suits (by simp) apart _ _
          | cons j js => rfl
        | _ => rfl
      rw [after, Nat.zero_add]
      cases q with
      | begin j => exact Nat.zero_le _
      | told st o =>
        obtain rfl := Option.some.inj (ht.symm.trans (cue?_eq_told.1 cue))
        rw [Task.excess_resume, Cue.excess, List.map_cons, List.sum_cons]
        split <;> simp_all

/-- Tasks that have not begun are worth what their jobs may cost. -/
theorem cost_begun (s : Settings) (b : Bool) (js : List Job) :
    ((js.map fun j => (⟨.begin j, []⟩ : Task)).map (Task.cost s b)).sum + 2 * js.length =
      (js.map fun j => j.cost s b + 2).sum := by
  induction js with
  | nil => rfl
  | cons j js ih =>
    have single : (⟨.begin j, []⟩ : Task).cost s b = j.cost s b := rfl
    simp only [List.map_cons, List.sum_cons, List.length_cons, single]
    omega

/-- What a task is worth that is about to make a move upon a cue. -/
theorem cost_of_cue (ht : h.tasks[t]? = some v) (cue : h.cue? t = some (q, ss)) (s : Settings)
    (b : Bool) : v.cost s b = q.cost s b + (ss.map (Stage.cost s b)).sum + v.excess s b := by
  cases q with
  | begin j =>
    obtain rfl := Option.some.inj (ht.symm.trans (cue?_eq_begin.1 cue))
    rfl
  | told st o =>
    obtain rfl := Option.some.inj (ht.symm.trans (cue?_eq_told.1 cue))
    rw [Task.cost, Focus.cost, List.map_cons, List.sum_cons, Nat.zero_add]
    rfl

/-- The place of a task in a sum over all tasks. -/
theorem sum_map_set {vs : List Task} (f : Task → Nat) (w : Task) (hv : vs[t]? = some v) :
    ((vs.set t w).map f).sum + f v = (vs.map f).sum + f w := by
  induction vs generalizing t with
  | nil => cases hv
  | cons x vs ih =>
    cases t with
    | zero =>
      obtain rfl := Option.some.inj hv
      simp only [List.set_cons_zero, List.map_cons, List.sum_cons]
      omega
    | succ t =>
      have := ih (t := t) hv
      simp only [List.set_cons_succ, List.map_cons, List.sum_cons]
      omega

/-- If each task loses something, and those that `p` holds of lose two more, so do all together. -/
theorem sum_map_le {vs : List Task} {f g : Task → Nat} {p : Task → Bool}
    (h : ∀ v ∈ vs, f v + (if p v then 2 else 0) ≤ g v) :
    (vs.map f).sum + 2 * vs.countP p ≤ (vs.map g).sum := by
  induction vs with
  | nil => exact Nat.le_refl _
  | cons v vs ih =>
    obtain ⟨first, others⟩ := List.forall_mem_cons.1 h
    have := ih others
    simp only [List.map_cons, List.sum_cons, List.countP_cons]
    split at first <;> simp_all <;> omega

theorem sum_cost_le {b' : Bool} (s : Settings) (hb : b' = false → b = false) (vs : List Task) :
    (vs.map (Task.cost s b')).sum ≤ (vs.map (Task.cost s b)).sum := by
  have each : ∀ v ∈ vs, v.cost s b' + (if (fun _ => false) v then 2 else 0) ≤ v.cost s b := by
    intro v _
    cases b' with
    | true => exact v.cost_ready s b
    | false =>
      rw [hb rfl]
      exact Nat.le_refl _
  have := sum_map_le each
  omega

/-- What a move changes of what all tasks together may spend. -/
theorem sum_cost_move (hv : h.tasks[t]? = some v) (s : Settings) (b : Bool) (ss : List Stage)
    (m : Move) :
    ((h.move t ss m).1.tasks.map (Task.cost s b)).sum + v.cost s b + 2 * m.jobs.length =
      (h.tasks.map (Task.cost s b)).sum + (h.moved ss m).cost s b +
        (m.jobs.map fun j => j.cost s b + 2).sum := by
  have begun := cost_begun s b m.jobs
  have grown : (h.tasks ++ m.jobs.map fun j => (⟨.begin j, []⟩ : Task))[t]? = some v := by
    rw [List.getElem?_append_left (List.getElem?_eq_some_iff.1 hv).1, hv]
  have sum := sum_map_set (Task.cost s b) (h.moved ss m) grown
  rw [← tasks_of_move, List.map_append, List.sum_append] at sum
  omega

/-- A move costs more than it leaves to be spent. -/
theorem budget_move {u : Setup} (hE : E.Formed u) (hw : h.workspace.From u)
    (hf : h.Fits u.settings E roots) (hc : h.Copies roots) (turn : h.turn = some t)
    (cue : h.cue? t = some (q, ss)) (workspace : k.workspace = (h.next q).1)
    (tasks : k.tasks = (h.move t ss (h.next q).2).1.tasks)
    (ready : k.ready = (h.move t ss (h.next q).2).1.ready) :
    k.budget u.settings < h.budget u.settings := by
  obtain ⟨b, hb⟩ : ∃ b, h.workspace.store.ready = b := ⟨_, rfl⟩
  obtain ⟨v, hv⟩ : ∃ v, h.tasks[t]? = some v := ⟨_, List.getElem?_eq_getElem (lt_of_cue? cue)⟩
  obtain ⟨root, owner, -, frames, hq⟩ := hf.cue cue
  have suits := hf.suits hE hw hq
  have spent : (h.next q).2.cost u.settings b < q.cost u.settings b + q.excess u.settings b :=
    hb ▸ q.cost_move hw.settings
  have left := h.cost_moved u.settings b ss (h.next q).2
  have excess := excess_moved hc hf.knows hv cue frames hq suits hb
  have before := cost_of_cue hv cue u.settings b
  have after := (h.moved ss (h.next q).2).cost_eq u.settings b
  have sum := sum_cost_move hv u.settings b ss (h.next q).2
  have opens : k.workspace.store.ready = false → b = false := fun unready =>
    hb ▸ (q.opens h.tasks.length h.workspace (workspace ▸ unready)).1
  have mono := sum_cost_le u.settings opens k.tasks
  have turns : k.turn.toList.length ≤ h.turn.toList.length := by
    rw [turn]
    cases k.turn <;> simp
  have length : k.ready.length = h.ready.length + (h.next q).2.jobs.length := by
    rw [ready, ready_of_move, List.length_append, List.length_range']
  rw [budget, budget, hb]
  rw [tasks] at mono ⊢
  omega

/-- Nobody who hears of an end has more to spend than before, and who goes on has less. -/
theorem cost_hear {i : TaskId} (hc : h.Copies roots) (hf : h.Fits s E roots)
    (ended : h.tasks[t]? = some ⟨.resume o, []⟩) (hv : h.tasks[i]? = some v) :
    (v.hear t o).cost s h.workspace.store.ready +
        (if (v.afterEnd? t o).isSome = true then 2 else 0) ≤
      v.cost s h.workspace.store.ready := by
  obtain ⟨root, -, fits⟩ := hf.tasks hv
  cases fits with
  | @awaiting st w owner j ss frames awaits job =>
    by_cases he : w = t
    · subst he
      have excess : (⟨.resume o, st :: ss⟩ : Task).excess s h.workspace.store.ready = 0 := by
        by_cases opens : ∃ a, owner = .openStore a
        · obtain ⟨a, rfl⟩ := opens
          cases awaits with
          | storeAwaited =>
            cases unready : h.workspace.store.ready with
            | true => exact Task.excess_of_ready s _
            | false =>
              cases o with
              | error f => rfl
              | ok r => exact (hc unready w _ r (.inr ⟨i, _, hv⟩) job (outcome?_eq ended)).elim
        · exact Task.excess_told frames awaits (by simp) (fun a ha => opens ⟨a, ha⟩) _ _
      have heard : (⟨.awaiting w, st :: ss⟩ : Task).hear w o = ⟨.resume o, st :: ss⟩ := by
        simp [Task.hear, Task.afterEnd?]
      rw [heard, Task.cost_eq, Task.cost_eq, excess]
      simp only [Focus.cost]
      split <;> omega
    · simp [Task.afterEnd?, Task.hear, he]
  | @gathering st us owner js ss frames awaits jobs =>
    have apart : ∀ a, owner ≠ .openStore a := by
      rintro a rfl
      cases awaits
    cases resumes : (⟨.gathering us, st :: ss⟩ : Task).afterEnd? t o with
    | none =>
      rw [Task.hear, resumes]
      exact Nat.le_refl _
    | some focus =>
      obtain ⟨p, rfl⟩ := Task.resume_of_afterEnd? resumes
      rw [Task.hear, resumes, Task.cost_eq, Task.cost_eq,
        Task.excess_told frames awaits (by simp) apart]
      simp only [Focus.cost]
      split <;> omega
  | _ => simp [Task.afterEnd?, Task.hear]

theorem budget_announce (hc : h.Copies roots) (hf : h.Fits s E roots) (turn : h.turn = some t)
    (ended : h.tasks[t]? = some ⟨.resume o, []⟩) :
    (h.announce t o).pause.budget s < h.budget s := by
  have spent : (h.tasks.map fun v => (v.hear t o).cost s h.workspace.store.ready).sum +
      2 * h.tasks.countP (fun v => (v.afterEnd? t o).isSome) ≤
        (h.tasks.map (Task.cost s h.workspace.store.ready)).sum := by
    refine sum_map_le fun v hv => ?_
    obtain ⟨i, hi⟩ := List.getElem?_of_mem hv
    exact cost_hear hc hf ended hi
  have woken : (h.tasks.zipIdx.filter fun x => (x.1.afterEnd? t o).isSome).length =
      h.tasks.countP fun v => (v.afterEnd? t o).isSome := by
    rw [← List.countP_eq_length_filter]
    conv => rhs; rw [← List.zipIdx_map_fst 0 h.tasks, List.countP_map]
    rfl
  simp only [budget, announce, pause, List.map_map, List.length_append, List.length_map, woken,
    turn, Option.toList_some, Option.toList_none, List.length_cons, List.length_nil]
  simp only [Function.comp_def]
  omega

/-- A task that is put back in line without an answer. -/
def Label.isRelease : Label → Bool
  | .released _ => true
  | _ => false

theorem budget_advance {u : Setup} {p : Progress} (hE : E.Formed u) (hw : h.workspace.From u)
    (hf : h.Fits u.settings E roots) (hc : h.Copies roots) (turn : h.turn = some t)
    (free : h.query? t = none) (ha : h.advance t = (k, p)) :
    (p = .paused → k.pause.budget u.settings < h.budget u.settings) ∧
      (p ≠ .paused → k.budget u.settings < h.budget u.settings) := by
  cases cue : h.cue? t with
  | none =>
    rcases advance_of_cue?_eq_none cue with ⟨o, ended, hn⟩ | ⟨q, hq⟩ | hn
    · obtain ⟨rfl, rfl⟩ := Prod.mk.inj (hn.symm.trans ha)
      exact ⟨fun _ => budget_announce hc hf turn ended, fun h => (h rfl).elim⟩
    · cases free.symm.trans hq
    · obtain ⟨rfl, rfl⟩ := Prod.mk.inj (hn.symm.trans ha)
      refine ⟨fun _ => ?_, fun h => (h rfl).elim⟩
      simp [budget, pause, turn]
  | some r =>
    obtain ⟨q, ss⟩ := r
    obtain ⟨workspace, tasks, -, -⟩ := advance_eq cue ha
    have ready := ready_of_advance cue ha
    exact ⟨fun _ => budget_move (k := k.pause) hE hw hf hc turn cue workspace tasks ready,
      fun _ => budget_move hE hw hf hc turn cue workspace tasks ready⟩

theorem budget_answer (hf : h.Fits s E roots) (ht : h.tasks[t]? = some ⟨.asking r, ss⟩) :
    (h.setTask t ⟨.resume o, ss⟩).budget s < h.budget s := by
  have sum := sum_map_set (Task.cost s h.workspace.store.ready) (w := ⟨.resume o, ss⟩) ht
  have fewer : (⟨.resume o, ss⟩ : Task).cost s h.workspace.store.ready <
      (⟨.asking r, ss⟩ : Task).cost s h.workspace.store.ready := by
    obtain ⟨root, -, fits⟩ := hf.tasks ht
    cases fits with
    | @asking st r owner ss frames awaits =>
      have apart : ∀ a, owner ≠ .openStore a := by
        rintro a rfl
        cases awaits
      rw [Task.cost_eq, Task.cost_eq, Task.excess_told frames awaits (by simp) apart]
      simp only [Focus.cost]
      omega
  simp only [budget, setTask]
  omega

/-- A step leaves less to be spent unless it puts a task back in line. -/
theorem budget_step {u : Setup} (hE : E.Formed u) (hw : h.workspace.From u)
    (hf : h.Fits u.settings E roots) (hc : h.Copies roots) (hs : Step h l k) (hl : l.Internal) :
    k.budget u.settings + 1 ≤ h.budget u.settings + if l.isRelease then 3 else 0 := by
  cases hs with
  | @take t idle ready =>
    have length := List.length_erase_of_mem ready
    have pos := List.length_pos_of_mem ready
    simp only [budget, take, idle, length, Option.toList_some, Option.toList_none,
      List.length_cons, List.length_nil]
    omega
  | move turn free next =>
    have := (budget_advance hE hw hf hc turn free next).2 (by simp)
    omega
  | stop turn free next =>
    have := (budget_advance hE hw hf hc turn free next).1 rfl
    omega
  | ask turn free next =>
    have := (budget_advance hE hw hf hc turn free next).2 (by simp)
    omega
  | @answer t q o turn asked admits =>
    obtain ⟨⟨focus, ss⟩, ht, hq⟩ := Option.bind_eq_some_iff.1 asked
    cases focus with
    | asking r =>
      have := budget_answer (o := o) hf ht
      simp only [Host.answer, ht]
      omega
    | _ => simp [Task.query?] at hq
  | @keep t q turn asked =>
    simp [budget, pause, turn]
  | release idle asked apart =>
    simp only [budget, wake, List.length_append, List.length_cons, List.length_nil,
      Label.isRelease, if_true]
    omega
  | start idle => cases hl
  | change idle => cases hl

theorem copies_of_runs {u : Setup} (hr : u.Runs ls h) :
    ∃ roots, h.Fits u.settings (.wellFormed u) roots ∧ h.Copies roots := by
  have hE := Expectation.wellFormed_met u
  refine Steps.forward (P := fun _ k => ∃ roots, k.Fits u.settings (.wellFormed u) roots ∧
    k.Copies roots) ⟨[], Fits.start u _, ?_⟩ ?_ hr
  · rintro - v b r - job
    cases job
  · rintro ls k m l hk ⟨roots, hf, hc⟩ hs
    obtain ⟨js, -, fits⟩ := hf.effect hE (from_of_runs hk) hs.effect fun _ _ _ _ ha => ha
    exact ⟨roots ++ js, fits, hc.effect (awake_of_runs hk) hf hs.effect js⟩

/-- Left to itself a host makes only as many steps as it has to spend, apart from putting tasks
back in line whose answers are still owed. -/
theorem length_le_budget {u : Setup} (hr : u.Runs ls h) (hk : Steps h rs k)
    (hl : ∀ l ∈ rs, l.Internal) :
    rs.length + k.budget u.settings ≤ h.budget u.settings + 3 * rs.countP Label.isRelease := by
  induction hk generalizing ls with
  | refl => simp
  | @cons h k m l rs first rest ih =>
    obtain ⟨internal, others⟩ := List.forall_mem_cons.1 hl
    obtain ⟨roots, hf, hc⟩ := copies_of_runs hr
    have spent := budget_step (Expectation.wellFormed_met u).toFormed (from_of_runs hr) hf hc first
      internal
    have left := ih (hr.snoc first) others
    rw [List.length_cons, List.countP_cons]
    split at spent <;> simp_all <;> omega

end Host

end PluginHost
