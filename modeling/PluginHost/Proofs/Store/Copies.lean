import PluginHost.Proofs.Host.Replay
import PluginHost.Proofs.Store.Filling

/-!
Copies of the project's files. A reset forgets the task that copies them, but it does not stop it.
So after a reset the store becomes ready, and gets the project's files, by any copy whose answer
comes after the reset, be it one that was asked for before.
-/
namespace PluginHost

variable {o : Outcome} {fresh w : TaskId} {c : Workspace} {st : Stage} {j : Job}

/-- Whoever waits for the store waits for the task that is on record, or has just launched it. -/
theorem Cue.Handles.awaited {q : Cue} {r : Workspace × Move} (hr : q.Handles fresh c r)
    (stage : r.2.stage? = some (.storeAwaited w)) :
    r.2 = .await (.storeAwaited w) w ∨ w = fresh ∧ ∃ j, r.2 = .launch (.storeAwaited w) j := by
  cases hr with
  | aside beside plain => cases plain.stage _ stage
  | waits =>
    cases stage
    exact .inl rfl
  | opens =>
    cases stage
    exact .inr ⟨rfl, _, rfl⟩
  | places goes => obtain rfl | ⟨q, rfl⟩ := goes <;> cases stage
  | _ => cases stage

/-- A copy that is launched goes on record. -/
theorem Cue.Handles.copy {q : Cue} {r : Workspace × Move} (hr : q.Handles fresh c r)
    (launches : r.2 = .launch st j) (he : j.errand? = some .copy) :
    r.1.store.opening = some fresh := by
  cases hr with
  | aside beside plain =>
    obtain rfl : _ = Move.launch st j := launches
    cases (plain.jobs j (List.mem_singleton.2 rfl)).symm.trans he
  | opens => rfl
  | loads =>
    cases launches
    cases he
  | places goes => obtain rfl | ⟨q, rfl⟩ := goes <;> cases launches
  | _ => cases launches

theorem Job.eq_copyProject (he : j.errand? = some .copy) : ∃ a, j = .copyProject a := by
  cases j with
  | copyProject a => exact ⟨a, rfl⟩
  | _ => cases he

theorem Stage.eq_projectCopied (he : st.errand? = some .copy) : st = .projectCopied := by
  cases st with
  | projectCopied => rfl
  | _ => cases he

namespace Host

variable {u : Setup} {h k m : Host} {t i : TaskId} {l : Label} {ls rs : List Label}
  {ss : List Stage} {d : Workspace} {f : Focus}

/-- Whoever is to forget a copy waits for it, or was told what it ended with. -/
theorem heeds_of_runs (hr : u.Runs ls h)
    (hi : h.tasks[i]? = some ⟨f, .storeAwaited w :: ss⟩) : h.Heeds w f := by
  revert i f ss
  refine Steps.forward (P := fun _ h => ∀ {i : TaskId} {f : Focus} {ss : List Stage},
    h.tasks[i]? = some ⟨f, .storeAwaited w :: ss⟩ → h.Heeds w f) ?_ ?_ hr
  · intro i f ss hi
    simp [Setup.host] at hi
  · intro ls h k l hh ih hs i f ss hi
    rcases hs.minder hh hi rfl with ⟨g, hg, -, heeds⟩ | ⟨q, -, -, stage, -, moves⟩
    · exact heeds w (ih hg)
    · rcases (q.handles _ _).awaited stage with awaits | ⟨rfl, j, launches⟩
      · exact hs.heeds_kept (.of_await (awaits ▸ moves))
      · exact .inl (congrArg Task.focus ((congrArg (h.moved ss) launches).symm.trans moves)).symm

/-- The task that has the turn was told that a copy failed. -/
def Notices (h : Host) (w : TaskId) : Prop :=
  ∃ t f ss, h.turn = some t ∧ h.cue? t = some (.told (.storeAwaited w) (.error f), ss)

/-- A copy on record stays there unless somebody is told that it failed, or empties the store. -/
theorem Tends.opening (ht : h.Tends l d) (ho : h.workspace.store.opening = some w) :
    d.store.opening = some w ∨ l.empties = true ∨ h.Notices w := by
  cases ht with
  | aside beside => exact .inl (by rw [beside.store, ho])
  | move turn cue next handles =>
    cases handles with
    | aside beside => exact .inl (by rw [beside.store, ho])
    | opens unready closed => cases closed.symm.trans ho
    | abandons opening =>
      obtain rfl := Option.some.inj (opening.symm.trans ho)
      exact .inr (.inr ⟨_, _, _, turn, cue⟩)
    | _ => exact .inl ho
  | write => exact .inl ho
  | place => exact .inl ho
  | empty empties => exact .inr (.inl empties)

/-- A store that becomes ready was emptied without a project, or gets the project's files. -/
theorem Tends.ready (ht : h.Tends l d) (hd : d.store.ready = true) :
    h.workspace.store.ready = true ∨
      l.empties = true ∧ h.workspace.store.hasProject = false ∨
        ∃ t fs ss, h.cue? t = some (.told .projectCopied (.ok (.files fs)), ss) := by
  cases ht with
  | aside beside => exact .inl (by rw [← beside.store, hd])
  | move turn cue next handles =>
    cases handles with
    | aside beside => exact .inl (by rw [← beside.store, hd])
    | copies => exact .inr (.inr ⟨_, _, _, cue⟩)
    | _ => exact .inl hd
  | write => exact .inl hd
  | place => exact .inl hd
  | empty empties store => exact .inr (.inl ⟨empties, by simpa [store, Store.reset] using hd⟩)

theorem Tends.hasProject (ht : h.Tends l d) :
    d.store.hasProject = h.workspace.store.hasProject := by
  cases ht with
  | aside beside => rw [beside.store]
  | move turn cue next handles =>
    cases handles with
    | aside beside => rw [beside.store]
    | _ => rfl
  | write => rfl
  | place => rfl
  | empty empties store => rw [store]; rfl

theorem hasProject_of_runs (hr : u.Runs ls h) : h.workspace.store.hasProject = u.hasProject :=
  Steps.forward (P := fun _ h => h.workspace.store.hasProject = u.hasProject) rfl
    (fun _ ih hs => hs.tends.hasProject.trans ih) hr

end Host

/-- At some reset of a run a task was on an errand. -/
def Setup.Orphans (u : Setup) (ls : List Host.Label) (e : Errand) (t : TaskId) : Prop :=
  ∃ before l after m, ls = before ++ l :: after ∧ u.Runs before m ∧ l.empties = true ∧
    m.Pursues e t

theorem Setup.Orphans.append {u : Setup} {ls : List Host.Label} {e : Errand} {t : TaskId}
    (ho : u.Orphans ls e t) (more : List Host.Label) : u.Orphans (ls ++ more) e t := by
  obtain ⟨before, l, after, m, rfl, rest⟩ := ho
  exact ⟨before, l, after ++ more, m, by simp, rest⟩

namespace Host

variable {u : Setup} {h k m : Host} {t v i : TaskId} {l : Label} {ls rs : List Label}

/-- Every copy is the one on record, apart from those that were on their way at a reset. -/
theorem opening_of_runs (hr : u.Runs ls h) (unsent : ∀ l ∈ ls, ¬ l.Sends .copy)
    (copies : h.Pursues .copy t) :
    h.workspace.store.opening = some t ∨ u.Orphans ls .copy t := by
  revert unsent t
  refine Steps.forward (P := fun ls h => ∀ {t : TaskId}, (∀ l ∈ ls, ¬ l.Sends .copy) →
    h.Pursues .copy t → h.workspace.store.opening = some t ∨ u.Orphans ls .copy t) ?_ ?_ hr
  · rintro t - ⟨v, hv, -⟩
    simp [Setup.host] at hv
  · intro ls h k l hh ih hs t unsent copies
    rw [List.forall_mem_append] at unsent
    rcases hs.pursues hh copies with old | ⟨t', q, ss, st, j, -, -, launches, workspace, job, rfl⟩ |
      sends
    · rcases ih unsent.1 old with opening | orphaned
      · rcases hs.tends.opening opening with stays | empties | ⟨i, f, ss, -, told⟩
        · exact .inl stays
        · exact .inr ⟨ls, l, [], h, rfl, hh, empties, old⟩
        · -- A failure was told of a task that has not ended.
          obtain waits | ⟨o, -, ended⟩ := heeds_of_runs hh (cue?_eq_told.1 told)
          · cases waits
          · cases old.outcome?.symm.trans ended
      · exact .inr (orphaned.append [l])
    · exact .inl (workspace ▸ (q.handles _ _).copy launches job)
    · exact (unsent.2 _ (List.mem_singleton.2 rfl) sends).elim

/-- A task copies the project's files or has done so. -/
def Copied (h : Host) (t : TaskId) : Prop := h.Pursues .copy t ∨ ∃ o, h.outcome? t = some o

theorem Step.copied (hs : Step h l k) (hc : h.Copied t) : k.Copied t := by
  obtain ⟨v, hv, pursues⟩ | ⟨o, ended⟩ := hc
  · obtain ⟨x, hx, becomes⟩ := hs.becomes hv
    cases becomes with
    | kept => exact .inl ⟨v, hx, pursues⟩
    | heard turn ended hears =>
      have waits : v.waits = false := by cases pursues <;> rfl
      rw [Task.hear_of_waits waits] at hears
      exact .inl ⟨v, hears ▸ hx, pursues⟩
    | told turn label =>
      cases pursues with
      | asking stage query => exact .inl ⟨_, hx, .told stage⟩
    | @went _ _ q ss turn cue label workspace moves =>
      cases pursues with
      | begin job =>
        obtain ⟨a, rfl⟩ := Job.eq_copyProject job
        cases (cue?_eq_begin.2 hv).symm.trans cue
        rcases (Work.copyProject_asks a h.workspace).2 with asks | ⟨f, fails⟩
        · obtain rfl := (congrArg (h.moved []) asks).symm.trans moves
          exact .inl ⟨_, hx, .asking rfl rfl⟩
        · obtain rfl := (congrArg (h.moved []) fails).symm.trans moves
          exact .inr ⟨_, outcome?_eq hx⟩
      | asking => cases (cue?_eq_none_of_query? (query?_eq hv)).symm.trans cue
      | told stage =>
        obtain rfl := Stage.eq_projectCopied stage
        cases (cue?_eq_told.2 hv).symm.trans cue
        obtain ⟨p, ends⟩ := Work.projectCopied_ends _ h.workspace
        obtain rfl := (congrArg (h.moved []) ends).symm.trans moves
        exact .inr ⟨p, outcome?_eq hx⟩
  · exact .inr ⟨o, hs.ended ended⟩

theorem Steps.copied (hk : Steps h ls k) (hc : h.Copied t) : k.Copied t :=
  Steps.forward (P := fun _ k => k.Copied t) hc (fun _ ih hs => hs.copied ih) hk

/-- Until it is told the project's files, a task that copies them leaves the store as it is. -/
theorem Step.store_of_copied (hs : Step h l k) (turn : h.turn = some t) (hc : h.Copied t)
    (untold : ∀ o, h.tasks[t]? ≠ some ⟨.resume o, [.projectCopied]⟩) :
    k.workspace.store = h.workspace.store := by
  cases hs.effect with
  | @move t' q ss k now cue workspace tasks =>
    obtain rfl := Option.some.inj (now.symm.trans turn)
    obtain ⟨v, hv, pursues⟩ | ⟨o, ended⟩ := hc
    · cases pursues with
      | begin job =>
        obtain ⟨a, rfl⟩ := Job.eq_copyProject job
        cases (cue?_eq_begin.2 hv).symm.trans cue
        rw [workspace.trans (Work.copyProject_asks a h.workspace).1]
      | asking => cases (cue?_eq_none_of_query? (query?_eq hv)).symm.trans cue
      | told stage =>
        obtain rfl := Stage.eq_projectCopied stage
        exact (untold _ hv).elim
    · cases (outcome?_of_cue? cue).symm.trans ended
  | quiet still silent workspace => rw [workspace]
  | announce now ended workspace => rw [workspace]
  | answer now asked admits workspace => rw [workspace]
  | start idle workspace => rw [workspace]
  | change idle workspace => cases idle.symm.trans turn

/-- What copies of the project's files can do after a reset. One that was on its way leaves the
store alone until its answer comes. The store becomes ready only by an answer that comes after the
reset, to a question that was put after it or was waiting at it. And two copies are on their way
only if one of them was on its way at some reset. -/
theorem copies_since_reset (hm : u.Runs ls m) (hs : Step m l k) (empties : l.empties = true)
    (hk : Steps k rs h) (unsent : ∀ l' ∈ ls ++ l :: rs, ¬ l'.Sends .copy) :
    (∀ t l' n, m.Pursues .copy t → (∀ q o, .answered t q o ∉ rs) → h.turn = some t →
      Step h l' n → n.workspace.store = h.workspace.store) ∧
    (u.hasProject = true → h.workspace.store.ready = true →
      ∃ before t a fs after,
        rs = before ++ .answered t (.projectFiles a) (.ok (.files fs)) :: after ∧
          (.asked t (.projectFiles a) ∈ before ∨ m.query? t = some (.projectFiles a))) ∧
    (∀ t v, h.Pursues .copy t → h.Pursues .copy v →
      t = v ∨ u.Orphans (ls ++ l :: rs) .copy t ∨ u.Orphans (ls ++ l :: rs) .copy v) := by
  obtain ⟨-, store, tasks, idle⟩ := hs.emptied empties
  have start : u.Runs (ls ++ [l]) k := hm.snoc hs
  have run : u.Runs (ls ++ l :: rs) h := hm.trans (.cons hs hk)
  refine ⟨?_, ?_, ?_⟩
  · intro t l' n copies unanswered turn hn
    have copied : k.Copied t := .inl (by rwa [Pursues, tasks])
    apply hn.store_of_copied turn (hk.copied copied)
    intro o told
    obtain ⟨before, q, rfl, -, -⟩ := hk.answered start idle told rfl
    exact unanswered q o (by simp)
  · intro project
    -- The induction is on the steps since the reset; the store is not ready at first.
    refine Steps.forward (P := fun rs h => h.workspace.store.ready = true →
      ∃ before t a fs after,
        rs = before ++ .answered t (.projectFiles a) (.ok (.files fs)) :: after ∧
          (.asked t (.projectFiles a) ∈ before ∨ m.query? t = some (.projectFiles a))) ?_ ?_ hk
    · intro ready
      have project : m.workspace.store.hasProject = true := (hasProject_of_runs hm).trans project
      simp [store, Store.reset, project] at ready
    · intro rs g n l' hg ih hn ready
      rcases hn.tends.ready ready with old | ⟨-, without⟩ | ⟨t, fs, ss, cue⟩
      · obtain ⟨before, t, a, fs, after, rfl, asked⟩ := ih old
        exact ⟨before, t, a, fs, after ++ [l'], by simp, asked⟩
      · have project : g.workspace.store.hasProject = true :=
          (hasProject_of_runs (start.trans hg)).trans project
        cases without.symm.trans project
      · obtain ⟨before, q, rfl, brings, asked⟩ :=
          hg.answered start idle (cue?_eq_told.1 cue) rfl
        cases q with
        | projectFiles a =>
          refine ⟨before, t, a, fs, [l'], by simp, asked.imp_right ?_⟩
          intro waits
          rwa [query?, ← tasks]
        | _ => cases brings
  · intro t v ht hv
    rcases opening_of_runs run unsent ht with now | orphaned
    · rcases opening_of_runs run unsent hv with now' | orphaned
      · exact .inl (Option.some.inj (now.symm.trans now'))
      · exact .inr (.inr orphaned)
    · exact .inr (.inl orphaned)

end Host

/-- A host with a project and without an engine. -/
def Setup.project : Setup where
  settings := .short
  hasProject := true

/-- A project with one file. -/
def Query.project : Query → Option Outcome
  | .projectFiles _ => some (.ok (.files (.ofList [("/p.js", "1".toUTF8.toList)])))
  | _ => none

theorem World.project_admits : (World.steady Query.project).Admits := by
  apply steady_admits
  intro q o h
  cases q with
  | projectFiles a =>
    cases h
    trivial
  | _ => cases h

/-- A host that was reset while an answer about its project was owed. -/
def Setup.projectOwed : Host := (Setup.project.held [.openStore .null] 10).changed .resetStore

/-- The answer comes. -/
theorem Setup.steps_projectOwed :
    Host.Steps projectOwed
      (.released 1 :: Host.labels (.steady Query.project) 20 (projectOwed.wake [1]) ())
      ((projectOwed.wake [1]).run (.steady Query.project) 20 ()).1 :=
  Host.steps_released World.project_admits (by decide +kernel) (by decide +kernel)
    (by decide +kernel) 20 ()

theorem Setup.projectOwed_ready :
    ((projectOwed.wake [1]).run (.steady Query.project) 20 ()).1.workspace.store.ready = true := by
  decide +kernel

/-- A copy that was asked for before a reset and is answered after it makes the store ready. -/
theorem copies_since_reset_late :
    ∃ ls m rs h, Setup.project.Runs ls m ∧
      Host.Step m (.changed .resetStore) Setup.projectOwed ∧
      Host.Steps Setup.projectOwed rs h ∧
      (∀ l ∈ ls ++ .changed .resetStore :: rs, ¬ l.Sends .copy) ∧
      h.workspace.store.ready = true ∧
      ∃ before t a fs after,
        rs = before ++ .answered t (.projectFiles a) (.ok (.files fs)) :: after ∧
          (.asked t (.projectFiles a) ∈ before ∨ m.query? t = some (.projectFiles a)) := by
  have hm := Setup.project.runs_held [.openStore .null] 10
  have hs : Host.Step (Setup.project.held [.openStore .null] 10) (.changed .resetStore)
      Setup.projectOwed := .change (by decide +kernel)
  have unsent : ∀ l ∈ Setup.project.labels (.steady fun _ => none) [.openStore .null] 10 () ++
      .changed .resetStore :: .released 1 ::
        Host.labels (.steady Query.project) 20 (Setup.projectOwed.wake [1]) (),
      ¬ l.Sends .copy := by
    simp only [Setup.labels, List.forall_mem_append, List.forall_mem_cons]
    refine ⟨⟨?_, ?_⟩, id, id, ?_⟩
    · simp [Host.Label.Sends, Job.errand?]
    · intro l hl
      exact (Host.internal_labels _ _ _ _ l hl).sends
    · intro l hl
      exact (Host.internal_labels _ _ _ _ l hl).sends
  exact ⟨_, _, _, _, hm, hs, Setup.steps_projectOwed, unsent, Setup.projectOwed_ready,
    (Host.copies_since_reset hm hs rfl Setup.steps_projectOwed unsent).2.1 rfl
      Setup.projectOwed_ready⟩

/-- A store can become ready after a reset though nobody asks for the project's files after it. -/
theorem ready_unasked :
    ¬ ∀ u ls m l k rs h, Setup.Runs u ls m → Host.Step m l k → l.empties = true →
      Host.Steps k rs h → u.hasProject = true → h.workspace.store.ready = true →
        ∃ t a, .asked t (.projectFiles a) ∈ rs := by
  intro always
  have silent : (.released 1 :: Host.labels (.steady Query.project) 20
      (Setup.projectOwed.wake [1]) ()).any Host.Label.asks = false := by decide +kernel
  obtain ⟨t, a, asked⟩ := always _ _ _ _ _ _ _ (Setup.project.runs_held [.openStore .null] 10)
    (.change (by decide +kernel)) rfl Setup.steps_projectOwed rfl Setup.projectOwed_ready
  exact List.any_eq_false.1 silent _ asked rfl

end PluginHost
