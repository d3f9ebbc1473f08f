import PluginHost.Proofs.Host.Waiting

/-!
What the host makes of copies of the project's files. A store that is ready stays so until a caller
empties it, and while it is not, nobody takes a copy for made that is still to be made.
-/
namespace PluginHost

/-- A store that is ready stays so, and no copy is under way but the one that was or one that a
fresh task is to make. -/
def Workspace.Opens (fresh : TaskId) (c d : Workspace) : Prop :=
  d.store.ready = false → c.store.ready = false ∧
    ∀ u, d.store.opening = some u → c.store.opening = some u ∨ u = fresh

variable {fresh : TaskId} {c d : Workspace} {o : Outcome} {a : Json}

namespace Workspace

theorem Opens.same (ready : d.store.ready = c.store.ready)
    (opening : d.store.opening = c.store.opening) : c.Opens fresh d :=
  fun hd => ⟨ready ▸ hd, fun _ hu => .inl (opening ▸ hu)⟩

theorem store_addBundled (c : Workspace) (names : List String) :
    (c.addBundled names).2.store = c.store := by
  obtain ⟨i, goes⟩ := c.addBundled_frame names
  rw [goes]

theorem store_activate (c : Workspace) (fp : String) :
    (c.activate fp).2.store = c.store := by
  obtain ⟨i, e, resets, goes⟩ := c.activate_frame fp
  rw [goes]

end Workspace

theorem Needs.Rounds.store {n : Needs} {round : Nat} {r : Workspace × Move}
    (hr : n.Rounds round c r) : r.1.store = c.store := by
  cases hr with
  | gathers | fails => exact c.store_addBundled n.plugins

/-- What every move does to the record of copies. -/
theorem Cue.opens (q : Cue) (fresh : TaskId) (c : Workspace) :
    c.Opens fresh (q.move fresh c).1 := by
  have same {d : Workspace} (hd : d.store = c.store) : c.Opens fresh d :=
    .same (hd ▸ rfl) (hd ▸ rfl)
  have goes := q.goes fresh c
  generalize q.move fresh c = r at goes
  cases q with
  | begin j =>
    cases goes with
    | storeLaunched unready => exact fun _ => ⟨unready, fun u hu => .inr (Option.some.inj hu).symm⟩
    | roundFirst => exact same (Work.rounds_installRound ..).store
    | compileBegun | compileRefused => exact same (Workspace.store_activate ..)
    | _ => exact same rfl
  | told st o =>
    cases goes with
    | storeAbandoned => exact fun unready => ⟨unready, fun u hu => by cases hu⟩
    | projectCopied => exact fun unready => by cases unready
    | placed | placedFirst => exact .same rfl rfl
    | macrosReady | roundRepeated => exact same (Work.rounds_installRound ..).store
    | _ => exact same rfl

/-- Whoever copies the project's files successfully makes the store ready. -/
theorem Cue.For.copied {q : Cue} {s : Settings} {E : Expectation} {r : Reply}
    (hq : q.For s E (.copyProject a)) (hm : (q.move fresh c).2 = .finish (.ok r)) :
    (q.move fresh c).1.store.ready = true := by
  have goes := q.goes fresh c
  generalize q.move fresh c = x at goes hm ⊢
  cases hq with
  | begin => cases goes <;> cases hm
  | told awaits gives =>
    cases awaits
    cases goes with
    | projectCopied => rfl
    | projectOdd | projectFailed => cases hm

/-- A store that callers have emptied waits for no copy. -/
theorem Workspace.opening_after (c : Workspace) (change : Change) (u : TaskId)
    (unready : (c.after change).store.ready = false)
    (opening : (c.after change).store.opening = some u) :
    c.store.ready = false ∧ c.store.opening = some u := by
  cases change with
  | resetStore => cases opening
  | reset includeStore =>
    cases includeStore with
    | true => cases opening
    | false => exact ⟨unready, opening⟩
  | activate fingerprint =>
    rw [Workspace.after, store_activate] at unready opening
    exact ⟨unready, opening⟩
  | _ => exact ⟨unready, opening⟩

namespace Host

variable {h k : Host} {s : Settings} {E : Expectation} {roots js : List Job} {t u : TaskId}
  {l : Label} {ls : List Label} {v : Task}

/-- Whether a task is on record as the one that copies the project's files, or is waited for. -/
def Minded (h : Host) (u : TaskId) : Prop :=
  h.workspace.store.opening = some u ∨
    ∃ (t : TaskId) (ss : List Stage), h.tasks[t]? = some ⟨.awaiting u, ss⟩

/-- While the store is not ready, no copy has succeeded that anyone minds. -/
def Copies (roots : List Job) (h : Host) : Prop :=
  h.workspace.store.ready = false → ∀ u b r, h.Minded u → roots[u]? = some (.copyProject b) →
    h.outcome? u ≠ some (.ok r)

theorem awaiting_of_hear {w : TaskId} {ss : List Stage} (hv : v.hear t o = ⟨.awaiting w, ss⟩) :
    v = ⟨.awaiting w, ss⟩ := by
  by_cases resumes : (v.afterEnd? t o).isSome = true
  · have := Task.waits_hear resumes
    rw [hv] at this
    cases this
  · rw [Option.not_isSome_iff_eq_none] at resumes
    rw [Task.hear, resumes] at hv
    obtain ⟨focus, stages⟩ := v
    cases focus with
    | gathering us => cases hv
    | _ => exact hv

theorem Fits.outcome?_announce (hf : h.Fits s E roots)
    (ho : k.tasks = h.tasks.map (Task.hear t o)) : k.outcome? u = h.outcome? u := by
  cases hv : h.tasks[u]? with
  | none => simp [outcome?, ho, hv]
  | some v =>
    have heard : k.tasks[u]? = some (v.hear t o) := by simp [ho, hv]
    rw [outcome?_eq heard, outcome?_eq hv]
    cases hn : v.outcome? with
    | none => exact hf.outcome?_of_hear hv hn
    | some p =>
      obtain rfl := Task.outcome?_eq_some.1 hn
      exact hn

/-- A move that ends its own task ends its job. -/
theorem finish_of_outcome?_moved {ss : List Stage} {m : Move}
    (ho : (h.moved ss m).outcome? = some o) : m = .finish o ∧ ss = [] := by
  have ended := Task.outcome?_eq_some.1 ho
  cases m with
  | finish p =>
    obtain ⟨hp, rfl⟩ := Task.mk.inj ended
    cases hp
    exact ⟨rfl, rfl⟩
  | await st u =>
    simp only [moved] at ended
    split at ended <;> cases ended
  | gather st js => cases js <;> cases ended
  | _ => cases ended

/-- A task waits only for tasks that have not ended. -/
theorem outcome?_of_moved {ss rest : List Stage} {m : Move}
    (hm : h.moved ss m = ⟨.awaiting u, rest⟩) : h.outcome? u = none := by
  cases m with
  | await st w =>
    simp only [moved] at hm
    split at hm
    · cases hm
    · rename_i hw
      cases hm
      exact hw
  | launch st j =>
    cases hm
    simp [outcome?]
  | gather st js => cases js <;> cases hm
  | _ => cases hm

theorem Copies.move {q : Cue} {ss : List Stage} (hc : h.Copies roots)
    (hf : h.Fits s E roots) (turn : h.turn = some t) (cue : h.cue? t = some (q, ss))
    (workspace : k.workspace = (h.next q).1)
    (tasks : k.tasks = (h.move t ss (h.next q).2).1.tasks) : k.Copies (roots ++ js) := by
  intro unready u b r minded job ended
  obtain ⟨unready', opening⟩ := q.opens h.tasks.length h.workspace (workspace ▸ unready)
  by_cases he : u = t
  · subst he
    have own := getElem?_moved (lt_of_cue? cue) tasks
    obtain ⟨hm, rfl⟩ := finish_of_outcome?_moved ((outcome?_eq own).symm.trans ended)
    obtain ⟨root, owner, hr, frames, hq⟩ := hf.cue cue
    obtain rfl := Option.some.inj ((getElem?_grow hr js).symm.trans job)
    cases frames with
    | root =>
      have ready := hq.copied hm
      rw [← next, ← workspace, unready] at ready
      cases ready
  · have old : h.outcome? u = some (.ok r) := by
      cases hv : h.outcome? u with
      | none => cases (outcome?_of_move he hv tasks).symm.trans ended
      | some p =>
        obtain ⟨v, hv', outcome⟩ := Option.bind_eq_some_iff.1 hv
        have kept : k.tasks[u]? = some v := by
          rw [tasks, tasks_of_move, List.getElem?_set_ne (Ne.symm he)]
          rw [List.getElem?_append_left (List.getElem?_eq_some_iff.1 hv').1, hv']
        rw [outcome?_eq kept, outcome] at ended
        exact ended
    have lt := lt_of_outcome? old
    have job' : roots[u]? = some (.copyProject b) := by
      rw [← job, List.getElem?_append_left (hf.length ▸ lt)]
    refine hc unready' u b r ?_ job' old
    rcases minded with now | ⟨i, rest, hi⟩
    · rcases opening u (workspace ▸ now) with before | fresh
      · exact .inl before
      · exact (Nat.ne_of_lt lt fresh).elim
    · by_cases hit : i = t
      · subst hit
        have own := getElem?_moved (lt_of_cue? cue) tasks
        have unended := outcome?_of_moved (Option.some.inj (own.symm.trans hi))
        cases unended.symm.trans old
      · rcases getElem?_of_move hit (tasks ▸ hi) with before | ⟨-, j, -, hj⟩
        · exact .inr ⟨i, rest, before⟩
        · cases hj

theorem Copies.effect (hc : h.Copies roots) (hw : h.Awake) (hf : h.Fits s E roots)
    (hs : Effect h l k) (js : List Job) : k.Copies (roots ++ js) := by
  -- Only a task that was there before can have ended.
  have before {u : TaskId} {b : Json} {o : Outcome} (hu : (roots ++ js)[u]? = some (.copyProject b))
      (ho : h.outcome? u = some o) : roots[u]? = some (.copyProject b) := by
    rw [← hu, List.getElem?_append_left (hf.length ▸ lt_of_outcome? ho)]
  cases hs with
  | quiet still silent workspace tasks =>
    intro unready u b r minded job ended
    rw [outcome?, tasks] at ended
    rw [workspace] at unready
    rw [Minded, workspace, tasks] at minded
    exact hc unready u b r minded (before job ended) ended
  | @move t q ss k turn cue workspace tasks keeps => exact hc.move hf turn cue workspace tasks
  | announce turn ended workspace tasks =>
    intro unready u b r minded job done
    rw [hf.outcome?_announce tasks] at done
    rw [workspace] at unready
    refine hc unready u b r ?_ (before job done) done
    rcases minded with now | ⟨i, rest, hi⟩
    · exact .inl (workspace ▸ now)
    · rw [tasks, List.getElem?_map] at hi
      obtain ⟨v, hv, heard⟩ := Option.map_eq_some_iff.1 hi
      exact .inr ⟨i, rest, hv.trans (congrArg some (awaiting_of_hear heard))⟩
  | @answer t q o ss k turn asked admits workspace tasks =>
    intro unready u b r minded job ended
    rw [workspace] at unready
    obtain ⟨root, -, fits⟩ := hf.tasks asked
    have apart : u ≠ t := by
      rintro rfl
      rw [outcome?_eq (v := ⟨.resume o, ss⟩)] at ended
      · cases fits
        cases ended
      · rw [tasks, List.getElem?_set_self (List.getElem?_eq_some_iff.1 asked).1]
    rw [outcome?, tasks, List.getElem?_set_ne (Ne.symm apart)] at ended
    refine hc unready u b r ?_ (before job ended) ended
    rcases minded with now | ⟨i, rest, hi⟩
    · exact .inl (workspace ▸ now)
    · rw [tasks, List.getElem?_set] at hi
      split at hi
      · split at hi <;> cases hi
      · exact .inr ⟨i, rest, hi⟩
  | @start js' k idle workspace tasks =>
    intro unready u b r minded job ended
    rw [workspace] at unready
    have begun {i : TaskId} {v : Task} (hi : k.tasks[i]? = some v) :
        h.tasks[i]? = some v ∨ ∃ j, v = ⟨.begin j, []⟩ := by
      rw [tasks, List.getElem?_append] at hi
      split at hi
      · exact .inl hi
      · rw [List.getElem?_map] at hi
        obtain ⟨j, -, rfl⟩ := Option.map_eq_some_iff.1 hi
        exact .inr ⟨j, rfl⟩
    obtain ⟨v, hv, outcome⟩ := Option.bind_eq_some_iff.1 ended
    have old : h.outcome? u = some (.ok r) := by
      rcases begun hv with hv | ⟨j, rfl⟩
      · exact (outcome?_eq hv).trans outcome
      · cases outcome
    refine hc unready u b r ?_ (before job old) old
    rcases minded with now | ⟨i, rest, hi⟩
    · exact .inl (workspace ▸ now)
    · rcases begun hi with hi | ⟨j, hj⟩
      · exact .inr ⟨i, rest, hi⟩
      · cases hj
  | change idle workspace tasks =>
    intro unready u b r minded job ended
    rw [outcome?, tasks] at ended
    rw [workspace] at unready
    rcases minded with now | ⟨i, rest, hi⟩
    · obtain ⟨unready', opening⟩ := h.workspace.opening_after _ u unready (workspace ▸ now)
      exact hc unready' u b r (.inl opening) (before job ended) ended
    · rw [tasks] at hi
      cases hw.alert hi with
      | able next goes => cases goes
      | ended outcome => cases Task.outcome?_eq_some.1 outcome
      | awaiting owes =>
        rcases owes with unended | now
        · cases unended.symm.trans ended
        · cases idle.symm.trans now

end Host

end PluginHost
