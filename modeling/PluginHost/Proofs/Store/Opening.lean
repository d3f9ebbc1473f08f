import Mathlib.Tactic.Tauto
import PluginHost.Proofs.Compiling.Failures
import PluginHost.Proofs.Fetching.Sharing
import PluginHost.Proofs.Store.Copies
import PluginHost.Proofs.Store.Readiness

/-!
Attempts to copy the project's files. All who need the store at the same time share one attempt. The
first of them to be told that it failed takes it off the record, and only then does the next who
needs the store start another one.
-/
namespace PluginHost

variable {c : Workspace} {fresh v w : TaskId} {f : Failure} {st : Stage} {j : Job}

namespace Work

theorem storeAwaited_drops : (storeAwaited v (.error f) c).1.store.opening ≠ some v := by
  have resumes : (Stage.storeAwaited v).Resumes c _ (storeAwaited v (.error f) c) :=
    resumes_storeAwaited
  generalize storeAwaited v (.error f) c = x at resumes
  cases resumes with
  | storeAbandoned => simp
  | storeLost other => exact other

/-- Whoever waits for a copy ends with what it ended with. -/
theorem storeAwaited_ends {o : Outcome} (ho : ∀ r, o = .ok r → r = .nothing) :
    (storeAwaited v o c).2 = .finish o := by
  have resumes : (Stage.storeAwaited v).Resumes c o (storeAwaited v o c) := resumes_storeAwaited
  generalize storeAwaited v o c = x at resumes
  cases resumes with
  | storeOpen => rw [ho _ rfl, Move.done]
  | storeAbandoned | storeLost => rfl

end Work

/-- Whoever comes to wait for a copy finds it on record, or puts it there. -/
theorem Cue.Handles.waited {q : Cue} {r : Workspace × Move} (hr : q.Handles fresh c r)
    (stage : r.2.stage? = some (.storeAwaited w)) :
    c.store.opening = some w ∨ c.store.opening = none ∧ w = fresh := by
  cases hr with
  | aside beside plain => cases plain.stage _ stage
  | waits unready opening =>
    cases stage
    exact .inl opening
  | opens unready closed =>
    cases stage
    exact .inr ⟨closed, rfl⟩
  | places goes => obtain rfl | ⟨q, rfl⟩ := goes <;> cases stage
  | _ => cases stage

/-- Nobody comes to wait for a copy when the store is ready. -/
theorem Cue.Handles.unready {q : Cue} {r : Workspace × Move} (hr : q.Handles fresh c r)
    (stage : r.2.stage? = some (.storeAwaited w)) : c.store.ready = false := by
  cases hr with
  | aside beside plain => cases plain.stage _ stage
  | waits unready | opens unready => exact unready
  | places goes => obtain rfl | ⟨q, rfl⟩ := goes <;> cases stage
  | _ => cases stage

namespace Host

variable {u : Setup} {h k m n : Host} {t i : TaskId} {l : Label} {ls rs : List Label}
  {ss : List Stage} {g : Focus} {a : Json} {fs : Files}

/-- Without a project the store is always ready. -/
theorem ready_of_projectless (hr : u.Runs ls h) (without : u.hasProject = false) :
    h.workspace.store.ready = true := by
  refine Steps.forward (P := fun _ h => h.workspace.store.ready = true) ?_ ?_ hr
  · simp [Setup.host, Setup.workspace, Workspace.fresh, without]
  · intro ls h k l hh ready hs
    cases he : l.empties with
    | false => exact hs.tends.ready_of_ready he ready
    | true =>
      have tends := hs.tends
      have project := (hasProject_of_runs hh).trans without
      generalize k.workspace = d at tends
      cases tends with
      | aside beside spares => cases spares.symm.trans he
      | move turn cue next handles => cases (Move.empties_label _ _).symm.trans he
      | write => exact ready
      | place => exact ready
      | empty empties store => rw [store, Store.reset, project]; rfl

theorem not_waiting_of_projectless (hr : u.Runs ls h) (without : u.hasProject = false) :
    h.tasks[i]? ≠ some ⟨g, .storeAwaited w :: ss⟩ := by
  intro hi
  revert i g ss
  refine Steps.forward (P := fun _ h => ∀ {i : TaskId} {g : Focus} {ss : List Stage},
    h.tasks[i]? ≠ some ⟨g, .storeAwaited w :: ss⟩) ?_ ?_ hr
  · intro i g ss hi
    simp [Setup.host] at hi
  · intro ls h k l hh ih hs i g ss hi
    rcases hs.minder hh hi rfl with ⟨f, hf, -, -⟩ | ⟨q, -, cue, stage, -, -⟩
    · exact ih hf
    · have ready := ready_of_projectless hh without
      cases ready.symm.trans ((q.handles _ _).unready stage)

theorem getElem?_launched (ht : t < h.tasks.length)
    (tasks : k.tasks = (h.move t ss (.launch st j)).1.tasks) :
    k.tasks[h.tasks.length]? = some ⟨.begin j, []⟩ := by
  rw [tasks, tasks_of_move, List.getElem?_set_ne (Nat.ne_of_lt ht)]
  simp [Move.jobs]

theorem launches_of_closed (unready : h.workspace.store.ready = false)
    (closed : h.workspace.store.opening = none) :
    (h.next (.begin (.openStore a))).2 =
      .launch (.storeAwaited h.tasks.length) (.copyProject a) :=
  congrArg Prod.snd (next_of_begins (.storeLaunched unready closed))

theorem joins_of_opening (unready : h.workspace.store.ready = false)
    (opening : h.workspace.store.opening = some v) :
    (h.next (.begin (.openStore a))).2 = .await (.storeAwaited v) v :=
  congrArg Prod.snd (next_of_begins (.storeJoined unready opening))

/-- A copy that goes on record is a new task, and none was on record before it. -/
theorem Step.opening (hs : Step h l k) (ho : k.workspace.store.opening = some v) :
    h.workspace.store.opening = some v ∨
      h.workspace.store.opening = none ∧ v = h.tasks.length ∧ k.Pursues .copy v := by
  cases hs.effect with
  | @move t q ss k turn cue workspace tasks =>
    have handles := q.handles h.tasks.length h.workspace
    generalize next : q.move h.tasks.length h.workspace = r at handles
    rw [workspace, Host.next, next] at ho
    rw [Host.next, next] at tasks
    cases handles with
    | aside beside => exact .inl (beside.store ▸ ho)
    | opens unready closed =>
      cases ho
      exact .inr ⟨closed, rfl, _, getElem?_launched (lt_of_cue? cue) tasks, .begin rfl⟩
    | abandons => cases ho
    | _ => exact .inl ho
  | quiet still silent workspace => exact .inl (workspace ▸ ho)
  | announce turn ended workspace => exact .inl (workspace ▸ ho)
  | answer turn asked admits workspace => exact .inl (workspace ▸ ho)
  | start idle workspace => exact .inl (workspace ▸ ho)
  | @change c k idle workspace =>
    rw [workspace] at ho
    have tends := h.tends_change c
    generalize h.workspace.after c = d at tends ho
    generalize Label.changed c = l at tends
    cases tends with
    | aside beside => exact .inl (beside.store ▸ ho)
    | move turn => cases idle.symm.trans turn
    | write => exact .inl ho
    | place => exact .inl ho
    | empty empties store => rw [store] at ho; cases ho

/-- Whoever is told that a copy failed leaves it off the record. -/
theorem Notices.opening (hn : h.Notices v) (hs : Step h l k) :
    k.workspace.store.opening ≠ some v := by
  obtain ⟨t, f, ss, turn, cue⟩ := hn
  rw [(hs.went turn cue).2.1]
  exact Work.storeAwaited_drops

theorem Notices.outcome? (hn : h.Notices v) (hr : u.Runs ls h) :
    ∃ f, h.outcome? v = some (.error f) := by
  obtain ⟨t, f, ss, turn, cue⟩ := hn
  obtain waits | ⟨o, told, ended⟩ := heeds_of_runs hr (cue?_eq_told.1 cue)
  · cases waits
  · cases told
    exact ⟨f, ended⟩

/-- Nobody waits for a copy that is newer than the one on record. -/
theorem le_of_waiting (hr : u.Runs ls h) (hi : h.tasks[i]? = some ⟨g, .storeAwaited w :: ss⟩)
    (ho : h.workspace.store.opening = some v) : w ≤ v := by
  revert i g ss v
  refine Steps.forward (P := fun _ h => ∀ {i : TaskId} {g : Focus} {ss : List Stage} {v : TaskId},
    h.tasks[i]? = some ⟨g, .storeAwaited w :: ss⟩ → h.workspace.store.opening = some v → w ≤ v)
    ?_ ?_ hr
  · intro i g ss v hi
    simp [Setup.host] at hi
  · intro ls h k l hh ih hs i g ss v hi ho
    rcases hs.minder hh hi rfl with ⟨f, hf, -, -⟩ | ⟨q, -, cue, stage, -, -⟩
    · rcases hs.opening ho with old | ⟨-, rfl, -⟩
      · exact ih hf old
      · -- A task that is waited for was started before one that is new.
        obtain ⟨roots, fits⟩ := fits_of_runs hh
        obtain ⟨root, -, waits⟩ := fits.tasks hf
        obtain rfl | ⟨o, rfl, ended⟩ := heeds_of_runs hh hf
        · cases waits with
          | awaiting frames awaits job =>
            rw [fits.length]
            exact Nat.le_of_lt (List.getElem?_eq_some_iff.1 job).1
        · exact Nat.le_of_lt (lt_of_outcome? ended)
    · rcases (q.handles _ _).waited stage with now | ⟨closed, rfl⟩
      · rcases hs.opening ho with old | ⟨closed, -⟩
        · exact Nat.le_of_eq (Option.some.inj (now.symm.trans old))
        · cases closed.symm.trans now
      · rcases hs.opening ho with old | ⟨-, rfl, -⟩
        · cases closed.symm.trans old
        · exact Nat.le_refl _

end Host

/-- At some moment of a run a task was copying the project's files. -/
def Setup.Attempted (u : Setup) (ls : List Host.Label) (h : Host) (v : TaskId) : Prop :=
  u.Once ls h fun m => m.Pursues .copy v

/-- At some moment of a run somebody was told that a copy failed. -/
def Setup.Noticed (u : Setup) (ls : List Host.Label) (h : Host) (v : TaskId) : Prop :=
  u.Once ls h fun m => m.Notices v

namespace Host

variable {u : Setup} {h k m n : Host} {t i : TaskId} {l : Label} {ls rs : List Label}
  {ss : List Stage} {g : Focus} {a : Json} {fs : Files}

theorem attempted_of_opening (hr : u.Runs ls h) (ho : h.workspace.store.opening = some v) :
    u.Attempted ls h v := by
  revert ho
  refine Steps.forward (P := fun ls h => h.workspace.store.opening = some v → u.Attempted ls h v)
    (fun ho => by cases ho) ?_ hr
  intro ls h k l hh ih hs ho
  rcases hs.opening ho with old | ⟨-, -, copies⟩
  · exact (ih old).snoc hs
  · exact .now (hh.snoc hs) copies

theorem outcome?_of_noticed (hn : u.Noticed ls h v) : ∃ f, h.outcome? v = some (.error f) := by
  obtain ⟨before, after, m, -, hm, hh, notices⟩ := hn
  obtain ⟨f, ended⟩ := notices.outcome? hm
  exact ⟨f, hh.ended ended⟩

/-- The copy on record is newer than those that somebody was told the failure of before. -/
theorem lt_of_noticed (hn : u.Noticed ls h w) (ho : h.workspace.store.opening = some v) :
    h.Notices w ∨ w < v := by
  obtain ⟨before, after, m, -, hm, hh, notices⟩ := hn
  suffices stays : h.Notices w ∨ (∃ o, h.outcome? w = some o) ∧
      ∀ v, h.workspace.store.opening = some v → w < v from stays.imp_right fun lt => lt.2 v ho
  refine Steps.forward (P := fun _ h => h.Notices w ∨ (∃ o, h.outcome? w = some o) ∧
    ∀ v, h.workspace.store.opening = some v → w < v) (.inl notices) ?_ hh
  rintro rs g k l hg ih hs
  right
  rcases ih with notices | ⟨⟨o, ended⟩, newer⟩
  · obtain ⟨f, ended⟩ := notices.outcome? (hm.trans hg)
    refine ⟨⟨_, hs.ended ended⟩, fun v hv => ?_⟩
    rcases hs.opening hv with old | ⟨-, rfl, -⟩
    · obtain ⟨t, f, ss, turn, cue⟩ := id notices
      have le := le_of_waiting (hm.trans hg) (cue?_eq_told.1 cue) old
      have apart : w ≠ v := fun same => notices.opening hs (same ▸ hv)
      exact Nat.lt_of_le_of_ne le apart
    · exact lt_of_outcome? ended
  · refine ⟨⟨o, hs.ended ended⟩, fun v hv => ?_⟩
    rcases hs.opening hv with old | ⟨-, rfl, -⟩
    · exact newer v old
    · exact lt_of_outcome? ended

/-- Nobody empties the store, and no caller copies the project's files without being asked to. -/
structure Label.Sheltered (l : Label) : Prop where
  unsent : ¬ l.Sends .copy
  spares : l.empties = false

theorem Label.Internal.sheltered (hl : l.Internal) : l.Sheltered := ⟨hl.sends, hl.spares⟩

theorem opening_of_pursues (hr : u.Runs ls h) (sheltered : ∀ l ∈ ls, l.Sheltered)
    (copies : h.Pursues .copy v) : h.workspace.store.opening = some v := by
  apply (opening_of_runs hr (fun l hl => (sheltered l hl).unsent) copies).resolve_right
  rintro ⟨before, l, after, m, rfl, -, empties, -⟩
  cases (sheltered l (by simp)).spares.symm.trans empties

/-- A copy stays on record until somebody is told that it failed. -/
theorem opening_of_attempted (hr : u.Runs ls h) (sheltered : ∀ l ∈ ls, l.Sheltered)
    (ha : u.Attempted ls h v) : h.workspace.store.opening = some v ∨ u.Noticed ls h v := by
  obtain ⟨before, after, m, rfl, hm, hh, copies⟩ := ha
  rw [List.forall_mem_append] at sheltered
  have recorded := opening_of_pursues hm sheltered.1 copies
  have spares : ∀ l ∈ after, l.empties = false := fun l hl => (sheltered.2 l hl).spares
  revert spares
  refine Steps.forward (P := fun after h => (∀ l ∈ after, l.empties = false) →
    h.workspace.store.opening = some v ∨ u.Noticed (before ++ after) h v) (fun _ => .inl recorded)
    ?_ hh
  intro rs g k l hg ih hs spares
  rw [List.forall_mem_append] at spares
  rw [← List.append_assoc]
  rcases ih spares.1 with opening | noticed
  · rcases hs.tends.opening opening with stays | empties | notices
    · exact .inl stays
    · cases (spares.2 l (by simp)).symm.trans empties
    · have now : u.Noticed (before ++ rs) g v := .now (hm.trans hg) notices
      exact .inr (now.snoc hs)
  · exact .inr (noticed.snoc hs)

/-- Whoever is told the project's files takes them in by its next move. -/
theorem Step.told_project {o : Outcome} (hr : u.Runs ls h)
    (hs : Step h (.answered t (.projectFiles a) o) k) :
    k.turn = some t ∧ k.cue? t = some (.told .projectCopied o, []) := by
  refine ⟨hs.turn_answered, cue?_eq_told.2 ?_⟩
  obtain ⟨roots, hf⟩ := fits_of_runs hr
  cases hs with
  | answer turn asked admits =>
    obtain ⟨ss, ht⟩ := tasks_of_query? asked
    obtain ⟨w, hw, pursues⟩ := hf.pursues_of_asking ht rfl
    obtain rfl := Option.some.inj (ht.symm.trans hw)
    cases pursues with
    | @asking st q stage query =>
      obtain rfl := Stage.eq_projectCopied stage
      rw [Host.answer, ht]
      exact List.getElem?_set_self (List.getElem?_eq_some_iff.1 ht).1

theorem Steps.copied_of_answered (hr : u.Runs ls h)
    (hs : Step h (.answered t (.projectFiles a) (.ok (.files fs))) k) (hk : Steps k rs n) :
    rs = [] ∨ n.outcome? t = some (.ok .nothing) := by
  obtain ⟨turn, cue⟩ := hs.told_project hr
  cases hk with
  | refl => exact .inl rfl
  | cons first rest =>
    obtain ⟨-, -, goes⟩ := first.went turn cue
    exact .inr (rest.ended (outcome?_eq goes))

/-- The project's files are not asked for again once they have come. -/
theorem Steps.project_not_asked {xs ys : List Label} {b : Json} (hr : u.Runs ls h)
    (labels : ls = xs ++ .answered t (.projectFiles a) (.ok (.files fs)) :: ys)
    (sheltered : ∀ l ∈ ls, l.Sheltered) : .asked v (.projectFiles b) ∉ ys := by
  intro asks
  subst labels
  obtain ⟨ws, zs, rfl⟩ := List.append_of_mem asks
  obtain ⟨g, g', hg, answered, rest⟩ := Steps.split hr
  obtain ⟨m, n, hm, asked, -⟩ := rest.split
  have run : u.Runs (xs ++ .answered t (.projectFiles a) (.ok (.files fs)) ::
      (ws ++ [.asked v (.projectFiles b)])) n := Steps.trans hg (.cons answered (hm.snoc asked))
  have calm : ∀ l ∈ xs ++ .answered t (.projectFiles a) (.ok (.files fs)) ::
      (ws ++ [.asked v (.projectFiles b)]), l.Sheltered := by
    intro l hl
    refine sheltered l ?_
    simp only [List.mem_append, List.mem_cons, List.not_mem_nil, or_false] at hl ⊢
    tauto
  obtain ⟨cue, ss, st, -, -, -, asking⟩ := asked.asked
  have copies := pursues_of_query? run (query?_eq asking) rfl
  have ended : n.outcome? t = some (.ok .nothing) :=
    (Steps.copied_of_answered hg answered (hm.snoc asked)).resolve_left (by simp)
  have attempted : u.Attempted (xs ++ .answered t (.projectFiles a) (.ok (.files fs)) ::
      (ws ++ [.asked v (.projectFiles b)])) n t := by
    refine ⟨xs, _, g, rfl, hg, .cons answered (hm.snoc asked), ?_⟩
    cases answered with
    | answer turn asked => exact pursues_of_query? hg asked rfl
  rcases opening_of_attempted run calm attempted with opening | noticed
  · -- The copy that succeeded is on record, so it would have to be the one that asks.
    have same := opening.symm.trans (opening_of_pursues run calm copies)
    obtain rfl := Option.some.inj same
    cases copies.outcome?.symm.trans ended
  · obtain ⟨f, failed⟩ := outcome?_of_noticed noticed
    cases failed.symm.trans ended

/-- What a copy ends with that somebody waits for. -/
theorem returns_of_waiting {r : Reply} (hr : u.Runs ls h)
    (hi : h.tasks[i]? = some ⟨g, .storeAwaited v :: ss⟩) (ended : h.outcome? v = some (.ok r)) :
    r = .nothing := by
  obtain ⟨roots, hf⟩ := fits_of_runs hr
  obtain ⟨root, -, fits⟩ := hf.tasks hi
  obtain rfl | ⟨o, rfl, told⟩ := heeds_of_runs hr hi
  · cases fits with
    | awaiting frames awaits job =>
      cases awaits with
      | storeAwaited => exact hf.ends ended job r rfl
  · obtain rfl := Option.some.inj (told.symm.trans ended)
    cases fits with
    | told frames awaits gives =>
      cases awaits with
      | storeAwaited => exact gives r rfl

/-- Whoever waits for a copy goes on doing so until it returns what the copy ended with. -/
theorem Steps.waited (hm : u.Runs ls m) (hk : Steps m rs h)
    (hi : m.tasks[t]? = some ⟨g, .storeAwaited v :: ss⟩) :
    (∃ f, h.tasks[t]? = some ⟨f, .storeAwaited v :: ss⟩) ∨ m.Returns rs t v ss := by
  refine Steps.forward (P := fun rs h => (∃ f, h.tasks[t]? = some ⟨f, .storeAwaited v :: ss⟩) ∨
    m.Returns rs t v ss) (.inl ⟨g, hi⟩) ?_ hk
  rintro rs k n r hk (⟨f, hf⟩ | ⟨xs, ys, w, o, labels, returned⟩) hn
  · have run := hm.trans hk
    rcases hn.heeds hf (heeds_of_runs run hf) with ⟨f, stays, -⟩ | ⟨o, ended, goes⟩
    · exact .inl ⟨f, stays⟩
    · have ends : (k.next (.told (.storeAwaited v) o)).2 = .finish o :=
        Work.storeAwaited_ends fun r hr => returns_of_waiting run hf (hr ▸ ended)
      rw [ends] at goes
      exact .inr ⟨rs ++ [r], [], n, o, by simp, hk.snoc hn, goes, hn.ended ended⟩
  · exact .inr ⟨xs, ys ++ [r], w, o, by rw [labels, List.append_assoc], returned⟩

theorem ready_of_copied {r : Reply} (hr : u.Runs ls h) (sheltered : ∀ l ∈ ls, l.Sheltered)
    (attempted : u.Attempted ls h v) (ended : h.outcome? v = some (.ok r)) :
    h.workspace.store.ready = true := by
  obtain ⟨roots, hf, copies⟩ := copies_of_runs hr
  rcases opening_of_attempted hr sheltered attempted with opening | noticed
  · obtain ⟨a, job⟩ := hf.knows.opening v opening
    by_contra unready
    exact copies (by simpa using unready) v a r (.inl opening) job ended
  · obtain ⟨f, failed⟩ := outcome?_of_noticed noticed
    cases failed.symm.trans ended

/-- Whether a step asks for a file of the remote or places one. -/
def Label.fills : Label → Bool
  | .asked _ (.download ..) | .changed (.place ..) => true
  | _ => false

/-- The project's files that a task was told of during a run. -/
theorem told_project_of_runs (hr : u.Runs ls h) (hs : Step h l k)
    (cue : h.cue? t = some (.told .projectCopied (.ok (.files fs)), ss)) :
    (∃ before a, ls = before ++ [.answered t (.projectFiles a) (.ok (.files fs))] ∧
      .asked t (.projectFiles a) ∈ before) ∧ k.outcome? t = some (.ok .nothing) := by
  have told := cue?_eq_told.1 cue
  obtain ⟨roots, hf⟩ := fits_of_runs hr
  obtain ⟨before, q, labels, errand, asked⟩ := Steps.answered (u := u) .refl rfl hr told rfl
  obtain ⟨root, owner, -, frames, hq⟩ := hf.cue cue
  obtain rfl : ss = [] := by
    cases hq with
    | told awaits gives => exact (frames.of_errand (awaits.errand rfl).1).2
  obtain ⟨-, -, goes⟩ := hs.went ((prompt_of_runs hr).turn told rfl) cue
  refine ⟨?_, outcome?_eq goes⟩
  cases q with
  | projectFiles a =>
    refine ⟨before, a, labels, asked.resolve_right ?_⟩
    simp [query?, Setup.host]
  | _ => cases errand

/-- Whoever is told the files of a download has asked for them. -/
theorem fills_of_told {p : String} (hr : u.Runs ls h)
    (cue : h.cue? t = some (.told (.downloaded p a) (.ok (.files fs)), ss)) :
    ∃ l ∈ ls, l.fills = true := by
  obtain ⟨since, q, rfl, errand, asked⟩ :=
    Steps.answered (u := u) .refl rfl hr (cue?_eq_told.1 cue) rfl
  cases q with
  | download r d =>
    rcases asked with asked | waiting
    · exact ⟨.asked t (.download r d), List.mem_append_left _ asked, rfl⟩
    · simp [query?, Setup.host] at waiting
  | _ => cases errand

/-- The project's files came in a run and are in the store, as they came if no others were fetched
or placed. -/
def Mirrored (ls : List Label) (h : Host) : Prop :=
  ∃ before v a fs after, ls = before ++ .answered v (.projectFiles a) (.ok (.files fs)) :: after ∧
    .asked v (.projectFiles a) ∈ before ∧ h.outcome? v = some (.ok .nothing) ∧
    (∀ f ∈ fs.entries, h.workspace.store.remote.contains f.1 = true) ∧
    ((∀ l ∈ ls, l.fills = false) → ∀ path x,
      (Layer.empty.writeAll fs).read? path = some x →
        h.workspace.store.remote.read? path = some x)

/-- The project's files are there once a task that was told of them has stored them. -/
theorem mirrored_of_told (hr : u.Runs ls h) (hs : Step h l k)
    (cue : h.cue? t = some (.told .projectCopied (.ok (.files fs)), ss))
    (remote : k.workspace.store.remote = h.workspace.store.remote.writeAll fs) :
    Mirrored (ls ++ [l]) k := by
  obtain ⟨⟨before, a, rfl, asked⟩, ended⟩ := told_project_of_runs hr hs cue
  refine ⟨before, t, a, fs, [l], by simp, asked, ended, fun f hf => ?_, fun _ path x hx => ?_⟩
  · rw [remote, Layer.contains_writeAll]
    exact .inr ⟨f, hf, rfl⟩
  · rw [remote, Layer.read?_writeAll]
    rw [Layer.read?_writeAll, Layer.read?_empty, Option.or_none] at hx
    rw [hx, Option.some_or]

/-- If there is a project, a store that is ready has its files. -/
theorem mirrored_of_ready (hr : u.Runs ls h) (sheltered : ∀ l ∈ ls, l.Sheltered)
    (project : u.hasProject = true) (ready : h.workspace.store.ready = true) : Mirrored ls h := by
  revert sheltered ready
  refine Steps.forward (P := fun ls h => (∀ l ∈ ls, l.Sheltered) →
    h.workspace.store.ready = true → Mirrored ls h) ?_ ?_ hr
  · intro _ ready
    simp [Setup.host, Setup.workspace, Workspace.fresh, project] at ready
  · intro ls h k l hh ih hs sheltered ready
    rw [List.forall_mem_append] at sheltered
    have spares := (sheltered.2 l (by simp)).spares
    rcases hs.tends.copies_or_keeps spares with ⟨t, fs, ss, cue, store⟩ | ⟨same, lower⟩
    · exact mirrored_of_told hh hs cue (by rw [store]; rfl)
    · obtain ⟨before, v, a, fs, after, rfl, asked, ended, there, kept⟩ :=
        ih sheltered.1 (same ▸ ready)
      refine ⟨before, v, a, fs, after ++ [l], by simp, asked, hs.ended ended,
        fun f hf => hs.tends.contains spares (there f hf), fun unfilled path x hx => ?_⟩
      rw [List.forall_mem_append] at unfilled
      rcases lower with remote | ⟨p, y, rfl⟩ | ⟨t, p, b, gs, ss, cue⟩
      · rw [remote, kept unfilled.1 path x hx]
      · cases unfilled.2 _ (List.mem_singleton.2 rfl)
      · obtain ⟨m, hm, fills⟩ := fills_of_told hh cue
        cases (unfilled.1 m hm).symm.trans fills

/-- Calls that open the store share attempts, however they, the answers and all else follow one
another. At no moment are two questions for the project's files without an answer, and none is put
after they have come. Whoever waits for an attempt returns with exactly what it ends with, at the
latest when nothing is left to be done. As long as the store is not ready, a call starts an attempt
if somebody was told the failure of one and the failure of every newer one, and it shares in an
attempt that nobody was told the failure of, be it over or not. And if there is a project, the store
is ready exactly when an attempt has succeeded. -/
theorem opening_shared (hm : u.Runs ls m) (hk : Steps m rs h)
    (sheltered : ∀ l ∈ ls ++ rs, l.Sheltered) :
    (∀ t v a b, h.query? t = some (.projectFiles a) → h.query? v = some (.projectFiles b) →
      t = v) ∧
    (∀ xs ys t a fs, ls ++ rs = xs ++ .answered t (.projectFiles a) (.ok (.files fs)) :: ys →
      ∀ v b, .asked v (.projectFiles b) ∉ ys) ∧
    (∀ t v f ss, m.tasks[t]? = some ⟨f, .storeAwaited v :: ss⟩ →
      ((∃ g, h.tasks[t]? = some ⟨g, .storeAwaited v :: ss⟩) ∨ m.Returns rs t v ss) ∧
        (h.Rests → m.Returns rs t v ss)) ∧
    (∀ t a ss, h.turn = some t → h.cue? t = some (.begin (.openStore a), ss) →
      h.workspace.store.ready = false →
        (∀ w, u.Noticed (ls ++ rs) h w →
          (∀ v, w < v → u.Attempted (ls ++ rs) h v → u.Noticed (ls ++ rs) h v) →
            (h.next (.begin (.openStore a))).2 =
              .launch (.storeAwaited h.tasks.length) (.copyProject a)) ∧
        (∀ v, u.Attempted (ls ++ rs) h v → ¬ u.Noticed (ls ++ rs) h v →
          (h.next (.begin (.openStore a))).2 = .await (.storeAwaited v) v)) ∧
    (u.hasProject = true → (h.workspace.store.ready = true ↔
      ∃ v a r, .asked v (.projectFiles a) ∈ ls ++ rs ∧ h.outcome? v = some (.ok r))) := by
  have run : u.Runs (ls ++ rs) h := hm.trans hk
  refine ⟨?_, ?_, ?_, ?_, ?_⟩
  · intro t v a b ht hv
    have first := opening_of_pursues run sheltered (pursues_of_query? run ht rfl)
    have second := opening_of_pursues run sheltered (pursues_of_query? run hv rfl)
    exact Option.some.inj (first.symm.trans second)
  · intro xs ys t a fs labels v b
    exact Steps.project_not_asked run labels sheltered
  · intro t v f ss hi
    have goes := hk.waited hm hi
    refine ⟨goes, fun rests => goes.resolve_left ?_⟩
    rintro ⟨g, stays⟩
    obtain ⟨o, ended⟩ := rests.ended run (List.getElem?_eq_some_iff.1 stays).1
    rw [outcome?_eq stays] at ended
    cases g <;> cases ended
  · intro t a ss turn cue unready
    refine ⟨fun w noticed newer => ?_, fun v attempted unnoticed => ?_⟩
    · refine launches_of_closed unready (Option.eq_none_iff_forall_ne_some.2 fun v opening => ?_)
      have apart : ∀ v, ¬ h.Notices v := by
        rintro v ⟨t', f, ss', turn', cue'⟩
        obtain rfl := Option.some.inj (turn'.symm.trans turn)
        cases cue'.symm.trans cue
      -- An attempt on record is newer than `w`, and so it is newer than itself.
      have lt := (lt_of_noticed noticed opening).resolve_left (apart w)
      have later := newer v lt (attempted_of_opening run opening)
      exact Nat.lt_irrefl v ((lt_of_noticed later opening).resolve_left (apart v))
    · apply joins_of_opening unready
      exact (opening_of_attempted run sheltered attempted).resolve_right unnoticed
  · intro project
    refine ⟨fun ready => ?_, fun ⟨v, a, r, asked, ended⟩ => ?_⟩
    · obtain ⟨before, v, a, fs, after, labels, asked, ended, -⟩ :=
        mirrored_of_ready run sheltered project ready
      exact ⟨v, a, _, by simp [labels, asked], ended⟩
    · refine ready_of_copied run sheltered ?_ ended
      obtain ⟨xs, ys, labels⟩ := List.append_of_mem asked
      rw [labels] at run ⊢
      obtain ⟨g, g', hg, puts, rest⟩ := Steps.split run
      obtain ⟨cue, ss, st, -, -, -, asking⟩ := puts.asked
      have copies := pursues_of_query? (Steps.snoc hg puts) (query?_eq asking) rfl
      exact ⟨xs ++ [.asked v (.projectFiles a)], ys, g', by simp, Steps.snoc hg puts, rest, copies⟩

end Host

/-- Collaborators without the project's files. -/
def World.refusing : World Unit := .steady Query.acceptedWithoutProject

/-- A host where a task waits for the project's files. -/
def Setup.waiting : Host :=
  ((Setup.project.host.start [.openStore .null]).run .refusing 2 ()).1

theorem Setup.runs_waiting :
    project.Runs (project.labels .refusing [.openStore .null] 2 ()) waiting :=
  project.runs_run World.acceptedWithoutProject_admits [.openStore .null] 2 ()

/-- The task was told that the files cannot be had. -/
def Setup.refused : Host := (waiting.run .refusing 5 ()).1

theorem Setup.steps_refused : Host.Steps waiting (Host.labels .refusing 5 waiting ()) refused :=
  Host.steps_run World.acceptedWithoutProject_admits 5 waiting ()

theorem Setup.refused_notices : refused.Notices 1 :=
  ⟨0, Fault.connection "controller unavailable", [], by decide +kernel, Host.cue?_eq_told.2 rfl⟩

/-- Jobs are started when the task has ended. -/
def Setup.refusedAgain (js : List Job) (moves : Nat) : Host :=
  (((refused.run .refusing 2 ()).1.start js).run .refusing moves ()).1

def Setup.labelsAgain (js : List Job) (moves : Nat) : List Host.Label :=
  Host.labels .refusing 2 refused () ++
    .started js :: Host.labels .refusing moves ((refused.run .refusing 2 ()).1.start js) ()

theorem Setup.steps_refusedAgain (js : List Job) (moves : Nat) :
    Host.Steps refused (labelsAgain js moves) (refusedAgain js moves) :=
  .trans (Host.steps_run World.acceptedWithoutProject_admits 2 refused ())
    (.cons (.start (by decide +kernel))
      (Host.steps_run World.acceptedWithoutProject_admits moves _ ()))

theorem Host.sheltered_labels (w : World Unit) (n : Nat) (h : Host) :
    ∀ l ∈ labels w n h (), l.Sheltered :=
  fun l hl => (internal_labels w n h () l hl).sheltered

theorem Host.sheltered_started {js : List Job} (hj : ∀ j ∈ js, j.errand? = none) :
    Label.Sheltered (.started js) := by
  refine ⟨?_, rfl⟩
  rintro ⟨j, member, errand⟩
  cases (hj j member).symm.trans errand

theorem Setup.sheltered_again (js : List Job) (moves : Nat) (hj : ∀ j ∈ js, j.errand? = none) :
    ∀ l ∈ project.labels .refusing [.openStore .null] 2 () ++
      (Host.labels .refusing 5 waiting () ++ labelsAgain js moves), l.Sheltered := by
  simp only [Setup.labels, labelsAgain, List.forall_mem_append, List.forall_mem_cons]
  exact ⟨⟨Host.sheltered_started (by simp [Job.errand?]), Host.sheltered_labels _ 2 _⟩,
    Host.sheltered_labels _ 5 _, Host.sheltered_labels _ 2 _, Host.sheltered_started hj,
    Host.sheltered_labels _ moves _⟩

theorem Setup.noticed_again (js : List Job) (moves : Nat) :
    project.Noticed (project.labels .refusing [.openStore .null] 2 () ++
      (Host.labels .refusing 5 waiting () ++ labelsAgain js moves)) (refusedAgain js moves) 1 :=
  ⟨_, _, refused, (List.append_assoc ..).symm, runs_waiting.trans steps_refused,
    steps_refusedAgain js moves, refused_notices⟩

/-- A task waits for an attempt, the attempt fails, and then somebody calls for the store. -/
theorem opening_shared_refused :
    ∃ ls m rs h, Setup.project.Runs ls m ∧ Host.Steps m rs h ∧ (∀ l ∈ ls ++ rs, l.Sheltered) ∧
      m.tasks[0]? = some ⟨.awaiting 1, [.storeAwaited 1]⟩ ∧ m.Returns rs 0 1 [] ∧
      h.turn = some 2 ∧ h.cue? 2 = some (.begin (.openStore .null), []) ∧
      (h.next (.begin (.openStore .null))).2 =
        .launch (.storeAwaited h.tasks.length) (.copyProject .null) ∧
      (h.workspace.store.ready = true ↔ ∃ v a r, .asked v (.projectFiles a) ∈ ls ++ rs ∧
        h.outcome? v = some (.ok r)) := by
  have hk := Setup.steps_refused.trans (Setup.steps_refusedAgain [.openStore .null] 1)
  have sheltered := Setup.sheltered_again [.openStore .null] 1 (by simp [Job.errand?])
  have run := Setup.runs_waiting.trans hk
  obtain ⟨-, -, waits, calls, ready⟩ := Host.opening_shared Setup.runs_waiting hk sheltered
  have waiting : Setup.waiting.tasks[0]? = some ⟨.awaiting 1, [.storeAwaited 1]⟩ := rfl
  have turn : (Setup.refusedAgain [.openStore .null] 1).turn = some 2 := by decide +kernel
  have cue : (Setup.refusedAgain [.openStore .null] 1).cue? 2 =
      some (.begin (.openStore .null), []) := Host.cue?_eq_begin.2 rfl
  have closed : (Setup.refusedAgain [.openStore .null] 1).workspace.store.opening = none := by
    decide +kernel
  have ended : ((Setup.refusedAgain [.openStore .null] 1).outcome? 0).isSome = true := by
    decide +kernel
  refine ⟨_, _, _, _, Setup.runs_waiting, hk, sheltered, waiting, ?_, turn, cue, ?_, ready rfl⟩
  · apply ((waits 0 1 _ _ waiting).1).resolve_left
    rintro ⟨f, stays⟩
    rw [Host.outcome?_eq stays] at ended
    cases f <;> cases ended
  · refine (calls 2 _ _ turn cue (by decide +kernel)).1 1 (Setup.noticed_again _ 1) ?_
    intro v newer attempted
    have recorded := Host.opening_of_attempted run sheltered attempted
    exact recorded.resolve_left fun opening => by cases closed.symm.trans opening

/-- Whether a task is about to open the store. -/
def Host.opens (h : Host) (t : TaskId) : Bool :=
  match h.tasks[t]? with
  | some ⟨.begin (.openStore _), _⟩ => true
  | _ => false

theorem Host.cue?_of_opens {h : Host} {t : TaskId} (ho : h.opens t = true) :
    ∃ a ss, h.cue? t = some (.begin (.openStore a), ss) := by
  unfold opens at ho
  split at ho
  · rename_i task
    exact ⟨_, _, cue?_eq_begin.2 task⟩
  · cases ho

/-- An attempt that has ended, but whose failure nobody was told yet, keeps a call from starting
another one. -/
theorem opening_can_be_stale :
    ¬ ∀ u ls h t a ss w, Setup.Runs u ls h → (∀ l ∈ ls, l.Sheltered) → u.hasProject = true →
      h.turn = some t → h.cue? t = some (.begin (.openStore a), ss) →
        h.workspace.store.ready = false → u.Noticed ls h w → (∀ v, w < v → ¬ h.Pursues .copy v) →
          ∃ st j, (h.next (.begin (.openStore a))).2 = .launch st j := by
  intro always
  let js : List Job := [.installAll ⟨[], ["x"], 7, .null, false⟩, .openStore .null]
  have run := Setup.runs_waiting.trans
    (Setup.steps_refused.trans (Setup.steps_refusedAgain js 14))
  have sheltered := Setup.sheltered_again js 14 (by simp [js, Job.errand?])
  have turn : (Setup.refusedAgain js 14).turn = some 6 := by decide +kernel
  have calls : (Setup.refusedAgain js 14).opens 6 = true := by decide +kernel
  obtain ⟨a, ss, cue⟩ := Host.cue?_of_opens calls
  have unready : (Setup.refusedAgain js 14).workspace.store.ready = false := by decide +kernel
  have opening : (Setup.refusedAgain js 14).workspace.store.opening = some 5 := by decide +kernel
  have ended : ((Setup.refusedAgain js 14).outcome? 5).isSome = true := by decide +kernel
  have idle (v : TaskId) : ¬ (Setup.refusedAgain js 14).Pursues .copy v := by
    intro copies
    have recorded := Host.opening_of_pursues run sheltered copies
    obtain rfl := Option.some.inj (recorded.symm.trans opening)
    rw [copies.outcome?] at ended
    cases ended
  obtain ⟨st, j, launches⟩ := always _ _ _ 6 _ _ 1 run sheltered rfl turn cue unready
    (Setup.noticed_again js 14) fun v _ => idle v
  rw [Host.joins_of_opening unready opening] at launches
  cases launches

end PluginHost
