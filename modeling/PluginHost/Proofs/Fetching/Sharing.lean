import PluginHost.Proofs.Host.Replay
import PluginHost.Proofs.Path.Normal
import PluginHost.Proofs.Store.Filling

/-!
Downloads are shared. The list of downloads on their way, the tasks that run them and the tasks
that are to take them off the list agree at every moment, so a path is never on its way twice, and
whoever finds it on its way gets what came of it.
-/
namespace PluginHost

variable {p : String} {o : Outcome} {fresh : TaskId} {c : Workspace} {st : Stage} {j : Job}

namespace Downloads

variable {d : Downloads}

@[simp] theorem generation_record (d : Downloads) (path : String) :
    (d.record path).generation = d.generation := by
  unfold record
  split <;> rfl

theorem mem_record_self (d : Downloads) (path : String) : path ∈ (d.record path).fetched := by
  unfold record
  split
  · assumption
  · exact List.mem_cons_self ..

theorem mem_record {path : String} (hp : p ∈ d.fetched) : p ∈ (d.record path).fetched := by
  unfold record
  split
  · exact hp
  · exact List.mem_cons_of_mem _ hp

end Downloads

/-- Only a fetch of a path that is neither known nor on its way sends a task to load it. -/
theorem Cue.Handles.load {q : Cue} {r : Workspace × Move} (hr : q.Handles fresh c r)
    (launches : r.2 = .launch st j) (he : j.errand? = some (.load p)) :
    (∃ x a, q = .begin (.fetch x a) ∧ p = Path.normalize x) ∧
      p ∉ (c.downloads.sync c.store).fetched ∧ c.downloads.pending.get? p = none ∧
        r.1 = { c with downloads := (c.downloads.sync c.store).started p fresh } := by
  cases hr with
  | aside beside plain =>
    obtain rfl : _ = Move.launch st j := launches
    cases (plain.jobs j (List.mem_singleton.2 rfl)).symm.trans he
  | opens =>
    cases launches
    cases he
  | loads unknown free =>
    cases launches
    cases he
    exact ⟨⟨_, _, rfl, rfl⟩, unknown, free, rfl⟩
  | places goes => obtain rfl | ⟨q, rfl⟩ := goes <;> cases launches
  | _ => cases launches

/-- Only the fetch that sends a task to load a path is to take it off the list. -/
theorem Cue.Handles.owned {q : Cue} {r : Workspace × Move} (hr : q.Handles fresh c r)
    (stage : r.2.stage? = some (.downloadOwned p)) :
    c.downloads.pending.get? p = none ∧ (∃ j, r.2 = .launch (.downloadOwned p) j) ∧
      r.1.downloads.pending.get? p = some fresh := by
  cases hr with
  | aside beside plain => cases plain.stage _ stage
  | loads unknown free =>
    cases stage
    exact ⟨free, ⟨_, rfl⟩, by simp [Downloads.started]⟩
  | places goes => obtain rfl | ⟨q, rfl⟩ := goes <;> cases stage
  | _ => cases stage

/-- A download on its way stays on the list until the task that is to take it off does so. -/
theorem Cue.Handles.pending {q : Cue} {r : Workspace × Move} {v : TaskId}
    (hr : q.Handles fresh c r) (hp : c.downloads.pending.get? p = some v) :
    r.1.downloads.pending.get? p = some v ∨ ∃ o, q = .told (.downloadOwned p) o := by
  cases hr with
  | aside beside => exact .inl (by rw [beside.downloads, hp])
  | remembers => exact .inl (by simp [hp])
  | finds => exact .inl (by simp [hp])
  | joins => exact .inl (by simp [hp])
  | @loads x a unknown free =>
    left
    have apart : Path.normalize x ≠ p := by
      rintro rfl
      cases free.symm.trans hp
    simp [Downloads.started, apart, hp]
  | @settles x o =>
    by_cases hit : x = p
    · exact .inr ⟨o, by rw [hit]⟩
    · exact .inl (by simp [Downloads.ended, Table.get?_erase, hit, hp])
  | places => exact .inl (by simp [Work.placed, Downloads.counted, hp])
  | _ => exact .inl hp

namespace Host

variable {u : Setup} {h k m : Host} {t v i : TaskId} {l : Label} {ls rs : List Label}
  {ss : List Stage} {d : Workspace} {f : Focus}

theorem Tends.pending (ht : h.Tends l d)
    (hp : h.workspace.downloads.pending.get? p = some v) :
    d.downloads.pending.get? p = some v ∨
      ∃ t o ss, h.turn = some t ∧ h.cue? t = some (.told (.downloadOwned p) o, ss) := by
  cases ht with
  | aside beside => exact .inl (by rw [beside.downloads, hp])
  | move turn cue next handles =>
    rcases handles.pending hp with same | ⟨o, rfl⟩
    · exact .inl same
    · exact .inr ⟨_, o, _, turn, cue⟩
  | write => exact .inl hp
  | place => exact .inl hp
  | empty empties store downloads => exact .inl (by rw [downloads, hp])

/-- The downloads are up to date with the store. -/
def Current (h : Host) : Prop := h.workspace.downloads.generation = h.workspace.store.generation

/-- Callers leave it to fetches to load what is missing. -/
def Label.Indirect (l : Label) : Prop := ∀ p, ¬ l.Sends (.load p)

/-- A task is sent to load a path by a fetch that does not find the path anywhere. -/
theorem Step.loads (hr : u.Runs ls h) (hs : Step h l k) (indirect : l.Indirect)
    (hk : k.Pursues (.load p) i) :
    h.Pursues (.load p) i ∨
      (∃ t x a ss, h.turn = some t ∧ h.cue? t = some (.begin (.fetch x a), ss) ∧
        p = Path.normalize x) ∧
      p ∉ (h.workspace.downloads.sync h.workspace.store).fetched ∧
        h.workspace.downloads.pending.get? p = none ∧
          k.workspace.downloads.pending.get? p = some i ∧ k.Current := by
  rcases hs.pursues hr hk with old | ⟨t, q, ss, st, j, turn, cue, launches, workspace, job, rfl⟩ |
    sends
  · exact .inl old
  · obtain ⟨⟨x, a, rfl, same⟩, unknown, free, tended⟩ := (q.handles _ _).load launches job
    have after : k.workspace = _ := workspace.trans tended
    refine .inr ⟨⟨t, x, a, ss, turn, cue, same⟩, unknown, free, ?_, ?_⟩
    · simp [after, Downloads.started]
    · simp [Current, after, Downloads.started]
  · exact (indirect p sends).elim

/-- The list of the downloads on their way, the tasks that run them and the tasks that are to take
them off the list agree. -/
structure Booked (h : Host) : Prop where
  named : ∀ {p : String} {t : TaskId}, h.Pursues (.load p) t → Path.normalize p = p
  listed : ∀ {p : String} {t : TaskId}, h.Pursues (.load p) t →
    h.workspace.downloads.pending.get? p = some t
  owned : ∀ {i : TaskId} {f : Focus} {p : String} {ss : List Stage},
    h.tasks[i]? = some ⟨f, .downloadOwned p :: ss⟩ →
      ∃ v, h.workspace.downloads.pending.get? p = some v ∧ h.Heeds v f
  alone : ∀ {i j : TaskId} {f g : Focus} {p : String} {ss rs : List Stage},
    h.tasks[i]? = some ⟨f, .downloadOwned p :: ss⟩ →
      h.tasks[j]? = some ⟨g, .downloadOwned p :: rs⟩ → i = j

namespace Booked

/-- Nobody runs a download any more that is taken off the list. -/
theorem settled (hb : h.Booked) (cue : h.cue? t = some (.told (.downloadOwned p) o, ss)) :
    ¬ h.Pursues (.load p) i := by
  intro pursues
  -- Whoever is on the list has ended, as its owner was told so.
  obtain ⟨v, listed, heeds⟩ := hb.owned (cue?_eq_told.1 cue)
  obtain rfl := Option.some.inj (listed.symm.trans (hb.listed pursues))
  obtain waits | ⟨o, -, ended⟩ := heeds
  · cases waits
  · cases pursues.outcome?.symm.trans ended

/-- Whoever is to take a download off the list was to do so before, or has just put it there. -/
theorem owner (hb : h.Booked) (hr : u.Runs ls h) (hs : Step h l k)
    (hi : k.tasks[i]? = some ⟨f, .downloadOwned p :: ss⟩) :
    (∃ g v, h.tasks[i]? = some ⟨g, .downloadOwned p :: ss⟩ ∧
      k.workspace.downloads.pending.get? p = some v ∧ k.Heeds v f) ∨
    h.turn = some i ∧ h.workspace.downloads.pending.get? p = none ∧
      ∃ v, k.workspace.downloads.pending.get? p = some v ∧ k.Heeds v f := by
  rcases hs.minder hr hi rfl with ⟨g, hg, rests, heeds⟩ | ⟨q, turn, cue, stage, workspace, moves⟩
  · left
    obtain ⟨v, listed, hv⟩ := hb.owned hg
    refine ⟨g, v, hg, ?_, heeds v hv⟩
    rcases hs.tends.pending listed with same | ⟨t, o, rest, turn, cue⟩
    · exact same
    · -- Only the one owner takes the path off the list, and this one makes no move.
      obtain rfl := hb.alone hg (cue?_eq_told.1 cue)
      cases (rests turn).symm.trans cue
  · right
    obtain ⟨free, ⟨j, launches⟩, listed⟩ := (q.handles _ _).owned stage
    refine ⟨turn, free, h.tasks.length, by rw [workspace]; exact listed, .inl ?_⟩
    rw [show (h.next q).2 = _ from launches] at moves
    exact (congrArg Task.focus moves).symm

theorem step (hb : h.Booked) (hr : u.Runs ls h) (hs : Step h l k) (indirect : l.Indirect) :
    k.Booked := by
  constructor
  · intro p i hk
    rcases hs.loads hr indirect hk with old | ⟨⟨t, x, a, ss, -, -, rfl⟩, -⟩
    · exact hb.named old
    · exact Path.normalize_normalize x
  · intro p i hk
    rcases hs.loads hr indirect hk with old | ⟨-, -, -, listed, -⟩
    · rcases hs.tends.pending (hb.listed old) with same | ⟨t, o, ss, -, cue⟩
      · exact same
      · exact (hb.settled cue old).elim
    · exact listed
  · intro i f p ss hi
    rcases hb.owner hr hs hi with ⟨g, v, -, owned⟩ | ⟨-, -, owned⟩
    · exact ⟨v, owned⟩
    · exact owned
  · intro i j f g p ss rs hi hj
    rcases hb.owner hr hs hi with ⟨g, v, gi, -⟩ | ⟨turn, free, -⟩ <;>
      rcases hb.owner hr hs hj with ⟨g', v', gj, -⟩ | ⟨turn', free', -⟩
    · exact hb.alone gi gj
    · obtain ⟨w, listed, -⟩ := hb.owned gi
      cases free'.symm.trans listed
    · obtain ⟨w, listed, -⟩ := hb.owned gj
      cases free.symm.trans listed
    · exact Option.some.inj (turn.symm.trans turn')

end Booked

theorem booked_of_runs (hr : u.Runs ls h) (indirect : ∀ l ∈ ls, l.Indirect) : h.Booked := by
  revert indirect
  refine Steps.forward (P := fun ls h => (∀ l ∈ ls, l.Indirect) → h.Booked) ?_ ?_ hr
  · intro _
    constructor <;> simp [Pursues, Setup.host]
  · intro ls k m l hk ih hs indirect
    rw [List.forall_mem_append] at indirect
    exact (ih indirect.1).step hk hs (indirect.2 l (by simp))

theorem Tends.current (ht : h.Tends l d) (spares : l.empties = false) (hc : h.Current) :
    d.downloads.generation = d.store.generation := by
  cases ht with
  | aside beside => rw [beside.downloads, beside.store, hc]
  | move turn cue next handles =>
    cases handles with
    | aside beside => rw [beside.downloads, beside.store, hc]
    | remembers => simp
    | finds => simp
    | joins => simp
    | loads => simp [Downloads.started]
    | places => exact (Downloads.generation_record ..).trans hc
    | _ => exact hc
  | write => exact hc
  | place => exact hc
  | empty empties => cases spares.symm.trans empties

/-- A path that was fetched stays so while nobody empties the store. -/
theorem Tends.fetched (ht : h.Tends l d) (hc : h.Current)
    (hp : p ∈ h.workspace.downloads.fetched) : p ∈ d.downloads.fetched := by
  have known : p ∈ (h.workspace.downloads.sync h.workspace.store).fetched := by
    rwa [show h.workspace.downloads.sync h.workspace.store = _ from if_pos hc]
  cases ht with
  | aside beside => rwa [beside.downloads]
  | move turn cue next handles =>
    cases handles with
    | aside beside => rwa [beside.downloads]
    | remembers => exact known
    | finds => exact Downloads.mem_record known
    | joins => exact known
    | loads => exact known
    | places => exact Downloads.mem_record hp
    | _ => exact hp
  | write => exact hp
  | place => exact hp
  | empty empties store downloads => rwa [downloads]

/-- A path was fetched and is not on its way again. -/
structure Has (h : Host) (p : String) : Prop where
  current : h.Current
  fetched : p ∈ h.workspace.downloads.fetched
  free : ∀ t, ¬ h.Pursues (.load p) t

/-- What was fetched is not fetched again while nobody empties the store. -/
theorem Has.step (hp : h.Has p) (hr : u.Runs ls h) (hs : Step h l k) (indirect : l.Indirect)
    (spares : l.empties = false) : k.Has p := by
  refine ⟨hs.tends.current spares hp.current, hs.tends.fetched hp.current hp.fetched, ?_⟩
  intro t pursues
  rcases hs.loads hr indirect pursues with old | ⟨-, unknown, -⟩
  · exact hp.free t old
  · rw [show h.workspace.downloads.sync h.workspace.store = _ from if_pos hp.current] at unknown
    exact unknown hp.fetched

/-- The task with the turn has just been told the files for a path. -/
structure Gets (h : Host) (p : String) (t : TaskId) : Prop where
  current : h.Current
  turn : h.turn = some t
  told : ∃ a fs, h.tasks[t]? = some ⟨.resume (.ok (.files fs)), [.downloaded p a]⟩

/-- Whoever gets the files for a path takes it down as fetched by its next move. -/
theorem Gets.step (hg : h.Gets p t) (hr : u.Runs ls h) (hb : h.Booked) (hs : Step h l k)
    (indirect : l.Indirect) (spares : l.empties = false) : k.Has p := by
  obtain ⟨a, fs, told⟩ := hg.told
  obtain ⟨-, workspace, moved⟩ := hs.went hg.turn (cue?_eq_told.2 told)
  obtain ⟨placed, goes⟩ := Work.downloaded_files p a fs h.workspace
  refine ⟨hs.tends.current spares hg.current, ?_, ?_⟩
  · rw [workspace.trans placed]
    exact Downloads.mem_record_self ..
  · intro i pursues
    -- The list has one task for the path, and that one is past its errand now.
    rcases hs.loads hr indirect pursues with old | ⟨⟨t', y, b, ss, turn', cue', -⟩, -⟩
    · obtain rfl : i = t := Option.some.inj
        ((hb.listed old).symm.trans (hb.listed ⟨_, told, .told rfl⟩))
      obtain ⟨y, hy, pursues⟩ := pursues
      have past := Option.some.inj (hy.symm.trans moved)
      rcases goes with hm | ⟨q, hm⟩
      · obtain rfl := past.trans (congrArg (h.moved []) hm)
        cases pursues
      · obtain rfl := past.trans (congrArg (h.moved []) hm)
        cases pursues
    · obtain rfl := Option.some.inj (turn'.symm.trans hg.turn)
      cases cue'.symm.trans (cue?_eq_told.2 told)

/-- While nobody empties the store, whoever loads a path began to do so for the files that are there
now, if nobody loaded anything at first. -/
theorem Steps.current (hm : u.Runs ls m) (hk : Steps m rs h) (indirect : ∀ l ∈ rs, l.Indirect)
    (spares : ∀ l ∈ rs, l.empties = false) (free : ∀ t p, ¬ m.Pursues (.load p) t)
    (pursues : h.Pursues (.load p) t) : h.Current := by
  revert indirect spares
  suffices stays : (∀ l ∈ rs, l.Indirect) → (∀ l ∈ rs, l.empties = false) →
      ∀ t p, h.Pursues (.load p) t → h.Current from
    fun indirect spares => stays indirect spares t p pursues
  refine Steps.forward (P := fun rs h => (∀ l ∈ rs, l.Indirect) → (∀ l ∈ rs, l.empties = false) →
    ∀ t p, h.Pursues (.load p) t → h.Current) (fun _ _ t p hp => (free t p hp).elim) ?_ hk
  -- A load that began before the last step was current then; a new one is so by its fetch.
  intro rs g k l hg ih hs indirect spares t p pursues
  rw [List.forall_mem_append] at indirect spares
  rcases hs.loads (hm.trans hg) (indirect.2 l (by simp)) pursues with old | ⟨-, -, -, -, current⟩
  · exact hs.tends.current (spares.2 l (by simp)) (ih indirect.1 spares.1 t p old)
  · exact current

/-- What a task got by its turn is fetched from the next step on, while nobody empties the store. -/
theorem Steps.has (hm : u.Runs ls m) (hk : Steps m rs h) (indirect : ∀ l ∈ ls ++ rs, l.Indirect)
    (spares : ∀ l ∈ rs, l.empties = false) (gets : m.Gets p t) : rs = [] ∨ h.Has p := by
  revert indirect spares
  suffices stays : (∀ l ∈ ls ++ rs, l.Indirect) → (∀ l ∈ rs, l.empties = false) →
      rs = [] ∧ h.Gets p t ∨ h.Has p from
    fun indirect spares => (stays indirect spares).imp_left And.left
  refine Steps.forward (P := fun rs h => (∀ l ∈ ls ++ rs, l.Indirect) →
    (∀ l ∈ rs, l.empties = false) → rs = [] ∧ h.Gets p t ∨ h.Has p)
    (fun _ _ => .inl ⟨rfl, gets⟩) ?_ hk
  intro rs g k l hg ih hs indirect spares
  rw [← List.append_assoc, List.forall_mem_append] at indirect
  rw [List.forall_mem_append] at spares
  have run := hm.trans hg
  right
  rcases ih indirect.1 spares.1 with ⟨-, gets⟩ | has
  · exact gets.step run (booked_of_runs run indirect.1) hs (indirect.2 l (by simp))
      (spares.2 l (by simp))
  · exact has.step run hs (indirect.2 l (by simp)) (spares.2 l (by simp))

/-- Steps can be told apart at every label. -/
theorem Steps.split {xs ys : List Label} (hk : Steps m (xs ++ l :: ys) h) :
    ∃ g g', Steps m xs g ∧ Step g l g' ∧ Steps g' ys h := by
  induction xs generalizing m with
  | nil =>
    cases hk with
    | cons first rest => exact ⟨m, _, .refl, first, rest⟩
  | cons x xs ih =>
    cases hk with
    | cons first rest =>
      obtain ⟨g, g', hg, step, hh⟩ := ih rest
      exact ⟨g, g', .cons first hg, step, hh⟩

/-- Only a task that loads a path asks for it. -/
theorem Step.pursues_of_asked {q : String} {b : Json} (hr : u.Runs ls h)
    (hs : Step h (.asked t (.download q b)) k) : k.Pursues (.load q) t := by
  obtain ⟨cue, ss, st, -, -, -, asking⟩ := hs.asked
  exact pursues_of_query? (hr.snoc hs) (query?_eq asking) rfl

/-- Whoever is told the files for the path that it loads gets them. -/
theorem Step.gets {a : Json} {fs : Files} (hr : u.Runs ls h)
    (hs : Step h (.answered t (.download p a) (.ok (.files fs))) k) (current : h.Current) :
    k.Gets p t := by
  obtain ⟨roots, hf⟩ := fits_of_runs hr
  refine ⟨hs.tends.current rfl current, hs.turn_answered, ?_⟩
  cases hs with
  | answer turn asked admits =>
    obtain ⟨ss, ht⟩ := tasks_of_query? asked
    obtain ⟨w, hw, pursues⟩ := hf.pursues_of_asking ht rfl
    obtain rfl := Option.some.inj (ht.symm.trans hw)
    cases pursues with
    | @asking st q stage query =>
      cases st with
      | downloaded x b =>
        cases stage
        refine ⟨b, fs, ?_⟩
        rw [Host.answer, ht]
        exact List.getElem?_set_self (List.getElem?_eq_some_iff.1 ht).1
      | _ => cases stage

/-- A path whose files have come is not asked for again while nobody empties the store. -/
theorem Steps.not_asked {xs ys : List Label} {a b : Json} {fs : Files} {q : String}
    (hm : u.Runs ls m) (hk : Steps m (xs ++ .answered t (.download p a) (.ok (.files fs)) :: ys) h)
    (indirect : ∀ l ∈ ls ++ (xs ++ .answered t (.download p a) (.ok (.files fs)) :: ys), l.Indirect)
    (spares : ∀ l ∈ xs ++ .answered t (.download p a) (.ok (.files fs)) :: ys,
      l.empties = false)
    (free : ∀ t p, ¬ m.Pursues (.load p) t) (same : Path.normalize q = Path.normalize p) :
    .asked v (.download q b) ∉ ys := by
  intro asks
  obtain ⟨ws, zs, rfl⟩ := List.append_of_mem asks
  obtain ⟨g, g', hg, answered, rest⟩ := hk.split
  obtain ⟨n, n', hn, asked, -⟩ := rest.split
  simp only [List.forall_mem_append, List.forall_mem_cons] at indirect spares
  obtain ⟨before, first, tells, between, puts, -⟩ := indirect
  obtain ⟨sparesX, -, sparesW, sparesQ, -⟩ := spares
  have run := hm.trans hg
  have until_told : ∀ l ∈ ls ++ xs, l.Indirect := List.forall_mem_append.2 ⟨before, first⟩
  have whole : ∀ l ∈ ls ++ xs ++ [.answered t (.download p a) (.ok (.files fs))] ++
      (ws ++ [.asked v (.download q b)]), l.Indirect := by
    simp only [List.forall_mem_append, List.forall_mem_singleton]
    exact ⟨⟨⟨before, first⟩, tells⟩, between, puts⟩
  -- The files are got upon the answer, so the path is not on its way when it is asked for.
  have loading : g.Pursues (.load p) t := by
    cases answered with
    | answer turn asked => exact pursues_of_query? run asked rfl
  have gets := answered.gets run (hg.current hm first sparesX free loading)
  have has : n'.Has p := by
    have spared := List.forall_mem_append.2 ⟨sparesW, List.forall_mem_singleton.2 sparesQ⟩
    exact ((hn.snoc asked).has (run.snoc answered) whole spared gets).resolve_left (by simp)
  have asking := asked.pursues_of_asked (run.trans (.cons answered hn))
  have named : Path.normalize q = q :=
    (booked_of_runs ((run.snoc answered).trans (hn.snoc asked)) whole).named asking
  obtain rfl : q = p :=
    named.symm.trans (same.trans ((booked_of_runs run until_told).named loading))
  exact has.free v asking

/-- A task shares in what comes of another one, beneath which `ss` wait. -/
def Shares (h : Host) (t v : TaskId) (ss : List Stage) : Prop :=
  ∃ f, h.tasks[t]? = some ⟨f, .passOn :: ss⟩ ∧ h.Heeds v f

/-- At some moment of the steps from a host a task went on with what another one had ended with. -/
def Returns (m : Host) (rs : List Label) (t v : TaskId) (ss : List Stage) : Prop :=
  ∃ xs ys g o, rs = xs ++ ys ∧ Steps m xs g ∧ g.tasks[t]? = some ⟨.resume o, ss⟩ ∧
    g.outcome? v = some o

/-- A task that awaits another one to pass its outcome on shares in it. -/
theorem Step.shares_of_await {q : Cue} (hs : Step m l k) (turn : m.turn = some t)
    (cue : m.cue? t = some (q, ss)) (awaits : (m.next q).2 = .await .passOn v) :
    k.Shares t v ss := by
  obtain ⟨-, -, goes⟩ := hs.went turn cue
  rw [awaits] at goes
  generalize hx : m.moved ss (.await .passOn v) = x at goes
  obtain ⟨f, stages⟩ := x
  obtain rfl : stages = .passOn :: ss := (congrArg Task.stages hx).symm.trans (stages_moved rfl)
  exact ⟨f, goes, hs.heeds_kept (.of_await hx)⟩

/-- A fetch that finds its path on its way shares in the download of it. -/
theorem Step.shares {a : Json} (hs : Step m l k) (turn : m.turn = some t)
    (cue : m.cue? t = some (.begin (.fetch p a), ss)) (joins : m.workspace.joins? p = some v) :
    k.Shares t v ss :=
  hs.shares_of_await turn cue (congrArg Prod.snd (Work.fetch_of_joins? joins))

/-- A task that heeds another one, at a stage that passes every outcome on, does so until it returns
what that one ended with. -/
theorem Steps.heeds (passes : ∀ o c, (st.resume o c).2 = .finish o) (hs : Step m l k)
    (hk : Steps k rs h) (heeds : ∃ f, k.tasks[t]? = some ⟨f, st :: ss⟩ ∧ k.Heeds v f) :
    (∃ f, h.tasks[t]? = some ⟨f, st :: ss⟩ ∧ h.Heeds v f) ∨
      ∃ xs ys g o, l :: rs = xs ++ ys ∧ Steps m xs g ∧ g.tasks[t]? = some ⟨.resume o, ss⟩ ∧
        g.outcome? v = some o ∧ h.outcome? v = some o := by
  refine Steps.forward (P := fun rs h => (∃ f, h.tasks[t]? = some ⟨f, st :: ss⟩ ∧ h.Heeds v f) ∨
    ∃ xs ys g o, l :: rs = xs ++ ys ∧ Steps m xs g ∧ g.tasks[t]? = some ⟨.resume o, ss⟩ ∧
      g.outcome? v = some o ∧ h.outcome? v = some o) (.inl heeds) ?_ hk
  rintro rs g n r hg (⟨f, hf, heeds⟩ | ⟨xs, ys, w, o, labels, hw, task, ended, still⟩) hn
  · rcases hn.heeds hf heeds with stays | ⟨o, ended, goes⟩
    · exact .inl stays
    · have returned : n.tasks[t]? = some ⟨.resume o, ss⟩ := by
        rw [goes, show (g.next (.told st o)).2 = .finish o from passes o g.workspace]
        rfl
      exact .inr ⟨l :: (rs ++ [r]), [], n, o, by simp, .cons hs (hg.snoc hn), returned,
        hn.ended ended, hn.ended ended⟩
  · exact .inr ⟨xs, ys ++ [r], w, o, by rw [← List.cons_append, labels, List.append_assoc], hw, task,
      ended, hn.ended still⟩

/-- Whoever shares in a task goes on doing so until it returns what that one ended with. -/
theorem Steps.returns (hs : Step m l k) (hk : Steps k rs h) (shares : k.Shares t v ss) :
    h.Shares t v ss ∨ m.Returns (l :: rs) t v ss :=
  (Steps.heeds (fun _ _ => rfl) hs hk shares).imp_right
    fun ⟨xs, ys, g, o, labels, hg, task, ended, _⟩ => ⟨xs, ys, g, o, labels, hg, task, ended⟩

theorem Shares.unended (hs : h.Shares t v ss) : h.outcome? t = none := by
  obtain ⟨f, hf, heeds⟩ := hs
  rw [outcome?_eq hf]
  cases f <;> rfl

/-- In a run that has come to rest every task has ended. -/
theorem Rests.ended (rests : h.Rests) (hr : u.Runs ls h) (ht : t < h.tasks.length) :
    ∃ o, h.outcome? t = some o := by
  obtain ⟨roots, hf⟩ := fits_of_runs hr
  obtain ⟨root, hroot, -⟩ := hf.tasks (List.getElem?_eq_getElem ht)
  exact rests.idle.ended (awake_of_runs hr) hf hroot

/-- A task that is about to share in another one does so until it returns what that one ended with,
at the latest when nothing is left to be done. -/
theorem Steps.shared (hm : u.Runs ls m) (hk : Steps m rs h) (turn : m.turn = some t)
    (shares : ∀ {l : Label} {k : Host}, Step m l k → k.Shares t v ss) :
    (rs ≠ [] → h.Shares t v ss ∨ m.Returns rs t v ss) ∧ (h.Rests → m.Returns rs t v ss) := by
  have goes (some : rs ≠ []) : h.Shares t v ss ∨ m.Returns rs t v ss := by
    cases hk with
    | refl => exact (some rfl).elim
    | cons first rest => exact rest.returns first (shares first)
  refine ⟨goes, fun rests => ?_⟩
  have some : rs ≠ [] := by
    rintro rfl
    cases hk
    cases rests.idle.turn.symm.trans turn
  apply (goes some).resolve_left
  intro shares
  obtain ⟨f, hf, -⟩ := id shares
  obtain ⟨o, ended⟩ := rests.ended (hm.trans hk) (List.getElem?_eq_some_iff.1 hf).1
  cases shares.unended.symm.trans ended

/-- Downloads are shared, however calls, downloads, metadata that is fetched along with them and
resets follow one another. At no moment are two questions for one path without an answer. While
nobody empties the store, no path is asked for again whose files have come, if at first no download
was on its way; a download is on its way from when its task is launched until its files come. And a
fetch that finds a download of its path on its way returns with exactly what that one ends with, at
the latest when nothing is left to be done. -/
theorem downloads_shared (hm : u.Runs ls m) (hk : Steps m rs h)
    (indirect : ∀ l ∈ ls ++ rs, l.Indirect) :
    (∀ t v p q a b, h.query? t = some (.download p a) → h.query? v = some (.download q b) →
      Path.normalize p = Path.normalize q → t = v) ∧
    ((∀ l ∈ rs, l.empties = false) → (∀ t p, ¬ m.Pursues (.load p) t) →
      ∀ xs ys t p a fs, rs = xs ++ .answered t (.download p a) (.ok (.files fs)) :: ys →
        ∀ v q b, Path.normalize q = Path.normalize p → .asked v (.download q b) ∉ ys) ∧
    (∀ t p a ss v, m.turn = some t → m.cue? t = some (.begin (.fetch p a), ss) →
      m.workspace.joins? p = some v →
        (rs ≠ [] → h.Shares t v ss ∨ m.Returns rs t v ss) ∧
          (h.Rests → m.Returns rs t v ss)) := by
  have run := hm.trans hk
  refine ⟨?_, ?_, ?_⟩
  · intro t v p q a b ht hv same
    have booked := booked_of_runs run indirect
    have asks := pursues_of_query? run ht rfl
    have asks' := pursues_of_query? run hv rfl
    obtain rfl : p = q := (booked.named asks).symm.trans (same.trans (booked.named asks'))
    exact Option.some.inj ((booked.listed asks).symm.trans (booked.listed asks'))
  · intro spares free xs ys t p a fs labels v q b same
    subst labels
    exact hk.not_asked hm indirect spares free same
  · intro t p a ss v turn cue joins
    exact hk.shared hm turn fun first => first.shares turn cue joins

end Host

/-- Whether a download of a path brings files. -/
def Host.Label.brings (path : String) : Host.Label → Bool
  | .answered _ (.download p _) (.ok (.files _)) => p = path
  | _ => false

/-- Two fetches of a package that is fetched with its metadata. -/
theorem downloads_shared_package :
    ∃ ls m rs h, Setup.bare.Runs ls m ∧ Host.Steps m rs h ∧ (∀ l ∈ ls ++ rs, l.Indirect) ∧
      (∀ xs ys t p a fs, ls ++ rs = xs ++ .answered t (.download p a) (.ok (.files fs)) :: ys →
        ∀ v q b, Path.normalize q = Path.normalize p → .asked v (.download q b) ∉ ys) ∧
      (ls ++ rs).any (Host.Label.brings "/n/p") = true ∧ m.turn = some 1 ∧
      m.cue? 1 = some (.begin (.fetch "/n/p" .null), []) ∧ m.workspace.joins? "/n/p" = some 2 ∧
      h.Rests ∧ m.Returns rs 1 2 [] := by
  let js : List Job := [.fetch "/n/p" .null, .fetch "/n/p" .null]
  let w : World Unit := .steady Query.package
  let m : Host := ((Setup.bare.host.start js).run w 3 ()).1
  have hm : Setup.bare.Runs (Setup.bare.labels w js 3 ()) m :=
    Setup.bare.runs_run World.package_admits js 3 ()
  have hk : Host.Steps m (Host.labels w 40 m ()) (m.run w 40 ()).1 :=
    Host.steps_run World.package_admits 40 m ()
  have idle : (m.run w 40 ()).1.Idle := by decide +kernel
  have turn : m.turn = some 1 := by decide +kernel
  have joins : m.workspace.joins? "/n/p" = some 2 := by decide +kernel
  have cue : m.cue? 1 = some (.begin (.fetch "/n/p" .null), []) := Host.cue?_eq_begin.2 rfl
  have brings : (Setup.bare.labels w js 3 () ++ Host.labels w 40 m ()).any
      (Host.Label.brings "/n/p") = true := by decide +kernel
  have started : Host.Label.Indirect (.started js) := by
    intro p
    simp [Host.Label.Sends, js, Job.errand?]
  have indirect : ∀ l ∈ Setup.bare.labels w js 3 () ++ Host.labels w 40 m (), l.Indirect := by
    simp only [Setup.labels, List.forall_mem_append, List.forall_mem_cons]
    refine ⟨⟨started, ?_⟩, ?_⟩ <;> intro l hl <;>
      exact fun p => (Host.internal_labels _ _ _ _ l hl).sends
  have spares : ∀ l ∈ Setup.bare.labels w js 3 () ++ Host.labels w 40 m (), l.empties = false := by
    simp only [Setup.labels, List.forall_mem_append, List.forall_mem_cons]
    refine ⟨⟨rfl, ?_⟩, ?_⟩ <;> intro l hl <;>
      exact (Host.internal_labels _ _ _ _ l hl).spares
  have free (t : TaskId) (p : String) : ¬ Setup.bare.host.Pursues (.load p) t := by
    simp [Host.Pursues, Setup.host]
  have whole := Host.downloads_shared .refl (Host.Steps.trans hm hk) indirect
  have shared := (Host.downloads_shared hm hk indirect).2.2 1 _ _ _ _ turn cue joins
  exact ⟨_, m, _, _, hm, hk, indirect, whole.2.1 spares free, brings, turn, cue, joins, idle.rests,
    shared.2 idle.rests⟩

end PluginHost
