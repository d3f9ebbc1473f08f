import Mathlib.Algebra.Order.BigOperators.Group.List
import Mathlib.Algebra.Order.Ring.Nat
import Mathlib.Order.WellFounded
import PluginHost.Proofs.Fetching.Overwriting
import PluginHost.Proofs.Host.Counting
import PluginHost.Proofs.Host.Endings

/-!
What a fetch asks of the remote, and whom it waits for. A fetch has its path downloaded, then the
metadata of the package, then at most once more metadata on account of that. Tasks wait only for
tasks whose jobs rank below their own, so nobody waits for itself by way of others, and whoever
waits is kept from going on by a task that can go on or by a collaborator.
-/
namespace PluginHost

variable {s : Settings} {E : Expectation} {roots : List Job} {owner : Job} {u : Setup}

/-- How many questions for files of the remote jobs and stages may still put, with those of the
tasks that they start. -/
def Settings.calls (s : Settings) : Gauge where
  job _
    | .fetch p _ => s.turns (Path.normalize p) + 1
    | .download p _ => s.turns p + 1
    | _ => 0
  stage _
    | .downloaded p _ => s.turns p
    | _ => 0

def Job.Fetching : Job → Prop
  | .fetch .. | .download .. => True
  | _ => False

/-- Fetches and downloads start and await nothing else. -/
theorem Job.closed_fetching : Host.Closed s Job.Fetching := by
  intro owner st src fetching awaits i hi
  cases awaits with
  | downloaded => cases hi
  | downloadJoined | downloadOwned | metadataTried => exact List.mem_singleton.1 hi ▸ trivial
  | _ => exact fetching.elim

theorem Settings.calls_fetch_le (s : Settings) (b : Bool) (p : String) (a : Json) :
    s.calls.job b (.fetch p a) ≤ 3 := by
  have settled : s.turns (Path.normalize p) = Downloads.turns (Path.normalize s.packagesRoot) 2
      (Path.normalize p) := Downloads.turns_add_two (Path.normalize_normalize p) 1
  have := Downloads.turns_le (Path.normalize s.packagesRoot) 2 (Path.normalize p)
  simp only [calls, settled]
  omega

/-- Whether files of the remote are asked for. -/
def Host.Label.asksRemote : Host.Label → Bool
  | .asked _ (.download ..) => true
  | _ => false

/-- A fetch, or a download, puts no more questions than it is granted. -/
theorem Cue.For.calls {q : Cue} {fresh : TaskId} {c : Workspace} (hq : q.For s E owner)
    (fetching : owner.Fetching) (suits : (q.move fresh c).2.Suits s roots owner) (t : TaskId)
    (b : Bool) :
    (if ((q.move fresh c).2.label t).asksRemote then 1 else 0) + s.calls.move b (q.move fresh c).2 +
      ((q.move fresh c).2.jobs.map (s.calls.job b)).sum ≤ s.calls.cue b q := by
  have ended {o : Outcome} (ends : (q.move fresh c).2 = .finish o) :
      (if ((q.move fresh c).2.label t).asksRemote then 1 else 0) +
        s.calls.move b (q.move fresh c).2 + ((q.move fresh c).2.jobs.map (s.calls.job b)).sum ≤
          s.calls.cue b q := by
    rw [ends]
    exact Nat.zero_le _
  cases hq with
  | begin =>
    cases owner with
    | fetch p a =>
      generalize (Cue.move fresh c (.begin (.fetch p a))).2 = m at suits
      cases m with
      | finish o => exact Nat.zero_le _
      | call st j => cases suits
      | await st v =>
        obtain ⟨j, -, awaits⟩ := suits
        cases awaits <;> exact Nat.zero_le _
      | launch st j =>
        cases suits <;>
          simp [Move.label, Host.Label.asksRemote, Gauge.move, Settings.calls, Move.jobs, Gauge.cue]
      | gather st js => cases suits
      | ask st r => cases suits
    | download p a =>
      simp only [Cue.move, Job.begin, Work.download, Move.label, Host.Label.asksRemote, Gauge.move,
        Settings.calls, Move.jobs, Gauge.cue, if_true, List.map_nil, List.sum_nil]
      omega
    | _ => exact fetching.elim
  | @told st o owner src awaits gives =>
    cases awaits with
    | downloadJoined | downloadOwned => exact ended rfl
    | metadataTried =>
      obtain ⟨r, ends⟩ := Work.metadataTried_ends o c
      exact ended ends
    | @downloaded p a =>
      obtain ⟨r, ends⟩ | ⟨metadata, goes⟩ := Work.downloaded_goes p a o c
      · exact ended ends
      · have moves : (Cue.move fresh c (.told (.downloaded p a) o)).2 =
            .call .metadataTried (.fetch metadata a) := goes
        rw [moves] at suits ⊢
        cases suits with
        | metadataTried owned apart =>
          have fewer : s.turns (Path.normalize metadata) < s.turns p :=
            Downloads.turns_lt owned apart
          simp only [Move.label, Host.Label.asksRemote, Gauge.move, Settings.calls, Move.jobs,
            Gauge.cue, List.map_nil, List.sum_nil, Bool.false_eq_true, if_false]
          omega
    | _ => exact fetching.elim

namespace Host

variable {h k m : Host} {t v : TaskId} {l : Label} {ls rs : List Label} {g : Gauge} {b : Bool}
  {ss : List Stage} {x : Task}

/-- What all tasks together may still do. -/
def gauge (h : Host) (g : Gauge) (b : Bool) : Nat := (h.tasks.map (g.task b)).sum

theorem gauge_begun (g : Gauge) (b : Bool) (js : List Job) :
    ((js.map fun j => (⟨.begin j, []⟩ : Task)).map (g.task b)).sum = (js.map (g.job b)).sum := by
  rw [List.map_map]
  exact congrArg List.sum (List.map_congr_left fun j _ => Nat.add_zero _)

/-- What a move changes of what all tasks together may do. -/
theorem gauge_move {q : Cue} (cue : h.cue? t = some (q, ss)) (m : Move)
    (tasks : k.tasks = (h.move t ss m).1.tasks) :
    k.gauge g b + g.cue b q = h.gauge g b + g.move b m + (m.jobs.map (g.job b)).sum := by
  obtain ⟨x, hx⟩ : ∃ x, h.tasks[t]? = some x := ⟨_, List.getElem?_eq_getElem (lt_of_cue? cue)⟩
  have grown : (h.tasks ++ m.jobs.map fun j => (⟨.begin j, []⟩ : Task))[t]? = some x := by
    rw [List.getElem?_append_left (List.getElem?_eq_some_iff.1 hx).1, hx]
  have replaced := sum_map_set (g.task b) (h.moved ss m) grown
  have own : g.task b x = g.cue b q + (ss.map (g.stage b)).sum := by
    cases q with
    | begin j =>
      obtain rfl := Option.some.inj ((cue?_eq_begin.1 cue).symm.trans hx)
      rfl
    | told st o =>
      obtain rfl := Option.some.inj ((cue?_eq_told.1 cue).symm.trans hx)
      simp [Gauge.task, Gauge.focus, Gauge.cue]
  rw [← tasks_of_move, ← tasks, List.map_append, List.sum_append, gauge_begun, Gauge.task_moved,
    own] at replaced
  unfold gauge
  omega

theorem gauge_hear (vs : List Task) (t : TaskId) (o : Outcome) :
    ((vs.map (Task.hear t o)).map (g.task b)).sum ≤ (vs.map (g.task b)).sum := by
  rw [List.map_map]
  exact List.sum_le_sum fun v _ => Gauge.task_hear

/-- The jobs that callers start. -/
def Label.begins : Label → List Job
  | .started js => js
  | _ => []

theorem Label.Internal.begins (hl : l.Internal) : l.begins = [] := by
  cases l with
  | started js => exact hl.elim
  | _ => rfl

/-- While nothing is at work but fetches, a step that asks for files of the remote leaves one
question less to be put, and each fetch that callers start brings three at most. -/
theorem Only.calls_step (ho : h.Only u Job.Fetching roots) (hr : u.Runs ls h) (hs : Step h l k)
    (fetches : ∀ j ∈ l.begins, ∃ p a, j = .fetch p a) :
    (if l.asksRemote then 1 else 0) + k.gauge u.settings.calls true ≤
      h.gauge u.settings.calls true + 3 * l.begins.length := by
  cases hs.effect with
  | quiet still silent workspace tasks =>
    have quiet : l.asksRemote = false := by
      cases l with
      | asked t q => exact silent.elim
      | _ => rfl
    rw [quiet, gauge, gauge, tasks]
    simp
  | @move t q ss k turn cue workspace tasks =>
    have hE := Expectation.wellFormed_met u
    obtain ⟨root, owner, root', frames, hq⟩ := ho.fits.cue cue
    have fetching := Job.closed_fetching.frames frames (ho.live root' (outcome?_of_cue? cue))
    have paid := hq.calls fetching (ho.fits.suits hE.toFormed (from_of_runs hr) hq) t true
    have whole := gauge_move (g := u.settings.calls) (b := true) cue _ tasks
    rw [next] at whole ⊢
    omega
  | @announce t o k turn ended workspace tasks =>
    have heard := gauge_hear (g := u.settings.calls) (b := true) h.tasks t o
    rw [← tasks] at heard
    exact Nat.le_trans (Nat.le_of_eq (Nat.zero_add _)) (Nat.le_trans heard (Nat.le_add_right ..))
  | @answer t q o ss k turn asked admits workspace tasks =>
    have told := sum_map_set (u.settings.calls.task true) ⟨.resume o, ss⟩ asked
    have same : u.settings.calls.task true ⟨.resume o, ss⟩ =
        u.settings.calls.task true ⟨.asking q, ss⟩ := rfl
    rw [← tasks, same] at told
    simp only [Label.asksRemote, Label.begins, gauge]
    simp only [Bool.false_eq_true, if_false, List.length_nil]
    omega
  | @start js k idle workspace tasks =>
    have few : (js.map (u.settings.calls.job true)).sum ≤ 3 * js.length := by
      have each : ∀ n ∈ js.map (u.settings.calls.job true), n ≤ 3 := by
        intro n hn
        obtain ⟨j, hj, rfl⟩ := List.mem_map.1 hn
        obtain ⟨p, a, rfl⟩ := fetches j hj
        exact u.settings.calls_fetch_le true p a
      simpa [Nat.mul_comm] using List.sum_le_card_nsmul _ 3 each
    rw [gauge, tasks, List.map_append, List.sum_append, gauge_begun]
    simp only [Label.asksRemote, Label.begins, gauge]
    simp only [Bool.false_eq_true, if_false]
    omega
  | change idle workspace tasks =>
    rw [gauge, gauge, tasks]
    exact Nat.le_of_eq (Nat.zero_add _)

theorem Steps.calls_le (hm : u.Runs ls m) (ho : m.Only u Job.Fetching roots) (hk : Steps m rs h)
    (fetches : ∀ l ∈ rs, ∀ j ∈ l.begins, ∃ p a, j = .fetch p a) :
    rs.countP Label.asksRemote ≤
      m.gauge u.settings.calls true + 3 * (rs.flatMap Label.begins).length := by
  induction hk generalizing ls roots with
  | refl => exact Nat.zero_le _
  | @cons m g h l rs first rest ih =>
    obtain ⟨starts, others⟩ := List.forall_mem_cons.1 fetches
    obtain ⟨js, -, next⟩ := ho.grows Job.closed_fetching hm first fun js hl j hj => by
      subst hl
      obtain ⟨p, a, rfl⟩ := starts j hj
      trivial
    have now := ho.calls_step hm first starts
    have later := ih (hm.snoc first) next others
    rw [List.countP_cons, List.flatMap_cons, List.length_append]
    omega

/-- Whether a task waits for the end of another one. A download waits for that of the metadata if it
is on its way, since it is the task of the download that runs the fetch of the metadata. -/
def Waits (h : Host) (t v : TaskId) : Prop := ∃ x, h.tasks[t]? = some x ∧ x.Expects v

/-- The waiting goes down in rank. -/
theorem Fits.wellFounded_waits (hf : h.Fits s E roots) : WellFounded fun v t => h.Waits t v := by
  refine Subrelation.wf (r := InvImage (· < ·) fun t => (roots[t]?.map (Job.rank s)).getD 0) ?_
    (InvImage.wf _ Nat.lt_wfRel.wf)
  rintro v t ⟨x, hx, expects⟩
  have there : v < roots.length := hf.length ▸ hf.lt_of_expects hx expects
  obtain ⟨root, hr, lt⟩ := hf.rank_lt_of_expects hx expects (List.getElem?_eq_getElem there)
  simpa [InvImage, hr, there] using lt

/-- A task that can go on, or a collaborator owes it an answer. -/
def Goes (h : Host) (t : TaskId) : Prop := t ∈ h.ready ∨ h.turn = some t ∨ ∃ q, h.query? t = some q

/-- Behind a task that has not ended there is one that goes on. -/
theorem Fits.goes (hf : h.Fits s E roots) (hw : h.Awake) (hx : h.tasks[t]? = some x)
    (unended : x.outcome? = none) : ∃ v, Relation.ReflTransGen h.Waits t v ∧ h.Goes v := by
  induction t using hf.wellFounded_waits.induction generalizing x with
  | _ t ih =>
    have behind {w : TaskId} (waits : h.Waits t w) (owes : h.Owes w) :
        ∃ v, Relation.ReflTransGen h.Waits t v ∧ h.Goes v := by
      obtain none | now := owes
      · obtain ⟨y, hy, expects⟩ := waits
        obtain ⟨z, hz⟩ : ∃ z, h.tasks[w]? = some z :=
          ⟨_, List.getElem?_eq_getElem (hf.lt_of_expects hy expects)⟩
        obtain ⟨v, leads, goes⟩ := ih w ⟨y, hy, expects⟩ hz ((outcome?_eq hz).symm.trans none)
        exact ⟨v, .head ⟨y, hy, expects⟩ leads, goes⟩
      · exact ⟨w, .single waits, .inr (.inl now)⟩
    cases hw.alert hx with
    | able next => exact ⟨t, .refl, next.imp_right .inl⟩
    | ended outcome => cases unended.symm.trans outcome
    | asking => exact ⟨t, .refl, .inr (.inr ⟨_, query?_eq hx⟩)⟩
    | awaiting owes => exact behind ⟨_, hx, .inl rfl⟩ owes
    | @gathering us ss some owe =>
      obtain ⟨w, member⟩ := List.exists_mem_of_ne_nil us some
      exact behind ⟨_, hx, .inr ⟨us, rfl, member⟩⟩ (owe w member)

/-- However fetches, and all else that a host does, follow one another: no task waits for itself by
way of others, and behind each task that has not ended there is one that can go on or that a
collaborator owes an answer. Left to itself the host makes only as many steps as it has to spend,
apart from putting tasks back in line whose answers are still owed, and when nothing is left to be
done, everything has ended. If all has ended and callers start nothing but fetches from then on,
however many and whenever, files of the remote are asked for at most three times for each. -/
theorem fetching_bounded (hm : u.Runs ls m) :
    (∀ t, ¬ Relation.TransGen m.Waits t t) ∧
    (∀ t x, m.tasks[t]? = some x → x.outcome? = none →
      ∃ v, Relation.ReflTransGen m.Waits t v ∧ m.Goes v) ∧
    (∀ rs h, Steps m rs h → (∀ l ∈ rs, l.Internal) →
      rs.length + h.budget u.settings ≤
          m.budget u.settings + 3 * rs.countP Label.isRelease ∧
        (h.Rests → ∀ t < h.tasks.length, ∃ o, h.outcome? t = some o)) ∧
    ∀ rs h, Steps m rs h → (∀ t < m.tasks.length, ∃ o, m.outcome? t = some o) →
      (∀ l ∈ rs, ∀ j ∈ l.begins, ∃ p a, j = .fetch p a) →
        rs.countP Label.asksRemote ≤ 3 * (rs.flatMap Label.begins).length := by
  obtain ⟨roots, hf⟩ := fits_of_runs hm
  refine ⟨fun t cycle => ?_, fun t x hx unended => hf.goes (awake_of_runs hm) hx unended,
    fun rs h hk internal => ⟨length_le_budget hm hk internal, fun rests t lt =>
      rests.ended (hm.trans hk) lt⟩, fun rs h hk rest fetches => ?_⟩
  · have descends : Relation.TransGen (fun v t => m.Waits t v) t t := by
      simpa only [Relation.transGen_swap] using cycle.swap
    exact hf.wellFounded_waits.transGen.irrefl.irrefl t descends
  · have ended {t : TaskId} {x : Task} (hx : m.tasks[t]? = some x) : ∃ o, x = ⟨.resume o, []⟩ := by
      obtain ⟨o, ho⟩ := rest t (List.getElem?_eq_some_iff.1 hx).1
      exact ⟨o, Task.outcome?_eq_some.1 ((outcome?_eq hx).symm.trans ho)⟩
    have only : m.Only u Job.Fetching roots := by
      refine ⟨hf, fun {t j} hj unended => ?_⟩
      obtain ⟨o, ho⟩ := rest t (hf.length ▸ (List.getElem?_eq_some_iff.1 hj).1)
      cases unended.symm.trans ho
    have nothing : m.gauge u.settings.calls true = 0 := by
      rw [gauge, List.sum_eq_zero_iff]
      intro n hn
      obtain ⟨x, hx, rfl⟩ := List.mem_map.1 hn
      obtain ⟨t, ht⟩ := List.getElem?_of_mem hx
      obtain ⟨o, rfl⟩ := ended ht
      rfl
    have := hk.calls_le hm only fetches
    rwa [nothing, Nat.zero_add] at this

end Host

/-- A remote that answers every question with one file, which is no metadata. -/
def Query.monotonous : Query → Option Outcome
  | .download .. => some (.ok (.files (.ofList [("/a", [])])))
  | _ => none

theorem World.monotonous_admits : (World.steady Query.monotonous).Admits := by
  refine steady_admits fun q o h => ?_
  unfold Query.monotonous at h
  split at h <;> cases h
  trivial

/-- Settings under which packages lie at the top. -/
def Setup.top : Setup where
  settings := { Settings.default with packagesRoot := "/" }

/-- A host on which a lone scope is to be fetched, and what becomes of it. -/
def Setup.scopeBegun : Host := Setup.top.host.start [.fetch "/@" .null]

def Setup.scopeLabels : List Host.Label := Host.labels (.steady Query.monotonous) 28 scopeBegun ()

def Setup.scopeFetched : Host := (scopeBegun.run (.steady Query.monotonous) 28 ()).1

theorem Setup.steps_scopeBegun : Host.Steps scopeBegun scopeLabels scopeFetched :=
  Host.steps_run World.monotonous_admits 28 scopeBegun ()

theorem Setup.steps_scope :
    Host.Steps Setup.top.host (.started [.fetch "/@" .null] :: scopeLabels) scopeFetched :=
  .cons (.start rfl) steps_scopeBegun

theorem Setup.scope_ends : scopeFetched.Idle ∧ 0 < scopeFetched.tasks.length ∧
    scopeLabels.countP Host.Label.asksRemote = 3 := by
  decide +kernel

/-- A lone scope is asked for, and then twice metadata on account of it. -/
theorem fetching_bounded_scope :
    ∃ rs h, Host.Steps Setup.top.host (.started [.fetch "/@" .null] :: rs) h ∧
      (∀ l ∈ rs, l.Internal) ∧ h.Rests ∧ rs.countP Host.Label.asksRemote = 3 ∧
      (∃ o, h.outcome? 0 = some o) ∧ (∀ t, ¬ Relation.TransGen h.Waits t t) ∧
      (Host.Label.started [.fetch "/@" .null] :: rs).countP Host.Label.asksRemote ≤ 3 := by
  have started : Setup.top.Runs [.started [.fetch "/@" .null]] Setup.scopeBegun :=
    .cons (.start rfl) .refl
  have run : Setup.top.Runs _ Setup.scopeFetched := Setup.steps_scope
  have internal : ∀ l ∈ Setup.scopeLabels, l.Internal :=
    Host.internal_labels (.steady Query.monotonous) 28 Setup.scopeBegun ()
  obtain ⟨idle, there, calls⟩ := Setup.scope_ends
  have ends := ((Host.fetching_bounded started).2.2.1 _ _ Setup.steps_scopeBegun internal).2
    idle.rests 0 there
  have quiet : Setup.scopeLabels.flatMap Host.Label.begins = [] :=
    List.flatMap_eq_nil_iff.2 fun l hl => (internal l hl).begins
  have bounded := (Host.fetching_bounded (u := Setup.top) .refl).2.2.2 _ _ Setup.steps_scope
    (fun t lt => (Nat.not_lt_zero t lt).elim)
    (List.forall_mem_cons.2 ⟨fun j hj => ⟨_, _, List.mem_singleton.1 hj⟩, fun l hl j hj => by
      rw [(internal l hl).begins] at hj
      cases hj⟩)
  rw [List.flatMap_cons, quiet] at bounded
  exact ⟨_, _, Setup.steps_scope, internal, idle.rests, calls, ends, (Host.fetching_bounded run).1,
    bounded⟩

end PluginHost
