import PluginHost.Proofs.Fetching.Sharing
import PluginHost.Proofs.Host.Listings

/-!
Installations are shared. The list of installations on their way, the tasks that run them and the
tasks that are to take them off the list agree at every moment, so a module is never installed twice
at the same time, and whoever finds it on its way gets what comes of it.
-/
namespace PluginHost

variable {s : Settings} {E : Expectation} {roots : List Job} {root owner : Job} {st : Stage}
  {ss : List Stage} {src : Source} {w x : Wanted} {key : ModuleName} {fresh : TaskId}
  {c : Workspace} {o : Outcome}

/-- The installation that a stage belongs to. -/
def Stage.installs? : Stage → Option Wanted
  | .storeReady i | .named i | .fetched i _ | .evaluationMended i => some i.wanted
  | _ => none

/-- The installation that a task was started for, until it ends. -/
def Task.installs? (v : Task) : Option Wanted :=
  match v.stages.getLast?, v.focus with
  | some st, _ => st.installs?
  | none, .begin j => j.installs?
  | none, _ => none

theorem Stage.Awaits.installs? (ha : st.Awaits s owner src) : st.installs? = owner.installs? := by
  cases ha <;> rfl

/-- Whoever is to take an installation off the list waits for the task that runs it. -/
theorem Stage.Awaits.joined_of_owned (ha : (Stage.installOwned key).Awaits s owner src) :
    ∃ j, src = .joined j := by
  cases ha
  exact ⟨_, rfl⟩

namespace Job.Frames

/-- The last stage of a task belongs to the job that it was started for. -/
theorem installs?_last (hf : root.Frames s owner ss) (hst : ss.getLast? = some st) :
    st.installs? = root.installs? := by
  induction hf generalizing st with
  | root => cases hst
  | @under owner j st' ss outer awaits ih =>
    cases ss with
    | nil =>
      cases outer
      cases hst
      exact awaits.installs?
    | cons st'' ss => exact ih hst

/-- The stage at which a job waits in a task is the last one if the task was started for it. -/
theorem installs?_cons {f : Focus} (hf : root.Frames s owner ss) (ha : st.Awaits s owner src) :
    Task.installs? ⟨f, st :: ss⟩ = root.installs? := by
  cases ss with
  | nil =>
    cases hf
    exact ha.installs?
  | cons st' ss =>
    obtain ⟨last, hl⟩ : ∃ last, (st' :: ss).getLast? = some last :=
      ⟨_, List.getLast?_eq_some_getLast (List.cons_ne_nil st' ss)⟩
    rw [Task.installs?, show (st :: st' :: ss).getLast? = some last from hl]
    exact hf.installs?_last hl

end Job.Frames

/-- A task that has not ended runs an installation if it was started for it. -/
theorem Task.Fits.installs? {v : Task} (hv : v.Fits s E roots root) (unended : v.outcome? = none) :
    v.installs? = root.installs? := by
  cases hv with
  | @begin j ss frames =>
    cases ss with
    | nil =>
      cases frames
      rfl
    | cons st ss =>
      cases frames with
      | under outer awaits => exact outer.installs?_cons awaits
  | ended => cases unended
  | told frames awaits gives => exact frames.installs?_cons awaits
  | awaiting frames awaits job => exact frames.installs?_cons awaits
  | gathering frames awaits jobs => exact frames.installs?_cons awaits
  | asking frames awaits => exact frames.installs?_cons awaits

theorem Task.unended_of_installs? {v : Task} (hw : v.installs? = some w) : v.outcome? = none := by
  obtain ⟨focus, ss⟩ := v
  cases ss with
  | nil => cases focus <;> first | rfl | cases hw
  | cons st ss => cases focus <;> rfl

namespace Cue.Lists

variable {q : Cue} {r : Workspace × Move}

/-- Only an install that finds its module neither installed nor on its way starts an
installation. -/
theorem starts_installation {j : Job} (hr : q.Lists fresh c r) (hj : j ∈ r.2.jobs)
    (hw : j.installs? = some w) :
    q = .begin (.install w) ∧ c.inventory.find? w.kind w.name = none ∧
      c.installing.get? w.key = none ∧ r.2.jobs = [j] ∧
        r.1.installing = c.installing.insert w.key fresh := by
  cases hr with
  | aside level cue move => cases (move.jobs j hj).symm.trans hw
  | launches missing free =>
    obtain rfl := List.mem_singleton.1 hj
    cases hw
    exact ⟨rfl, missing, free, rfl, rfl⟩
  | proceeds cue move precedes jobs => exact (List.not_mem_nil (jobs ▸ hj)).elim
  | _ => cases hj

/-- Only the install that starts an installation is to take it off the list. -/
theorem owned (hr : q.Lists fresh c r) (stage : r.2.stage? = some (.installOwned key)) :
    c.installing.get? key = none ∧ (∃ j, r.2 = .launch (.installOwned key) j) ∧
      r.1.installing.get? key = some fresh := by
  cases hr with
  | aside level cue move => cases move.stage _ stage
  | launches missing free =>
    cases stage
    exact ⟨free, ⟨_, rfl⟩, by simp⟩
  | proceeds cue move => simp [Move.progress?, stage, Stage.progress?] at move
  | _ => cases stage

/-- An installation comes on the list when it is started, and goes off it when the task that is to
take it off does so. -/
theorem installing_cases (hr : q.Lists fresh c r) :
    r.1.installing = c.installing ∨
      (∃ w, q = .begin (.install w) ∧ c.installing.get? w.key = none ∧
        r.1.installing = c.installing.insert w.key fresh ∧
          r.2 = .launch (.installOwned w.key) (.installFresh w)) ∨
      ∃ key o, q = .told (.installOwned key) o ∧ r.1.installing = c.installing.erase key := by
  cases hr with
  | aside level => exact .inl level.installing
  | launches missing free => exact .inr (.inl ⟨_, rfl, free, rfl, rfl⟩)
  | settles => exact .inr (.inr ⟨_, _, rfl, rfl⟩)
  | starts attempt installing => exact .inl installing
  | refuses installing => exact .inl installing
  | proceeds cue move precedes jobs installing => exact .inl installing
  | concludes cue installing => exact .inl installing
  | misled => exact .inl rfl

theorem installing_stays {v : TaskId} (hr : q.Lists fresh c r)
    (hv : c.installing.get? key = some v) :
    r.1.installing.get? key = some v ∨ ∃ o, q = .told (.installOwned key) o := by
  obtain same | ⟨w, -, free, inserted, -⟩ | ⟨own, o, rfl, erased⟩ := hr.installing_cases
  · exact .inl (same ▸ hv)
  · have apart : w.key ≠ key := by
      rintro rfl
      cases free.symm.trans hv
    exact .inl (by simp [inserted, apart, hv])
  · by_cases hit : own = key
    · exact .inr ⟨o, by rw [hit]⟩
    · exact .inl (by simp [erased, Table.get?_erase, hit, hv])

theorem installing_came {v : TaskId} (hr : q.Lists fresh c r)
    (hv : r.1.installing.get? key = some v) :
    c.installing.get? key = some v ∨
      v = fresh ∧ ∃ w, w.key = key ∧ r.2 = .launch (.installOwned key) (.installFresh w) := by
  obtain same | ⟨w, -, -, inserted, launches⟩ | ⟨own, o, -, erased⟩ := hr.installing_cases
  · exact .inl (same ▸ hv)
  · rw [inserted, Table.get?_insert] at hv
    split at hv
    · rename_i hit
      exact .inr ⟨(Option.some.inj hv).symm, w, hit, hit ▸ launches⟩
    · exact .inl hv
  · rw [erased, Table.get?_erase] at hv
    split at hv
    · cases hv
    · exact .inl hv

end Cue.Lists

namespace Host

variable {u : Setup} {h k m : Host} {t v i j : TaskId} {l : Label} {ls rs : List Label} {f g : Focus}

/-- A step leaves the lists alone, or the task with the turn changes them by its move. -/
theorem Step.lists (hs : Step h l k) :
    h.workspace.Level k.workspace ∨
      ∃ t q ss, h.turn = some t ∧ h.cue? t = some (q, ss) ∧ k.workspace = (h.next q).1 ∧
        k.tasks = (h.move t ss (h.next q).2).1.tasks := by
  cases hs.effect with
  | quiet still silent workspace => exact .inl (workspace ▸ .refl _)
  | @move t q ss k turn cue workspace tasks =>
    exact .inr ⟨t, q, ss, turn, cue, workspace, tasks⟩
  | announce turn ended workspace => exact .inl (workspace ▸ .refl _)
  | answer turn asked admits workspace => exact .inl (workspace ▸ .refl _)
  | start idle workspace => exact .inl (workspace ▸ .refl _)
  | change idle workspace => exact .inl (workspace ▸ h.workspace.level_after _)

/-- A task runs an installation. -/
def Installing (h : Host) (t : TaskId) (w : Wanted) : Prop :=
  ∃ v, h.tasks[t]? = some v ∧ v.installs? = some w

theorem Installing.unended (hi : h.Installing t w) : h.outcome? t = none := by
  obtain ⟨v, hv, installs⟩ := hi
  rw [outcome?_eq hv, Task.unended_of_installs? installs]

/-- Whether callers start an installation themselves. -/
def Label.StartsInstallation : Label → Prop
  | .started js => ∃ j ∈ js, j.installs?.isSome = true
  | _ => False

/-- An installation on its way was so before, or it was just started by an install that did not find
its module. -/
theorem Step.installing (hr : u.Runs ls h) (hs : Step h l k) (leaves : ¬ l.StartsInstallation)
    (hk : k.Installing i w) :
    h.Installing i w ∨
      (∃ t ss, h.turn = some t ∧ h.cue? t = some (.begin (.install w), ss)) ∧
        h.workspace.inventory.find? w.kind w.name = none ∧
          h.workspace.installing.get? w.key = none ∧
            k.workspace.installing.get? w.key = some i := by
  obtain ⟨x, hx, installs⟩ := hk
  obtain ⟨v, hv, -⟩ | ⟨j, rfl, launches⟩ := hs.came hx
  · left
    -- Both before and after the step the task is known by the job that it was started for.
    obtain ⟨roots, hf⟩ := fits_of_runs hr
    obtain ⟨js, -, hg⟩ := hf.effect (Expectation.wellFormed_met u) (from_of_runs hr) hs.effect
      fun _ _ _ _ ha => ha
    obtain ⟨root, hroot, fits⟩ := hf.tasks hv
    obtain ⟨root', hroot', fits'⟩ := hg.tasks hx
    obtain rfl := Option.some.inj ((getElem?_grow hroot js).symm.trans hroot')
    have unended : v.outcome? = none := by
      cases ended : h.outcome? i with
      | none => exact (outcome?_eq hv).symm.trans ended
      | some o =>
        cases (Task.unended_of_installs? installs).symm.trans
          ((outcome?_eq hx).symm.trans (hs.ended ended))
    refine ⟨v, hv, ?_⟩
    rw [fits.installs? unended, ← fits'.installs? (Task.unended_of_installs? installs), installs]
  · right
    cases launches with
    | @launched t q ss turn cue member new workspace =>
      obtain ⟨rfl, missing, free, alone, inserted⟩ :=
        (q.lists h.tasks.length h.workspace).starts_installation member installs
      have single : (h.next (.begin (.install w))).2.jobs = [j] := alone
      rw [single, List.mem_range'_1, List.length_singleton] at new
      obtain rfl := Nat.le_antisymm (Nat.lt_succ_iff.1 new.2) new.1
      refine ⟨⟨t, ss, turn, cue⟩, missing, free, ?_⟩
      rw [workspace, show (h.next (.begin (.install w))).1.installing = _ from inserted]
      simp
    | @started js label member =>
      refine (leaves ?_).elim
      rw [label]
      exact ⟨j, member, by rw [show j.installs? = some w from installs]; rfl⟩

theorem Step.installing_stays (hs : Step h l k)
    (hv : h.workspace.installing.get? key = some v) :
    k.workspace.installing.get? key = some v ∨
      ∃ t o ss, h.turn = some t ∧ h.cue? t = some (.told (.installOwned key) o, ss) := by
  obtain level | ⟨t, q, ss, turn, cue, workspace, -⟩ := hs.lists
  · exact .inl (level.installing ▸ hv)
  · rcases (q.lists h.tasks.length h.workspace).installing_stays hv with same | ⟨o, rfl⟩
    · exact .inl (workspace ▸ same)
    · exact .inr ⟨t, o, ss, turn, cue⟩

/-- The list of the installations on their way, the tasks that run them and the tasks that are to
take them off the list agree. -/
structure Enrolled (h : Host) : Prop where
  listed : ∀ {w : Wanted} {t : TaskId}, h.Installing t w →
    h.workspace.installing.get? w.key = some t
  owned : ∀ {i : TaskId} {f : Focus} {key : ModuleName} {ss : List Stage},
    h.tasks[i]? = some ⟨f, .installOwned key :: ss⟩ →
      ∃ v, h.workspace.installing.get? key = some v ∧ h.Heeds v f
  alone : ∀ {i j : TaskId} {f g : Focus} {key : ModuleName} {ss rs : List Stage},
    h.tasks[i]? = some ⟨f, .installOwned key :: ss⟩ →
      h.tasks[j]? = some ⟨g, .installOwned key :: rs⟩ → i = j

namespace Enrolled

/-- Nobody runs an installation any more that is taken off the list. -/
theorem settled (he : h.Enrolled) (cue : h.cue? t = some (.told (.installOwned w.key) o, ss)) :
    ¬ h.Installing i w := by
  intro installs
  -- Whoever is on the list has ended, as its owner was told so.
  obtain ⟨v, listed, heeds⟩ := he.owned (cue?_eq_told.1 cue)
  obtain rfl := Option.some.inj (listed.symm.trans (he.listed installs))
  obtain waits | ⟨o, -, ended⟩ := heeds
  · cases waits
  · cases installs.unended.symm.trans ended

/-- Whoever is to take an installation off the list was to do so before, or has just put it there. -/
theorem keeper (he : h.Enrolled) (hr : u.Runs ls h) (hs : Step h l k)
    (hi : k.tasks[i]? = some ⟨f, .installOwned key :: ss⟩) :
    (∃ g v, h.tasks[i]? = some ⟨g, .installOwned key :: ss⟩ ∧
      k.workspace.installing.get? key = some v ∧ k.Heeds v f) ∨
    h.turn = some i ∧ h.workspace.installing.get? key = none ∧
      ∃ v, k.workspace.installing.get? key = some v ∧ k.Heeds v f := by
  rcases hs.joiner hr hi Stage.Awaits.joined_of_owned with
    ⟨g, hg, rests, heeds⟩ | ⟨q, turn, cue, stage, workspace, moves⟩
  · left
    obtain ⟨v, listed, hv⟩ := he.owned hg
    refine ⟨g, v, hg, ?_, heeds v hv⟩
    rcases hs.installing_stays listed with same | ⟨t, o, rest, turn, cue⟩
    · exact same
    · -- Only the one owner takes the module off the list, and this one makes no move.
      obtain rfl := he.alone hg (cue?_eq_told.1 cue)
      cases (rests turn).symm.trans cue
  · right
    obtain ⟨free, ⟨j, launches⟩, listed⟩ := (q.lists _ _).owned stage
    refine ⟨turn, free, h.tasks.length, by rw [workspace]; exact listed, .inl ?_⟩
    rw [show (h.next q).2 = _ from launches] at moves
    exact (congrArg Task.focus moves).symm

theorem step (he : h.Enrolled) (hr : u.Runs ls h) (hs : Step h l k)
    (leaves : ¬ l.StartsInstallation) : k.Enrolled := by
  constructor
  · intro w i hk
    rcases hs.installing hr leaves hk with old | ⟨-, -, -, listed⟩
    · rcases hs.installing_stays (he.listed old) with same | ⟨t, o, ss, -, cue⟩
      · exact same
      · exact (he.settled cue old).elim
    · exact listed
  · intro i f key ss hi
    rcases he.keeper hr hs hi with ⟨g, v, -, owned⟩ | ⟨-, -, owned⟩
    · exact ⟨v, owned⟩
    · exact owned
  · intro i j f g key ss rs hi hj
    rcases he.keeper hr hs hi with ⟨g, v, gi, -⟩ | ⟨turn, free, -⟩ <;>
      rcases he.keeper hr hs hj with ⟨g', v', gj, -⟩ | ⟨turn', free', -⟩
    · exact he.alone gi gj
    · obtain ⟨w, listed, -⟩ := he.owned gi
      cases free'.symm.trans listed
    · obtain ⟨w, listed, -⟩ := he.owned gj
      cases free.symm.trans listed
    · exact Option.some.inj (turn.symm.trans turn')

end Enrolled

theorem enrolled_of_runs (hr : u.Runs ls h) (leaves : ∀ l ∈ ls, ¬ l.StartsInstallation) :
    h.Enrolled := by
  revert leaves
  refine Steps.forward (P := fun ls h => (∀ l ∈ ls, ¬ l.StartsInstallation) → h.Enrolled) ?_ ?_ hr
  · intro _
    constructor <;> simp [Installing, Setup.host]
  · intro ls k m l hk ih hs leaves
    rw [List.forall_mem_append] at leaves
    exact (ih leaves.1).step hk hs (leaves.2 l (by simp))

/-- Every task on the list was started for an installation of the module that it is listed for. -/
theorem started_of_installing (hr : u.Runs ls h)
    (hv : h.workspace.installing.get? key = some v) :
    ∃ w, w.key = key ∧
      u.Once ls h fun g => g.tasks[v]? = some ⟨.begin (.installFresh w), []⟩ := by
  revert hv
  refine Steps.forward (P := fun ls h => h.workspace.installing.get? key = some v → ∃ w,
    w.key = key ∧ u.Once ls h fun g => g.tasks[v]? = some ⟨.begin (.installFresh w), []⟩) ?_ ?_ hr
  · intro hv
    cases hv
  · intro ls g k l hg ih hs hv
    have before (old : g.workspace.installing.get? key = some v) : ∃ w, w.key = key ∧
        u.Once (ls ++ [l]) k fun g => g.tasks[v]? = some ⟨.begin (.installFresh w), []⟩ := by
      obtain ⟨w, same, once⟩ := ih old
      exact ⟨w, same, once.snoc hs⟩
    obtain level | ⟨t, q, ss, turn, cue, workspace, tasks⟩ := hs.lists
    · exact before (level.installing ▸ hv)
    · rw [workspace] at hv
      rcases (q.lists g.tasks.length g.workspace).installing_came hv with
        old | ⟨rfl, w, same, launches⟩
      · exact before old
      · refine ⟨w, same, .now (hg.snoc hs) ?_⟩
        have apart : t ≠ g.tasks.length := Nat.ne_of_lt (lt_of_cue? cue)
        have launched : (g.next q).2 = .launch (.installOwned key) (.installFresh w) := launches
        rw [tasks, tasks_of_move, launched, List.getElem?_set_ne apart]
        simp [Move.jobs]

/-- Installations are shared, however installs, resets, recoveries and everything else that tasks and
callers do follow one another. At no moment do two tasks run an installation of one module, that is
of one kind and short name. And an install that finds its module neither installed nor free to be
installed finds the task of an installation of that module, and returns with exactly the value or
the failure which that one ends with, at the latest when nothing is left to be done. -/
theorem installs_shared (hm : u.Runs ls m) (hk : Steps m rs h)
    (leaves : ∀ l ∈ ls ++ rs, ¬ l.StartsInstallation) :
    (∀ t v w x, h.Installing t w → h.Installing v x → w.key = x.key → t = v) ∧
    (∀ t w ss v, m.turn = some t → m.cue? t = some (.begin (.install w), ss) →
      m.workspace.inventory.find? w.kind w.name = none →
        m.workspace.installing.get? w.key = some v →
          (∃ x, x.key = w.key ∧
            u.Once ls m fun g => g.tasks[v]? = some ⟨.begin (.installFresh x), []⟩) ∧
          (rs ≠ [] → h.Shares t v ss ∨ m.Returns rs t v ss) ∧
            (h.Rests → m.Returns rs t v ss)) := by
  refine ⟨?_, ?_⟩
  · intro t v w x ht hv same
    have enrolled := enrolled_of_runs (hm.trans hk) leaves
    have listed := enrolled.listed ht
    rw [same] at listed
    exact Option.some.inj (listed.symm.trans (enrolled.listed hv))
  · intro t w ss v turn cue missing pending
    have joins : (m.next (.begin (.install w))).2 = .await .passOn v := by
      simp [Host.next, Cue.move, Job.begin, Work.install, missing, pending]
    exact ⟨started_of_installing hm pending,
      hk.shared hm turn fun first => first.shares_of_await turn cue joins⟩

end Host

/-- Two installs of one module under different names, of which the second joins the first. -/
theorem installs_shared_spellings :
    ∃ ls m rs h w v, Setup.bare.Runs ls m ∧ Host.Steps m rs h ∧
      (∀ l ∈ ls ++ rs, ¬ l.StartsInstallation) ∧ w.key = v.key ∧ w.name ≠ v.name ∧
      m.turn = some 1 ∧ m.cue? 1 = some (.begin (.install w), []) ∧
      m.workspace.inventory.find? w.kind w.name = none ∧
      m.workspace.installing.get? w.key = some 2 ∧
      m.tasks[2]? = some ⟨.begin (.installFresh v), []⟩ ∧ h.Rests ∧ m.Returns rs 1 2 [] ∧
      h.workspace.inventory.contains w.kind w.name = true := by
  let v : Wanted := ⟨.plugin, "p", 7, .null⟩
  let w : Wanted := ⟨.plugin, "babel-plugin-p", 7, .null⟩
  let js : List Job := [.install v, .install w]
  let world : World Unit := .steady Query.package
  let m : Host := ((Setup.bare.host.start js).run world 3 ()).1
  have hm : Setup.bare.Runs (Setup.bare.labels world js 3 ()) m :=
    Setup.bare.runs_run World.package_admits js 3 ()
  have hk : Host.Steps m (Host.labels world 60 m ()) (m.run world 60 ()).1 :=
    Host.steps_run World.package_admits 60 m ()
  have idle : (m.run world 60 ()).1.Idle := by decide +kernel
  have turn : m.turn = some 1 := by decide +kernel
  have cue : m.cue? 1 = some (.begin (.install w), []) := Host.cue?_eq_begin.2 rfl
  have missing : m.workspace.inventory.find? w.kind w.name = none :=
    Option.isNone_iff_eq_none.1 (by decide +kernel)
  have pending : m.workspace.installing.get? w.key = some 2 := by decide +kernel
  have installed : (m.run world 60 ()).1.workspace.inventory.contains w.kind w.name = true := by
    decide +kernel
  have leaves : ∀ l ∈ Setup.bare.labels world js 3 () ++ Host.labels world 60 m (),
      ¬ l.StartsInstallation := by
    have internal {l : Host.Label} (hl : l.Internal) : ¬ l.StartsInstallation := by
      cases l with
      | started => exact hl.elim
      | _ => exact id
    simp only [Setup.labels, List.forall_mem_append, List.forall_mem_cons]
    refine ⟨⟨?_, ?_⟩, ?_⟩
    · simp [Host.Label.StartsInstallation, js, Job.installs?]
    · exact fun l hl => internal (Host.internal_labels _ _ _ _ l hl)
    · exact fun l hl => internal (Host.internal_labels _ _ _ _ l hl)
  have shared := (Host.installs_shared hm hk leaves).2 1 w [] 2 turn cue missing pending
  exact ⟨_, m, _, _, w, v, hm, hk, leaves, by decide +kernel, by decide, turn, cue, missing, pending,
    rfl, idle.rests, shared.2.2 idle.rests, installed⟩

end PluginHost
