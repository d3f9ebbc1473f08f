import PluginHost.Proofs.Host.Company
import PluginHost.Proofs.Host.Mirrors
import PluginHost.Proofs.Host.Spellings
import PluginHost.Proofs.Module.Bundles

/-!
Installations of the same plugins in another order. The order of a list decides the order in which
installations take their turns and nothing else: under some order of turns, each of two lists of the
same plugins ends as the other one does.
-/
namespace PluginHost

variable {σ : TaskId → TaskId} {s : Settings} {i : Inventory} {names ps qs : List String}
  {c : Workspace} {n : Needs} {o : Outcome} {round : Nat}

/-- Both moves are mirrored, or each of them fails. -/
def Shuffled (σ : TaskId → TaskId) (ps : List String) (r r' : Workspace × Move) : Prop :=
  Mirrored σ ps r r' ∨ ∃ f f', r.2 = .fail f ∧ r'.2 = .fail f'

namespace Work

theorem perm_jobs (n : Needs) (perm : names.Perm qs) (kind : ModuleKind) :
    (jobs (n.listing ps) kind qs).Perm ((jobs n kind names).map (Job.renumbered ps)) := by
  have same : (jobs n kind names).map (Job.renumbered ps) = jobs (n.listing ps) kind names := by
    rw [jobs, List.map_map]
    rfl
  rw [same]
  exact perm.symm.map _

theorem installRound_of_error {f : Failure} (fails : (c.addBundled n.plugins).1 = .error f) :
    (installRound n round c).2 = .fail f := by
  unfold installRound
  split
  · rename_i done
    rw [done] at fails
    cases fails
  · rename_i failed
    rw [failed] at fails
    cases fails
    rfl

theorem shuffled_installRound (hi : c.inventory.Alike i) (perm : n.plugins.Perm ps)
    (sound : c.inventory.Sound) (hu : c.settings.Unrivalled n.plugins) :
    Shuffled σ ps (installRound n round c)
      (installRound (n.listing ps) round (c.renumbered σ i)) := by
  have same := Settings.bundleAll_perm (m := c.host) perm sound hi hu
  have right : (∃ j, ps.foldlM (c.settings.bundle c.host) i = some j ∧
      (c.renumbered σ i).addBundled (n.listing ps).plugins = (.ok (), c.renumbered σ j)) ∨
      ∃ f, ps.foldlM (c.settings.bundle c.host) i = none ∧
        ((c.renumbered σ i).addBundled (n.listing ps).plugins).1 = .error f :=
    (c.renumbered σ i).addBundled_eq ps
  obtain ⟨j, made, done⟩ | ⟨f, none, fails⟩ := c.addBundled_eq n.plugins
  · obtain ⟨j', made', done'⟩ | ⟨f, none, -⟩ := right
    · rw [made, made'] at same
      cases same with
      | some alike =>
        rw [installRound_of_ok done, installRound_of_ok done']
        exact .inl ⟨⟨j', alike, rfl⟩, .gather (perm_jobs n perm .plugin)⟩
    · rw [made, none] at same
      cases same
  · obtain ⟨j', made', -⟩ | ⟨f', -, fails'⟩ := right
    · rw [none, made'] at same
      cases same
    · exact .inr ⟨f, f', installRound_of_error fails, installRound_of_error fails'⟩

theorem shuffled_installAll (hi : c.inventory.Alike i) (perm : n.plugins.Perm ps)
    (sound : c.inventory.Sound) (hu : c.settings.Unrivalled n.plugins) :
    Shuffled σ ps (installAll n c) (installAll (n.listing ps) (c.renumbered σ i)) := by
  have macros : (n.listing ps).hasMacros = n.hasMacros := rfl
  unfold installAll
  rw [macros]
  split
  · exact .inl (.plain hi .call)
  · exact shuffled_installRound hi perm sound hu

theorem shuffled_presetsInstalled (hi : c.inventory.Alike i) (perm : n.plugins.Perm ps)
    (sound : c.inventory.Sound) (hu : c.settings.Unrivalled n.plugins) :
    Shuffled σ ps (presetsInstalled n round o c)
      (presetsInstalled (n.listing ps) round o (c.renumbered σ i)) := by
  have installed (kind : ModuleKind) (names : List String) :
      (c.renumbered σ i).installed kind names = c.installed kind names :=
    congrArg names.all (funext (hi.contains kind))
  have plugins : c.installed .plugin ps = c.installed .plugin n.plugins := perm.symm.all_eq
  have settings : (c.renumbered σ i).settings = c.settings := rfl
  unfold presetsInstalled
  rw [installed, installed, settings, show (n.listing ps).plugins = ps from rfl, plugins,
    show (n.listing ps).presets = n.presets from rfl]
  split
  · split
    · exact .inl (.plain hi .finish)
    · split
      · exact shuffled_installRound hi perm sound hu
      · exact .inl (.fail hi)
  · exact .inl (.fail hi)

theorem shuffled_pluginsInstalled (hi : c.inventory.Alike i) :
    Shuffled σ ps (pluginsInstalled n round o c)
      (pluginsInstalled (n.listing ps) round o (c.renumbered σ i)) := by
  unfold pluginsInstalled
  split
  · exact .inl (.plain hi (.gather (perm_jobs n (.refl n.presets) .preset)))
  · exact .inl (.fail hi)

end Work

/-- The installation of everything that is needed makes the same moves for a shuffled list. -/
theorem Cue.For.shuffled {q : Cue} {s : Settings} {E : Expectation} {fresh : TaskId}
    (hq : q.For s E (.installAll n)) (hi : c.inventory.Alike i) (perm : n.plugins.Perm ps)
    (sound : c.inventory.Sound) (hu : c.settings.Unrivalled n.plugins) :
    Shuffled σ ps (q.move fresh c) ((q.renumbered σ ps).move fresh (c.renumbered σ i)) := by
  cases hq with
  | begin => exact Work.shuffled_installAll hi perm sound hu
  | @told st o _ _ awaits _ =>
    cases awaits with
    | macrosReady =>
      cases o with
      | ok r => exact Work.shuffled_installRound hi perm sound hu
      | error f => exact .inl (.fail hi)
    | pluginsInstalled => exact Work.shuffled_pluginsInstalled hi
    | presetsInstalled => exact Work.shuffled_presetsInstalled hi perm sound hu

theorem Needs.Rounds.knows {roots : List Job} {r : Workspace × Move} (hr : n.Rounds round c r)
    (hk : c.Knows roots) : r.1.Knows roots := by
  cases hr with
  | gathers | fails => exact hk.addBundled n.plugins

/-- The installation of everything that is needed puts no task on record. -/
theorem Cue.For.knows {q : Cue} {E : Expectation} {fresh : TaskId} {roots : List Job}
    (hq : q.For s E (.installAll n)) (hk : c.Knows roots) : (q.move fresh c).1.Knows roots := by
  have goes := q.goes fresh c
  generalize q.move fresh c = x at goes
  cases hq with
  | begin =>
    cases goes with
    | macrosFirst => exact hk
    | roundFirst => exact (Work.rounds_installRound ..).knows hk
  | told awaits gives =>
    cases awaits with
    | macrosReady =>
      cases goes with
      | macrosReady => exact (Work.rounds_installRound ..).knows hk
      | macrosUnready => exact hk
    | pluginsInstalled => cases goes <;> exact hk
    | presetsInstalled =>
      cases goes with
      | roundRepeated => exact (Work.rounds_installRound ..).knows hk
      | roundComplete | roundsSpent | presetsFailed => exact hk

theorem Job.renumbered_of_rank {j : Job} (hj : j.rank s ≤ 12) : j.renumbered ps = j := by
  cases j with
  | installAll n => simp [Job.rank] at hj
  | _ => rfl

theorem Cue.For.mirrored {q : Cue} {E : Expectation} {owner : Job} {fresh : TaskId}
    (hq : q.For s E owner) (rank : owner.rank s ≤ 12) (hi : c.inventory.Alike i)
    (inj : Function.Injective σ) (hf : σ fresh = fresh) :
    Mirrored σ ps (q.move fresh c) ((q.renumbered σ ps).move fresh (c.renumbered σ i)) := by
  cases hq with
  | begin =>
    simp only [Cue.move, Cue.renumbered, Job.renumbered_of_rank rank]
    exact Job.mirrored_begin rank hi hf
  | told awaits => exact Stage.mirrored_resume awaits rank hi inj

namespace Host

variable {u : Setup} {h k h' : Host} {b t : TaskId} {roots : List Job} {q : Cue} {ss : List Stage}
  {l : Label} {ls : List Label}

/-- Every move of an installation, and of what it has started, is mirrored for a shuffled list,
unless bundled plugins cannot be registered. -/
theorem Headed.goes (hr : u.Runs ls h) (hl : h.Headed u b (.installAll n) roots)
    (hm : h.Mirrors σ ps k) (fresh : ∀ t, h.tasks.length ≤ t → σ t = t) (perm : n.plugins.Perm ps)
    (hu : u.settings.Unrivalled n.plugins) (cue : h.cue? t = some (q, ss)) :
    (∃ τ, Mirrors.Advances σ τ ps t h k) ∨ t = b ∧ ss = [] ∧
      ∃ f f', (h.next q).2 = .fail f ∧ (k.next (q.renumbered σ ps)).2 = .fail f' := by
  have hc := from_of_runs hr
  obtain ⟨root, owner, job, frames, hq⟩ := hl.fits.cue cue
  obtain ⟨i, alike, same⟩ := hm.workspace
  have next : k.next (q.renumbered σ ps) =
      (q.renumbered σ ps).move h.tasks.length (h.workspace.renumbered σ i) := by
    rw [Host.next, hm.length, same]
  have suits := hl.fits.suits (Expectation.wellFormed_met u).toFormed hc hq
  have known (st : Stage) (w : TaskId) (awaits : (h.next q).2 = .await st w) :
      w < h.tasks.length := by
    rw [awaits] at suits
    obtain ⟨j, hj, -⟩ := suits
    exact hl.fits.length ▸ (List.getElem?_eq_some_iff.1 hj).1
  by_cases rank : owner.rank u.settings ≤ 12
  · have mirrored : Mirrored σ ps _ _ :=
      hq.mirrored rank alike hm.injective (fresh _ (Nat.le_refl _))
    refine .inl (hm.advance fresh cue (next ▸ mirrored) known fun st js gathers => ?_)
    rw [gathers] at suits
    cases suits <;> simp [Job.rank] at rank
  · obtain rfl : t = b := by
      rcases Nat.lt_trichotomy t b with lt | rfl | gt
      · obtain ⟨o, ended⟩ := hl.before t lt
        cases (outcome?_of_cue? cue).symm.trans ended
      · rfl
      · exact (rank (Nat.le_trans frames.rank_le (hl.helpers gt job))).elim
    obtain rfl := Option.some.inj (hl.root.symm.trans job)
    obtain ⟨rfl, rfl⟩ := frames.top (Nat.not_le.1 rank)
    have moves : Shuffled σ ps (h.next q) _ :=
      hq.shuffled alike perm (sound_of_runs hr) (hc.settings ▸ hu)
    obtain mirrored | fails := moves
    · refine .inl (hm.advance fresh cue (next ▸ mirrored) known fun st js gathers τ inj keeps => ?_)
      refine ⟨hm.congr (below_of_runs hr) (able_of_runs hr) hl.fits.knows hl.fits.length inj keeps,
        funext fun i => ?_, ?_⟩
      · exact Workspace.renumbered_congr (hq.knows hl.fits.knows) (hl.fits.length ▸ keeps)
      · rw [gathers] at suits
        cases suits <;> rfl
    · exact .inr ⟨rfl, rfl, next ▸ fails⟩

/-- A step of an installation is mirrored for a shuffled list, or both installations fail by it. -/
theorem Headed.mirrors_step (hr : u.Runs ls h) (hl : h.Headed u b (.installAll n) roots)
    (hm : h.Mirrors σ ps k) (fresh : ∀ t, h.tasks.length ≤ t → σ t = t) (perm : n.plugins.Perm ps)
    (hu : u.settings.Unrivalled n.plugins) (hs : Step h l h') (internal : l.Internal) :
    (∃ τ k', Extends σ τ h.tasks.length h'.tasks.length ∧ Step k (l.renumbered σ) k' ∧
        h'.Mirrors τ ps k') ∨
      ∃ f f' k', l = .moved b ∧ h'.outcome? b = some (.error f) ∧ Step k (.moved (σ b)) k' ∧
        k'.outcome? (σ b) = some (.error f') := by
  by_cases fails : ∃ q f f', h.turn = some b ∧ h.cue? b = some (q, []) ∧ (h.next q).2 = .fail f ∧
      (k.next (q.renumbered σ ps)).2 = .fail f'
  · obtain ⟨q, f, f', turn, cue, left, right⟩ := fails
    obtain ⟨label, -, after⟩ := hs.went turn cue
    rw [left] at label after
    have turn' : k.turn = some (σ b) := by rw [hm.turn, turn]; rfl
    obtain ⟨k', step, after'⟩ := Step.of_finish turn' (hm.cue? cue) right
    exact .inr ⟨f, f', k', label, outcome?_eq after, step, outcome?_eq after'⟩
  · refine .inl (hm.step fresh hs internal fun t q ss turn cue => ?_)
    refine (hl.goes hr hm fresh perm hu cue).resolve_right ?_
    rintro ⟨rfl, rfl, f, f', left, right⟩
    exact fails ⟨q, f, f', turn, cue, left, right⟩

/-- A query and its answer, as a label says. -/
def Label.answer? : Label → Option (Query × Outcome)
  | .answered _ q o => some (q, o)
  | _ => none

theorem Label.answer?_renumbered (σ : TaskId → TaskId) (l : Label) :
    (l.renumbered σ).answer? = l.answer? := by
  cases l <;> rfl

theorem Label.internal_renumbered {l : Label} (hl : l.Internal) (σ : TaskId → TaskId) :
    (l.renumbered σ).Internal := by
  cases l <;> exact hl

/-- What an installation that ends with an outcome has come to: the value of every name, or nothing
if it failed. -/
def installed? (h : Host) : Outcome → Option (ModuleKind → String → Option Value)
  | .ok _ => some fun kind name => (h.workspace.inventory.find? kind name).map fun m => m.2.value
  | .error _ => none

/-- What the installation of everything that is needed can come to on a host where nothing else is
started, and the answers that it gets on the way. Tasks may take their turns in any order. -/
inductive Ends (h : Host) (n : Needs) :
    List (Query × Outcome) → Option (ModuleKind → String → Option Value) → Prop where
  | of {k g m : Host} {ls : List Label} {l : Label} {o : Outcome}
      (start : Step h (.started [.installAll n]) k) (runs : Steps k ls g)
      (internal : ∀ l ∈ ls, l.Internal) (going : g.outcome? h.tasks.length = none)
      (last : Step g l m) (still : l.Internal) (ended : m.outcome? h.tasks.length = some o) :
      Ends h n ((ls ++ [l]).filterMap Label.answer?) (m.installed? o)

/-- On a host every task of which has ended, every task mirrors itself. -/
theorem Mirrors.of_ended (rest : ∀ t < h.tasks.length, ∃ o, h.outcome? t = some o) :
    h.Mirrors id ps h where
  injective := Function.injective_id
  bounds t ht := ht
  length := rfl
  tasks {t v} hv := by
    obtain ⟨o, ended⟩ := rest t (List.getElem?_eq_some_iff.1 hv).1
    obtain rfl := Task.outcome?_eq_some.1 ((outcome?_eq hv).symm.trans ended)
    exact ⟨_, hv, .resume, rfl⟩
  workspace := ⟨_, .refl _, h.workspace.renumbered_id.symm⟩
  ready := by rw [List.map_id]
  turn := by rw [Option.map_id_apply]

/-- A run from `k₀` that mirrors another one, in which the task `b` has its own number and the same
answers are given. -/
structure Shadow (σ : TaskId → TaskId) (ps : List String) (k₀ : Host) (b : TaskId)
    (ls : List Label) (h : Host) (ls' : List Label) (k : Host) : Prop where
  steps : Steps k₀ ls' k
  internal : ∀ l ∈ ls', l.Internal
  answers : ls'.filterMap Label.answer? = ls.filterMap Label.answer?
  own : σ b = b
  fresh : ∀ t, h.tasks.length ≤ t → σ t = t
  mirrors : h.Mirrors σ ps k

theorem Shadow.step {k₀ : Host} {xs ls' : List Label} (hr : u.Runs xs h)
    (hl : h.Headed u b (.installAll n) roots) (perm : n.plugins.Perm ps)
    (hu : u.settings.Unrivalled n.plugins) (shadow : Shadow σ ps k₀ b ls h ls' k)
    (hs : Step h l h') (internal : l.Internal) :
    (∃ τ l' k', Step k l' k' ∧ Shadow τ ps k₀ b (ls ++ [l]) h' (ls' ++ [l']) k') ∨
      ∃ f f' k', l = .moved b ∧ h'.outcome? b = some (.error f) ∧ Step k (.moved b) k' ∧
        k'.outcome? b = some (.error f') := by
  have hb : b < h.tasks.length := hl.fits.length ▸ (List.getElem?_eq_some_iff.1 hl.root).1
  obtain ⟨τ, k', numbers, step, mirrors⟩ | ⟨f, f', k', label, ended, step, ended'⟩ :=
    hl.mirrors_step hr shadow.mirrors shadow.fresh perm hu hs internal
  · refine .inl ⟨τ, _, k', step, shadow.steps.snoc step, fun l hl => ?_, ?_,
      (numbers.keeps b hb).trans shadow.own, numbers.fresh, mirrors⟩
    · obtain old | new := List.mem_append.1 hl
      · exact shadow.internal l old
      · exact List.mem_singleton.1 new ▸ Label.internal_renumbered internal σ
    · rw [List.filterMap_append, List.filterMap_append, shadow.answers]
      simp only [List.filterMap_cons, Label.answer?_renumbered]
  · rw [shadow.own] at step ended'
    exact .inr ⟨f, f', k', label, ended, step, ended'⟩

/-- Induction along what happens on a host while a task goes on. -/
theorem Steps.while {P : List Label → Host → Prop} (start : P [] h)
    (next : ∀ {ls : List Label} {g m : Host} {l : Label}, Steps h ls g → P ls g → Step g l m →
      l.Internal → m.outcome? b = none → P (ls ++ [l]) m)
    (hk : Steps h ls k) (internal : ∀ l ∈ ls, l.Internal) (going : k.outcome? b = none) :
    P ls k := by
  revert internal going
  refine Steps.forward (P := fun ls k => (∀ l ∈ ls, l.Internal) → k.outcome? b = none → P ls k)
    (fun _ _ => start) ?_ hk
  intro ls g m l hg ih hs internal going
  have before : g.outcome? b = none := by
    cases ended : g.outcome? b with
    | none => rfl
    | some o => cases (hs.ended ended).symm.trans going
  exact next hg (ih (fun l hl => internal l (by simp [hl])) before) hs (internal l (by simp)) going

/-- As long as the installation goes on, so does the one for the shuffled list. -/
theorem Shadow.along {k₀ : Host} {xs : List Label} (hr : u.Runs xs h)
    (hl : h.Headed u b (.installAll n) roots) (hm : h.Mirrors id ps k₀)
    (perm : n.plugins.Perm ps) (hu : u.settings.Unrivalled n.plugins) (hs : Steps h ls k)
    (internal : ∀ l ∈ ls, l.Internal) (going : k.outcome? b = none) :
    ∃ roots σ ls' k', k.Headed u b (.installAll n) roots ∧ Shadow σ ps k₀ b ls k ls' k' := by
  refine Steps.while (P := fun ls k => ∃ roots σ ls' k', k.Headed u b (.installAll n) roots ∧
    Shadow σ ps k₀ b ls k ls' k') ?_ ?_ hs internal going
  · exact ⟨roots, id, [], k₀, hl, .refl, List.forall_mem_nil _, rfl, rfl, fun _ _ => rfl, hm⟩
  · rintro ls g m l hg ⟨roots, σ, ls', g', headed, shadow⟩ hs internal going
    obtain ⟨js, -, next⟩ := headed.step (hr.trans hg) hs internal
    obtain ⟨τ, l', m', -, shadow⟩ | ⟨f, f', m', -, ended, -⟩ :=
      shadow.step (hr.trans hg) headed perm hu hs internal
    · exact ⟨_, τ, _, m', next, shadow⟩
    · cases ended.symm.trans going

theorem Mirrors.installed? (hm : h.Mirrors σ ps k) (o : Outcome) :
    k.installed? o = h.installed? o := by
  obtain ⟨i, alike, same⟩ := hm.workspace
  have find (kind : ModuleKind) (name : String) :
      k.workspace.inventory.find? kind name = h.workspace.inventory.find? kind name := by
    rw [same]
    exact alike.find? kind name
  cases o with
  | ok r => simp only [Host.installed?, find]
  | error f => rfl

theorem Shadow.outcome? {k₀ : Host} {ls' : List Label} (shadow : Shadow σ ps k₀ b ls h ls' k)
    (hb : b < h.tasks.length) : k.outcome? b = h.outcome? b := by
  have same := shadow.mirrors.outcome? (List.getElem?_eq_getElem hb)
  rwa [shadow.own] at same

/-- What an installation can come to, one for a shuffled list can come to as well. -/
theorem Ends.shuffled {xs : List Label} {answers : List (Query × Outcome)}
    {e : Option (ModuleKind → String → Option Value)} (hr : u.Runs xs h)
    (rest : ∀ t < h.tasks.length, ∃ o, h.outcome? t = some o) (perm : n.plugins.Perm ps)
    (hu : u.settings.Unrivalled n.plugins) (he : h.Ends n answers e) :
    h.Ends (n.listing ps) answers e := by
  cases he with
  | @of k g m ls l o start runs internal going last still ended =>
    have idle : h.turn = none := by cases start with | start idle => exact idle
    have start' : Step h (.started [.installAll (n.listing ps)])
        (h.start [.installAll (n.listing ps)]) := .start idle
    have mirrored : k.Mirrors id ps (h.start [.installAll (n.listing ps)]) := by
      cases start with
      | start =>
        refine (Mirrors.of_ended rest).start rfl fun i j hj => ⟨i, rfl, ?_⟩
        obtain ⟨rfl, rfl⟩ : i = 0 ∧ _ = j := by simpa [List.getElem?_eq_some_iff] using hj
        rfl
    obtain ⟨roots, headed⟩ := Headed.start hr rest start
    have hk := hr.snoc start
    obtain ⟨roots, σ, ls', g', headed, shadow⟩ :=
      Shadow.along hk headed mirrored perm hu runs internal going
    have hg : h.tasks.length < g.tasks.length :=
      headed.fits.length ▸ (List.getElem?_eq_some_iff.1 headed.root).1
    have going' := (shadow.outcome? hg).trans going
    obtain ⟨τ, l', m', step, shadow'⟩ | ⟨f, f', m', rfl, failed, step, failed'⟩ :=
      shadow.step (hk.trans runs) headed perm hu last still
    · rw [← shadow'.answers, ← shadow'.mirrors.installed?]
      exact .of start' shadow.steps shadow.internal going' step (shadow'.internal l' (by simp))
        ((shadow'.outcome? (lt_of_outcome? ended)).trans ended)
    · obtain rfl := Option.some.inj (failed.symm.trans ended)
      have answers : (ls ++ [Label.moved h.tasks.length]).filterMap Label.answer? =
          (ls' ++ [Label.moved h.tasks.length]).filterMap Label.answer? := by
        rw [List.filterMap_append, List.filterMap_append, shadow.answers]
      rw [answers, show m.installed? (.error f) = m'.installed? (.error f') from rfl]
      exact .of start' shadow.steps shadow.internal going' step trivial failed'

/-- A host on which every task has ended but one, whose job is still to begin. -/
structure Poised (b : TaskId) (j : Job) (c : Workspace) (h : Host) : Prop where
  workspace : h.workspace = c
  tasks : ∀ {t : TaskId} {v : Task}, h.tasks[t]? = some v →
    (t < b ∧ ∃ o, v = ⟨.resume o, []⟩) ∨ t = b ∧ v = ⟨.begin j, []⟩

/-- Nothing else happens on such a host than that the job begins. -/
theorem Poised.step {j : Job} (hp : h.Poised b j c) (hs : Step h l k) (internal : l.Internal) :
    k.Poised b j c ∨ h.turn = some b ∧ h.cue? b = some (.begin j, []) := by
  cases hs.effect with
  | quiet still silent workspace tasks =>
    exact .inl ⟨workspace.trans hp.workspace, fun hv => hp.tasks (tasks ▸ hv)⟩
  | @move t q ss k turn cue workspace tasks keeps =>
    right
    cases q with
    | begin i =>
      obtain ⟨-, o, task⟩ | ⟨rfl, task⟩ := hp.tasks (cue?_eq_begin.1 cue)
      · cases task
      · cases task
        exact ⟨turn, cue⟩
    | told st o =>
      obtain ⟨-, p, task⟩ | ⟨-, task⟩ := hp.tasks (cue?_eq_told.1 cue) <;> cases task
  | @announce t o k turn ended workspace tasks =>
    refine .inl ⟨workspace.trans hp.workspace, fun {i x} hx => ?_⟩
    rw [tasks, List.getElem?_map] at hx
    obtain ⟨v, hv, rfl⟩ := Option.map_eq_some_iff.1 hx
    obtain ⟨lt, p, rfl⟩ | ⟨rfl, rfl⟩ := hp.tasks hv
    · exact .inl ⟨lt, p, rfl⟩
    · exact .inr ⟨rfl, rfl⟩
  | answer turn asked =>
    obtain ⟨-, p, task⟩ | ⟨-, task⟩ := hp.tasks asked <;> cases task
  | start => exact internal.elim
  | change => exact internal.elim

theorem Poised.outcome? {j : Job} (hp : h.Poised b j c) : h.outcome? b = none := by
  cases task : h.tasks[b]? with
  | none => simp [Host.outcome?, task]
  | some v =>
    obtain ⟨lt, -⟩ | ⟨-, rfl⟩ := hp.tasks task
    · exact (Nat.lt_irrefl b lt).elim
    · exact outcome?_eq task

end Host

end PluginHost
