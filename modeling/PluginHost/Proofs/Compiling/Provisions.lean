import PluginHost.Proofs.Compiling.Snapshots
import PluginHost.Proofs.Host.Company
import PluginHost.Proofs.Host.Engines
import PluginHost.Proofs.Store.Readiness

/-!
What a compile leaves behind that succeeds. The modules that it was checked against are still
installed, its configuration is active, and the store is ready if it installs macros.
-/
namespace PluginHost

variable {u : Setup} {s : Settings} {E : Expectation} {roots : List Job} {owner : Job} {q : Cue}
  {c : Workspace} {fresh : TaskId} {st : Stage} {n : Needs} {r : CompileRequest} {v x : Task}

/-- The needs of an installation whose rounds a stage belongs to. -/
def Stage.round? : Stage → Option Needs
  | .pluginsInstalled n _ | .presetsInstalled n _ => some n
  | _ => none

/-- A workspace in which a request finds whatever it needs. -/
structure Workspace.Equipped (s : Settings) (r : CompileRequest) (c : Workspace) : Prop where
  active : c.fingerprint = some r.fingerprint
  supplied : ∃ comp : Compilation, comp.request = r ∧ comp.Prepared s ∧ c.Meets comp.needs ∧
    (comp.needs.hasMacros = true → c.store.ready = true)

namespace Work

/-- A round begins without macros, once the store is open for them, or after another round. -/
theorem round_cases (hq : q.For s E owner) (hs : (q.move fresh c).2.Suits s roots owner)
    (hst : (q.move fresh c).2.stage? = some st) (hr : st.round? = some n) :
    n.hasMacros = false ∨ (∃ p, q = .told (.macrosReady n) (.ok p)) ∨
      ∃ st' o, q = .told st' o ∧ st'.round? = some n := by
  obtain rfl : owner = .installAll n := by
    generalize (q.move fresh c).2 = m at hs hst
    have gathers {st : Stage} {src : Source} (ha : st.Awaits s owner src)
        (hr : st.round? = some n) : owner = .installAll n := by
      cases ha with
      | pluginsInstalled => exact congrArg _ (Option.some.inj hr)
      | presetsInstalled => exact congrArg _ (Option.some.inj hr)
      | _ => cases hr
    cases m with
    | finish o => cases hst
    | await st' w =>
      obtain rfl := Option.some.inj hst
      obtain ⟨j, -, awaits⟩ := hs
      exact gathers awaits hr
    | _ =>
      obtain rfl := Option.some.inj hst
      exact gathers hs hr
  have goes := q.goes fresh c
  generalize q.move fresh c = x at goes hst
  cases hq with
  | begin =>
    cases goes with
    | macrosFirst =>
      obtain rfl := Option.some.inj hst
      cases hr
    | roundFirst plain => exact .inl plain
  | told awaits gives =>
    cases awaits with
    | macrosReady =>
      cases goes with
      | macrosReady => exact .inr (.inl ⟨_, rfl⟩)
      | macrosUnready => cases hst
    | pluginsInstalled => exact .inr (.inr ⟨_, _, rfl, rfl⟩)
    | presetsInstalled => exact .inr (.inr ⟨_, _, rfl, rfl⟩)

/-- A compile succeeds only with what the engine answered. -/
theorem told_of_compiled {p : Reply} (hq : q.For s E (.compile r))
    (hm : (q.move fresh c).2 = .finish (.ok p)) :
    ∃ comp t, q = .told (.transformed comp) (.ok (.transformed t)) ∧
      (q.move fresh c).1 = { c with compiles := c.compiles.finish comp.attempt } := by
  have goes := q.goes fresh c
  generalize q.move fresh c = x at goes hm ⊢
  cases hq with
  | begin => cases goes <;> cases hm
  | told awaits gives =>
    cases awaits with
    | transformed prepared =>
      cases goes with
      | transformed => exact ⟨_, _, rfl, rfl⟩
      | engineOdd | engineUnready | engineSpent | engineMends | engineRefused => cases hm
    | needsInstalled | storeOpened | engineMended => cases goes <;> cases hm

end Work

/-- A task that waits does so at a stage for what other tasks end with. -/
theorem Task.Fits.waits {root : Job} (hf : v.Fits s E roots root) (hw : v.waits = true) :
    ∃ st ss owner src, v.stages = st :: ss ∧ st.Awaits s owner src ∧
      ((∃ j, src = .joined j) ∨ ∃ js, src = .gathered js) := by
  cases hf with
  | awaiting frames awaits job => exact ⟨_, _, _, _, rfl, awaits, .inl ⟨_, rfl⟩⟩
  | gathering frames awaits jobs => exact ⟨_, _, _, _, rfl, awaits, .inr ⟨_, rfl⟩⟩
  | _ => cases hw

namespace Host

variable {h k m : Host} {l : Label} {xs ls rs : List Label} {b t : TaskId} {ss rest : List Stage}

/-- Where a job ends at which a compile waits for its needs, it is their installation. -/
theorem Fits.installed_of_moved {comp : Compilation} {p : Reply}
    (hf : h.Fits u.settings E roots) (hE : E.Formed u) (hc : h.workspace.From u)
    (cue : h.cue? t = some (q, ss))
    (moves : h.moved ss (h.next q).2 = ⟨.resume (.ok p), .needsInstalled comp :: rest⟩) :
    q.For u.settings E (.installAll comp.needs) ∧ (h.next q).2 = .finish (.ok p) := by
  obtain ⟨root, owner, -, frames, hq⟩ := hf.cue cue
  have suits := hf.suits hE hc hq
  obtain ⟨o, hm, focus, rfl⟩ | ⟨st, stage, stages⟩ := stages_of_moved moves
  · cases focus
    cases frames with
    | under outer awaits =>
      cases awaits with
      | needsInstalled prepared => exact ⟨hq, hm⟩
  · obtain ⟨rfl, rfl⟩ := List.cons.inj stages
    generalize (h.next q).2 = m at moves suits stage
    cases m with
    | await st' w =>
      obtain rfl := Option.some.inj stage
      obtain ⟨j, -, awaits⟩ := suits
      cases awaits
    | gather st' js =>
      obtain rfl := Option.some.inj stage
      cases suits
    | finish o => cases stage
    | _ => cases moves

/-- Macros are installed only with a store that is ready. -/
structure Macros (h : Host) : Prop where
  rounds : ∀ {t : TaskId} {v : Task} {st : Stage} {n : Needs}, h.tasks[t]? = some v →
    st ∈ v.stages → st.round? = some n → n.hasMacros = true → h.workspace.store.ready = true
  told : ∀ {t : TaskId} {comp : Compilation} {p : Reply} {ss : List Stage},
    h.tasks[t]? = some ⟨.resume (.ok p), .needsInstalled comp :: ss⟩ →
      comp.needs.hasMacros = true → h.workspace.store.ready = true

theorem Macros.step (hm : u.Runs xs m) (unopened : ∀ t, ¬ m.Opened t) (hk : Steps m rs h)
    (internal : ∀ l ∈ rs, l.Internal) (hi : h.Macros) (hs : Step h l k) (hl : l.Internal) :
    k.Macros := by
  have hE := Expectation.wellFormed_met u
  have hr : u.Runs (xs ++ rs) h := hm.trans hk
  have keeps := hs.tends.ready_of_ready hl.spares
  have opened {t : TaskId} (ho : h.Opened t) : h.workspace.store.ready = true :=
    (Steps.opened hm hk (fun l hl => (internal l hl).spares) ho).resolve_left (unopened t)
  obtain ⟨roots, hf⟩ := fits_of_runs hr
  refine ⟨fun {t v st n} hx hst round macros => keeps ?_, fun {t comp p ss} hx macros =>
    keeps ?_⟩
  · obtain ⟨v, hv, hst⟩ | ⟨q, ss, cue, hst⟩ := hs.mem_stages hx hst
    · exact hi.rounds hv hst round macros
    · obtain ⟨root, owner, -, -, hq⟩ := hf.cue cue
      have suits := hf.suits hE.toFormed (from_of_runs hr) hq
      obtain plain | ⟨p, rfl⟩ | ⟨st', o, rfl, before⟩ := Work.round_cases hq suits hst round
      · cases plain.symm.trans macros
      · exact opened ⟨p, _, ss, cue?_eq_told.1 cue, rfl⟩
      · exact hi.rounds (cue?_eq_told.1 cue) (List.mem_cons_self ..) before macros
  · obtain ⟨v, hv, becomes⟩ | ⟨j, begun, -⟩ := hs.came hx
    · cases becomes with
      | kept => exact hi.told hv macros
      | heard turn ended hears =>
        obtain ⟨root, -, fits⟩ := hf.tasks hv
        cases goes : v.waits with
        | false =>
          rw [Task.hear_of_waits goes] at hears
          exact hi.told (hears ▸ hv) macros
        | true =>
          obtain ⟨st, rest, owner, src, stages, awaits, source⟩ := fits.waits goes
          obtain rfl : st = .needsInstalled comp := by
            have same := (Task.stages_hear ..).symm.trans (congrArg Task.stages hears)
            exact (List.cons.inj (stages.symm.trans same)).1
          cases awaits
          obtain ⟨j, source⟩ | ⟨js, source⟩ := source <;> cases source
      | told turn label =>
        obtain ⟨root, -, fits⟩ := hf.tasks hv
        cases fits with
        | asking frames awaits => cases awaits
      | @went _ _ q rest turn cue label workspace moves =>
        obtain ⟨hq, finish⟩ := hf.installed_of_moved hE.toFormed (from_of_runs hr) cue moves
        obtain ⟨⟨round, o, rfl⟩, -⟩ := Work.meets_of_installAll hq finish
        exact hi.rounds (cue?_eq_told.1 cue) (List.mem_cons_self ..) rfl macros
    · cases begun

end Host

/-- A task of a compile that has passed its check. -/
inductive Task.Served : Task → Prop where
  | asking {q : Query} {comp : Compilation} : Served ⟨.asking q, [.transformed comp]⟩
  | told {p : Reply} {comp : Compilation} : Served ⟨.resume (.ok p), [.transformed comp]⟩
  | ended {p : Reply} : Served ⟨.resume (.ok p), []⟩

theorem Task.Served.waits (hv : v.Served) : v.waits = false := by cases hv <;> rfl

namespace Host

variable {h k m : Host} {l : Label} {xs ls rs : List Label} {b t : TaskId} {ss rest : List Stage}

theorem Fails.not_served (hf : h.Fails b) (hv : h.tasks[b]? = some v) : ¬ v.Served := by
  obtain ⟨f, ss, task, -⟩ := hf
  obtain rfl := Option.some.inj (task.symm.trans hv)
  intro served
  cases served

/-- While the task of a compile that has passed its check makes no move, nothing happens to the
workspace. -/
theorem Lone.still (hl : h.Lone u b r roots) (hv : h.tasks[b]? = some v) (served : v.Served)
    (hs : Step h l k) (internal : l.Internal) (rests : h.turn = some b → h.cue? b = none) :
    k.workspace = h.workspace := by
  cases hs.effect with
  | @move t q ss k turn cue workspace =>
    by_cases he : t = b
    · subst he
      cases (rests turn).symm.trans cue
    · obtain ⟨o, ended⟩ := hl.alone (fun fails => fails.not_served hv served) hv served.waits he
        (lt_of_cue? cue)
      cases (outcome?_of_cue? cue).symm.trans ended
  | quiet still silent workspace => exact workspace
  | announce turn ended workspace => exact workspace
  | answer turn asked admits workspace => exact workspace
  | start => exact internal.elim
  | change => exact internal.elim

/-- A host on which a lone compile is under way, and what is known of its workspace. -/
structure Serving (u : Setup) (b : TaskId) (r : CompileRequest) (roots : List Job) (h : Host) :
    Prop extends Lone u b r roots h where
  macros : h.Macros
  active : h.tasks[b]? = some ⟨.begin (.compile r), []⟩ ∨
    h.workspace.fingerprint = some r.fingerprint
  served : ∀ {v : Task}, h.tasks[b]? = some v → v.Served → h.workspace.Equipped u.settings r

namespace Serving

/-- Only the task of the compile begins a compile. -/
theorem begins (hi : h.Serving u b r roots) {r' : CompileRequest} (hb : h.Begins r') :
    r' = r ∧ h.turn = some b ∧ h.cue? b = some (.begin (.compile r), []) := by
  obtain ⟨t, ss, turn, cue⟩ := hb
  obtain ⟨root, hr, fits⟩ := hi.fits.tasks (cue?_eq_begin.1 cue)
  cases fits with
  | begin frames =>
    have rank : 14 ≤ root.rank u.settings := frames.rank_le
    obtain rfl : t = b := by
      rcases Nat.lt_trichotomy t b with lt | rfl | gt
      · obtain ⟨o, ended⟩ := hi.before t lt
        cases (outcome?_of_cue? cue).symm.trans ended
      · rfl
      · have := hi.helpers gt hr
        omega
    obtain rfl := Option.some.inj (hi.root.symm.trans hr)
    obtain ⟨rfl, rfl⟩ := frames.compile
    exact ⟨rfl, turn, cue⟩

theorem active_step (hi : h.Serving u b r roots) (hs : Step h l k) (internal : l.Internal) :
    k.tasks[b]? = some ⟨.begin (.compile r), []⟩ ∨
      k.workspace.fingerprint = some r.fingerprint := by
  by_cases hb : ∃ r', h.Begins r'
  · obtain ⟨r', hb⟩ := hb
    obtain ⟨rfl, -, -⟩ := hi.begins hb
    exact .inr (hs.effect.activates hb).1
  · have compiling : l.Compiling := by
      cases l with
      | started => exact internal.elim
      | changed => exact internal.elim
      | _ => trivial
    rw [hs.effect.fingerprint compiling fun r' hr => hb ⟨r', hr⟩]
    refine hi.active.imp_left fun task => ?_
    obtain ⟨x, hx, becomes⟩ := hs.becomes task
    cases becomes with
    | kept => exact hx
    | heard turn ended hears => exact hx.trans (congrArg some hears.symm)
    | went turn cue =>
      exact (hb ⟨r, b, [], turn, cue?_eq_begin.2 task⟩).elim

/-- Where the task of the compile passes its check, or succeeds, by its move. -/
theorem served_went (hr : u.Runs ls h) (hi : h.Serving u b r roots)
    (cue : h.cue? b = some (q, ss)) (moves : h.moved ss (h.next q).2 = x) (served : x.Served) :
    (h.next q).1.Equipped u.settings r := by
  have hE := Expectation.wellFormed_met u
  obtain ⟨root, owner, root_eq, frames, hq⟩ := hi.fits.cue cue
  obtain rfl := Option.some.inj (hi.root.symm.trans root_eq)
  have suits := hi.fits.suits hE.toFormed (from_of_runs hr) hq
  cases served with
  | @asking query comp =>
    obtain ⟨st, hm, stages⟩ := ask_of_moved moves
    obtain ⟨rfl, rfl⟩ := List.cons.inj stages
    rw [hm] at suits
    cases suits with
    | @transformed _ registry prepared =>
      obtain ⟨rfl, -⟩ := frames.compile
      obtain ⟨comp', p, rfl, -, hst, -⟩ := Work.told_of_transform hq hm
      obtain rfl := Stage.transformed.inj hst
      have told := cue?_eq_told.1 cue
      have active : h.workspace.fingerprint = some comp.request.fingerprint :=
        hi.active.resolve_left fun begun => by cases told.symm.trans begun
      exact ⟨active, comp, rfl, prepared, ((checked_of_runs hr).told told).2, hi.macros.told told⟩
  | told =>
    obtain ⟨o, hm, -, rfl⟩ | ⟨st, stage, stages⟩ := stages_of_moved moves
    · cases frames with
      | under outer awaits => cases awaits
    · obtain ⟨rfl, rfl⟩ := List.cons.inj stages
      generalize (h.next q).2 = m at moves suits stage
      cases m with
      | await st' w =>
        obtain rfl := Option.some.inj stage
        obtain ⟨j, -, awaits⟩ := suits
        cases awaits
      | gather st' js =>
        obtain rfl := Option.some.inj stage
        cases suits
      | finish o => cases stage
      | _ => cases moves
  | ended =>
    obtain ⟨o, hm, focus, rfl⟩ | ⟨st, stage, stages⟩ := stages_of_moved moves
    · cases focus
      cases frames with
      | root =>
        obtain ⟨comp, t, rfl, workspace⟩ := Work.told_of_compiled hq hm
        have equipped := hi.served (cue?_eq_told.1 cue) .told
        rw [next, workspace]
        exact ⟨equipped.active, equipped.supplied⟩
    · cases stages

theorem served_step (hr : u.Runs ls h) (hi : h.Serving u b r roots) (hs : Step h l k)
    (internal : l.Internal) (hx : k.tasks[b]? = some x) (served : x.Served) :
    k.workspace.Equipped u.settings r := by
  obtain ⟨v, hv, becomes⟩ | ⟨j, rfl, -⟩ := hs.came hx
  · have still (served : v.Served) (rests : h.turn = some b → h.cue? b = none) :
        k.workspace.Equipped u.settings r :=
      hi.still hv served hs internal rests ▸ hi.served hv served
    obtain ⟨root, -, fits⟩ := hi.fits.tasks hv
    cases becomes with
    | kept rests => exact still served rests
    | @heard _ _ t o turn ended hears =>
      cases goes : v.waits with
      | false =>
        rw [Task.hear_of_waits goes] at hears
        subst hears
        refine still served fun now => ?_
        obtain rfl := Option.some.inj (turn.symm.trans now)
        simp [cue?, ended]
      | true =>
        obtain ⟨st, rest, owner, src, stages, awaits, source⟩ := fits.waits goes
        have same := (Task.stages_hear v t o).symm.trans (congrArg Task.stages hears)
        rw [stages] at same
        cases served with
        | ended => cases same
        | _ =>
          obtain ⟨rfl, -⟩ := List.cons.inj same
          cases awaits
          obtain ⟨j, source⟩ | ⟨js, source⟩ := source <;> cases source
    | told turn label =>
      refine still ?_ fun _ => by simp [cue?, hv]
      cases served with
      | told => exact .asking
      | ended => cases fits
    | went turn cue label workspace moves => exact workspace ▸ hi.served_went hr cue moves served
  · cases served

/-- When callers start the compile of a request on a host on which every task has ended. -/
theorem start (hr : u.Runs xs h) (rest : ∀ t < h.tasks.length, ∃ o, h.outcome? t = some o)
    (hs : Step h (.started [.compile r]) k) :
    ∃ roots, k.Serving u h.tasks.length r roots ∧ ∀ t, ¬ k.Opened t := by
  obtain ⟨roots, headed⟩ := Headed.start hr rest hs
  have stages {t : TaskId} {x : Task} (hx : k.tasks[t]? = some x) : x.stages = [] := by
    obtain ⟨-, o, rfl⟩ | ⟨-, rfl⟩ := hs.started_alone rest hx <;> rfl
  have begun {x : Task} (hx : k.tasks[h.tasks.length]? = some x) :
      x = ⟨.begin (.compile r), []⟩ := by
    obtain ⟨lt, -⟩ | ⟨-, rfl⟩ := hs.started_alone rest hx
    · exact (Nat.lt_irrefl _ lt).elim
    · rfl
  refine ⟨roots, ⟨⟨headed, .inl fun t v hv hne none => ?_⟩,
    ⟨fun hv hst => ?_, fun hv => ?_⟩, .inl ?_, fun hv served => ?_⟩, fun t ⟨p, st, ss, hv, _⟩ => ?_⟩
  · obtain ⟨-, o, rfl⟩ | ⟨he, -⟩ := hs.started_alone rest hv
    · cases none
    · exact (hne he).elim
  · simp [stages hv] at hst
  · cases stages hv
  · obtain ⟨x, hx⟩ : ∃ x, k.tasks[h.tasks.length]? = some x :=
      ⟨_, List.getElem?_eq_getElem (by
        rw [headed.fits.length]
        exact (List.getElem?_eq_some_iff.1 headed.root).1)⟩
    exact begun hx ▸ hx
  · obtain rfl := begun hv
    cases served
  · cases stages hv

end Serving

/-- A compile that succeeds on a host where nothing else is at work leaves nothing at work, and it
leaves everything behind that its request needs. -/
theorem equipped_of_compiled {p : Reply} (hr : u.Runs xs h)
    (rest : ∀ t < h.tasks.length, ∃ o, h.outcome? t = some o)
    (hs : Step h (.started [.compile r]) k) (hk : Steps k rs m) (internal : ∀ l ∈ rs, l.Internal)
    (done : m.outcome? h.tasks.length = some (.ok p)) :
    m.workspace.Equipped u.settings r ∧ ∀ t < m.tasks.length, ∃ o, m.outcome? t = some o := by
  obtain ⟨roots, start, unopened⟩ := Serving.start hr rest hs
  have hk' := hr.snoc hs
  have kept : (∀ l ∈ rs, l.Internal) → ∃ roots, m.Serving u h.tasks.length r roots := by
    refine Steps.forward (P := fun rs m => (∀ l ∈ rs, l.Internal) →
      ∃ roots, m.Serving u h.tasks.length r roots) (fun _ => ⟨roots, start⟩) ?_ hk
    intro rs g n l hg ih hs internal
    have before : ∀ l ∈ rs, l.Internal := fun l hl => internal l (by simp [hl])
    have own : l.Internal := internal l (by simp)
    obtain ⟨roots, hi⟩ := ih before
    have hr := hk'.trans hg
    obtain ⟨js, -, lone⟩ := hi.toLone.step hr hs own
    exact ⟨_, lone, .step hk' unopened hg before hi.macros hs own, hi.active_step hs own,
      hi.served_step hr hs own⟩
  obtain ⟨roots, hi⟩ := kept internal
  obtain ⟨v, hv, ended⟩ := Option.bind_eq_some_iff.1 done
  obtain rfl := Task.outcome?_eq_some.1 ended
  refine ⟨hi.served hv .ended, fun t ht => ?_⟩
  by_cases he : t = h.tasks.length
  · exact ⟨_, he ▸ done⟩
  · exact hi.alone (fun fails => fails.not_served hv .ended) hv rfl he ht

end Host

end PluginHost
