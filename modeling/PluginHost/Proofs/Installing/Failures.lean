import PluginHost.Proofs.Fetching.Sharing
import PluginHost.Proofs.Host.Company
import PluginHost.Proofs.Installing.Hits

/-!
Installs that fail. Wherever such an install stops, it leaves the installed modules as they were,
or, once it has recovered, as they are at the start. Seeding makes no name appear that was not there.
-/
namespace PluginHost

namespace Inventory

variable {c : Inventory} {kind : ModuleKind} {name : String} {b : Builtins} {generation : Nat}

/-- The same modules after another number of resets. -/
def dated (c : Inventory) (generation : Nat) : Inventory := { c with generation := generation }

theorem register_dated (c : Inventory) (kind : ModuleKind) (name : String) (v : Value)
    (canonical : Option String) (builtin : Bool) (generation : Nat) :
    (c.dated generation).register kind name v canonical builtin =
      (c.register kind name v canonical builtin).dated generation := by
  have bound (c : Inventory) (key : String) (names : List String) :
      (c.dated generation).bindAll kind key names =
        (c.bindAll kind key names).dated generation := by
    induction names generalizing c with
    | nil => rfl
    | cons name names ih => exact ih (c.bind kind key name)
  unfold register
  rw [← bound]
  rfl

theorem remap_dated (c : Inventory) (name target : String) (generation : Nat) :
    (c.dated generation).remap name target = (c.remap name target).dated generation := by
  have found (name : String) : (c.dated generation).find? .plugin name = c.find? .plugin name := rfl
  unfold Inventory.remap contains
  rw [found, found]
  by_cases taken : (c.find? .plugin name).isSome = true
  · rw [if_pos taken, if_pos taken]
  · rw [if_neg taken, if_neg taken]
    cases c.find? .plugin target <;> rfl

/-- Seeding does not depend on the number of resets. -/
theorem seeded_dated (b : Builtins) (generation : Nat) :
    seeded b generation = (seeded b 0).dated generation := by
  have registered (c : Inventory) (kind : ModuleKind) (modules : List (String × Value)) :
      registerBuiltins (c.dated generation) kind modules =
        (registerBuiltins c kind modules).dated generation :=
    List.foldl_hom (dated · generation) fun c m =>
      register_dated c kind m.1 m.2 none true generation
  have remapped (c : Inventory) (remaps : List (String × String)) :
      remaps.foldl (fun c r => c.remap r.1 r.2) (c.dated generation) =
        (remaps.foldl (fun c r => c.remap r.1 r.2) c).dated generation :=
    List.foldl_hom (dated · generation) fun c r => remap_dated c r.1 r.2 generation
  unfold seeded
  rw [← remapped, ← registered, ← registered]
  rfl

/-- Every name that is bound from the start is bound. -/
structure Covers (c : Inventory) : Prop where
  answers : ∀ {kind : ModuleKind} {name : String},
    (seeded c.builtins 0).Answers kind name → c.Answers kind name

namespace Covers

theorem seeded (b : Builtins) (generation : Nat) : (seeded b generation).Covers := by
  refine ⟨fun {kind name} ha => ?_⟩
  rw [builtins_seeded] at ha
  rw [seeded_dated]
  exact ha

theorem addAlias {i : Inventory} {key : String} (hc : c.Covers)
    (spelt : c.addAlias kind name key = .ok i) : i.Covers := by
  obtain ⟨j, m, -, rfl⟩ := addAlias_eq_ok spelt
  exact ⟨fun ha => (hc.answers ha).bind ..⟩

theorem register (hc : c.Covers) (kind : ModuleKind) (name : String) (v : Value)
    (canonical : Option String) (builtin : Bool) :
    (c.register kind name v canonical builtin).Covers :=
  ⟨fun ha => (hc.answers (builtins_register .. ▸ ha)).register ..⟩

/-- What is installed from the start is installed. -/
theorem contains (hc : c.Covers) (sound : c.Sound)
    (found : (Inventory.seeded c.builtins generation).contains kind name = true) :
    c.contains kind name = true := by
  rw [seeded_dated] at found
  exact sound.contains ((answers_of_contains found).imp hc.answers hc.answers)

end Covers

end Inventory

namespace Host

variable {u : Setup} {h : Host} {ls : List Label}

/-- What is installed from the start is installed at every moment of a run. -/
theorem covers_of_runs (hr : u.Runs ls h) : h.workspace.inventory.Covers :=
  inventory_induction Inventory.Covers.seeded (fun spelt hc => hc.addAlias spelt)
    (fun _ kind name v canonical builtin hc => hc.register kind name v canonical builtin) hr

end Host

variable {s : Settings} {E : Expectation} {roots : List Job} {owner j : Job} {q : Cue}
  {c : Workspace} {w : Wanted} {fresh : TaskId} {st : Stage} {ss : List Stage} {x : Task}
  {o : Outcome} {f : Failure}

/-- A job that ranks below every installation leaves the installed modules alone. -/
theorem Cue.For.alike_of_rank (hq : q.For s E owner) (low : owner.rank s < 10) :
    c.Alike (q.move fresh c).1 := by
  have goes := q.goes fresh c
  generalize q.move fresh c = r at goes ⊢
  cases hq with
  | begin =>
    cases goes with
    | installThere | roundFirst | compileBegun | compileRefused => simp [Job.rank] at low
    | _ => exact ⟨rfl, rfl, rfl, rfl⟩
  | told awaits gives =>
    cases goes with
    | registered | evaluationMended | macrosReady | roundRepeated | engineMended =>
      cases awaits
      simp [Job.rank] at low
    | _ => exact ⟨rfl, rfl, rfl, rfl⟩

/-- An installation leaves the installed modules alone, unless it goes on after a recovery, or
succeeds. -/
theorem Cue.For.inventory_of_installFresh (hq : q.For s E (.installFresh w)) :
    (q.move fresh c).1.inventory = c.inventory ∨
      (∃ i r, q = .told (.evaluationMended i) (.ok r) ∧ i.wanted = w ∧
        (q.move fresh c).1.inventory = c.inventory.reset) ∨
      ∃ r, (q.move fresh c).2 = .finish (.ok r) := by
  have goes := q.goes fresh c
  generalize q.move fresh c = r at goes ⊢
  cases hq with
  | begin =>
    cases goes
    exact .inl rfl
  | told awaits gives =>
    cases goes with
    | registered => exact .inr (.inr ⟨_, rfl⟩)
    | evaluationMended =>
      cases awaits
      exact .inr (.inl ⟨_, _, rfl, rfl, rfl⟩)
    | macrosReady | roundRepeated | engineMended => cases awaits
    | _ => exact .inl rfl

/-- A stage that passes on whatever it is told and leaves the installed modules alone. -/
structure Stage.Passes (st : Stage) : Prop where
  finishes : ∀ o c, (st.resume o c).2 = .finish o
  inventory : ∀ o c, (st.resume o c).1.inventory = c.inventory

theorem Stage.passes_passOn : Stage.passOn.Passes := ⟨fun _ _ => rfl, fun _ _ => rfl⟩

theorem Stage.passes_installOwned (key : ModuleName) : (Stage.installOwned key).Passes :=
  ⟨fun _ _ => rfl, fun _ _ => rfl⟩

/-- An install is run in the place of no job but what installs one module of many. -/
theorem Job.Frames.install {root : Job} (hf : root.Frames s (.install w) ss) :
    ss = [] ∨ ∃ v, ss = [.oneTried v] := by
  cases hf with
  | root => exact .inl rfl
  | under outer awaits =>
    cases awaits with
    | oneTried =>
      cases outer with
      | root => exact .inr ⟨_, rfl⟩
      | under outer awaits => cases awaits

namespace Host

variable {u : Setup} {h k m g : Host} {t v i : TaskId} {l : Label} {ls rs : List Label}

/-- No other task is running: each has ended, or waits for another one. -/
def Alone (h : Host) (t : TaskId) : Prop :=
  ∀ i x, h.tasks[i]? = some x → i ≠ t → x.waits = true ∨ ∃ o, h.outcome? i = some o

/-- Every task but one is as it was. -/
def Stands (m : Host) (t : TaskId) (g : Host) : Prop :=
  ∀ i x, m.tasks[i]? = some x → i ≠ t → g.tasks[i]? = some x

namespace Stands

/-- No task that was there makes a move. -/
theorem rests (stands : m.Stands t g) (alone : m.Alone t) (hx : m.tasks[i]? = some x)
    (hne : i ≠ t) : g.cue? i = none := by
  have same := stands i x hx hne
  obtain waits | ⟨o, ended⟩ := alone i x hx hne
  · exact Task.cue?_of_waits waits same
  · cases cue : g.cue? i with
    | none => rfl
    | some r =>
      rw [outcome?_eq hx, ← outcome?_eq same] at ended
      cases (outcome?_of_cue? cue).symm.trans ended

/-- While a task that was alone at work has not ended, the others hear of nothing that they wait
for. -/
theorem step (stands : m.Stands t g) (hm : u.Runs ls m) (turn : m.turn = some t)
    (alone : m.Alone t) (going : g.outcome? t = none) (hs : Step g l k) : m.Stands t k := by
  intro i x hx hne
  obtain ⟨y, hy, becomes⟩ := hs.becomes (stands i x hx hne)
  cases becomes with
  | kept => exact hy
  | @heard _ _ a o now ended hears =>
    rw [hy, ← hears, Task.hear_of_not_expects]
    intro expects
    obtain ⟨roots, hf⟩ := fits_of_runs hm
    obtain ⟨z, hz⟩ : ∃ z, m.tasks[a]? = some z :=
      ⟨_, List.getElem?_eq_getElem (hf.lt_of_expects hx expects)⟩
    have other : a ≠ t := by
      rintro rfl
      cases going.symm.trans (outcome?_eq ended)
    obtain rfl := Option.some.inj ((stands a z hz other).symm.trans ended)
    obtain none | own := (awake_of_runs hm).owes_of_expects hx expects
    · cases none.symm.trans (outcome?_eq hz)
    · exact other (Option.some.inj (own.symm.trans turn))
  | told _ label =>
    obtain waits | ⟨o, ended⟩ := alone i _ hx hne
    · cases waits
    · cases (outcome?_eq hx).symm.trans ended
  | went _ cue => cases (stands.rests alone hx hne).symm.trans cue

end Stands

/-- A task that was alone at work leaves its install to another one, and beside that one there are
only tasks that work for it. -/
structure Delegates (u : Setup) (m : Host) (w : Wanted) (t v : TaskId) (st : Stage)
    (ss : List Stage) (roots : List Job) (g : Host) : Prop where
  fits : g.Fits u.settings (.wellFormed u) roots
  stands : m.Stands t g
  heeds : ∃ f, g.tasks[t]? = some ⟨f, st :: ss⟩ ∧ g.Heeds v f
  helpers : ∀ {i : TaskId} {j : Job}, m.tasks.length ≤ i → roots[i]? = some j →
    i = v ∧ j = .installFresh w ∨ j.rank u.settings < 10

namespace Delegates

theorem unended (hd : m.Delegates u w t v st ss roots g) : g.outcome? t = none := by
  obtain ⟨f, hf, -⟩ := hd.heeds
  rw [outcome?_eq hf]
  cases f <;> rfl

/-- The task that waits goes on with what the other one has ended with. -/
theorem told {rest : List Stage} (hd : m.Delegates u w t v st ss roots g)
    (cue : g.cue? t = some (q, rest)) :
    ∃ o, q = .told st o ∧ rest = ss ∧ g.outcome? v = some o := by
  obtain ⟨f, hf, waits | ⟨o, resumes, ended⟩⟩ := hd.heeds
  · subst waits
    simp [cue?, hf] at cue
  · subst resumes
    obtain ⟨rfl, rfl⟩ := cue?_inj (cue?_eq_told.2 hf) cue
    exact ⟨o, rfl, rfl, ended⟩

/-- What a move of any other task starts, and what it does to the installed modules. -/
theorem move {rest : List Stage} {xs : List Label} (hd : m.Delegates u w t v st ss roots g)
    (alone : m.Alone t) (hr : u.Runs xs g) (cue : g.cue? i = some (q, rest)) (hne : i ≠ t) :
    (∀ j ∈ (g.next q).2.jobs, j.rank u.settings < 10) ∧
      ((g.next q).1.inventory = g.workspace.inventory ∨
        (∃ a r, q = .told (.evaluationMended a) (.ok r) ∧ a.wanted = w ∧
          (g.next q).1.inventory = g.workspace.inventory.reset) ∨
        i = v ∧ rest = [] ∧ ∃ r, (g.next q).2 = .finish (.ok r)) := by
  obtain ⟨root, owner, hroot, frames, hq⟩ := hd.fits.cue cue
  have le := frames.rank_le
  have late : m.tasks.length ≤ i := by
    refine Nat.not_lt.1 fun lt => ?_
    cases (hd.stands.rests alone (List.getElem?_eq_getElem lt) hne).symm.trans cue
  have starts (bound : root.rank u.settings ≤ 10) :
      ∀ j ∈ (g.next q).2.jobs, j.rank u.settings < 10 := fun j hj =>
    have suits :=
      hd.fits.suits (Expectation.wellFormed_met u).toFormed (from_of_runs hr) hq
    Nat.lt_of_lt_of_le (suits.rank_lt hj) (Nat.le_trans le bound)
  -- Only the installation itself is not below rank 10, and it is run beneath nothing else.
  by_cases low : owner.rank u.settings < 10
  · refine ⟨starts ?_, .inl (hq.alike_of_rank low).inventory⟩
    obtain ⟨-, rfl⟩ | lower := hd.helpers late hroot
    · exact Nat.le_refl 10
    · exact Nat.le_of_lt lower
  · obtain ⟨hit, rfl⟩ | lower := hd.helpers late hroot
    · obtain ⟨rfl, rfl⟩ := frames.top (Nat.not_lt.1 low)
      refine ⟨starts (Nat.le_refl 10), ?_⟩
      obtain same | recovers | succeeds := hq.inventory_of_installFresh
      · exact .inl same
      · exact .inr (.inl recovers)
      · exact .inr (.inr ⟨hit, rfl, succeeds⟩)
    · omega

/-- The task waits on, with what the other one works with, or it returns. -/
theorem step {xs : List Label} (hd : m.Delegates u w t v st ss roots g) (passes : st.Passes)
    (hm : u.Runs ls m) (turn : m.turn = some t) (alone : m.Alone t) (hr : u.Runs xs g)
    (hs : Step g l k) (internal : l.Internal) :
    (∃ js, m.Delegates u w t v st ss (roots ++ js) k) ∨
      ∃ o, k.tasks[t]? = some ⟨.resume o, ss⟩ := by
  obtain ⟨f, hf, heeds⟩ := hd.heeds
  obtain stays | ⟨o, -, goes⟩ := hs.heeds hf heeds
  · left
    obtain ⟨js, spawns, fits⟩ := hd.fits.effect (Expectation.wellFormed_met u) (from_of_runs hr)
      hs.effect fun _ _ _ _ ha => ha
    refine ⟨js, fits, hd.stands.step hm turn alone hd.unended hs, stays, fun {i j} late hj => ?_⟩
    rw [List.getElem?_append] at hj
    split at hj
    · exact hd.helpers late hj
    · have member := List.mem_of_getElem? hj
      cases spawns with
      | none => cases member
      | start => exact internal.elim
      | @move _ a q rest now cue apart =>
        by_cases own : a = t
        · subst own
          obtain ⟨o, rfl, -⟩ := hd.told cue
          rw [show (g.next (.told st o)).2 = .finish o from passes.finishes ..] at member
          cases member
        · exact .inr ((hd.move alone hr cue own).1 j member)
  · rw [show (g.next (.told st o)).2 = .finish o from passes.finishes ..] at goes
    exact .inr ⟨o, goes⟩

/-- What the task returns with is what the other one has ended with. -/
theorem returns (hd : m.Delegates u w t v st ss roots g) (passes : st.Passes) (hs : Step g l k)
    (returned : k.tasks[t]? = some ⟨.resume o, ss⟩) :
    k.workspace.inventory = g.workspace.inventory ∧ g.outcome? v = some o := by
  obtain ⟨f, hf, -⟩ := hd.heeds
  obtain ⟨y, hy, becomes⟩ := hs.becomes hf
  obtain rfl := Option.some.inj (hy.symm.trans returned)
  cases becomes with
  | heard now ended hears => exact (List.cons_ne_self _ _ (stages_of_hear hears)).elim
  | went now cue label workspace moves =>
    obtain ⟨p, rfl, rfl, ended⟩ := hd.told cue
    rw [show (g.next (.told st p)).2 = .finish p from passes.finishes ..] at moves
    cases moves
    exact ⟨workspace ▸ passes.inventory .., ended⟩

end Delegates

/-- At some moment of the steps from a host `P` held. -/
def Amid (m : Host) (rs : List Label) (h : Host) (P : Host → Prop) : Prop :=
  ∃ xs ys g, rs = xs ++ ys ∧ Steps m xs g ∧ Steps g ys h ∧ P g

namespace Amid

variable {P : Host → Prop}

theorem snoc (ha : m.Amid rs g P) (hs : Step g l k) : m.Amid (rs ++ [l]) k P := by
  obtain ⟨xs, ys, n, rfl, before, after, holds⟩ := ha
  exact ⟨xs, ys ++ [l], n, by simp, before, after.snoc hs, holds⟩

theorem now (hg : Steps m rs g) (holds : P g) (hs : Step g l k) : m.Amid (rs ++ [l]) k P :=
  ⟨rs, [l], g, rfl, hg, .cons hs .refl, holds⟩

end Amid

/-- The task with the turn goes on after a recovery on account of an installation. -/
def Recovers (w : Wanted) (h : Host) : Prop :=
  ∃ t i r ss, h.turn = some t ∧ h.cue? t = some (.told (.evaluationMended i) (.ok r), ss) ∧
    i.wanted = w

/-- The installed modules are as they were, or, after a recovery, as they are at the start. -/
def Reverts (u : Setup) (m : Host) (w : Wanted) (rs : List Label) (h : Host) : Prop :=
  h.workspace.inventory = m.workspace.inventory ∨
    h.workspace.inventory = .seeded u.builtins h.workspace.inventory.generation ∧
      m.Amid rs h (Recovers w)

theorem Reverts.snoc (hv : m.Reverts u w rs g) (hs : Step g l k)
    (same : k.workspace.inventory = g.workspace.inventory) : m.Reverts u w (rs ++ [l]) k := by
  rw [Reverts, same]
  exact hv.imp_right fun ⟨seeded, amid⟩ => ⟨seeded, amid.snoc hs⟩

/-- Unless the other task succeeds, the installed modules are left alone or dropped. -/
theorem Reverts.step {xs : List Label} (hv : m.Reverts u w rs g)
    (hd : m.Delegates u w t v st ss roots g) (passes : st.Passes) (alone : m.Alone t)
    (hr : u.Runs xs g) (hg : Steps m rs g) (hs : Step g l k) (internal : l.Internal) :
    (∃ r, k.outcome? v = some (.ok r)) ∨ m.Reverts u w (rs ++ [l]) k := by
  have effect := hs.effect
  cases effect with
  | quiet still silent workspace => exact .inr (hv.snoc hs (by rw [workspace]))
  | announce turn ended workspace => exact .inr (hv.snoc hs (by rw [workspace]))
  | answer turn asked admits workspace => exact .inr (hv.snoc hs (by rw [workspace]))
  | start idle workspace => exact .inr (hv.snoc hs (by rw [workspace]))
  | change => exact internal.elim
  | @move a q rest k now cue workspace tasks =>
    by_cases own : a = t
    · subst own
      obtain ⟨o, rfl, -⟩ := hd.told cue
      refine .inr (hv.snoc hs ?_)
      rw [workspace]
      exact passes.inventory ..
    · obtain same | ⟨b, r, rfl, wanted, reset⟩ | ⟨rfl, rfl, r, finishes⟩ :=
        (hd.move alone hr cue own).2
      · exact .inr (hv.snoc hs (by rw [workspace, same]))
      · refine .inr (.inr ⟨?_, .now hg ⟨a, b, r, rest, now, cue, wanted⟩ hs⟩)
        rw [workspace, reset, Inventory.reset, Inventory.generation_seeded,
          (from_of_runs hr).builtins]
      · refine .inl ⟨r, ?_⟩
        have own := (hs.went now cue).2.2
        rw [finishes] at own
        exact (outcome?_eq own).trans rfl

/-- A task has returned from a job that it ran where `ss` wait. -/
def Returned (h : Host) (t : TaskId) (ss : List Stage) : Prop :=
  (∃ o, h.tasks[t]? = some ⟨.resume o, ss⟩) ∨ ∃ o, h.tasks[t]? = some ⟨.resume o, []⟩

theorem stages_of_install (hm : u.Runs ls m) (cue : m.cue? t = some (.begin (.install w), ss)) :
    ss = [] ∨ ∃ v, ss = [.oneTried v] := by
  obtain ⟨roots, hf⟩ := fits_of_runs hm
  obtain ⟨root, owner, -, frames, hq⟩ := hf.cue cue
  cases hq with
  | begin => exact frames.install

/-- A task that has returned from an install does so once. -/
theorem Returned.step (hr : g.Returned t ss) (shape : ss = [] ∨ ∃ v, ss = [.oneTried v])
    (hs : Step g l k) :
    k.Returned t ss ∧
      ∀ o, k.tasks[t]? = some ⟨.resume o, ss⟩ → g.tasks[t]? = some ⟨.resume o, ss⟩ := by
  have stays (same : k.tasks[t]? = g.tasks[t]?) : k.Returned t ss ∧
      ∀ o, k.tasks[t]? = some ⟨.resume o, ss⟩ → g.tasks[t]? = some ⟨.resume o, ss⟩ :=
    ⟨by rwa [Returned, same], fun _ returned => same.symm.trans returned⟩
  have rests {o : Outcome} (ended : g.tasks[t]? = some ⟨.resume o, []⟩) :
      k.tasks[t]? = g.tasks[t]? := by
    obtain ⟨y, hy, outcome⟩ := Option.bind_eq_some_iff.1 (hs.ended (outcome?_eq ended))
    rw [hy, ended, Task.outcome?_eq_some.1 outcome]
  obtain ⟨o, returned⟩ | ⟨o, ended⟩ := hr
  · obtain rfl | ⟨v, rfl⟩ := shape
    · exact stays (rests returned)
    · obtain ⟨y, hy, becomes⟩ := hs.becomes returned
      cases becomes with
      | kept => exact stays (hy.trans returned.symm)
      | heard now ended hears => exact stays (hy.trans (hears ▸ returned.symm))
      | @went _ _ q rest now cue label workspace moves =>
        obtain ⟨rfl, rfl⟩ :=
          cue?_inj (cue?_eq_told.2 returned) cue
        obtain ⟨p, rfl⟩ : ∃ p, y = ⟨.resume p, []⟩ := by
          rw [← moves]
          cases o <;> exact ⟨_, rfl⟩
        exact ⟨.inr ⟨p, hy⟩, fun _ again => by cases hy.symm.trans again⟩
  · exact stays (rests ended)

/-- An install that does not find its module leaves it to another task. -/
theorem Step.delegates (hm : u.Runs ls m) (turn : m.turn = some t)
    (cue : m.cue? t = some (.begin (.install w), ss)) (alone : m.Alone t)
    (missing : m.workspace.inventory.contains w.kind w.name = false) (hs : Step m l k) :
    k.workspace.inventory = m.workspace.inventory ∧
      ∃ (v : TaskId) (st : Stage) (roots : List Job), st.Passes ∧
        m.Delegates u w t v st ss roots k := by
  obtain ⟨before, hf⟩ := fits_of_runs hm
  obtain ⟨js, spawns, fits⟩ := hf.effect (Expectation.wellFormed_met u) (from_of_runs hm) hs.effect
    fun _ _ _ _ ha => ha
  obtain ⟨label, workspace, goes⟩ := hs.went turn cue
  have nothing : m.workspace.inventory.find? w.kind w.name = none := by
    simpa [Inventory.contains] using missing
  have stands : m.Stands t k :=
    Stands.step (fun _ _ hx _ => hx) hm turn alone (outcome?_of_cue? cue) hs
  have started : js = [] ∨ js = (m.next (.begin (.install w))).2.jobs := by
    cases spawns with
    | none => exact .inl rfl
    | @move _ a q rest now found apart =>
      obtain rfl := Option.some.inj (now.symm.trans turn)
      obtain ⟨rfl, rfl⟩ := cue?_inj found cue
      exact .inr rfl
    | start => exact (Move.label_ne_started _ _ _ label.symm).elim
  have new {i : TaskId} {j : Job} (late : m.tasks.length ≤ i) (hj : (before ++ js)[i]? = some j) :
      js[i - m.tasks.length]? = some j := by
    rwa [List.getElem?_append_right (hf.length ▸ late), ← hf.length] at hj
  -- The other task is at work already, or it is launched now, as the first helper.
  cases pending : m.workspace.installing.get? w.key with
  | some v =>
    have joins : m.next (.begin (.install w)) = (m.workspace, .await .passOn v) :=
      next_of_begins (.installJoined nothing pending)
    refine ⟨by rw [workspace, joins], v, .passOn, _, Stage.passes_passOn, fits, stands,
      hs.shares_of_await turn cue (congrArg Prod.snd joins), fun late hj => ?_⟩
    obtain rfl : js = [] := by simpa [joins, Move.jobs] using started
    cases new late hj
  | none =>
    have launches : m.next (.begin (.install w)) =
        ({ m.workspace with
            installing := m.workspace.installing.insert w.key m.tasks.length },
          .launch (.installOwned w.key) (.installFresh w)) :=
      next_of_begins (.installLaunched nothing pending)
    rw [launches] at goes
    refine ⟨by rw [workspace, launches], m.tasks.length, .installOwned w.key, _,
      Stage.passes_installOwned _, fits, stands, ⟨_, goes, .inl rfl⟩, fun {i j} late hj => ?_⟩
    have only := new late hj
    obtain rfl | rfl : js = [] ∨ js = [.installFresh w] := by
      simpa [launches, Move.jobs] using started
    · cases only
    · have one : i - m.tasks.length < 1 := (List.getElem?_eq_some_iff.1 only).1
      have first : i - m.tasks.length = 0 := Nat.lt_one_iff.1 one
      rw [first] at only
      exact .inl ⟨Nat.le_antisymm (Nat.le_of_sub_eq_zero first) late,
        (Option.some.inj only).symm⟩

/-- While a task has not returned from its install, the one that it has left it to succeeds, or the
installed modules are left alone or dropped. -/
theorem Steps.delegates (hm : u.Runs ls m) (turn : m.turn = some t)
    (cue : m.cue? t = some (.begin (.install w), ss)) (alone : m.Alone t)
    (missing : m.workspace.inventory.contains w.kind w.name = false) (first : Step m l k)
    (hg : Steps k rs g) (internal : ∀ r ∈ rs, r.Internal) :
    (∃ (v : TaskId) (st : Stage) (roots : List Job), st.Passes ∧
      m.Delegates u w t v st ss roots g ∧
        ((∃ r, g.outcome? v = some (.ok r)) ∨ m.Reverts u w (l :: rs) g)) ∨
      g.Returned t ss := by
  revert internal
  refine Steps.forward (P := fun rs g => (∀ r ∈ rs, r.Internal) →
    (∃ (v : TaskId) (st : Stage) (roots : List Job), st.Passes ∧
      m.Delegates u w t v st ss roots g ∧
        ((∃ r, g.outcome? v = some (.ok r)) ∨ m.Reverts u w (l :: rs) g)) ∨
      g.Returned t ss) ?_ ?_ hg
  · intro _
    obtain ⟨same, v, st, roots, passes, hd⟩ := first.delegates hm turn cue alone missing
    exact .inl ⟨v, st, roots, passes, hd, .inr (.inl same)⟩
  · intro rs g n r hg ih hs internal
    rw [List.forall_mem_append, List.forall_mem_singleton] at internal
    obtain ⟨within, last⟩ := internal
    have steps : Steps m (l :: rs) g := .cons first hg
    have run := hm.trans steps
    obtain ⟨v, st, roots, passes, hd, kept⟩ | returned := ih within
    · obtain ⟨js, next⟩ | returned := hd.step passes hm turn alone run hs last
      · refine .inl ⟨v, st, _, passes, next, ?_⟩
        obtain ⟨r, ended⟩ | reverts := kept
        · exact .inl ⟨r, hs.ended ended⟩
        · exact reverts.step hd passes alone run steps hs last
      · exact .inr (.inl returned)
    · exact .inr (returned.step (stages_of_install hm cue) hs).1

/-- An install that fails while no other task is running leaves the installed modules exactly as
they were, or, if it has recovered at least once, exactly as they are at the start. Either way its
module is not installed. -/
theorem failed_install_reverts (hm : u.Runs ls m) (turn : m.turn = some t)
    (cue : m.cue? t = some (.begin (.install w), ss)) (alone : m.Alone t)
    (missing : m.workspace.inventory.contains w.kind w.name = false) (hg : Steps m rs g)
    (internal : ∀ r ∈ rs, r.Internal) (hs : Step g l h)
    (before : g.tasks[t]? ≠ h.tasks[t]?) (failed : h.tasks[t]? = some ⟨.resume (.error f), ss⟩) :
    m.Reverts u w (rs ++ [l]) h ∧ h.workspace.inventory.contains w.kind w.name = false := by
  have reverts : m.Reverts u w (rs ++ [l]) h := by
    cases hg with
    | refl =>
      obtain ⟨same, -⟩ := hs.delegates hm turn cue alone missing
      exact .inl same
    | cons first rest =>
      rw [List.forall_mem_cons] at internal
      obtain ⟨v, st, roots, passes, hd, kept⟩ | returned :=
        rest.delegates hm turn cue alone missing first internal.2
      · obtain ⟨same, ended⟩ := hd.returns passes hs failed
        obtain ⟨r, success⟩ | reverts := kept
        · cases success.symm.trans ended
        · exact reverts.snoc hs same
      · -- It would have returned before this step.
        have again := (returned.step (stages_of_install hm cue) hs).2 _ failed
        exact (before (again.trans failed.symm)).elim
  refine ⟨reverts, ?_⟩
  obtain same | ⟨seeded, -⟩ := reverts
  · rw [same, missing]
  · -- What is there from the start was there when the install began.
    refine Bool.eq_false_iff.2 fun found => ?_
    rw [seeded, ← (from_of_runs hm).builtins] at found
    cases missing.symm.trans ((covers_of_runs hm).contains (sound_of_runs hm) found)

end Host

/-- A remote that has another package besides, which needs a file of its own that holds nothing. -/
def Query.hollow : Query → Option Outcome
  | .download "/n/q" _ =>
    some (.ok (.files (.ofList [("/n/q/index.py", "default = require('./a')".toUTF8.toList)])))
  | .download "/n/q/package.json" _ =>
    some (.ok (.files (.ofList [("/n/q/package.json", "\x7b\x7d".toUTF8.toList)])))
  | .download "/n/q/a" _ => some (.ok (.files (.ofList [("/n/q/a.json", "null".toUTF8.toList)])))
  | q => package q

theorem World.hollow_admits : (World.steady Query.hollow).Admits := by
  refine steady_admits fun q o h => ?_
  unfold Query.hollow at h
  split at h
  case h_4 =>
    unfold Query.package at h
    split at h <;> cases h <;> exact trivial
  all_goals
    cases h
    exact trivial

/-- A host on which a caller has installed a module. -/
def Setup.furnished : Host :=
  Setup.bare.host.changed (.register .plugin "p" (.int 1) none false)

/-- The install of the package that needs a file. -/
def Wanted.hollow : Wanted := ⟨.plugin, "q", 7, .null⟩

/-- A host that is about to fail to install another module. -/
def Setup.failing : Host := ((furnished.beginning .hollow).run (.steady Query.hollow) 43 ()).1

theorem Setup.steps_failing : Host.Steps (furnished.beginning .hollow)
    (Host.labels (.steady Query.hollow) 43 (furnished.beginning .hollow) ()) failing :=
  Host.steps_run World.hollow_admits 43 _ ()

/-- Whether a task hears that an installation has failed which it is to take off the list. -/
def Task.hearsFailure : Task → Bool
  | ⟨.resume (.error _), [.installOwned _]⟩ => true
  | _ => false

theorem Setup.failing_stands : failing.turn = some 0 ∧
    failing.workspace.inventory.contains .plugin "p" = false ∧
      ∃ f key, failing.tasks[0]? = some ⟨.resume (.error f), [.installOwned key]⟩ := by
  have computed : failing.turn = some 0 ∧
      failing.workspace.inventory.contains .plugin "p" = false ∧
        failing.tasks[0]?.any Task.hearsFailure = true := by decide +kernel
  refine computed.imp_right (And.imp_right fun fails => ?_)
  obtain ⟨v, hv, hears⟩ := (Option.any_eq_true ..).1 fails
  unfold Task.hearsFailure at hears
  split at hears
  · exact ⟨_, _, hv⟩
  · cases hears

/-- An install that recovers and then fails, so that a module is lost that was there before. -/
theorem failed_install_reverts_hollow :
    ∃ ls m rs g l h t w f, Setup.bare.Runs ls m ∧ m.turn = some t ∧
      m.cue? t = some (.begin (.install w), []) ∧ m.Alone t ∧
      m.workspace.inventory.contains w.kind w.name = false ∧ Host.Steps m rs g ∧
      (∀ r ∈ rs, r.Internal) ∧ Host.Step g l h ∧ g.tasks[t]? ≠ h.tasks[t]? ∧
      h.tasks[t]? = some ⟨.resume (.error f), []⟩ ∧
      m.workspace.inventory.contains .plugin "p" = true ∧
      h.workspace.inventory = .seeded Setup.bare.builtins h.workspace.inventory.generation ∧
      m.Amid (rs ++ [l]) h (Host.Recovers w) ∧
      h.workspace.inventory.contains w.kind w.name = false := by
  have furnished : Setup.bare.Runs [.changed _] Setup.furnished := .cons (.change rfl) .refl
  have hm := furnished.beginning rfl .hollow
  have internal := Host.internal_labels (.steady Query.hollow) 43
    (Setup.furnished.beginning .hollow) ()
  have cue := Setup.furnished.cue?_beginning .hollow
  have alone : (Setup.furnished.beginning .hollow).Alone 0 := by
    intro i x hx hne
    have single : i < 1 := (List.getElem?_eq_some_iff.1 hx).1
    exact (hne (Nat.lt_one_iff.1 single)).elim
  have missing : Setup.furnished.workspace.inventory.contains .plugin "q" = false := by
    decide +kernel
  have there : Setup.furnished.workspace.inventory.contains .plugin "p" = true := by
    decide +kernel
  obtain ⟨turn, lost, f, key, told⟩ := Setup.failing_stands
  have goes := Host.cue?_eq_told.2 told
  have passes := Stage.passes_installOwned key
  obtain ⟨h, hs, failed⟩ := Host.Step.of_finish turn goes (passes.finishes _ _)
  have before : Setup.failing.tasks[0]? ≠ h.tasks[0]? := by
    rw [told, failed]
    simp
  obtain ⟨reverts, absent⟩ :=
    Host.failed_install_reverts hm rfl cue alone missing Setup.steps_failing internal hs before
      failed
  have kept : h.workspace.inventory = Setup.failing.workspace.inventory := by
    rw [(hs.went turn goes).2.1]
    exact passes.inventory _ _
  obtain same | ⟨seeded, recovered⟩ := reverts
  · rw [← kept, same] at lost
    cases there.symm.trans lost
  · exact ⟨_, _, _, _, _, h, 0, .hollow, f, hm, rfl, cue, alone, missing, Setup.steps_failing,
      internal, hs, before, failed, there, seeded, recovered, absent⟩

end PluginHost
