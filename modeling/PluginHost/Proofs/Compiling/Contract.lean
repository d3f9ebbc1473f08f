import PluginHost.Proofs.Compiling.Limits
import PluginHost.Proofs.Host.Causes
import PluginHost.Proofs.Store.Opening

/-!
What a compile may end with when its collaborators keep to what was agreed: the project's files can
always be had, the remote fails only for want of a file, and the engine reports what it found in the
form that is asked for, or fails in any way it likes. A compile then fails as it promises to, apart
from a few failures that leak.
-/
namespace PluginHost

namespace Json

/-- Nothing, or a list of texts. -/
def Texts (v : Json) : Prop := v.isNothing = true ∨ ∃ ss : List String, v = .array (ss.map .text)

/-- What the detective plugin reports, in the form in which it reports it. -/
def Reports (found : Json) : Prop :=
  found.isNothing = true ∨ ∃ fields, found = .object fields ∧
    ((lookup? "strings" fields).getD .null).Texts ∧ ((lookup? "dynamic" fields).getD .null).Texts

/-- Metadata of a result with a report of dependencies or without one. -/
def WellFormed (metadata : Json) : Prop :=
  ∃ fields, metadata = .object fields ∧ ((lookup? "dependencies" fields).getD .null).Reports

theorem Texts.parts {v : Json} (hv : v.Texts) :
    ∃ ss : List String, v.partsOrNone = .ok (ss.map .text) := by
  obtain nothing | ⟨ss, rfl⟩ := hv
  · exact ⟨[], by rw [partsOrNone, nothing]; rfl⟩
  · cases ss with
    | nil => exact ⟨[], rfl⟩
    | cons s ss => exact ⟨s :: ss, rfl⟩

end Json

namespace Dependency

theorem collect_texts (type : DependencyType) (seen ss : List String) :
    ∃ ds, collect type seen (ss.map .text) = .ok ds := by
  induction ss generalizing seen with
  | nil => exact ⟨[], rfl⟩
  | cons s ss ih =>
    rw [List.map_cons, collect]
    split
    · exact ih seen
    · obtain ⟨ds, hds⟩ := ih (s :: seen)
      exact ⟨_, by rw [hds]; rfl⟩

theorem reported_wellFormed {metadata : Json} (hm : metadata.WellFormed) :
    ∃ found, reported metadata = .ok found ∧
      ((lookup? "strings" found).getD .null).Texts ∧
        ((lookup? "dynamic" found).getD .null).Texts := by
  obtain ⟨fields, rfl, nothing | ⟨found, report, strings, dynamic⟩⟩ := hm
  · refine ⟨[], ?_, .inl rfl, .inl rfl⟩
    simp [reported, fieldsOf, nothing, bind, Except.bind, pure, Except.pure]
  · cases found with
    | nil =>
      refine ⟨[], ?_, .inl rfl, .inl rfl⟩
      simp [reported, fieldsOf, report, Json.isNothing, bind, Except.bind, pure, Except.pure]
    | cons f fs =>
      refine ⟨f :: fs, ?_, strings, dynamic⟩
      simp [reported, fieldsOf, report, Json.isNothing, bind, Except.bind]

end Dependency

/-- Dependencies that are reported as they should be can be read. -/
theorem Settings.dependencies_wellFormed (s : Settings) (engine : Int) {metadata : Json}
    (hm : metadata.WellFormed) : ∃ ds, s.dependencies engine metadata = .ok ds := by
  obtain ⟨found, reported, strings, dynamic⟩ := Dependency.reported_wellFormed hm
  obtain ⟨texts, htexts⟩ := strings.parts
  obtain ⟨others, hothers⟩ := dynamic.parts
  obtain ⟨direct, hdirect⟩ := Dependency.collect_texts .direct [] texts
  obtain ⟨indirect, hindirect⟩ := Dependency.collect_texts .dynamic [] others
  have read : Dependency.ofMetadata metadata = .ok (direct ++ indirect) := by
    simp [Dependency.ofMetadata, reported, htexts, hothers, hdirect, hindirect, bind, Except.bind,
      pure, Except.pure]
  simp only [dependencies, read, bind, Except.bind]
  split <;> exact ⟨_, rfl⟩

/-- Failures that a compile is said to end with: a module that cannot be installed, the verdict of
the engine, recoveries without end, and a file that the remote does not have. -/
def Fault.isPromised : Fault → Bool
  | .notInstalled .. | .transform .. | .recoveryLimit .. | .unfetchable .. => true
  | _ => false

/-- Whether an answer keeps to what was agreed. The engine may fail in any way. -/
def Query.Agrees : Query → Outcome → Prop
  | .projectFiles _, .error _ => False
  | .download .., .error f => f.fault.isUnfetchable = true
  | .transform .., .ok (.transformed result) => result.metadata.WellFormed
  | _, _ => True

/-- A step in which a collaborator that answers keeps to what was agreed. -/
def Host.Label.Agreed : Host.Label → Prop
  | .answered _ q o => q.Agrees o
  | _ => True

/-- A failure that the engine answered and that fetching a file could mend. -/
def Mendable (ls : List Host.Label) (g : Failure) : Prop :=
  g.isMissingArtifact = true ∧ ∃ t code config registry,
    .answered t (.transform code config registry) (.error g) ∈ ls

/-- Failures that a compile of a request ends with beside those that it promises. -/
inductive Leaks (u : Setup) (ls : List Host.Label) (r : CompileRequest) : Failure → Prop where
  /-- The engine speaks of an absent file and names none. -/
  | nameless {g : Failure} (mendable : Mendable ls g)
      (nameless : g.missingPath? (Path.normalize u.settings.packagesRoot) = none) :
      Leaks u ls r (.because (.unrecoverable g.message) g)
  /-- A plugin that comes with the host fails otherwise than by not being there. -/
  | bundled {name path : String} {fault : Fault}
      (bundled : lookup? name u.settings.bundled = some path)
      (imported : u.modules.import? path = .error fault)
      (other : (Workspace.bundleFailure name fault) = fault) : Leaks u ls r fault
  /-- The settings' configuration for external libraries does not list plugins and presets. -/
  | external {attempt : Nat} {fault : Fault} (external : u.settings.isExternal r = true)
      (prepared : Work.prepare attempt r u.settings = .error fault) : Leaks u ls r fault

variable {u : Setup} {ls xs : List Host.Label} {f g : Failure} {r : CompileRequest}

/-- What a job may fail with under the agreement, where it matters to a compile. -/
def Job.KeepsTo (u : Setup) (ls : List Host.Label) : Job → Failure → Prop
  | .openStore _, _ => False
  | .copyProject _, _ => u.hasProject = false
  | .fetch .., f | .download .., f => f.fault.isUnfetchable = true
  | .installOne _, f => f.fault.isPromised = true
  | .installAll _, f => f.fault.isPromised = true ∨ ∀ r, Leaks u ls r f
  | .compile r, f => f.fault.isPromised = true ∨ (r.config.Plain → Leaks u ls r f)
  | _, _ => True

/-- Jobs fail as described, and collaborators give the answers that a run shows. -/
def Expectation.agreed (u : Setup) (ls : List Host.Label) : Expectation where
  ends j o := (∀ r, o = .ok r → j.Returns u.settings r) ∧ ∀ f, o = .error f → j.KeepsTo u ls f
  answers q o := q.Admits o ∧ ∃ t, .answered t q o ∈ ls

theorem Expectation.agreed_formed (u : Setup) (ls : List Host.Label) : (agreed u ls).Formed u :=
  ⟨fun h => h.1 _ rfl, fun h => h.1⟩

theorem Fault.isPromised_of_isUnfetchable {f : Fault} (hf : f.isUnfetchable = true) :
    f.isPromised = true := by
  cases f <;> first | rfl | cases hf

/-- A task in which a compile recovers, or was told how a recovery ended, does so because of the
engine. -/
def Task.Mends (u : Setup) (ls : List Host.Label) (v : Task) : Prop :=
  ∀ comp ss, v.stages = .engineMended comp :: ss →
    (∀ g a, v.focus = .begin (.recover g a) → Mendable ls g) ∧
      ∀ f, v.focus = .resume (.error f) → f.fault.isUnfetchable = true ∨
        ∃ g, f = .because (.unrecoverable g.message) g ∧ Mendable ls g ∧
          g.missingPath? (Path.normalize u.settings.packagesRoot) = none

namespace Work

variable {E : Expectation} {c : Workspace} {n : Needs} {q : Cue}

theorem keepsTo_installAll (hc : c.From u) (hf : n.Fails (.agreed u ls) c f) :
    (Job.installAll n).KeepsTo u ls f := by
  cases hf with
  | @bundled name path fault bundled imported =>
    cases fault with
    | noHostModule text | missingAttribute text => exact .inl rfl
    | _ => exact .inr fun r => .bundled (hc.settings ▸ bundled) (hc.host ▸ imported) rfl
  | closed opens => exact (opens.2 f rfl).elim
  | one installs => exact .inl (installs.2 f rfl)
  | lost => exact .inl rfl

theorem keepsTo_compile (hc : c.From u) (agreed : ∀ l ∈ ls, l.Agreed)
    (hf : r.Fails (.agreed u ls) c q f)
    (mended : ∀ comp, q = .told (.engineMended comp) (.error f) →
      f.fault.isUnfetchable = true ∨ ∃ g, f = .because (.unrecoverable g.message) g ∧
        Mendable ls g ∧ g.missingPath? (Path.normalize u.settings.packagesRoot) = none) :
    (Job.compile r).KeepsTo u ls f := by
  cases hf with
  | unprepared prepared =>
    rw [hc.settings] at prepared
    exact .inr fun plain => .external (external_of_prepare_error plain prepared) prepared
  | needs installs => exact (installs.2 f rfl).imp_right fun leaks _ => leaks r
  | @unreadable _ _ _ result _ answered read =>
    obtain ⟨t, answered⟩ := answered.2
    obtain ⟨ds, hds⟩ := c.settings.dependencies_wellFormed r.engine
      (agreed _ answered : result.metadata.WellFormed)
    cases hds.symm.trans read
  | refused fault =>
    left
    obtain ⟨text, path, fault⟩ | ⟨attempts, last, fault⟩ := fault <;> rw [fault] <;> rfl
  | closed opens => exact (opens.2 f rfl).elim
  | @unmended comp =>
    obtain unfetchable | ⟨g, rfl, mendable, nameless⟩ := mended comp rfl
    · exact .inl (Fault.isPromised_of_isUnfetchable unfetchable)
    · exact .inr fun _ => .nameless mendable nameless

/-- A compile recovers from what the engine failed with. -/
theorem mendable_of_recovers {r : CompileRequest} {comp : Compilation} {fresh : TaskId}
    {a : Json} (hq : q.For u.settings (.agreed u ls) (.compile r))
    (hm : (q.move fresh c).2 = .call (.engineMended comp) (.recover g a)) : Mendable ls g := by
  have compiles : Compiles c q (q.move fresh c).2 := Work.compiles rfl hq
  rw [hm] at compiles
  cases compiles with
  | relays outer inner plain => simp at plain
  | mends missing left =>
    cases hq with
    | told awaits gives =>
      cases awaits with
      | transformed =>
        obtain ⟨-, t, answered⟩ := gives
        exact ⟨missing, t, _, _, _, answered⟩

end Work

namespace Host

variable {h k m : Host} {l : Label} {rs : List Label} {t i : TaskId} {roots js : List Job}
  {q : Cue} {ss : List Stage} {owner root : Job} {v x : Task}

/-- Every task keeps to its control flow, fails as is expected, and recovers because of the
engine. -/
structure Agrees (u : Setup) (ls : List Label) (roots : List Job) (h : Host) : Prop where
  fits : h.Fits u.settings (.agreed u ls) roots
  mends : ∀ {t : TaskId} {v : Task}, h.tasks[t]? = some v → v.Mends u ls

namespace Agrees

theorem finishes (ha : h.Agrees u ls roots) (hr : u.Runs xs h) (agreed : ∀ l ∈ ls, l.Agreed)
    (cue : h.cue? t = some (q, ss)) (hq : q.For u.settings (.agreed u ls) owner) {o : Outcome}
    (hm : (h.next q).2 = .finish o) : (Expectation.agreed u ls).ends owner o := by
  have hE := Expectation.agreed_formed u ls
  have hc := from_of_runs hr
  refine ⟨?_, fun f hf => ?_⟩
  · have suits := ha.fits.suits hE hc hq
    rw [hm] at suits
    exact suits
  · subst hf
    cases owner with
    | openStore a =>
      -- Whoever waits for a copy has a project, and copies of a project do not fail.
      obtain ⟨w, b, rfl, ends⟩ := Work.cause_openStore hq hm
      exact not_waiting_of_projectless hr (ends.2 f rfl) (cue?_eq_told.1 cue)
    | copyProject a =>
      obtain ⟨without, -⟩ | ⟨-, w, answered⟩ := Work.cause_copyProject hE hq hm
      · exact (hasProject_of_runs hr).symm.trans without
      · exact (agreed _ answered).elim
    | fetch p a =>
      obtain ⟨b, ends⟩ := Work.cause_fetch hq hm
      exact ends.2 f rfl
    | download p a =>
      obtain ⟨-, w, answered⟩ | ⟨metadata, -, -, ends, -⟩ := Work.cause_download hE hq hm
      · exact agreed _ answered
      · exact ends.2 f rfl
    | installOne w =>
      obtain ⟨g, rfl⟩ := Work.cause_installOne hq hm
      rfl
    | installAll n => exact Work.keepsTo_installAll hc (Work.cause_installAll hq hm)
    | compile r =>
      refine Work.keepsTo_compile hc agreed (Work.cause_compile hE hq hm) ?_
      rintro comp rfl
      exact (ha.mends (cue?_eq_told.1 cue) comp ss rfl).2 f rfl
    | _ => trivial

/-- A task that makes a move recovers because of the engine if it did so before. -/
theorem mends_moved (ha : h.Agrees u ls roots) (hr : u.Runs xs h)
    (cue : h.cue? t = some (q, ss)) : (h.moved ss (h.next q).2).Mends u ls := by
  have hE := Expectation.agreed_formed u ls
  obtain ⟨root, owner, -, frames, hq⟩ := ha.fits.cue cue
  have suits := ha.fits.suits hE (from_of_runs hr) hq
  intro comp rest stages
  generalize hx : h.moved ss (h.next q).2 = x at *
  obtain ⟨focus, waiting⟩ := x
  obtain rfl : waiting = .engineMended comp :: rest := stages
  obtain ⟨o, finish, rfl, rfl⟩ | ⟨st, stage, same⟩ := stages_of_moved hx
  · refine ⟨fun g a begins => (by cases begins), fun f fails => ?_⟩
    cases fails
    cases frames with
    | under outer awaits =>
      cases awaits with
      | engineMended prepared =>
        obtain ⟨rfl, nameless, rfl⟩ | ⟨path, ends⟩ := Work.cause_recover hq finish
        · have mendable := (ha.mends (cue?_eq_begin.1 cue) comp rest rfl).1 _ _ rfl
          rw [Workspace.root, (from_of_runs hr).settings] at nameless
          exact .inr ⟨_, rfl, mendable, nameless⟩
        · exact .inl (ends.2 f rfl)
  · obtain ⟨rfl, rfl⟩ := List.cons.inj same
    change (h.next q).2.Suits _ _ _ at suits
    cases hm : (h.next q).2 with
    | call st j =>
      rw [hm] at hx stage suits
      cases stage
      cases hx
      cases suits with
      | engineMended prepared =>
        refine ⟨fun g a begins => ?_, fun f fails => (by cases fails)⟩
        cases begins
        exact Work.mendable_of_recovers hq hm
    | finish o =>
      rw [hm] at stage
      cases stage
    | await st w =>
      rw [hm] at stage suits
      cases stage
      obtain ⟨j, -, awaits⟩ := suits
      cases awaits
    | launch st j | gather st js | ask st query =>
      rw [hm] at stage suits
      cases stage
      cases suits

theorem mends_step {l : Label} (ha : h.Agrees u ls roots) (hr : u.Runs xs h) (hs : Step h l k)
    (hx : k.tasks[i]? = some x) : x.Mends u ls := by
  obtain ⟨v, hv, becomes⟩ | ⟨j, rfl, -⟩ := hs.came hx
  · obtain ⟨root, -, fits⟩ := ha.fits.tasks hv
    cases becomes with
    | kept => exact ha.mends hv
    | @heard _ _ w o turn ended hears =>
      cases goes : v.waits with
      | false => exact hears ▸ (Task.hear_of_waits goes).symm ▸ ha.mends hv
      | true =>
        obtain ⟨f, waiting⟩ := x
        intro comp rest stages
        obtain rfl : waiting = .engineMended comp :: rest := stages
        cases fits with
        | awaiting frames awaits job =>
          cases stages_of_hear hears
          cases awaits
        | gathering frames awaits jobs =>
          cases stages_of_hear hears
          cases awaits
        | _ => cases goes
    | told turn label =>
      intro comp rest stages
      cases fits with
      | asking frames awaits =>
        obtain rfl := (List.cons.inj stages).1
        cases awaits
    | went turn cue label workspace moves => exact moves ▸ ha.mends_moved hr cue
  · intro comp rest stages
    cases stages

theorem step {l : Label} (ha : h.Agrees u ls roots) (hr : u.Runs xs h)
    (agreed : ∀ l ∈ ls, l.Agreed) (hs : Step h l k) (hl : l ∈ ls) :
    ∃ js, h.Spawns l js ∧ k.Agrees u ls (roots ++ js) := by
  obtain ⟨js, spawns, fits⟩ := ha.fits.effect_of (Expectation.agreed_formed u ls) (from_of_runs hr)
    hs.effect (fun t q o label admits => ⟨admits, t, label ▸ hl⟩)
    fun cue _ hq hm => ha.finishes hr agreed cue hq hm
  exact ⟨js, spawns, fits, fun hx => ha.mends_step hr hs hx⟩

theorem steps (ha : h.Agrees u ls roots) (hr : u.Runs xs h) (agreed : ∀ l ∈ ls, l.Agreed)
    (hk : Steps h rs k) (within : ∀ l ∈ rs, l ∈ ls) : ∃ js, k.Agrees u ls (roots ++ js) := by
  induction hk generalizing roots xs with
  | refl => exact ⟨[], by rwa [List.append_nil]⟩
  | cons first _ ih =>
    rw [List.forall_mem_cons] at within
    obtain ⟨js, -, next⟩ := ha.step hr agreed first within.1
    obtain ⟨more, last⟩ := ih next (hr.snoc first) within.2
    exact ⟨js ++ more, by rwa [← List.append_assoc]⟩

theorem start (u : Setup) (ls : List Label) : u.host.Agrees u ls [] :=
  ⟨.start u _, fun hv => by simp [Setup.host] at hv⟩

end Agrees

end Host

end PluginHost
