import PluginHost.Proofs.Cdn.Browsing
import PluginHost.Proofs.Host.Causes
import PluginHost.Proofs.Host.Replay
import PluginHost.Proofs.Host.Tasks
import PluginHost.Proofs.Path.Entries

/-!
When a name is given up for its conventional form. A name is given up only after the metadata of its
package could not be downloaded, but a network that could not answer counts like one that has no
such file.
-/
namespace PluginHost

def Fault.isUnresolved : Fault → Bool
  | .unresolved .. => true
  | _ => false

namespace Cdn

variable {cdn : Cdn} {d p inside : String} {asked : List String} {f : Failure} {fs : Files}
  {m : Content}

/-- What a download from the network ends in. -/
def outcome (cdn : Cdn) (path : String) : Except Failure Files :=
  ((cdn.download path).run.run []).1

/-- Whether a download asks for something that the network answers with neither content nor the
absence of it. -/
def Balks (cdn : Cdn) (path : String) : Prop :=
  ∃ q f, cdn.address q ∈ ((cdn.download path).run.run []).2 ∧ cdn.Refuses q f

/-- Why a path cannot be fetched: it lies outside the root, the network does not have it, or the
network does not answer when it is asked for the file, or for a package that is taken for a
directory. -/
inductive Denies (cdn : Cdn) (path : String) : Prop where
  | outside (out : Path.below? cdn.root path = none)
  | absent {inside : String} (below : Path.below? cdn.root path = some inside)
      (lacks : cdn.Lacks inside)
  | refused {inside q : String} {f : Failure} (below : Path.below? cdn.root path = some inside)
      (member : q ∈ cdn.filePaths inside) (refuses : cdn.Refuses q f)
  | balked {inside : String} (below : Path.below? cdn.root path = some inside)
      (whole : PackageName.ofRequest inside = inside) (balks : cdn.Balks path)

theorem entryName_error (h : entryName m = .error f) :
    f.fault.isUnfetchable = false ∧ f.fault.isUnresolved = false := by
  unfold entryName at h
  split at h
  · cases h
    exact ⟨rfl, rfl⟩
  · split at h
    · cases h
    · split at h
      · cases h
      · split at h
        · cases h
        · cases h
          exact ⟨rfl, rfl⟩

theorem Refuses.resolved (h : cdn.Refuses p f) : f.fault.isUnresolved = false := by
  cases h <;> rfl

/-- A directory cannot be listed if the network refuses to answer, or its metadata is beyond
reading. -/
theorem Lists.error (h : cdn.Lists d (.error f) asked) :
    (∃ q, cdn.address q ∈ asked ∧ cdn.Refuses q f) ∨ ∃ m, entryName m = .error f := by
  cases h with
  | unnamed metadata why => exact .inr ⟨_, why⟩
  | refused asks refuses => exact .inl ⟨_, asks, refuses⟩

theorem Lists.resolved (h : cdn.Lists d (.error f) asked) : f.fault.isUnresolved = false := by
  obtain ⟨q, -, refuses⟩ | ⟨m, why⟩ := h.error
  · exact refuses.resolved
  · exact (entryName_error why).2

theorem Retrieves.resolved (h : cdn.Retrieves p (.error f) asked) :
    f.fault.isUnresolved = false := by
  cases h with
  | package whole listing sub some => exact listing.resolved
  | directory part search listing sub => exact listing.resolved
  | refused search sub =>
    cases search with
    | refused member asks refuses => exact refuses.resolved

theorem Searches.lacks (h : cdn.Searches (cdn.filePaths p) (.ok none) asked) : cdn.Lacks p := by
  cases h with
  | missed lacks => exact lacks p (List.mem_cons_self ..)

/-- Nothing is found only where the network says that there is nothing. -/
theorem Retrieves.lacks (h : cdn.Retrieves p (.ok fs) asked) (empty : fs.isEmpty = true) :
    cdn.Lacks p := by
  cases h with
  | file bare search => cases empty
  | package whole listing sub some => cases (some _ rfl).symm.trans empty
  | directory part search listing sub => exact search.lacks
  | nothing whole bare none search => exact search.lacks

theorem fetches (cdn : Cdn) (p : String) :
    cdn.Fetches p (cdn.outcome p) ((cdn.download p).run.run []).2 := by
  obtain ⟨asked, run, fetches⟩ := (download_meets cdn p).result []
  rw [run]
  exact fetches

theorem isUnresolved_of_outcome (h : cdn.outcome p = .error f) : f.fault.isUnresolved = false := by
  have fetches := cdn.fetches p
  rw [h] at fetches
  cases fetches with
  | outside out => rfl
  | nothing below retrieved empty => rfl
  | failed below retrieved => exact retrieved.resolved

theorem denies_of_outcome (hp : Path.normalize p = p) (h : cdn.outcome p = .error f)
    (hf : f.fault.isUnfetchable = true) : cdn.Denies p := by
  have fetches := cdn.fetches p
  rw [h] at fetches
  generalize asks : ((cdn.download p).run.run []).2 = asked at fetches
  cases fetches with
  | outside out => exact .outside (hp ▸ out)
  | nothing below retrieved empty => exact .absent (hp ▸ below) (retrieved.lacks empty)
  | failed below retrieved =>
    rw [hp] at below
    cases retrieved with
    | package whole listing sub some =>
      obtain ⟨q, member, refuses⟩ | ⟨m, why⟩ := listing.error
      · exact .balked below whole ⟨q, f, asks ▸ sub member, refuses⟩
      · cases (entryName_error why).1.symm.trans hf
    | directory part search listing sub => exact .absent below search.lacks
    | refused search sub =>
      cases search with
      | refused member member' refuses => exact .refused below member refuses

end Cdn

/-- Whether an answer is what a network gives. -/
def Query.Served (cdn : Cdn) : Query → Outcome → Prop
  | .download p _, o => o = (cdn.outcome p).map .files
  | _, _ => True

/-- A step in which a network answers what is to be downloaded. -/
def Host.Label.Served (cdn : Cdn) : Host.Label → Prop
  | .answered _ q o => q.Served cdn o
  | _ => True

/-- Whether a name that resolves to the outcome was given up as it is written. -/
def Wanted.givesUp (w : Wanted) : Outcome → Bool
  | .ok (.path package) => package ≠ w.name
  | .ok _ => false
  | .error f => f.fault.isUnresolved

namespace Cdn

/-- Whether a failure to fetch a path is one of the network's. -/
structure Explains (cdn : Cdn) (path : String) (f : Failure) : Prop where
  resolved : f.fault.isUnresolved = false
  outcome : f.fault.isUnfetchable = true → cdn.outcome path = .error f

/-- Whether a path cannot be fetched from the network. -/
def Fails (cdn : Cdn) (path : String) : Prop :=
  ∃ f, cdn.outcome path = .error f ∧ f.fault.isUnfetchable = true

end Cdn

/-- What jobs end in when a network answers what is to be downloaded. -/
def Job.ServedBy (cdn : Cdn) (s : Settings) : Job → Outcome → Prop
  | .fetch p _, .error f => cdn.Explains (Path.normalize p) f
  | .download p _, .error f => cdn.Explains p f
  | .resolve w, o => w.givesUp o = true → cdn.Fails (w.metadataPath s)
  | _, _ => True

variable {u : Setup} {cdn : Cdn} {c : Workspace} {q : Cue} {fresh : TaskId} {w : Wanted}
  {o : Outcome} {f : Failure} {p : String} {a : Json}

/-- Jobs end as the network lets them, and the network answers. -/
def Expectation.served (u : Setup) (cdn : Cdn) : Expectation where
  ends j o := (∀ r, o = .ok r → j.Returns u.settings r) ∧ j.ServedBy cdn u.settings o
  answers q o := q.Admits o ∧ q.Served cdn o

theorem Expectation.served_formed (u : Setup) (cdn : Cdn) : (served u cdn).Formed u :=
  ⟨fun h => h.1 _ rfl, fun h => h.1⟩

/-- A task that tries the conventional form of a name could not fetch the metadata of the name. -/
def Task.GaveUp (cdn : Cdn) (s : Settings) (v : Task) : Prop :=
  ∀ w candidate, .prefixedTried w candidate ∈ v.stages → cdn.Fails (w.metadataPath s)

namespace Work

theorem explains_download (hq : q.For u.settings (.served u cdn) (.download p a))
    (hm : (q.move fresh c).2 = .finish (.error f)) : cdn.Explains p f := by
  obtain ⟨-, answered⟩ | ⟨metadata, -, -, ends, other⟩ :=
    cause_download (Expectation.served_formed u cdn) hq hm
  · have outcome : cdn.outcome p = .error f := by
      cases h : cdn.outcome p with
      | ok fs =>
        rw [Query.Served, h] at answered
        cases answered
      | error g =>
        rw [Query.Served, h] at answered
        cases answered
        rfl
    exact ⟨Cdn.isUnresolved_of_outcome outcome, fun _ => outcome⟩
  · have explains : cdn.Explains (Path.normalize metadata) f := ends.2
    exact ⟨explains.resolved, fun unfetchable => by cases other.symm.trans unfetchable⟩

/-- A name's own metadata is fetched from where it lies. -/
theorem normalize_metadataPath (w : Wanted) (s : Settings) :
    Path.normalize (w.metadataPath s) = w.metadataPath s :=
  Path.normalize_normalize _

/-- The literal form of a name is given up only if its metadata could not be fetched. -/
theorem fails_of_literalTried (gives : (Source.called
      (.fetch (w.metadataPath u.settings) w.contextId)).Gives (.served u cdn) (.error f))
    (hf : f.fault.isUnfetchable = true) : cdn.Fails (w.metadataPath u.settings) := by
  have explains : cdn.Explains (Path.normalize (w.metadataPath u.settings)) f := gives.2
  rw [normalize_metadataPath] at explains
  exact ⟨f, explains.outcome hf, hf⟩

/-- A name is tried in its conventional form only if its metadata could not be fetched. -/
theorem fails_of_prefixedTried {candidate : String}
    (hq : q.For u.settings (.served u cdn) (.resolve w))
    (hm : (q.move fresh c).2.stage? = some (.prefixedTried w candidate)) :
    cdn.Fails (w.metadataPath u.settings) := by
  have goes := q.goes fresh c
  generalize q.move fresh c = x at goes hm
  cases hq with
  | begin =>
    cases goes
    cases hm
  | told awaits gives =>
    cases awaits with
    | literalTried =>
      cases goes with
      | literalAbsent absent => exact fails_of_literalTried gives absent
      | literalFound | literalFailed => cases hm
    | prefixedTried => cases goes <;> cases hm

/-- A name that is given up was tried in its conventional form. -/
theorem prefixedTried_of_givesUp (hq : q.For u.settings (.served u cdn) (.resolve w))
    (hm : (q.move fresh c).2 = .finish o) (ho : w.givesUp o = true) :
    ∃ candidate o, q = .told (.prefixedTried w candidate) o := by
  have goes := q.goes fresh c
  generalize q.move fresh c = x at goes hm
  cases hq with
  | begin =>
    cases goes
    cases hm
  | told awaits gives =>
    cases awaits with
    | literalTried =>
      cases goes with
      | literalFound =>
        cases hm
        simp [Wanted.givesUp] at ho
      | literalAbsent => cases hm
      | @literalFailed _ f =>
        cases hm
        have explains : cdn.Explains _ f := gives.2
        cases explains.resolved.symm.trans ho
    | prefixedTried => exact ⟨_, _, rfl⟩

end Work

theorem Move.Suits.awaits {m : Move} {s : Settings} {roots : List Job} {owner : Job} {st : Stage}
    (hm : m.Suits s roots owner) (hst : m.stage? = some st) : ∃ src, st.Awaits s owner src := by
  cases m with
  | finish o => cases hst
  | await st' t =>
    cases hst
    obtain ⟨j, -, awaits⟩ := hm
    exact ⟨_, awaits⟩
  | _ =>
    cases hst
    exact ⟨_, hm⟩

namespace Host

variable {h k m : Host} {l : Label} {ls rs xs : List Label} {t i : TaskId} {roots js : List Job}
  {ss : List Stage} {owner : Job}

/-- Every task keeps to its control flow, ends as the network lets it, and gives names up only for
want of their metadata. -/
structure Serves (u : Setup) (cdn : Cdn) (roots : List Job) (h : Host) : Prop where
  fits : h.Fits u.settings (.served u cdn) roots
  gaveUp : ∀ {t : TaskId} {v : Task}, h.tasks[t]? = some v → v.GaveUp cdn u.settings

namespace Serves

theorem finishes (hh : h.Serves u cdn roots) (hr : u.Runs xs h)
    (cue : h.cue? t = some (q, ss)) (hq : q.For u.settings (.served u cdn) owner)
    (hm : (h.next q).2 = .finish o) : (Expectation.served u cdn).ends owner o := by
  refine ⟨?_, ?_⟩
  · have suits := hh.fits.suits (Expectation.served_formed u cdn) (from_of_runs hr) hq
    rw [hm] at suits
    exact suits
  · cases owner with
    | fetch p a =>
      cases o with
      | ok r => trivial
      | error f =>
        obtain ⟨b, ends⟩ := Work.cause_fetch hq hm
        exact ends.2
    | download p a =>
      cases o with
      | ok r => trivial
      | error f => exact Work.explains_download hq hm
    | resolve w =>
      intro givesUp
      obtain ⟨candidate, told, rfl⟩ := Work.prefixedTried_of_givesUp hq hm givesUp
      exact hh.gaveUp (cue?_eq_told.1 cue) w candidate (List.mem_cons_self ..)
    | _ => trivial

theorem gaveUp_step {x : Task} (hh : h.Serves u cdn roots) (hr : u.Runs xs h) (hs : Step h l k)
    (hx : k.tasks[i]? = some x) : x.GaveUp cdn u.settings := by
  intro w candidate hst
  obtain ⟨v, hv, old⟩ | ⟨q, ss, cue, stage⟩ := hs.mem_stages hx hst
  · exact hh.gaveUp hv w candidate old
  · obtain ⟨root, owner, -, -, hq⟩ := hh.fits.cue cue
    have suits := hh.fits.suits (Expectation.served_formed u cdn) (from_of_runs hr) hq
    obtain ⟨src, awaits⟩ := suits.awaits stage
    cases awaits with
    | prefixedTried => exact Work.fails_of_prefixedTried hq stage

theorem step (hh : h.Serves u cdn roots) (hr : u.Runs xs h) (hs : Step h l k)
    (served : l.Served cdn) : ∃ js, h.Spawns l js ∧ k.Serves u cdn (roots ++ js) := by
  obtain ⟨js, spawns, fits⟩ := hh.fits.effect_of (Expectation.served_formed u cdn)
    (from_of_runs hr) hs.effect (fun t q o label admits => ⟨admits, by subst label; exact served⟩)
    fun cue _ hq hm => hh.finishes hr cue hq hm
  exact ⟨js, spawns, fits, hh.gaveUp_step hr hs⟩

theorem start (u : Setup) (cdn : Cdn) : u.host.Serves u cdn [] :=
  ⟨.start u _, fun hv => by simp [Setup.host] at hv⟩

end Serves

end Host

theorem Path.hasExtension_metadata (i : String) : hasExtension (i ++ "/package.json") = true := by
  have name : lastName (i ++ "/package.json").toList = "package.json".toList := by
    simp [lastName]
  rw [hasExtension, name]
  decide

/-- Where the network has the metadata of a name's package. -/
theorem Wanted.below_metadataPath {s : Settings} (hw : Path.Inner (PackageName.ofRequest w.name)) :
    Path.below? (Path.normalize s.packagesRoot) (w.metadataPath s) =
      some (PackageName.ofRequest w.name ++ "/package.json") := by
  rw [Path.below?_eq_some_iff, metadataPath, hw.join_pair (by decide), ← hw.metadata.join_eq,
    Path.join_normalize]
  rfl

namespace Host

variable {h k m : Host} {l : Label} {ls rs xs : List Label} {js : List Job} {i : Nat}

theorem Steps.uncons (hs : Steps h (l :: ls) m) : ∃ k, Step h l k ∧ Steps k ls m := by
  cases hs with
  | cons first rest => exact ⟨_, first, rest⟩

/-- A name resolves to another one, or is said not to exist, only if the metadata of its package
cannot be fetched. If the name stays inside the root then the network does not have the metadata, or
it has answered with a failure when it was asked for them. -/
theorem resolve_gives_up (hr : u.Runs xs h) (hs : Step h (.started js) k) (hk : Steps k rs m)
    (hj : js[i]? = some (.resolve w)) (root : cdn.root = Path.normalize u.settings.packagesRoot)
    (served : ∀ l ∈ xs ++ .started js :: rs, l.Served cdn)
    (ho : m.outcome? (h.tasks.length + i) = some o) (givesUp : w.givesUp o = true) :
    cdn.Denies (w.metadataPath u.settings) ∧
      (Path.Inner (PackageName.ofRequest w.name) →
        cdn.Lacks (PackageName.ofRequest w.name ++ "/package.json") ∨
          (∃ f, cdn.Refuses (PackageName.ofRequest w.name ++ "/package.json") f) ∨
            cdn.Balks (w.metadataPath u.settings) ∧
              PackageName.ofRequest (PackageName.ofRequest w.name ++ "/package.json") =
                PackageName.ofRequest w.name ++ "/package.json") := by
  obtain ⟨roots, serves, job⟩ := kept_of_started (P := fun roots h => h.Serves u cdn roots) hr hs hk
    hj (.start u cdn) (fun serves => serves.fits.length) fun hl hr serves hs =>
      serves.step hr hs (served _ hl)
  have ends := serves.fits.ends ho job
  obtain ⟨f, outcome, unfetchable⟩ := ends.2 givesUp
  have normal := Work.normalize_metadataPath w u.settings
  have denies := Cdn.denies_of_outcome normal outcome unfetchable
  refine ⟨denies, fun hw => ?_⟩
  have place : Path.below? cdn.root (w.metadataPath u.settings) =
      some (PackageName.ofRequest w.name ++ "/package.json") := by
    rw [root, Wanted.below_metadataPath hw]
  cases denies with
  | outside out => cases place.symm.trans out
  | absent below lacks =>
    obtain rfl := Option.some.inj (place.symm.trans below)
    exact .inl lacks
  | refused below member refuses =>
    obtain rfl := Option.some.inj (place.symm.trans below)
    rw [Cdn.filePaths, if_pos (Path.hasExtension_metadata _)] at member
    obtain rfl := List.mem_singleton.1 member
    exact .inr (.inl ⟨_, refuses⟩)
  | balked below whole balks =>
    obtain rfl := Option.some.inj (place.symm.trans below)
    exact .inr (.inr ⟨balks, whole⟩)

end Host

/-- A remote whose files come from a network. -/
def Query.remote (cdn : Cdn) : Query → Option Outcome
  | .download p _ => some ((cdn.outcome p).map .files)
  | _ => none

theorem World.remote_admits (cdn : Cdn) : (World.steady (Query.remote cdn)).Admits := by
  refine steady_admits fun q o h => ?_
  cases q with
  | download p a =>
    obtain rfl := Option.some.inj h
    cases cdn.outcome p <;> exact trivial
  | _ => cases h

theorem World.remote_served (cdn : Cdn) (u : Setup) (js : List Job) (moves : Nat) :
    ∀ l ∈ u.labels (.steady (Query.remote cdn)) js moves (), l.Served cdn := by
  refine List.forall_mem_cons.2 ⟨trivial, fun l hl => ?_⟩
  cases l with
  | answered t q o =>
    have answers := World.answer_of_labels hl
    cases q with
    | download p a => exact (Option.some.inj answers).symm
    | _ => cases answers
  | _ => trivial

/-- A network that has the metadata of one package and gives one answer to everything else. -/
def Cdn.withMetadata (name : String) (otherwise : Answer) : Cdn :=
  below "https://unpkg.com" "/n" defaultExtensions fun url =>
    if url = "https://unpkg.com/" ++ name ++ "/package.json" then .content "\x7b\x7d".toUTF8.toList
    else otherwise

theorem Cdn.not_lacks_withMetadata {name : String} {otherwise : Answer}
    (other : otherwise ≠ .status 404) (p : String) : ¬ (withMetadata name otherwise).Lacks p := by
  intro lacks
  simp only [Lacks, withMetadata, below] at lacks
  split at lacks
  · cases lacks
  · exact other lacks

def Wanted.pluginX : Wanted := ⟨.plugin, "x", 7, .null⟩

/-- A run in which the plugin `x` resolves to an outcome while a network answers. -/
def Cdn.Resolves (cdn : Cdn) (ls : List Host.Label) (h : Host) (o : Outcome) : Prop :=
  Setup.bare.Runs (.started [.resolve .pluginX] :: ls) h ∧
    (∀ l ∈ Host.Label.started [.resolve .pluginX] :: ls, l.Served cdn) ∧ h.outcome? 0 = some o

/-- What the plugin `x` resolves to while a network answers. -/
def Cdn.resolved? (cdn : Cdn) : Option Outcome :=
  Setup.bare.outcome? (Query.remote cdn) [.resolve .pluginX] 40 0

theorem Cdn.exists_resolves {cdn : Cdn} {good : Outcome → Bool}
    (h : cdn.resolved?.any good = true) : ∃ ls h o, cdn.Resolves ls h o ∧ good o = true := by
  obtain ⟨o, ho, good⟩ := (Option.any_eq_true ..).1 h
  have run := Setup.bare.runs_run (World.remote_admits cdn) [.resolve .pluginX] 40 ()
  exact ⟨_, _, o, ⟨run, World.remote_served cdn Setup.bare [.resolve .pluginX] 40, ho⟩, good⟩

/-- The network that has the plugin `x` under its conventional name alone. -/
def Cdn.conventionalX : Cdn := withMetadata "@babel/plugin-x" (.status 404)

/-- A name whose package is absent is given up for its conventional form. -/
theorem resolve_gives_up_absent :
    ∃ ls h o, Cdn.conventionalX.Resolves ls h o ∧ Wanted.pluginX.givesUp o = true ∧
      Cdn.conventionalX.Denies (Wanted.pluginX.metadataPath Setup.bare.settings) ∧
      (Path.Inner (PackageName.ofRequest Wanted.pluginX.name) →
        Cdn.conventionalX.Lacks (PackageName.ofRequest Wanted.pluginX.name ++ "/package.json") ∨
          (∃ f, Cdn.conventionalX.Refuses
            (PackageName.ofRequest Wanted.pluginX.name ++ "/package.json") f) ∨
            Cdn.conventionalX.Balks (Wanted.pluginX.metadataPath Setup.bare.settings) ∧
              PackageName.ofRequest
                  (PackageName.ofRequest Wanted.pluginX.name ++ "/package.json") =
                PackageName.ofRequest Wanted.pluginX.name ++ "/package.json") := by
  have resolved : Cdn.conventionalX.resolved?.any Wanted.pluginX.givesUp = true := by
    decide +kernel
  obtain ⟨ls, h, o, ⟨run, served, ho⟩, givesUp⟩ := Cdn.exists_resolves resolved
  have root : Cdn.conventionalX.root = Path.normalize Setup.bare.settings.packagesRoot := by
    decide +kernel
  obtain ⟨k, first, rest⟩ := Host.Steps.uncons run
  exact ⟨ls, h, o, ⟨run, served, ho⟩, givesUp,
    Host.resolve_gives_up (i := 0) .refl first rest rfl root served ho givesUp⟩

/-- A name can be given up for its conventional form, or said not to exist, because the network does
not answer. -/
theorem resolve_can_mistake :
    (∃ ls h o, (Cdn.withMetadata "@babel/plugin-x" (.status 503)).Resolves ls h o ∧
      Wanted.pluginX.givesUp o = true ∧
      ¬ (Cdn.withMetadata "@babel/plugin-x" (.status 503)).Lacks "x/package.json") ∧
    ∃ ls h o, (Cdn.withMetadata "y" (.unreachable "timed out")).Resolves ls h o ∧
      Wanted.pluginX.givesUp o = true ∧ o.isFailure = true ∧
      ¬ (Cdn.withMetadata "y" (.unreachable "timed out")).Lacks "x/package.json" := by
  refine ⟨?_, ?_⟩
  · have resolved : (Cdn.withMetadata "@babel/plugin-x" (.status 503)).resolved?.any
        Wanted.pluginX.givesUp = true := by
      decide +kernel
    obtain ⟨ls, h, o, resolves, givesUp⟩ := Cdn.exists_resolves resolved
    exact ⟨ls, h, o, resolves, givesUp, Cdn.not_lacks_withMetadata (by simp) _⟩
  · have resolved : (Cdn.withMetadata "y" (.unreachable "timed out")).resolved?.any
        (fun o => Wanted.pluginX.givesUp o && o.isFailure) = true := by
      decide +kernel
    obtain ⟨ls, h, o, resolves, both⟩ := Cdn.exists_resolves resolved
    obtain ⟨givesUp, fails⟩ := Bool.and_eq_true_iff.1 both
    exact ⟨ls, h, o, resolves, givesUp, fails, Cdn.not_lacks_withMetadata (by simp) _⟩

end PluginHost
