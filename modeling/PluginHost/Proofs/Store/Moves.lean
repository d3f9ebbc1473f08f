import PluginHost.Proofs.Host.Copying

/-!
What moves do to the store and to the downloads. Most leave both alone. The others copy the
project's files or fetch a path, and each of them changes the records in one way.
-/
namespace PluginHost

/-- What a task is sent to a collaborator for. -/
inductive Errand where
  /-- The files of the project. -/
  | copy
  /-- What lies at a path. -/
  | load (path : String)

def Job.errand? : Job → Option Errand
  | .copyProject _ => some .copy
  | .download p _ => some (.load p)
  | _ => none

def Query.errand? : Query → Option Errand
  | .projectFiles _ => some .copy
  | .download p _ => some (.load p)
  | _ => none

def Stage.errand? : Stage → Option Errand
  | .projectCopied => some .copy
  | .downloaded p _ => some (.load p)
  | _ => none

/-- Whether a stage takes a task off the records when it has heard of its end. -/
def Stage.minds : Stage → Bool
  | .storeAwaited _ | .downloadOwned _ => true
  | _ => false

namespace Move

/-- The stage at which a task waits after a move. -/
def stage? : Move → Option Stage
  | .finish _ => none
  | .call st _ | .await st _ | .launch st _ | .gather st _ | .ask st _ => some st

/-- A move that sends no task on an errand and leaves nobody to mind the records. -/
structure Plain (m : Move) : Prop where
  jobs : ∀ j ∈ m.jobs, j.errand? = none
  stage : ∀ st, m.stage? = some st → st.minds = false

namespace Plain

variable {st : Stage} {j : Job}

theorem finish {o : Outcome} : (Move.finish o).Plain :=
  ⟨fun _ hj => (by cases hj), fun _ hst => (by cases hst)⟩

theorem call (hs : st.minds = false) : (Move.call st j).Plain :=
  ⟨fun _ hj => (by cases hj), fun _ hst => Option.some.inj hst ▸ hs⟩

theorem await {u : TaskId} (hs : st.minds = false) : (Move.await st u).Plain :=
  ⟨fun _ hj => (by cases hj), fun _ hst => Option.some.inj hst ▸ hs⟩

theorem launch (hs : st.minds = false) (hj : j.errand? = none) : (Move.launch st j).Plain :=
  ⟨fun _ hi => List.mem_singleton.1 hi ▸ hj, fun _ hst => Option.some.inj hst ▸ hs⟩

theorem gather {n : Needs} {kind : ModuleKind} {names : List String} (hs : st.minds = false) :
    (Move.gather st (Work.jobs n kind names)).Plain := by
  refine ⟨fun j hj => ?_, fun _ hst => Option.some.inj hst ▸ hs⟩
  obtain ⟨name, -, rfl⟩ := List.mem_map.1 hj
  rfl

theorem ask {q : Query} (hs : st.minds = false) : (Move.ask st q).Plain :=
  ⟨fun _ hj => (by cases hj), fun _ hst => Option.some.inj hst ▸ hs⟩

end Plain

end Move

/-- Workspaces with the same store and the same downloads. -/
structure Workspace.Beside (c d : Workspace) : Prop where
  store : d.store = c.store
  downloads : d.downloads = c.downloads

namespace Workspace

variable {c d e : Workspace}

theorem Beside.refl (c : Workspace) : c.Beside c := ⟨rfl, rfl⟩

theorem Beside.trans (hd : c.Beside d) (he : d.Beside e) : c.Beside e :=
  ⟨he.store.trans hd.store, he.downloads.trans hd.downloads⟩

theorem beside_addBundled (c : Workspace) (names : List String) :
    c.Beside (c.addBundled names).2 := by
  obtain ⟨i, goes⟩ := c.addBundled_frame names
  rw [goes]
  exact ⟨rfl, rfl⟩

theorem beside_activate (c : Workspace) (fp : String) : c.Beside (c.activate fp).2 := by
  obtain ⟨i, e, resets, goes⟩ := c.activate_frame fp
  rw [goes]
  exact ⟨rfl, rfl⟩

theorem beside_begun (c : Workspace) (r : CompileRequest) : c.Beside (c.begun r) :=
  Beside.trans (d := { c with compiles := c.compiles.start.2 }) ⟨rfl, rfl⟩ (beside_activate _ _)

/-- The download that a fetch of a path joins: it is on its way, and the path is neither known to be
fetched nor there. -/
def joins? (c : Workspace) (path : String) : Option TaskId :=
  let path := Path.normalize path
  if path ∈ (c.downloads.sync c.store).fetched ∨ c.store.contains path = true then none
  else c.downloads.pending.get? path

end Workspace

/-- What the move upon a cue does to the store and to the downloads. -/
inductive Cue.Handles (fresh : TaskId) (c : Workspace) : Cue → Workspace × Move → Prop where
  | aside {q : Cue} {d : Workspace} {m : Move} (beside : c.Beside d) (plain : m.Plain) :
      Handles fresh c q (d, m)
  | waits {a : Json} {u : TaskId} (unready : c.store.ready = false)
      (opening : c.store.opening = some u) :
      Handles fresh c (.begin (.openStore a)) (c, .await (.storeAwaited u) u)
  | opens {a : Json} (unready : c.store.ready = false) (closed : c.store.opening = none) :
      Handles fresh c (.begin (.openStore a))
        ({ c with store := { c.store with opening := some fresh } },
          .launch (.storeAwaited fresh) (.copyProject a))
  | abandons {u : TaskId} {f : Failure} (opening : c.store.opening = some u) :
      Handles fresh c (.told (.storeAwaited u) (.error f))
        ({ c with store := { c.store with opening := none } }, .fail f)
  | copies {fs : Files} :
      Handles fresh c (.told .projectCopied (.ok (.files fs)))
        ({ c with store := c.store.copyProject fs }, .done)
  | remembers {p : String} {a : Json}
      (known : Path.normalize p ∈ (c.downloads.sync c.store).fetched) :
      Handles fresh c (.begin (.fetch p a))
        ({ c with downloads := c.downloads.sync c.store }, .done)
  | finds {p : String} {a : Json} (there : c.store.contains (Path.normalize p) = true) :
      Handles fresh c (.begin (.fetch p a))
        ({ c with downloads := (c.downloads.sync c.store).record (Path.normalize p) }, .done)
  | joins {p : String} {a : Json} {u : TaskId} (joined : c.joins? p = some u) :
      Handles fresh c (.begin (.fetch p a))
        ({ c with downloads := c.downloads.sync c.store }, .await .passOn u)
  | loads {p : String} {a : Json} (unknown : Path.normalize p ∉ (c.downloads.sync c.store).fetched)
      (free : c.downloads.pending.get? (Path.normalize p) = none) :
      Handles fresh c (.begin (.fetch p a))
        ({ c with downloads := (c.downloads.sync c.store).started (Path.normalize p) fresh },
          .launch (.downloadOwned (Path.normalize p)) (.download (Path.normalize p) a))
  | settles {p : String} {o : Outcome} :
      Handles fresh c (.told (.downloadOwned p) o)
        ({ c with downloads := c.downloads.ended p }, .finish o)
  /-- Only the metadata of the path may be fetched after it. -/
  | places {p : String} {a : Json} {fs : Files} {m : Move}
      (goes : m = .done ∨ ∃ q, m = .call .metadataTried (.fetch q a)) :
      Handles fresh c (.told (.downloaded p a) (.ok (.files fs))) (Work.placed p fs c, m)

variable {c : Workspace} {fresh : TaskId} {a : Json}

namespace Work

/-- Whoever is to copy the project's files asks for them, or fails without a project. -/
theorem copyProject_asks (a : Json) (c : Workspace) :
    (copyProject a c).1 = c ∧ ((copyProject a c).2 = .ask .projectCopied (.projectFiles a) ∨
      ∃ f, (copyProject a c).2 = .fail f) := by
  have begins : (Job.copyProject a).Begins 0 c (copyProject a c) := Job.begins ..
  generalize copyProject a c = r at begins
  cases begins with
  | projectAsked => exact ⟨rfl, .inl rfl⟩
  | projectless => exact ⟨rfl, .inr ⟨_, rfl⟩⟩

theorem projectCopied_ends (o : Outcome) (c : Workspace) :
    ∃ p, (projectCopied o c).2 = .finish p := by
  have resumes : Stage.projectCopied.Resumes c o (projectCopied o c) := Stage.resumes ..
  generalize projectCopied o c = r at resumes
  cases resumes <;> exact ⟨_, rfl⟩

/-- Files that are brought are placed, and at most the metadata of their package is fetched then. -/
theorem downloaded_files (p : String) (a : Json) (fs : Files) (c : Workspace) :
    (downloaded p a (.ok (.files fs)) c).1 = placed p fs c ∧
      ((downloaded p a (.ok (.files fs)) c).2 = .done ∨
        ∃ q, (downloaded p a (.ok (.files fs)) c).2 = .call .metadataTried (.fetch q a)) := by
  have resumes : (Stage.downloaded p a).Resumes c _ (downloaded p a (.ok (.files fs)) c) :=
    resumes_downloaded
  generalize downloaded p a (.ok (.files fs)) c = r at resumes
  cases resumes with
  | placed => exact ⟨rfl, .inl rfl⟩
  | placedFirst => exact ⟨rfl, .inr ⟨_, rfl⟩⟩
  | downloadOdd odd => exact (odd fs rfl).elim

/-- A download that has its answer asks for nothing more. -/
theorem downloaded_goes (p : String) (a : Json) (o : Outcome) (c : Workspace) :
    (∃ r, (downloaded p a o c).2 = .finish r) ∨
      ∃ q, (downloaded p a o c).2 = .call .metadataTried (.fetch q a) := by
  have resumes : (Stage.downloaded p a).Resumes c o (downloaded p a o c) := resumes_downloaded
  generalize downloaded p a o c = r at resumes
  cases resumes with
  | placedFirst => exact .inr ⟨_, rfl⟩
  | placed | downloadOdd | downloadFailed => exact .inl ⟨_, rfl⟩

theorem metadataTried_ends (o : Outcome) (c : Workspace) :
    ∃ r, (metadataTried o c).2 = .finish r := by
  have resumes : Stage.metadataTried.Resumes c o (metadataTried o c) := Stage.resumes ..
  generalize metadataTried o c = r at resumes
  cases resumes <;> exact ⟨_, rfl⟩

/-- A fetch of a path joins the download of it that is on its way. -/
theorem fetch_of_joins? {p : String} {u : TaskId} (hu : c.joins? p = some u) :
    fetch fresh p a c = ({ c with downloads := c.downloads.sync c.store }, .await .passOn u) := by
  unfold Workspace.joins? at hu
  dsimp only at hu
  split at hu
  · cases hu
  · rename_i apart
    rw [not_or] at apart
    have begins : (Job.fetch p a).Begins fresh c (fetch fresh p a c) := begins_fetch
    generalize fetch fresh p a c = r at begins
    cases begins with
    | fetchKnown known => exact (apart.1 known).elim
    | fetchThere unknown there => exact (apart.2 there).elim
    | fetchJoined unknown absent pending =>
      obtain rfl := Option.some.inj (pending.symm.trans hu)
      rfl
    | fetchLaunched unknown absent free => cases free.symm.trans hu

end Work

open Cue.Handles Move.Plain

variable {r : Workspace × Move}

theorem Needs.Rounds.handles {n : Needs} {round : Nat} {q : Cue} (hr : n.Rounds round c r) :
    q.Handles fresh c r := by
  cases hr with
  | gathers => exact aside (c.beside_addBundled _) (gather rfl)
  | fails => exact aside (c.beside_addBundled _) finish

theorem Job.Begins.handles {j : Job} (hr : j.Begins fresh c r) :
    (Cue.begin j).Handles fresh c r := by
  cases hr with
  | storeJoined unready opening => exact waits unready opening
  | storeLaunched unready closed => exact opens unready closed
  | fetchKnown known => exact remembers known
  | fetchThere unknown there => exact finds there
  | fetchJoined unknown absent pending =>
    exact joins (by simp [Workspace.joins?, unknown, absent, pending])
  | fetchLaunched unknown absent free => exact loads unknown free
  | installThere => exact aside ⟨rfl, rfl⟩ finish
  | installJoined => exact aside (.refl c) (await rfl)
  | installLaunched => exact aside ⟨rfl, rfl⟩ (launch rfl rfl)
  | roundFirst => exact (Work.rounds_installRound ..).handles
  | compileBegun => exact aside ((c.beside_begun _).trans ⟨rfl, rfl⟩) (call rfl)
  | compileRefused => exact aside ((c.beside_begun _).trans ⟨rfl, rfl⟩) finish
  | projectAsked | downloadAsked => exact aside (.refl c) (ask rfl)
  | recovers | resolves | installBegun | oneBegun | macrosFirst | payloadRead | handled
  | warmupBegun => exact aside (.refl c) (call rfl)
  | storeOpen | projectless | unrecoverable | installUnspelt | payloadRejected =>
    exact aside (.refl c) finish

theorem Stage.Resumes.handles {st : Stage} {o : Outcome} (hr : st.Resumes c o r) :
    (Cue.told st o).Handles fresh c r := by
  cases hr with
  | storeAbandoned opening => exact abandons opening
  | projectCopied => exact copies
  | downloadEnded => exact settles
  | placed => exact places (.inl rfl)
  | placedFirst => exact places (.inr ⟨_, rfl⟩)
  | macrosReady | roundRepeated => exact (Work.rounds_installRound ..).handles
  | pluginsInstalled => exact aside (.refl c) (gather rfl)
  | needsInstalled => exact aside ⟨rfl, rfl⟩ (ask rfl)
  | literalAbsent | storeReady | named => exact aside (.refl c) (call rfl)
  | evaluationMends | evaluationMended | engineUnready | engineMends | storeOpened
  | engineMended => exact aside ⟨rfl, rfl⟩ (call rfl)
  | _ => exact aside ⟨rfl, rfl⟩ finish

/-- What every move does to the store and to the downloads. -/
theorem Cue.handles (q : Cue) (fresh : TaskId) (c : Workspace) :
    q.Handles fresh c (q.move fresh c) := by
  cases q with
  | begin j => exact (j.begins fresh c).handles
  | told st o => exact (st.resumes o c).handles

end PluginHost
