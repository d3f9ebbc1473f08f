import PluginHost.Proofs.Host.Turns

/-!
The control flow of jobs. Every stage belongs to one job and goes on with the outcome of one thing:
a job run in its place, a task, several tasks, or a question.
-/
namespace PluginHost

inductive Source where
  | called (j : Job)
  | joined (j : Job)
  | gathered (js : List Job)
  | asked (q : Query)

/-- A compilation that a request was prepared into, however many recoveries it has spent since. -/
def Compilation.Prepared (s : Settings) (c : Compilation) : Prop :=
  Work.prepare c.attempt c.request s = .ok { c with recoveries := 0 }

/-- The package names that a wanted module may resolve to. -/
def Wanted.Resolves (s : Settings) (w : Wanted) (package : String) : Prop :=
  package = w.name ∨ package = Work.conventional w s

/-- The metadata of the package of a name as it is written. -/
def Wanted.metadataPath (s : Settings) (w : Wanted) : String :=
  Path.join s.packagesRoot [PackageName.ofRequest w.name, "package.json"]

/-- The job that a stage belongs to and what the stage goes on with. -/
inductive Stage.Awaits (s : Settings) : Stage → Job → Source → Prop where
  | storeAwaited {u : TaskId} {a b : Json} :
      Awaits s (.storeAwaited u) (.openStore a) (.joined (.copyProject b))
  | projectCopied {a : Json} : Awaits s .projectCopied (.copyProject a) (.asked (.projectFiles a))
  | downloadJoined {p : String} {a b : Json} :
      Awaits s .passOn (.fetch p a) (.joined (.download (Path.normalize p) b))
  | downloadOwned {p : String} {a : Json} :
      Awaits s (.downloadOwned (Path.normalize p)) (.fetch p a)
        (.joined (.download (Path.normalize p) a))
  | downloaded {p : String} {a : Json} :
      Awaits s (.downloaded p a) (.download p a) (.asked (.download p a))
  | metadataTried {p q : String} {a : Json}
      (metadata : Downloads.metadata? (Path.normalize s.packagesRoot) p = some q)
      (apart : q ≠ p) : Awaits s .metadataTried (.download p a) (.called (.fetch q a))
  | recovered {f : Failure} {p : String} {a : Json}
      (missing : f.missingPath? (Path.normalize s.packagesRoot) = some p) :
      Awaits s (.recovered p) (.recover f a) (.called (.fetch p a))
  | literalTried {w : Wanted} :
      Awaits s (.literalTried w) (.resolve w) (.called (.fetch (w.metadataPath s) w.contextId))
  | prefixedTried {w : Wanted} {p : String} :
      Awaits s (.prefixedTried w (Work.conventional w s)) (.resolve w)
        (.called (.fetch p w.contextId))
  | installJoined {w v : Wanted} (same : v.key = w.key) :
      Awaits s .passOn (.install w) (.joined (.installFresh v))
  | installOwned {w : Wanted} :
      Awaits s (.installOwned w.key) (.install w) (.joined (.installFresh w))
  | storeReady {i : Installation} :
      Awaits s (.storeReady i) (.installFresh i.wanted) (.called (.openStore i.wanted.contextId))
  | named {i : Installation} :
      Awaits s (.named i) (.installFresh i.wanted) (.called (.resolve i.wanted))
  | fetched {i : Installation} {package p : String} (resolves : i.wanted.Resolves s package) :
      Awaits s (.fetched i package) (.installFresh i.wanted)
        (.called (.fetch p i.wanted.contextId))
  | evaluationMended {i : Installation} {f : Failure} :
      Awaits s (.evaluationMended i) (.installFresh i.wanted)
        (.called (.recover f i.wanted.contextId))
  | oneTried {w : Wanted} : Awaits s (.oneTried w) (.installOne w) (.called (.install w))
  | macrosReady {n : Needs} :
      Awaits s (.macrosReady n) (.installAll n) (.called (.openStore n.contextId))
  | pluginsInstalled {n : Needs} {round : Nat} :
      Awaits s (.pluginsInstalled n round) (.installAll n)
        (.gathered (Work.jobs n .plugin n.plugins))
  | presetsInstalled {n : Needs} {round : Nat} :
      Awaits s (.presetsInstalled n round) (.installAll n)
        (.gathered (Work.jobs n .preset n.presets))
  | needsInstalled {c : Compilation} (prepared : c.Prepared s) :
      Awaits s (.needsInstalled c) (.compile c.request) (.called (.installAll c.needs))
  | transformed {c : Compilation} {registry : Registry} (prepared : c.Prepared s) :
      Awaits s (.transformed c) (.compile c.request)
        (.asked (.transform c.request.code c.config registry))
  | storeOpened {c : Compilation} (prepared : c.Prepared s) :
      Awaits s (.storeOpened c) (.compile c.request) (.called (.openStore c.request.contextId))
  | engineMended {c : Compilation} {f : Failure} (prepared : c.Prepared s) :
      Awaits s (.engineMended c) (.compile c.request)
        (.called (.recover f c.request.contextId))
  | payloadRead {payload : Json} {r : CompileRequest}
      (read : CompileRequest.ofJson payload = .ok r) :
      Awaits s .passOn (.compilePayload payload) (.called (.compile r))
  | compileHandled {payload : Json} :
      Awaits s .compileHandled (.handle payload) (.called (.compilePayload payload))
  | warm : Awaits s .warm .warmup (.called (.compile (Work.warmupRequest s)))

/-- What a job that succeeds ends with. -/
def Job.Returns (s : Settings) : Job → Reply → Prop
  | .resolve w, r => ∃ package, r = .path package ∧ w.Resolves s package
  | .recover .., r => ∃ path, r = .path path
  | .install _, r | .installFresh _, r => ∃ v, r = .value v
  | .compile _, r | .compilePayload _, r => ∃ c, r = .compiled c
  | .handle _, r => ∃ a, r = .handled a
  | .warmup, r => ∃ b, r = .flag b
  | _, r => r = .nothing

/-- What a stage that waits for a source may be told. -/
def Source.Returns (s : Settings) : Source → Reply → Prop
  | .called j, r | .joined j, r => j.Returns s r
  | .gathered _, r => r = .nothing
  | .asked q, r => q.Admits (.ok r)

/-- What a job may do next when tasks were started for the given jobs. -/
def Move.Suits (s : Settings) (roots : List Job) (owner : Job) : Move → Prop
  | .finish o => ∀ r, o = .ok r → owner.Returns s r
  | .call st j => st.Awaits s owner (.called j)
  | .await st u => ∃ j, roots[u]? = some j ∧ st.Awaits s owner (.joined j)
  | .launch st j => st.Awaits s owner (.joined j)
  | .gather st js => st.Awaits s owner (.gathered js)
  | .ask st q => st.Awaits s owner (.asked q)

/-- Every task that a workspace has on record was started for the job that it is on record for. -/
structure Workspace.Knows (roots : List Job) (c : Workspace) : Prop where
  opening : ∀ u, c.store.opening = some u → ∃ a, roots[u]? = some (.copyProject a)
  pending : ∀ p u, c.downloads.pending.get? p = some u → ∃ a, roots[u]? = some (.download p a)
  installing : ∀ key u, c.installing.get? key = some u →
    ∃ w, roots[u]? = some (.installFresh w) ∧ w.key = key

end PluginHost
