import PluginHost.Proofs.Host.Turns

/-!
The ways in which a move goes, each with what decides for it. What moves do is told by cases on
these; nothing but the proof that there are no others depends on how the moves are computed.
-/
namespace PluginHost

/-- The workspace of a request whose compile has begun. -/
def Workspace.begun (r : CompileRequest) (c : Workspace) : Workspace :=
  ({ c with compiles := c.compiles.start.2 }.activate r.fingerprint).2

/-- How a round of installations goes. -/
inductive Needs.Rounds (n : Needs) (round : Nat) (c : Workspace) : Workspace × Move → Prop where
  | gathers (added : (c.addBundled n.plugins).1 = .ok ()) :
      Rounds n round c
        ((c.addBundled n.plugins).2,
          .gather (.pluginsInstalled n round) (Work.jobs n .plugin n.plugins))
  | fails {f : Failure} (added : (c.addBundled n.plugins).1 = .error f) :
      Rounds n round c ((c.addBundled n.plugins).2, .fail f)

/-- How the first move of a job goes. -/
inductive Job.Begins (fresh : TaskId) (c : Workspace) : Job → Workspace × Move → Prop where
  | storeOpen {a : Json} (ready : c.store.ready = true) : Begins fresh c (.openStore a) (c, .done)
  | storeJoined {a : Json} {u : TaskId} (unready : c.store.ready = false)
      (opening : c.store.opening = some u) :
      Begins fresh c (.openStore a) (c, .await (.storeAwaited u) u)
  | storeLaunched {a : Json} (unready : c.store.ready = false) (closed : c.store.opening = none) :
      Begins fresh c (.openStore a)
        ({ c with store := { c.store with opening := some fresh } },
          .launch (.storeAwaited fresh) (.copyProject a))
  | projectAsked {a : Json} (project : c.store.hasProject = true) :
      Begins fresh c (.copyProject a) (c, .ask .projectCopied (.projectFiles a))
  | projectless {a : Json} (none : c.store.hasProject = false) :
      Begins fresh c (.copyProject a)
        (c, .fail (Fault.general "Store has no project files provider to initialize from"))
  | fetchKnown {p : String} {a : Json}
      (known : Path.normalize p ∈ (c.downloads.sync c.store).fetched) :
      Begins fresh c (.fetch p a) ({ c with downloads := c.downloads.sync c.store }, .done)
  | fetchThere {p : String} {a : Json}
      (unknown : Path.normalize p ∉ (c.downloads.sync c.store).fetched)
      (there : c.store.contains (Path.normalize p) = true) :
      Begins fresh c (.fetch p a)
        ({ c with downloads := (c.downloads.sync c.store).record (Path.normalize p) }, .done)
  | fetchJoined {p : String} {a : Json} {u : TaskId}
      (unknown : Path.normalize p ∉ (c.downloads.sync c.store).fetched)
      (absent : c.store.contains (Path.normalize p) = false)
      (pending : c.downloads.pending.get? (Path.normalize p) = some u) :
      Begins fresh c (.fetch p a)
        ({ c with downloads := c.downloads.sync c.store }, .await .passOn u)
  | fetchLaunched {p : String} {a : Json}
      (unknown : Path.normalize p ∉ (c.downloads.sync c.store).fetched)
      (absent : c.store.contains (Path.normalize p) = false)
      (free : c.downloads.pending.get? (Path.normalize p) = none) :
      Begins fresh c (.fetch p a)
        ({ c with downloads := (c.downloads.sync c.store).started (Path.normalize p) fresh },
          .launch (.downloadOwned (Path.normalize p)) (.download (Path.normalize p) a))
  | downloadAsked {p : String} {a : Json} :
      Begins fresh c (.download p a) (c, .ask (.downloaded p a) (.download p a))
  | recovers {f : Failure} {a : Json} {p : String} (missing : f.missingPath? c.root = some p) :
      Begins fresh c (.recover f a) (c, .call (.recovered p) (.fetch p a))
  | unrecoverable {f : Failure} {a : Json} (unnamed : f.missingPath? c.root = none) :
      Begins fresh c (.recover f a) (c, .fail (.because (.unrecoverable f.message) f))
  | resolves {w : Wanted} :
      Begins fresh c (.resolve w)
        (c, .call (.literalTried w)
          (.fetch (c.metadataPath (PackageName.ofRequest w.name)) w.contextId))
  | installThere {w : Wanted} {key : String} {m : Installed} {i : Inventory}
      (found : c.inventory.find? w.kind w.name = some (key, m))
      (spelt : c.inventory.addAlias w.kind w.name key = .ok i) :
      Begins fresh c (.install w) ({ c with inventory := i }, .finish (.ok (.value m.value)))
  | installUnspelt {w : Wanted} {key : String} {m : Installed} {f : Fault}
      (found : c.inventory.find? w.kind w.name = some (key, m))
      (unspelt : c.inventory.addAlias w.kind w.name key = .error f) :
      Begins fresh c (.install w) (c, .fail f)
  | installJoined {w : Wanted} {u : TaskId} (missing : c.inventory.find? w.kind w.name = none)
      (installing : c.installing.get? w.key = some u) :
      Begins fresh c (.install w) (c, .await .passOn u)
  | installLaunched {w : Wanted} (missing : c.inventory.find? w.kind w.name = none)
      (free : c.installing.get? w.key = none) :
      Begins fresh c (.install w)
        ({ c with installing := c.installing.insert w.key fresh },
          .launch (.installOwned w.key) (.installFresh w))
  | installBegun {w : Wanted} : Begins fresh c (.installFresh w) (Work.attempt ⟨w, 0⟩ c)
  | oneBegun {w : Wanted} : Begins fresh c (.installOne w) (c, .call (.oneTried w) (.install w))
  | macrosFirst {n : Needs} (macros : n.hasMacros = true) :
      Begins fresh c (.installAll n) (c, .call (.macrosReady n) (.openStore n.contextId))
  | roundFirst {n : Needs} (plain : n.hasMacros = false) :
      Begins fresh c (.installAll n) (Work.installRound n 0 c)
  | compileBegun {r : CompileRequest} {comp : Compilation}
      (prepared : Work.prepare c.compiles.started r c.settings = .ok comp) :
      Begins fresh c (.compile r) (Work.installNeeds comp (c.begun r))
  | compileRefused {r : CompileRequest} {f : Fault}
      (unprepared : Work.prepare c.compiles.started r c.settings = .error f) :
      Begins fresh c (.compile r) (Work.conclude c.compiles.started (.error f) (c.begun r))
  | payloadRead {payload : Json} {r : CompileRequest}
      (read : CompileRequest.ofJson payload = .ok r) :
      Begins fresh c (.compilePayload payload) (c, .call .passOn (.compile r))
  | payloadRejected {payload : Json} {why : Rejection}
      (rejected : CompileRequest.ofJson payload = .error why) :
      Begins fresh c (.compilePayload payload) (c, .fail (Fault.rejected why))
  | handled {payload : Json} :
      Begins fresh c (.handle payload) (c, .call .compileHandled (.compilePayload payload))
  | warmupBegun :
      Begins fresh c .warmup (c, .call .warm (.compile (Work.warmupRequest c.settings)))

/-- How a stage goes on that is told an outcome. -/
inductive Stage.Resumes (c : Workspace) : Stage → Outcome → Workspace × Move → Prop where
  | passedOn {o : Outcome} : Resumes c .passOn o (c, .finish o)
  | storeOpen {u : TaskId} {r : Reply} : Resumes c (.storeAwaited u) (.ok r) (c, .done)
  | storeAbandoned {u : TaskId} {f : Failure} (opening : c.store.opening = some u) :
      Resumes c (.storeAwaited u) (.error f)
        ({ c with store := { c.store with opening := none } }, .fail f)
  | storeLost {u : TaskId} {f : Failure} (other : c.store.opening ≠ some u) :
      Resumes c (.storeAwaited u) (.error f) (c, .fail f)
  | projectCopied {fs : Files} :
      Resumes c .projectCopied (.ok (.files fs)) ({ c with store := c.store.copyProject fs }, .done)
  | projectOdd {r : Reply} (odd : ∀ fs, r ≠ .files fs) :
      Resumes c .projectCopied (.ok r) (c, .unexpected)
  | projectFailed {f : Failure} : Resumes c .projectCopied (.error f) (c, .fail f)
  | downloadEnded {p : String} {o : Outcome} :
      Resumes c (.downloadOwned p) o ({ c with downloads := c.downloads.ended p }, .finish o)
  | placed {p : String} {a : Json} {fs : Files}
      (alone : ∀ m, Downloads.metadata? c.root p = some m →
        m = p ∨ (Work.placed p fs c).store.contains m = true) :
      Resumes c (.downloaded p a) (.ok (.files fs)) (Work.placed p fs c, .done)
  | placedFirst {p metadata : String} {a : Json} {fs : Files}
      (listed : Downloads.metadata? c.root p = some metadata) (apart : metadata ≠ p)
      (absent : (Work.placed p fs c).store.contains metadata = false) :
      Resumes c (.downloaded p a) (.ok (.files fs))
        (Work.placed p fs c, .call .metadataTried (.fetch metadata a))
  | downloadOdd {p : String} {a : Json} {r : Reply} (odd : ∀ fs, r ≠ .files fs) :
      Resumes c (.downloaded p a) (.ok r) (c, .unexpected)
  | downloadFailed {p : String} {a : Json} {f : Failure} :
      Resumes c (.downloaded p a) (.error f) (c, .fail f)
  | metadataFound {r : Reply} : Resumes c .metadataTried (.ok r) (c, .done)
  | metadataAbsent {f : Failure} (absent : f.fault.isUnfetchable = true) :
      Resumes c .metadataTried (.error f) (c, .done)
  | metadataFailed {f : Failure} (other : f.fault.isUnfetchable = false) :
      Resumes c .metadataTried (.error f) (c, .fail f)
  | recovered {p : String} {r : Reply} :
      Resumes c (.recovered p) (.ok r) (c, .finish (.ok (.path p)))
  | recoveryFailed {p : String} {f : Failure} : Resumes c (.recovered p) (.error f) (c, .fail f)
  | literalFound {w : Wanted} {r : Reply} :
      Resumes c (.literalTried w) (.ok r) (c, .finish (.ok (.path w.name)))
  | literalAbsent {w : Wanted} {f : Failure} (absent : f.fault.isUnfetchable = true) :
      Resumes c (.literalTried w) (.error f)
        (c, .call (.prefixedTried w (Work.conventional w c.settings))
          (.fetch (c.metadataPath (Work.conventional w c.settings)) w.contextId))
  | literalFailed {w : Wanted} {f : Failure} (other : f.fault.isUnfetchable = false) :
      Resumes c (.literalTried w) (.error f) (c, .fail f)
  | prefixedFound {w : Wanted} {p : String} {r : Reply} :
      Resumes c (.prefixedTried w p) (.ok r) (c, .finish (.ok (.path p)))
  | prefixedAbsent {w : Wanted} {p : String} {f : Failure} (absent : f.fault.isUnfetchable = true) :
      Resumes c (.prefixedTried w p) (.error f)
        (c, .fail (.because (.unresolved w.kind w.name [PackageName.ofRequest w.name, p]) f))
  | prefixedFailed {w : Wanted} {p : String} {f : Failure}
      (other : f.fault.isUnfetchable = false) :
      Resumes c (.prefixedTried w p) (.error f) (c, .fail f)
  | installEnded {key : ModuleName} {o : Outcome} :
      Resumes c (.installOwned key) o ({ c with installing := c.installing.erase key }, .finish o)
  | storeReady {i : Installation} {r : Reply} :
      Resumes c (.storeReady i) (.ok r) (c, .call (.named i) (.resolve i.wanted))
  | storeUnready {i : Installation} {f : Failure} :
      Resumes c (.storeReady i) (.error f) (c, .fail f)
  | named {i : Installation} {package : String} :
      Resumes c (.named i) (.ok (.path package))
        (c, .call (.fetched i package)
          (.fetch (Work.modulePath c package) i.wanted.contextId))
  | nameOdd {i : Installation} {r : Reply} (odd : ∀ package, r ≠ .path package) :
      Resumes c (.named i) (.ok r) (c, .unexpected)
  | nameless {i : Installation} {f : Failure} : Resumes c (.named i) (.error f) (c, .fail f)
  | exportEmpty {i : Installation} {package : String} {r : Reply} {v : Value}
      (evaluated : (c.evaluate (Work.modulePath c package)).1 = .ok v)
      (empty : v.isNothing = true) :
      Resumes c (.fetched i package) (.ok r)
        ((c.evaluate (Work.modulePath c package)).2,
          .fail (Fault.emptyExport i.wanted.kind.word i.wanted.name))
  | registered {i : Installation} {package : String} {r : Reply} {v : Value}
      (evaluated : (c.evaluate (Work.modulePath c package)).1 = .ok v)
      (given : v.isNothing = false) :
      Resumes c (.fetched i package) (.ok r)
        ((c.evaluate (Work.modulePath c package)).2.register i.wanted.kind i.wanted.name v
          (some package) false, .finish (.ok (.value v)))
  | evaluationFailed {i : Installation} {package : String} {r : Reply} {f : Failure}
      (evaluated : (c.evaluate (Work.modulePath c package)).1 = .error f)
      (spent : c.settings.maxRecoveries ≤ i.attempts) :
      Resumes c (.fetched i package) (.ok r)
        ((c.evaluate (Work.modulePath c package)).2,
          .fail (.because (.recoveryLimit i.attempts (some f.message)) f))
  | evaluationMends {i : Installation} {package : String} {r : Reply} {f : Failure}
      (evaluated : (c.evaluate (Work.modulePath c package)).1 = .error f)
      (left : i.attempts < c.settings.maxRecoveries) :
      Resumes c (.fetched i package) (.ok r)
        ((c.evaluate (Work.modulePath c package)).2,
          .call (.evaluationMended { i with attempts := i.attempts + 1 })
            (.recover f i.wanted.contextId))
  | unfetched {i : Installation} {package : String} {f : Failure} :
      Resumes c (.fetched i package) (.error f) (c, .fail f)
  | evaluationMended {i : Installation} {r : Reply} :
      Resumes c (.evaluationMended i) (.ok r) (Work.attempt i c.forgetModules)
  | evaluationUnmended {i : Installation} {f : Failure} :
      Resumes c (.evaluationMended i) (.error f) (c, .fail f)
  | oneInstalled {w : Wanted} {r : Reply} : Resumes c (.oneTried w) (.ok r) (c, .done)
  | oneFailed {w : Wanted} {f : Failure} :
      Resumes c (.oneTried w) (.error f)
        (c, .fail (.because (.notInstalled w.kind.word w.name f.message) f))
  | macrosReady {n : Needs} {r : Reply} :
      Resumes c (.macrosReady n) (.ok r) (Work.installRound n 0 c)
  | macrosUnready {n : Needs} {f : Failure} : Resumes c (.macrosReady n) (.error f) (c, .fail f)
  | pluginsInstalled {n : Needs} {round : Nat} {r : Reply} :
      Resumes c (.pluginsInstalled n round) (.ok r)
        (c, .gather (.presetsInstalled n round) (Work.jobs n .preset n.presets))
  | pluginsFailed {n : Needs} {round : Nat} {f : Failure} :
      Resumes c (.pluginsInstalled n round) (.error f) (c, .fail f)
  | roundComplete {n : Needs} {round : Nat} {r : Reply}
      (plugins : c.installed .plugin n.plugins = true)
      (presets : c.installed .preset n.presets = true) :
      Resumes c (.presetsInstalled n round) (.ok r) (c, .done)
  | roundRepeated {n : Needs} {round : Nat} {r : Reply}
      (lost : (c.installed .plugin n.plugins && c.installed .preset n.presets) = false)
      (left : round < c.settings.maxRecoveries) :
      Resumes c (.presetsInstalled n round) (.ok r) (Work.installRound n (round + 1) c)
  | roundsSpent {n : Needs} {round : Nat} {r : Reply}
      (lost : (c.installed .plugin n.plugins && c.installed .preset n.presets) = false)
      (spent : c.settings.maxRecoveries ≤ round) :
      Resumes c (.presetsInstalled n round) (.ok r)
        (c, .fail (Fault.recoveryLimit c.settings.maxRecoveries none))
  | presetsFailed {n : Needs} {round : Nat} {f : Failure} :
      Resumes c (.presetsInstalled n round) (.error f) (c, .fail f)
  | needsInstalled {comp : Compilation} {r : Reply} :
      Resumes c (.needsInstalled comp) (.ok r)
        (c.enter comp.attempt .transforming,
          .ask (.transformed comp)
            (.transform comp.request.code comp.config c.inventory.registry))
  | needsFailed {comp : Compilation} {f : Failure} :
      Resumes c (.needsInstalled comp) (.error f) (Work.conclude comp.attempt (.error f) c)
  | transformed {comp : Compilation} {t : Transformed} :
      Resumes c (.transformed comp) (.ok (.transformed t))
        (Work.conclude comp.attempt (Work.compiled comp t c) c)
  | engineOdd {comp : Compilation} {r : Reply} (odd : ∀ t, r ≠ .transformed t) :
      Resumes c (.transformed comp) (.ok r) (c, .unexpected)
  | engineUnready {comp : Compilation} {f : Failure} (unready : c.isNotReady f = true) :
      Resumes c (.transformed comp) (.error f)
        (c.enter comp.attempt .recovering,
          .call (.storeOpened comp) (.openStore comp.request.contextId))
  | engineSpent {comp : Compilation} {f : Failure} (settled : c.isNotReady f = false)
      (missing : f.isMissingArtifact = true)
      (spent : c.settings.maxRecoveries ≤ comp.recoveries) :
      Resumes c (.transformed comp) (.error f)
        (Work.conclude comp.attempt
          (.error (.because (.recoveryLimit comp.recoveries (some f.message)) f))
          (c.enter comp.attempt .recovering))
  | engineMends {comp : Compilation} {f : Failure} (settled : c.isNotReady f = false)
      (missing : f.isMissingArtifact = true)
      (left : comp.recoveries < c.settings.maxRecoveries) :
      Resumes c (.transformed comp) (.error f)
        (c.enter comp.attempt .recovering,
          .call (.engineMended { comp with recoveries := comp.recoveries + 1 })
            (.recover f comp.request.contextId))
  | engineRefused {comp : Compilation} {f : Failure} (settled : c.isNotReady f = false)
      (other : f.isMissingArtifact = false) :
      Resumes c (.transformed comp) (.error f)
        (Work.conclude comp.attempt (.error (Work.verdict comp f c.settings))
          (c.enter comp.attempt .recovering))
  | storeOpened {comp : Compilation} {r : Reply} :
      Resumes c (.storeOpened comp) (.ok r) (Work.installNeeds comp c)
  | storeUnopened {comp : Compilation} {f : Failure} :
      Resumes c (.storeOpened comp) (.error f) (Work.conclude comp.attempt (.error f) c)
  | engineMended {comp : Compilation} {r : Reply} :
      Resumes c (.engineMended comp) (.ok r) (Work.installNeeds comp c.forgetModules)
  | engineUnmended {comp : Compilation} {f : Failure} :
      Resumes c (.engineMended comp) (.error f) (Work.conclude comp.attempt (.error f) c)
  | compileHandled {r : Compiled} :
      Resumes c .compileHandled (.ok (.compiled r)) (c, .finish (.ok (.handled (.compiled r))))
  | compileOdd {r : Reply} (odd : ∀ c, r ≠ .compiled c) :
      Resumes c .compileHandled (.ok r) (c, .unexpected)
  | compileReported {f : Failure} (reported : (f.fault.isReported || f.fault.isRejection) = true) :
      Resumes c .compileHandled (.error f) (c, .finish (.ok (.handled (.failed f.fault))))
  | compileFailed {f : Failure} (other : (f.fault.isReported || f.fault.isRejection) = false) :
      Resumes c .compileHandled (.error f) (c, .fail f)
  | warmed {r : Reply} : Resumes c .warm (.ok r) (c, .finish (.ok (.flag true)))
  | warmReported {f : Failure} (reported : f.fault.isReported = true) :
      Resumes c .warm (.error f) (c, .finish (.ok (.flag false)))
  | warmFailed {f : Failure} (other : f.fault.isReported = false) :
      Resumes c .warm (.error f) (c, .fail f)

/-- How the move upon a cue goes. -/
def Cue.Goes (fresh : TaskId) (c : Workspace) : Cue → Workspace × Move → Prop
  | .begin j => j.Begins fresh c
  | .told st o => st.Resumes c o

namespace Downloads

variable (d : Downloads)

@[simp] theorem pending_sync (st : Store) : (d.sync st).pending = d.pending := by
  unfold sync
  split <;> rfl

end Downloads

namespace Workspace

/-- Registering bundled plugins changes nothing but the inventory. -/
theorem addBundled_frame (c : Workspace) (names : List String) :
    ∃ i, (c.addBundled names).2 = { c with inventory := i } := by
  induction names generalizing c with
  | nil => exact ⟨c.inventory, rfl⟩
  | cons name names ih =>
    unfold addBundled
    split
    · split
      · rename_i v _
        exact ih (c.register .plugin name v none true)
      · exact ⟨c.inventory, rfl⟩
    · exact ih c

/-- Activating a configuration leaves alone what does not depend on the one that is active. -/
theorem activate_frame (c : Workspace) (fingerprint : String) :
    ∃ i e resets, (c.activate fingerprint).2 =
      { c with
        inventory := i
        evaluator := e
        engineResets := resets
        fingerprint := some fingerprint } := by
  unfold activate
  split
  · exact ⟨_, _, _, rfl⟩
  · rename_i active hf
    split
    · rename_i same
      exact ⟨_, _, _, by rw [same, ← hf]⟩
    · exact ⟨_, _, _, rfl⟩

theorem settings_activate (c : Workspace) (fingerprint : String) :
    (c.activate fingerprint).2.settings = c.settings := by
  obtain ⟨i, e, resets, goes⟩ := c.activate_frame fingerprint
  rw [goes]

end Workspace

variable {c : Workspace} {fresh : TaskId} {o : Outcome} {a : Json}

namespace Work

theorem rounds_installRound (n : Needs) (round : Nat) (c : Workspace) :
    n.Rounds round c (installRound n round c) := by
  unfold installRound
  split
  · rename_i d added
    obtain rfl : (c.addBundled n.plugins).2 = d := congrArg Prod.snd added
    exact .gathers (congrArg Prod.fst added)
  · rename_i f d added
    obtain rfl : (c.addBundled n.plugins).2 = d := congrArg Prod.snd added
    exact .fails (congrArg Prod.fst added)

theorem begins_openStore : (Job.openStore a).Begins fresh c (openStore fresh a c) := by
  unfold openStore
  split
  · rename_i ready
    exact .storeOpen ready
  · rename_i unready
    rw [Bool.not_eq_true] at unready
    split
    · rename_i u opening
      exact .storeJoined unready opening
    · rename_i closed
      exact .storeLaunched unready closed

theorem begins_fetch {p : String} : (Job.fetch p a).Begins fresh c (fetch fresh p a c) := by
  unfold fetch
  dsimp only
  rw [Downloads.pending_sync]
  split
  · rename_i known
    exact .fetchKnown known
  · rename_i unknown
    split
    · rename_i there
      exact .fetchThere unknown there
    · rename_i absent
      rw [Bool.not_eq_true] at absent
      split
      · rename_i u pending
        exact .fetchJoined unknown absent pending
      · rename_i free
        exact .fetchLaunched unknown absent free

theorem begins_install {w : Wanted} : (Job.install w).Begins fresh c (install fresh w c) := by
  unfold install
  split
  · rename_i key m found
    unfold reinstall
    split
    · rename_i i spelt
      exact .installThere found spelt
    · rename_i f unspelt
      exact .installUnspelt found unspelt
  · rename_i missing
    split
    · rename_i u installing
      exact .installJoined missing installing
    · rename_i free
      exact .installLaunched missing free

theorem compile_eq (r : CompileRequest) (c : Workspace) : compile r c =
    match prepare c.compiles.started r c.settings with
    | .ok comp => installNeeds comp (c.begun r)
    | .error f => conclude c.compiles.started (.error f) (c.begun r) := by
  unfold compile
  dsimp only
  rw [Workspace.settings_activate]
  rfl

theorem begins_compile {r : CompileRequest} : (Job.compile r).Begins fresh c (compile r c) := by
  rw [compile_eq]
  split
  · rename_i comp prepared
    exact .compileBegun prepared
  · rename_i f unprepared
    exact .compileRefused unprepared

theorem resumes_storeAwaited {u : TaskId} :
    (Stage.storeAwaited u).Resumes c o (storeAwaited u o c) := by
  cases o with
  | ok r => exact .storeOpen
  | error f =>
    simp only [storeAwaited]
    split
    · rename_i opening
      exact .storeAbandoned opening
    · rename_i other
      exact .storeLost other

theorem resumes_downloaded {p : String} :
    (Stage.downloaded p a).Resumes c o (downloaded p a o c) := by
  unfold downloaded
  split
  · rename_i fs
    dsimp only
    split
    · rename_i metadata listed
      split
      · rename_i alone
        refine .placed fun m hm => ?_
        obtain rfl := Option.some.inj (listed.symm.trans hm)
        exact alone
      · rename_i apart
        rw [not_or, Bool.not_eq_true] at apart
        exact .placedFirst listed apart.1 apart.2
    · rename_i unlisted
      exact .placed fun m hm => by cases unlisted.symm.trans hm
  · rename_i r odd
    exact .downloadOdd odd
  · exact .downloadFailed

theorem resumes_fetched {i : Installation} {package : String} :
    (Stage.fetched i package).Resumes c o (fetched i package o c) := by
  cases o with
  | error f => exact .unfetched
  | ok r =>
    simp only [fetched]
    split
    · rename_i v d evaluated
      obtain rfl : (c.evaluate (modulePath c package)).2 = d := congrArg Prod.snd evaluated
      replace evaluated := congrArg Prod.fst evaluated
      unfold registered
      split
      · rename_i empty
        exact .exportEmpty evaluated empty
      · rename_i given
        exact .registered evaluated (by simpa using given)
    · rename_i f d evaluated
      obtain rfl : (c.evaluate (modulePath c package)).2 = d := congrArg Prod.snd evaluated
      replace evaluated := congrArg Prod.fst evaluated
      unfold mend
      split
      · rename_i spent
        exact .evaluationFailed evaluated spent
      · rename_i left
        exact .evaluationMends evaluated (Nat.lt_of_not_le left)

theorem resumes_presetsInstalled {n : Needs} {round : Nat} :
    (Stage.presetsInstalled n round).Resumes c o (presetsInstalled n round o c) := by
  cases o with
  | error f => exact .presetsFailed
  | ok r =>
    simp only [presetsInstalled]
    split
    · rename_i there
      rw [Bool.and_eq_true] at there
      exact .roundComplete there.1 there.2
    · rename_i lost
      rw [Bool.not_eq_true] at lost
      split
      · rename_i left
        exact .roundRepeated lost left
      · rename_i spent
        exact .roundsSpent lost (Nat.le_of_not_lt spent)

theorem resumes_transformed {comp : Compilation} :
    (Stage.transformed comp).Resumes c o (transformed comp o c) := by
  unfold transformed
  split
  · exact .transformed
  · rename_i r odd
    exact .engineOdd odd
  · rename_i f
    unfold mendEngine
    split
    · rename_i unready
      exact .engineUnready unready
    · rename_i settled
      replace settled : c.isNotReady f = false := eq_false_of_ne_true settled
      split
      · rename_i missing
        split
        · rename_i spent
          exact .engineSpent settled missing spent
        · rename_i left
          exact .engineMends settled missing (Nat.lt_of_not_le left)
      · rename_i other
        exact .engineRefused settled (by simpa using other)

end Work

/-- The first move of a job goes in one of these ways. -/
theorem Job.begins (j : Job) (fresh : TaskId) (c : Workspace) :
    j.Begins fresh c (j.begin fresh c) := by
  cases j with
  | openStore a => exact Work.begins_openStore
  | copyProject a =>
    simp only [begin, Work.copyProject]
    split
    · rename_i project
      exact .projectAsked project
    · rename_i none
      exact .projectless (by simpa using none)
  | fetch p a => exact Work.begins_fetch
  | download p a => exact .downloadAsked
  | recover f a =>
    simp only [begin, Work.recover]
    split
    · rename_i p missing
      exact .recovers missing
    · rename_i unnamed
      exact .unrecoverable unnamed
  | resolve w => exact .resolves
  | install w => exact Work.begins_install
  | installFresh w => exact .installBegun
  | installOne w => exact .oneBegun
  | installAll n =>
    simp only [begin, Work.installAll]
    split
    · rename_i macros
      exact .macrosFirst macros
    · rename_i plain
      exact .roundFirst (by simpa using plain)
  | compile r => exact Work.begins_compile
  | compilePayload payload =>
    simp only [begin, Work.compilePayload]
    split
    · rename_i r read
      exact .payloadRead read
    · rename_i why rejected
      exact .payloadRejected rejected
  | handle payload => exact .handled
  | warmup => exact .warmupBegun

/-- What decides for one way decides against the others. -/
theorem Job.Begins.eq {j : Job} {r : Workspace × Move} (hr : j.Begins fresh c r) :
    j.begin fresh c = r := by
  cases hr with
  | storeOpen ready => simp [begin, Work.openStore, ready]
  | storeJoined unready opening => simp [begin, Work.openStore, unready, opening]
  | storeLaunched unready closed => simp [begin, Work.openStore, unready, closed]
  | projectAsked project => simp [begin, Work.copyProject, project]
  | projectless none => simp [begin, Work.copyProject, none]
  | fetchKnown known => simp [begin, Work.fetch, known]
  | fetchThere unknown there => simp [begin, Work.fetch, unknown, there]
  | fetchJoined unknown absent pending => simp [begin, Work.fetch, unknown, absent, pending]
  | fetchLaunched unknown absent free => simp [begin, Work.fetch, unknown, absent, free]
  | recovers missing => simp [begin, Work.recover, missing]
  | unrecoverable unnamed => simp [begin, Work.recover, unnamed]
  | installThere found spelt => simp [begin, Work.install, Work.reinstall, found, spelt]
  | installUnspelt found unspelt => simp [begin, Work.install, Work.reinstall, found, unspelt]
  | installJoined missing installing => simp [begin, Work.install, missing, installing]
  | installLaunched missing free => simp [begin, Work.install, missing, free]
  | macrosFirst macros => simp [begin, Work.installAll, macros]
  | roundFirst plain => simp [begin, Work.installAll, plain]
  | compileBegun prepared => rw [begin, Work.compile_eq, prepared]
  | compileRefused unprepared => rw [begin, Work.compile_eq, unprepared]
  | payloadRead read => simp [begin, Work.compilePayload, read]
  | payloadRejected rejected => simp [begin, Work.compilePayload, rejected]
  | downloadAsked | resolves | installBegun | oneBegun | handled | warmupBegun => rfl

/-- A stage that is told an outcome goes on in one of these ways. -/
theorem Stage.resumes (st : Stage) (o : Outcome) (c : Workspace) :
    st.Resumes c o (st.resume o c) := by
  cases st with
  | passOn => exact .passedOn
  | storeAwaited u => exact Work.resumes_storeAwaited
  | projectCopied =>
    simp only [resume, Work.projectCopied]
    split
    · exact .projectCopied
    · rename_i r odd
      exact .projectOdd odd
    · exact .projectFailed
  | downloadOwned p => exact .downloadEnded
  | downloaded p a => exact Work.resumes_downloaded
  | metadataTried =>
    cases o with
    | ok r => exact .metadataFound
    | error f =>
      simp only [resume, Work.metadataTried]
      split
      · rename_i absent
        exact .metadataAbsent absent
      · rename_i other
        exact .metadataFailed (by simpa using other)
  | literalTried w =>
    cases o with
    | ok r => exact .literalFound
    | error f =>
      simp only [resume, Work.literalTried]
      split
      · rename_i absent
        exact .literalAbsent absent
      · rename_i other
        exact .literalFailed (by simpa using other)
  | prefixedTried w p =>
    cases o with
    | ok r => exact .prefixedFound
    | error f =>
      simp only [resume, Work.prefixedTried]
      split
      · rename_i absent
        exact .prefixedAbsent absent
      · rename_i other
        exact .prefixedFailed (by simpa using other)
  | installOwned key => exact .installEnded
  | named i =>
    simp only [resume, Work.named]
    split
    · exact .named
    · rename_i r odd
      exact .nameOdd odd
    · exact .nameless
  | fetched i package => exact Work.resumes_fetched
  | presetsInstalled n round => exact Work.resumes_presetsInstalled
  | transformed comp => exact Work.resumes_transformed
  | compileHandled =>
    simp only [resume, Work.compileHandled]
    split
    · exact .compileHandled
    · rename_i r odd
      exact .compileOdd odd
    · split
      · rename_i reported
        exact .compileReported reported
      · rename_i other
        exact .compileFailed (by simpa using other)
  | warm =>
    cases o with
    | ok r => exact .warmed
    | error f =>
      simp only [resume, Work.warm]
      split
      · rename_i reported
        exact .warmReported reported
      · rename_i other
        exact .warmFailed (by simpa using other)
  | _ => cases o <;> constructor

/-- The move upon a cue goes in one of these ways. -/
theorem Cue.goes (q : Cue) (fresh : TaskId) (c : Workspace) : q.Goes fresh c (q.move fresh c) := by
  cases q with
  | begin j => exact j.begins fresh c
  | told st o => exact st.resumes o c

theorem Host.next_of_begins {h : Host} {j : Job} {r : Workspace × Move}
    (hr : j.Begins h.tasks.length h.workspace r) : h.next (.begin j) = r :=
  hr.eq

end PluginHost
