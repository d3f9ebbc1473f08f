import PluginHost.Proofs.Host.Branches
import PluginHost.Proofs.Host.Stages

/-! Every move of a job keeps to the job's control flow and puts only its own tasks on record. -/
namespace PluginHost

variable {s : Settings} {roots : List Job} {c d : Workspace} {owner : Job} {w : Wanted}
  {i : Installation} {n : Needs} {o : Outcome} {a : Json}

namespace Workspace.Knows

theorem mono (hk : c.Knows roots) (js : List Job) : c.Knows (roots ++ js) := by
  have grows {u : TaskId} {j : Job} (hu : roots[u]? = some j) : (roots ++ js)[u]? = some j := by
    rw [List.getElem?_append_left (List.getElem?_eq_some_iff.1 hu).1, hu]
  refine ⟨fun u hu => ?_, fun p u hu => ?_, fun key u hu => ?_⟩
  · obtain ⟨a, ha⟩ := hk.opening u hu
    exact ⟨a, grows ha⟩
  · obtain ⟨a, ha⟩ := hk.pending p u hu
    exact ⟨a, grows ha⟩
  · obtain ⟨w, hw, he⟩ := hk.installing key u hu
    exact ⟨w, grows hw, he⟩

theorem congr (hk : c.Knows roots) (opening : d.store.opening = c.store.opening)
    (pending : d.downloads.pending = c.downloads.pending)
    (installing : d.installing = c.installing) : d.Knows roots :=
  ⟨fun u hu => hk.opening u (opening ▸ hu), fun p u hu => hk.pending p u (pending ▸ hu),
    fun key u hu => hk.installing key u (installing ▸ hu)⟩

theorem activate (hk : c.Knows roots) (fingerprint : String) :
    (c.activate fingerprint).2.Knows roots := by
  obtain ⟨i, e, resets, goes⟩ := c.activate_frame fingerprint
  rw [goes]
  exact hk.congr rfl rfl rfl

theorem after (hk : c.Knows roots) (change : Change) : (c.after change).Knows roots := by
  cases change with
  | resetStore => exact ⟨fun u hu => (by cases hu), hk.pending, hk.installing⟩
  | reset includeStore =>
    refine ⟨fun u hu => ?_, hk.pending, hk.installing⟩
    cases includeStore with
    | true => cases hu
    | false => exact hk.opening u hu
  | activate fingerprint => exact Knows.activate hk fingerprint
  | _ => exact hk.congr rfl rfl rfl

end Workspace.Knows

/-- A move by a job, with what it does to the workspace, that keeps to the job's control flow. -/
structure Move.Lawful (s : Settings) (roots : List Job) (owner : Job) (r : Workspace × Move) :
    Prop where
  suits : r.2.Suits s roots owner
  knows : r.1.Knows (roots ++ r.2.jobs)

namespace Move.Lawful

/-- A move that starts no task and leaves the records alone. -/
theorem plain {m : Move} (hk : c.Knows roots) (hj : m.jobs = []) (hm : m.Suits s roots owner) :
    Lawful s roots owner (c, m) :=
  ⟨hm, by simpa [hj] using hk⟩

theorem fail {f : Failure} (hk : c.Knows roots) : Lawful s roots owner (c, .fail f) :=
  plain hk rfl fun _ hr => by cases hr

theorem unexpected (hk : c.Knows roots) : Lawful s roots owner (c, .unexpected) := fail hk

theorem ok {r : Reply} (hk : c.Knows roots) (hr : owner.Returns s r) :
    Lawful s roots owner (c, .finish (.ok r)) :=
  plain hk rfl fun _ h => Except.ok.inj h ▸ hr

theorem call {st : Stage} {j : Job} (hk : c.Knows roots) (ha : st.Awaits s owner (.called j)) :
    Lawful s roots owner (c, .call st j) :=
  plain hk rfl ha

theorem gather {st : Stage} {js : List Job} (hk : c.Knows roots)
    (ha : st.Awaits s owner (.gathered js)) : Lawful s roots owner (c, .gather st js) :=
  ⟨ha, hk.mono js⟩

theorem ask {st : Stage} {q : Query} (hk : c.Knows roots) (ha : st.Awaits s owner (.asked q)) :
    Lawful s roots owner (c, .ask st q) :=
  plain hk rfl ha

end Move.Lawful

namespace Downloads

variable (d : Downloads)

@[simp] theorem pending_record (path : String) : (d.record path).pending = d.pending := by
  unfold record
  split <;> rfl

@[simp] theorem pending_counted : d.counted.pending = d.pending := rfl

end Downloads

namespace Work

theorem getElem?_fresh (j : Job) : (roots ++ [j])[roots.length]? = some j := by simp

theorem prepare_eq_ok {attempt : Nat} {r : CompileRequest} {comp : Compilation}
    (hp : prepare attempt r s = .ok comp) :
    ∃ config engineConfig plugins presets, s.configure r = .ok config ∧
      s.engineConfig r config = .ok engineConfig ∧ config.pluginNames = .ok plugins ∧
      config.presetNames = .ok presets ∧
      comp = ⟨attempt, r, engineConfig,
        ⟨plugins, presets, r.engine, r.contextId, r.hasMacros⟩, 0⟩ := by
  unfold prepare at hp
  cases hc : s.configure r with
  | error f => simp [hc, bind, Except.bind] at hp
  | ok config =>
    cases he : s.engineConfig r config with
    | error f => simp [hc, he, bind, Except.bind] at hp
    | ok engineConfig =>
      cases hl : config.pluginNames with
      | error f => simp [hc, he, hl, bind, Except.bind] at hp
      | ok plugins =>
        cases hr : config.presetNames with
        | error f => simp [hc, he, hl, hr, bind, Except.bind] at hp
        | ok presets =>
          simp only [hc, he, hl, hr, bind, Except.bind, pure, Except.pure, Except.ok.injEq] at hp
          exact ⟨config, engineConfig, plugins, presets, rfl, he, hl, hr, hp.symm⟩

theorem prepared_of_prepare {attempt : Nat} {r : CompileRequest} {comp : Compilation}
    (hp : prepare attempt r s = .ok comp) : comp.request = r ∧ comp.Prepared s := by
  obtain ⟨_, _, _, _, _, _, _, _, rfl⟩ := prepare_eq_ok hp
  exact ⟨rfl, hp⟩

end Work

/-! The tasks that moves put on record, and those that they take off it. -/
namespace Workspace.Knows

variable {p : String} {key : ModuleName}

theorem opens (hk : c.Knows roots) (a : Json) :
    ({ c with store := { c.store with opening := some roots.length } } : Workspace).Knows
      (roots ++ [.copyProject a]) := by
  have hm := hk.mono [.copyProject a]
  exact ⟨fun u hu => ⟨a, Option.some.inj hu ▸ Work.getElem?_fresh _⟩, hm.pending, hm.installing⟩

theorem abandons (hk : c.Knows roots) :
    ({ c with store := { c.store with opening := none } } : Workspace).Knows roots :=
  ⟨fun _ hu => (by cases hu), hk.pending, hk.installing⟩

theorem fetches (hk : c.Knows roots) (p : String) (a : Json) :
    ({ c with downloads := (c.downloads.sync c.store).started p roots.length } : Workspace).Knows
      (roots ++ [.download p a]) := by
  have hm := hk.mono [.download p a]
  refine ⟨hm.opening, fun q u hu => ?_, hm.installing⟩
  simp only [Downloads.started, Table.get?_insert] at hu
  split at hu
  · rename_i hq
    exact ⟨a, by simp [← Option.some.inj hu, ← hq]⟩
  · exact hm.pending q u (by simpa using hu)

theorem fetched (hk : c.Knows roots) :
    ({ c with downloads := c.downloads.ended p } : Workspace).Knows roots := by
  refine ⟨hk.opening, fun q u hu => ?_, hk.installing⟩
  simp only [Downloads.ended, Table.get?_erase] at hu
  split at hu
  · cases hu
  · exact hk.pending q u hu

theorem installs (hk : c.Knows roots) (w : Wanted) :
    ({ c with installing := c.installing.insert w.key roots.length } : Workspace).Knows
      (roots ++ [.installFresh w]) := by
  have hm := hk.mono [.installFresh w]
  refine ⟨hm.opening, hm.pending, fun key u hu => ?_⟩
  simp only [Table.get?_insert] at hu
  split at hu
  · rename_i hkey
    exact ⟨w, by simp [← Option.some.inj hu], hkey⟩
  · exact hm.installing key u hu

theorem installed (hk : c.Knows roots) :
    ({ c with installing := c.installing.erase key } : Workspace).Knows roots := by
  refine ⟨hk.opening, hk.pending, fun key u hu => ?_⟩
  simp only [Table.get?_erase] at hu
  split at hu
  · cases hu
  · exact hk.installing key u hu

theorem addBundled (hk : c.Knows roots) (names : List String) :
    (c.addBundled names).2.Knows roots := by
  obtain ⟨i, goes⟩ := c.addBundled_frame names
  rw [goes]
  exact hk.congr rfl rfl rfl

theorem begun (hk : c.Knows roots) (r : CompileRequest) : (c.begun r).Knows roots :=
  Knows.activate (c := { c with compiles := c.compiles.start.2 }) (hk.congr rfl rfl rfl) _

end Workspace.Knows

open Move.Lawful

variable {r : Workspace × Move}

theorem Needs.Rounds.lawful {round : Nat} (hr : n.Rounds round c r) (hk : c.Knows roots) :
    Move.Lawful s roots (.installAll n) r := by
  cases hr with
  | gathers => exact gather (hk.addBundled n.plugins) .pluginsInstalled
  | fails => exact fail (hk.addBundled n.plugins)

theorem Work.lawful_installNeeds {comp : Compilation} (hp : comp.Prepared s) (hk : c.Knows roots) :
    Move.Lawful s roots (.compile comp.request) (installNeeds comp c) :=
  call (hk.congr rfl rfl rfl) (.needsInstalled hp)

theorem Work.lawful_conclude_error {attempt : Nat} {f : Failure} (hk : c.Knows roots) :
    Move.Lawful s roots owner (conclude attempt (.error f) c) :=
  fail (hk.congr rfl rfl rfl)

theorem Job.Begins.lawful {j : Job} (hr : j.Begins roots.length c r) (hs : c.settings = s)
    (hk : c.Knows roots) : Move.Lawful s roots j r := by
  cases hr with
  | storeOpen => exact ok hk rfl
  | storeJoined unready opening =>
    obtain ⟨b, hb⟩ := hk.opening _ opening
    exact plain hk rfl ⟨_, hb, .storeAwaited⟩
  | storeLaunched => exact ⟨Stage.Awaits.storeAwaited, hk.opens _⟩
  | projectAsked => exact ask hk .projectCopied
  | fetchKnown => exact ok (hk.congr rfl (by simp) rfl) rfl
  | fetchThere => exact ok (hk.congr rfl (by simp) rfl) rfl
  | fetchJoined unknown absent pending =>
    obtain ⟨b, hb⟩ := hk.pending _ _ pending
    exact plain (hk.congr rfl (by simp) rfl) rfl ⟨_, hb, .downloadJoined⟩
  | fetchLaunched => exact ⟨Stage.Awaits.downloadOwned, hk.fetches _ _⟩
  | downloadAsked => exact ask hk .downloaded
  | recovers missing => exact call hk (.recovered (hs ▸ missing))
  | resolves =>
    rw [Workspace.metadataPath, hs]
    exact call hk .literalTried
  | installThere => exact ok (hk.congr rfl rfl rfl) ⟨_, rfl⟩
  | installJoined missing installing =>
    obtain ⟨v, hv, same⟩ := hk.installing _ _ installing
    exact plain hk rfl ⟨_, hv, .installJoined same⟩
  | installLaunched => exact ⟨Stage.Awaits.installOwned, hk.installs _⟩
  | @installBegun w => exact call hk (.storeReady (i := ⟨w, 0⟩))
  | oneBegun => exact call hk .oneTried
  | macrosFirst => exact call hk .macrosReady
  | roundFirst => exact (Work.rounds_installRound ..).lawful hk
  | compileBegun prepared =>
    obtain ⟨rfl, hp⟩ := Work.prepared_of_prepare prepared
    exact Work.lawful_installNeeds (hs ▸ hp) (hk.begun _)
  | compileRefused => exact Work.lawful_conclude_error (hk.begun _)
  | payloadRead read => exact call hk (.payloadRead read)
  | handled => exact call hk .compileHandled
  | warmupBegun => exact call hk (hs ▸ .warm)
  | projectless | unrecoverable | installUnspelt | payloadRejected => exact fail hk

theorem Stage.Resumes.lawful {st : Stage} {src : Source} (hr : st.Resumes c o r)
    (ha : st.Awaits s owner src) (hs : c.settings = s) (hk : c.Knows roots)
    (returns : ∀ r, o = .ok r → src.Returns s r) : Move.Lawful s roots owner r := by
  cases ha with
  | storeAwaited =>
    cases hr with
    | storeOpen => exact ok hk rfl
    | storeAbandoned => exact fail hk.abandons
    | storeLost => exact fail hk
  | projectCopied =>
    cases hr with
    | projectCopied => exact ok (hk.congr rfl rfl rfl) rfl
    | projectOdd | projectFailed => exact fail hk
  | downloadJoined | installJoined | payloadRead =>
    cases hr
    exact plain hk rfl returns
  | downloadOwned =>
    cases hr
    exact plain hk.fetched rfl returns
  | @downloaded p =>
    have placed {fs : Files} : (Work.placed p fs c).Knows roots :=
      hk.congr rfl (by simp [Work.placed]) rfl
    cases hr with
    | placed => exact ok placed rfl
    | placedFirst listed apart => exact call placed (.metadataTried (hs ▸ listed) apart)
    | downloadOdd | downloadFailed => exact fail hk
  | metadataTried =>
    cases hr with
    | metadataFound | metadataAbsent => exact ok hk rfl
    | metadataFailed => exact fail hk
  | recovered =>
    cases hr with
    | recovered => exact ok hk ⟨_, rfl⟩
    | recoveryFailed => exact fail hk
  | literalTried =>
    cases hr with
    | literalFound => exact ok hk ⟨_, rfl, .inl rfl⟩
    | literalAbsent =>
      rw [hs]
      exact call hk .prefixedTried
    | literalFailed => exact fail hk
  | prefixedTried =>
    cases hr with
    | prefixedFound => exact ok hk ⟨_, rfl, .inr rfl⟩
    | prefixedAbsent | prefixedFailed => exact fail hk
  | installOwned =>
    cases hr
    exact plain hk.installed rfl returns
  | storeReady =>
    cases hr with
    | storeReady => exact call hk .named
    | storeUnready => exact fail hk
  | named =>
    cases hr with
    | named =>
      obtain ⟨_, same, resolves⟩ := returns _ rfl
      cases same
      exact call hk (.fetched resolves)
    | nameOdd | nameless => exact fail hk
  | @fetched i =>
    cases hr with
    | registered => exact ok (hk.congr rfl rfl rfl) ⟨_, rfl⟩
    | evaluationMends =>
      exact call (hk.congr rfl rfl rfl)
        (.evaluationMended (i := { i with attempts := i.attempts + 1 }))
    | exportEmpty | evaluationFailed => exact fail (hk.congr rfl rfl rfl)
    | unfetched => exact fail hk
  | evaluationMended =>
    cases hr with
    | evaluationMended => exact call (hk.congr rfl rfl rfl) .storeReady
    | evaluationUnmended => exact fail hk
  | oneTried =>
    cases hr with
    | oneInstalled => exact ok hk rfl
    | oneFailed => exact fail hk
  | macrosReady =>
    cases hr with
    | macrosReady => exact (Work.rounds_installRound ..).lawful hk
    | macrosUnready => exact fail hk
  | pluginsInstalled =>
    cases hr with
    | pluginsInstalled => exact gather hk .presetsInstalled
    | pluginsFailed => exact fail hk
  | presetsInstalled =>
    cases hr with
    | roundComplete => exact ok hk rfl
    | roundRepeated => exact (Work.rounds_installRound ..).lawful hk
    | roundsSpent | presetsFailed => exact fail hk
  | needsInstalled prepared =>
    cases hr with
    | needsInstalled => exact ask (hk.congr rfl rfl rfl) (.transformed prepared)
    | needsFailed => exact Work.lawful_conclude_error hk
  | @transformed comp _ prepared =>
    cases hr with
    | transformed =>
      refine plain (hk.congr rfl rfl rfl) rfl fun r hr => ?_
      unfold Work.compiled at hr
      split at hr
      · exact ⟨_, (Except.ok.inj hr).symm⟩
      · cases hr
    | engineUnready => exact call (hk.congr rfl rfl rfl) (.storeOpened prepared)
    | engineMends =>
      exact call (hk.congr rfl rfl rfl)
        (.engineMended (c := { comp with recoveries := comp.recoveries + 1 }) prepared)
    | engineSpent | engineRefused => exact Work.lawful_conclude_error (hk.congr rfl rfl rfl)
    | engineOdd => exact fail hk
  | storeOpened prepared =>
    cases hr with
    | storeOpened => exact Work.lawful_installNeeds prepared hk
    | storeUnopened => exact Work.lawful_conclude_error hk
  | engineMended prepared =>
    cases hr with
    | engineMended => exact Work.lawful_installNeeds prepared (hk.congr rfl rfl rfl)
    | engineUnmended => exact Work.lawful_conclude_error hk
  | compileHandled =>
    cases hr with
    | compileHandled | compileReported => exact ok hk ⟨_, rfl⟩
    | compileOdd | compileFailed => exact fail hk
  | warm =>
    cases hr with
    | warmed | warmReported => exact ok hk ⟨_, rfl⟩
    | warmFailed => exact fail hk

/-- The first move of a job keeps to its control flow. -/
theorem Job.lawful_begin (j : Job) (hs : c.settings = s) (hk : c.Knows roots) :
    Move.Lawful s roots j (j.begin roots.length c) :=
  (j.begins roots.length c).lawful hs hk

/-- A stage that gets an outcome of the expected form keeps to its job's control flow. -/
theorem Stage.lawful_resume {st : Stage} {src : Source} (ha : st.Awaits s owner src)
    (hs : c.settings = s) (hk : c.Knows roots) (hr : ∀ r, o = .ok r → src.Returns s r) :
    Move.Lawful s roots owner (st.resume o c) :=
  (st.resumes o c).lawful ha hs hk hr

end PluginHost
