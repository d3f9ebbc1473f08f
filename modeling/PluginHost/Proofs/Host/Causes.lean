import PluginHost.Proofs.Host.Outcomes

/-!
Where failures come from. A job that fails was told of a failure by what it waited for, and passes
it on or reports one of its own because of it; or it fails by itself.
-/
namespace PluginHost

variable {s : Settings} {u : Setup} {E : Expectation} {q : Cue} {c : Workspace} {fresh : TaskId}
  {f g : Failure} {a : Json} {p : String} {w : Wanted} {n : Needs} {r : CompileRequest}

namespace Work

theorem cause_openStore (hq : q.For s E (.openStore a))
    (hm : (q.move fresh c).2 = .finish (.error f)) :
    ∃ v b, q = .told (.storeAwaited v) (.error f) ∧ E.ends (.copyProject b) (.error f) := by
  have goes := q.goes fresh c
  generalize q.move fresh c = x at goes hm
  cases hq with
  | begin => cases goes <;> cases hm
  | told awaits gives =>
    cases awaits
    cases goes with
    | storeOpen => cases hm
    | storeAbandoned | storeLost =>
      cases hm
      exact ⟨_, _, rfl, gives⟩

theorem cause_copyProject (hE : E.Formed u) (hq : q.For s E (.copyProject a))
    (hm : (q.move fresh c).2 = .finish (.error f)) :
    (c.store.hasProject = false ∧
      f = Fault.general "Store has no project files provider to initialize from") ∨
      E.answers (.projectFiles a) (.error f) := by
  have goes := q.goes fresh c
  generalize q.move fresh c = x at goes hm
  cases hq with
  | begin =>
    cases goes with
    | projectAsked => cases hm
    | projectless none =>
      cases hm
      exact .inl ⟨none, rfl⟩
  | told awaits gives =>
    cases awaits
    cases goes with
    | projectCopied => cases hm
    | @projectOdd r odd =>
      have admits := hE.admits gives
      cases r with
      | files fs => exact (odd fs rfl).elim
      | _ => exact admits.elim
    | projectFailed =>
      cases hm
      exact .inr gives

theorem cause_fetch (hq : q.For s E (.fetch p a)) (hm : (q.move fresh c).2 = .finish (.error f)) :
    ∃ b, E.ends (.download (Path.normalize p) b) (.error f) := by
  have goes := q.goes fresh c
  generalize q.move fresh c = x at goes hm
  cases hq with
  | begin => cases goes <;> cases hm
  | told awaits gives =>
    cases awaits with
    | downloadJoined | downloadOwned =>
      cases goes
      cases hm
      exact ⟨_, gives⟩

theorem cause_download (hE : E.Formed u) (hq : q.For s E (.download p a))
    (hm : (q.move fresh c).2 = .finish (.error f)) :
    E.answers (.download p a) (.error f) ∨
      ∃ metadata, Downloads.metadata? (Path.normalize s.packagesRoot) p = some metadata ∧
        metadata ≠ p ∧ E.ends (.fetch metadata a) (.error f) ∧ f.fault.isUnfetchable = false := by
  have goes := q.goes fresh c
  generalize q.move fresh c = x at goes hm
  cases hq with
  | begin =>
    cases goes
    cases hm
  | told awaits gives =>
    cases awaits with
    | downloaded =>
      cases goes with
      | placed | placedFirst => cases hm
      | @downloadOdd _ _ r odd =>
        have admits := hE.admits gives
        cases r with
        | files fs => exact (odd fs rfl).elim
        | _ => exact admits.elim
      | downloadFailed =>
        cases hm
        exact .inl gives
    | metadataTried metadata apart =>
      cases goes with
      | metadataFound | metadataAbsent => cases hm
      | metadataFailed other =>
        cases hm
        exact .inr ⟨_, metadata, apart, gives, other⟩

theorem cause_recover (hq : q.For s E (.recover g a))
    (hm : (q.move fresh c).2 = .finish (.error f)) :
    (q = .begin (.recover g a) ∧ g.missingPath? c.root = none ∧
      f = .because (.unrecoverable g.message) g) ∨ ∃ path, E.ends (.fetch path a) (.error f) := by
  have goes := q.goes fresh c
  generalize q.move fresh c = x at goes hm
  cases hq with
  | begin =>
    cases goes with
    | recovers => cases hm
    | unrecoverable unnamed =>
      cases hm
      exact .inl ⟨rfl, unnamed, rfl⟩
  | told awaits gives =>
    cases awaits
    cases goes with
    | recovered => cases hm
    | recoveryFailed =>
      cases hm
      exact .inr ⟨_, gives⟩

theorem cause_installOne (hq : q.For s E (.installOne w))
    (hm : (q.move fresh c).2 = .finish (.error f)) :
    ∃ g, f = .because (.notInstalled w.kind.word w.name g.message) g := by
  have goes := q.goes fresh c
  generalize q.move fresh c = x at goes hm
  cases hq with
  | begin =>
    cases goes
    cases hm
  | told awaits gives =>
    cases awaits
    cases goes with
    | oneInstalled => cases hm
    | @oneFailed _ g =>
      cases hm
      exact ⟨g, rfl⟩

theorem cause_addBundled {names : List String} {d : Workspace}
    (hd : c.addBundled names = (.error f, d)) :
    ∃ name path fault, lookup? name c.settings.bundled = some path ∧
      c.host.import? path = .error fault ∧ f = Workspace.bundleFailure name fault := by
  induction names generalizing c with
  | nil => cases hd
  | cons name names ih =>
    unfold Workspace.addBundled at hd
    split at hd
    · rename_i path bundled absent
      split at hd
      · obtain ⟨name, path, fault, bundled, imported, rfl⟩ := ih hd
        exact ⟨name, path, fault, bundled, imported, rfl⟩
      · rename_i fault imported
        cases hd
        exact ⟨name, path, fault, bundled, imported, rfl⟩
    · exact ih hd

end Work

/-- What makes the installation of all that a configuration needs fail. -/
inductive Needs.Fails (E : Expectation) (c : Workspace) (n : Needs) : Failure → Prop where
  | bundled {name path : String} {fault : Fault}
      (bundled : lookup? name c.settings.bundled = some path)
      (imported : c.host.import? path = .error fault) :
      Fails E c n (Workspace.bundleFailure name fault)
  | closed {f : Failure} (opens : E.ends (.openStore n.contextId) (.error f)) : Fails E c n f
  | one {w : Wanted} {f : Failure} (installs : E.ends (.installOne w) (.error f)) : Fails E c n f
  | lost : Fails E c n (Fault.recoveryLimit c.settings.maxRecoveries none)

/-- What makes a compile fail. -/
inductive CompileRequest.Fails (E : Expectation) (c : Workspace) (r : CompileRequest) :
    Cue → Failure → Prop where
  | unprepared {attempt : Nat} {fault : Fault}
      (prepared : Work.prepare attempt r c.settings = .error fault) :
      Fails E c r (.begin (.compile r)) fault
  | needs {comp : Compilation} {f : Failure}
      (installs : E.ends (.installAll comp.needs) (.error f)) :
      Fails E c r (.told (.needsInstalled comp) (.error f)) f
  | unreadable {comp : Compilation} {config : EngineConfig} {registry : Registry}
      {result : Transformed} {fault : Fault}
      (answered : E.answers (.transform r.code config registry) (.ok (.transformed result)))
      (read : c.settings.dependencies r.engine result.metadata = .error fault) :
      Fails E c r (.told (.transformed comp) (.ok (.transformed result))) fault
  /-- The engine's failure is reported as the verdict, or no more recoveries are left. -/
  | refused {comp : Compilation} {f g : Failure}
      (fault : (∃ text path, f.fault = .transform text path) ∨
        ∃ attempts last, f.fault = .recoveryLimit attempts last) :
      Fails E c r (.told (.transformed comp) (.error g)) f
  | closed {comp : Compilation} {f : Failure} (opens : E.ends (.openStore r.contextId) (.error f)) :
      Fails E c r (.told (.storeOpened comp) (.error f)) f
  | unmended {comp : Compilation} {f g : Failure}
      (recovers : E.ends (.recover g r.contextId) (.error f)) :
      Fails E c r (.told (.engineMended comp) (.error f)) f

namespace Work

theorem cause_installRound {round : Nat}
    (hm : (installRound n round c).2 = .finish (.error f)) : n.Fails E c f := by
  have rounds := rounds_installRound n round c
  generalize installRound n round c = x at rounds hm
  cases rounds with
  | gathers => cases hm
  | fails added =>
    cases hm
    obtain ⟨name, path, fault, bundled, imported, rfl⟩ :=
      cause_addBundled (Prod.ext added rfl)
    exact .bundled bundled imported

theorem cause_gathered {kind : ModuleKind} {names : List String}
    (hg : (Source.gathered (jobs n kind names)).Gives E (.error f)) : n.Fails E c f := by
  obtain h | ⟨-, j, hj, h⟩ := hg
  · cases h
  · obtain ⟨name, -, rfl⟩ := List.mem_map.1 hj
    exact .one h

theorem cause_installAll (hq : q.For s E (.installAll n))
    (hm : (q.move fresh c).2 = .finish (.error f)) : n.Fails E c f := by
  have goes := q.goes fresh c
  generalize q.move fresh c = x at goes hm
  cases hq with
  | begin =>
    cases goes with
    | macrosFirst => cases hm
    | roundFirst => exact cause_installRound hm
  | told awaits gives =>
    cases awaits with
    | macrosReady =>
      cases goes with
      | macrosReady => exact cause_installRound hm
      | macrosUnready =>
        cases hm
        exact .closed gives
    | pluginsInstalled =>
      cases goes with
      | pluginsInstalled => cases hm
      | pluginsFailed =>
        cases hm
        exact cause_gathered gives
    | presetsInstalled =>
      cases goes with
      | roundComplete => cases hm
      | roundRepeated => exact cause_installRound hm
      | roundsSpent =>
        cases hm
        exact .lost
      | presetsFailed =>
        cases hm
        exact cause_gathered gives

theorem cause_compile (hE : E.Formed u) (hq : q.For s E (.compile r))
    (hm : (q.move fresh c).2 = .finish (.error f)) : r.Fails E c q f := by
  have goes := q.goes fresh c
  generalize q.move fresh c = x at goes hm
  cases hq with
  | begin =>
    cases goes with
    | compileBegun => cases hm
    | compileRefused unprepared =>
      cases hm
      exact .unprepared unprepared
  | told awaits gives =>
    cases awaits with
    | needsInstalled prepared =>
      cases goes with
      | needsInstalled => cases hm
      | needsFailed =>
        cases hm
        exact .needs gives
    | transformed prepared =>
      cases goes with
      | transformed =>
        have ended := Move.finish.inj hm
        unfold compiled at ended
        split at ended
        · cases ended
        · rename_i fault read
          cases ended
          exact .unreadable gives read
      | @engineOdd _ r odd =>
        have admits := hE.admits gives
        cases r with
        | transformed t => exact (odd t rfl).elim
        | _ => exact admits.elim
      | engineUnready | engineMends => cases hm
      | engineSpent =>
        cases hm
        exact .refused (.inr ⟨_, _, rfl⟩)
      | engineRefused =>
        cases hm
        exact .refused (.inl ⟨_, _, rfl⟩)
    | storeOpened prepared =>
      cases goes with
      | storeOpened => cases hm
      | storeUnopened =>
        cases hm
        exact .closed gives
    | engineMended prepared =>
      cases goes with
      | engineMended => cases hm
      | engineUnmended =>
        cases hm
        exact .unmended gives

end Work

end PluginHost
