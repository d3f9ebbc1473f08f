import PluginHost.Proofs.Host.Installs

/-!
Which engines the tasks of a host work for. A compile works for the engine of its request from the
moment it begins, and so does every task that is started on its behalf.
-/
namespace PluginHost

variable {u : Setup} {s : Settings} {E : Expectation} {roots : List Job} {owner j : Job} {q : Cue}
  {c : Workspace} {fresh : TaskId} {st : Stage} {ss : List Stage} {e : Int} {t : TaskId}

/-- The engine that a job is done for. -/
def Job.engine? : Job → Option Int
  | .resolve w | .install w | .installFresh w | .installOne w => some w.engine
  | .installAll n => some n.engine
  | .compile r => some r.engine
  | _ => none

/-- The engine that whatever waits at a stage is done for. -/
def Stage.engine? : Stage → Option Int
  | .literalTried w | .prefixedTried w _ | .oneTried w => some w.engine
  | .storeReady i | .named i | .fetched i _ | .evaluationMended i => some i.wanted.engine
  | .macrosReady n | .pluginsInstalled n _ | .presetsInstalled n _ => some n.engine
  | .needsInstalled c | .transformed c | .storeOpened c | .engineMended c => some c.request.engine
  | _ => none

/-- What is being done for an engine when a job is about to begin. For a compile that is nothing
yet. -/
def Focus.engine? : Focus → Option Int
  | .begin (.compile _) => none
  | .begin j => j.engine?
  | _ => none

/-- Callers only start compiles. -/
def Host.Label.Compiling : Host.Label → Prop
  | .started js => ∀ j ∈ js, (∃ r, j = .compile r) ∨ (∃ p, j = .compilePayload p) ∨
      (∃ p, j = .handle p) ∨ j = .warmup
  | .changed _ => False
  | _ => True

theorem Host.ordinary_of_compiling {l : Host.Label} (hl : l.Compiling) : l.Ordinary := by
  cases l with
  | started js =>
    intro w hw
    obtain ⟨r, h⟩ | ⟨p, h⟩ | ⟨p, h⟩ | h := hl _ hw <;> cases h
  | changed c => exact hl.elim
  | _ => trivial

/-- Whether a task works for an engine. -/
def Task.Serves (e : Int) (v : Task) : Prop :=
  v.focus.engine? = some e ∨ ∃ st ∈ v.stages, st.engine? = some e

/-- A move after which its task, or one that it starts, works for an engine. -/
def Move.Serves (e : Int) : Move → Prop
  | .call st j | .launch st j => st.engine? = some e ∨ (Focus.begin j).engine? = some e
  | .await st _ | .ask st _ => st.engine? = some e
  | .gather st js => st.engine? = some e ∨ ∃ j ∈ js, (Focus.begin j).engine? = some e
  | .finish _ => False

theorem Move.serves_of_jobs {m : Move} (hj : j ∈ m.jobs) (he : (Focus.begin j).engine? = some e) :
    m.Serves e := by
  cases m with
  | launch st i =>
    obtain rfl := List.mem_singleton.1 hj
    exact .inr he
  | gather st js => exact .inr ⟨j, hj, he⟩
  | _ => cases hj

/-- The engine on whose behalf a move upon a cue is made. -/
def Cue.engine? : Cue → Option Int
  | .begin j => j.engine?
  | .told st _ => st.engine?

theorem Compilation.Prepared.engine {comp : Compilation} (hp : comp.Prepared s) :
    comp.needs.engine = comp.request.engine := by
  obtain ⟨config, engineConfig, plugins, presets, -, -, -, -, hc⟩ := Work.prepare_eq_ok hp
  exact congrArg (·.needs.engine) hc

namespace Stage.Awaits

variable {src : Source}

/-- A stage is for the engine of its job, save for those of an installation, which only end it. -/
theorem engine (ha : st.Awaits s owner src) :
    st.engine? = owner.engine? ∨ st.engine? = none ∧ ∃ w, owner = .install w := by
  cases ha with
  | installJoined same => exact .inr ⟨rfl, _, rfl⟩
  | installOwned => exact .inr ⟨rfl, _, rfl⟩
  | _ => exact .inl rfl

/-- A job that is run in the place of another one is for the same engine. -/
theorem called (ha : st.Awaits s owner (.called j)) (hj : (Focus.begin j).engine? = some e) :
    owner.engine? = some e := by
  cases ha with
  | named => exact hj
  | oneTried => exact hj
  | needsInstalled prepared => exact (congrArg some prepared.engine).symm.trans hj
  | _ => cases hj

theorem gathered {js : List Job} (ha : st.Awaits s owner (.gathered js)) (hj : j ∈ js)
    (he : (Focus.begin j).engine? = some e) : owner.engine? = some e := by
  cases ha with
  | pluginsInstalled =>
    obtain ⟨name, -, rfl⟩ := List.mem_map.1 hj
    exact he
  | presetsInstalled =>
    obtain ⟨name, -, rfl⟩ := List.mem_map.1 hj
    exact he

end Stage.Awaits

/-- A move works for no engine but the one on whose behalf it is made. -/
theorem Cue.For.serves (hq : q.For s E owner) (hs : (q.move fresh c).2.Suits s roots owner)
    (he : (q.move fresh c).2.Serves e) : q.engine? = some e := by
  have installs {w : Wanted} (hq : q.For s E (.install w)) : q.engine? = some e := by
    obtain ⟨o, hm⟩ | ⟨t, hm⟩ | ⟨rfl, -, hm⟩ := Work.install_cases fresh c hq
    · exact (hm ▸ he : (Move.finish o).Serves e).elim
    · cases (hm ▸ he : (Move.await .passOn t).Serves e)
    · obtain h | h := (hm ▸ he : (Move.launch _ _).Serves e)
      · cases h
      · exact h
  have owned (ho : owner.engine? = some e) : q.engine? = some e := by
    cases hq with
    | begin => exact ho
    | told awaits gives =>
      obtain h | ⟨-, w, rfl⟩ := awaits.engine
      · exact h.trans ho
      · exact installs (.told awaits gives)
  have stage {st : Stage} {src : Source} (ha : st.Awaits s owner src)
      (h : st.engine? = some e) : q.engine? = some e := by
    obtain hst | ⟨hst, -⟩ := ha.engine
    · exact owned (hst.symm.trans h)
    · cases hst.symm.trans h
  generalize (q.move fresh c).2 = m at hs he
  cases m with
  | finish o => exact he.elim
  | call st j => exact he.elim (stage hs) fun h => owned (hs.called h)
  | await st t =>
    obtain ⟨j, -, ha⟩ := hs
    exact stage ha he
  | launch st j =>
    refine he.elim (stage hs) fun h => ?_
    cases hs with
    | installJoined same => exact installs hq
    | installOwned => exact installs hq
    | _ => cases h
  | gather st js => exact he.elim (stage hs) fun ⟨j, hj, h⟩ => owned (hs.gathered hj h)
  | ask st q => exact stage hs he

/-- Hearing of an end begins no job. -/
theorem Task.focus_hear (v : Task) (t : TaskId) (o : Outcome) :
    (v.hear t o).focus = v.focus ∨ (v.hear t o).focus.engine? = none := by
  obtain ⟨focus, stages⟩ := v
  unfold Task.hear
  split
  · rename_i f hf
    right
    unfold Task.afterEnd? at hf
    dsimp only at hf
    split at hf
    · split at hf <;> cases hf
      rfl
    · split at hf
      · split at hf
        · cases hf
          rfl
        · split at hf <;> cases hf
          rfl
      · cases hf
    · cases hf
  · split
    · exact .inr rfl
    · exact .inl rfl

theorem Task.Serves.hear {v : Task} {o : Outcome} (hv : (v.hear t o).Serves e) : v.Serves e := by
  refine hv.imp (fun h => ?_) fun h => v.stages_hear t o ▸ h
  obtain same | none := v.focus_hear t o
  · exact same ▸ h
  · cases none.symm.trans h

namespace Host

variable {h k : Host} {l : Label} {ls : List Label}

/-- Whether an unfinished task works for an engine. -/
def Works (h : Host) (e : Int) : Prop := ∃ v ∈ h.tasks, v.Serves e

/-- The task that has the turn begins the compile of a request. -/
def Begins (h : Host) (r : CompileRequest) : Prop :=
  ∃ t ss, h.turn = some t ∧ h.cue? t = some (.begin (.compile r), ss)

theorem Begins.eq {r r' : CompileRequest} (hb : h.Begins r) (hb' : h.Begins r') : r = r' := by
  obtain ⟨t, ss, turn, cue⟩ := hb
  obtain ⟨t', ss', turn', cue'⟩ := hb'
  obtain rfl := Option.some.inj (turn.symm.trans turn')
  cases cue.symm.trans cue'
  rfl

/-- A move leaves its task with the stages that were waiting, and with what the move is for. -/
theorem serves_of_move {m : Move} {v : Task} (ht : (h.move t ss m).1.tasks[t]? = some v)
    (hv : v.Serves e) : m.Serves e ∨ ∃ st ∈ ss, st.engine? = some e := by
  have set {g : Host} {w : Task} (hw : (g.setTask t w).tasks[t]? = some v) : w = v := by
    rw [setTask, List.getElem?_set, if_pos rfl] at hw
    split at hw
    · exact Option.some.inj hw
    · cases hw
  have waits {st : Stage} {f : Focus} (hf : f.engine? = none) (he : v = ⟨f, st :: ss⟩) :
      st.engine? = some e ∨ ∃ st ∈ ss, st.engine? = some e := by
    obtain h | h := he ▸ hv
    · cases hf.symm.trans h
    · simpa using h
  cases m with
  | finish o =>
    obtain rfl := set ht
    exact .inr (hv.resolve_left (by simp [Focus.engine?]))
  | call st j =>
    obtain rfl := set ht
    obtain h | h := hv
    · exact .inl (.inr h)
    · obtain h | h := by simpa using h
      · exact .inl (.inl h)
      · exact .inr h
  | await st w =>
    simp only [move] at ht
    split at ht <;> exact waits rfl (set ht).symm
  | launch st j => exact (waits rfl (set ht).symm).imp_left .inl
  | gather st js =>
    cases js with
    | nil => exact (waits rfl (set ht).symm).imp_left .inl
    | cons j js => exact (waits rfl (set ht).symm).imp_left .inl
  | ask st q => exact waits rfl (set ht).symm

/-- Whatever the cue of a task is for, and whatever keeps waiting, is being worked on. -/
theorem works_of_cue (cue : h.cue? t = some (q, ss))
    (he : (∃ st ∈ ss, st.engine? = some e) ∨ q.engine? = some e) :
    h.Works e ∨ ∃ r, q = .begin (.compile r) ∧ r.engine = e := by
  cases q with
  | begin j =>
    have ht := cue?_eq_begin.1 cue
    obtain he | he := he
    · exact .inl ⟨_, List.mem_of_getElem? ht, .inr he⟩
    · cases j with
      | compile r => exact .inr ⟨r, rfl, Option.some.inj he⟩
      | _ => exact .inl ⟨_, List.mem_of_getElem? ht, .inl he⟩
  | told st o =>
    refine .inl ⟨_, List.mem_of_getElem? (cue?_eq_told.1 cue), .inr ?_⟩
    obtain ⟨st', hst, he⟩ | he := he
    · exact ⟨st', List.mem_cons_of_mem _ hst, he⟩
    · exact ⟨st, List.mem_cons_self .., he⟩

/-- Work for an engine goes on, or begins with a compile. -/
theorem Effect.works (hc : h.workspace.From u) (hf : h.Fits u.settings (.wellFormed u) roots)
    (hs : Effect h l k) (hl : l.Compiling) (hw : k.Works e) :
    h.Works e ∨ ∃ r, h.Begins r ∧ r.engine = e := by
  obtain ⟨v, hv, serves⟩ := hw
  cases hs with
  | quiet still silent workspace tasks => exact .inl ⟨v, tasks ▸ hv, serves⟩
  | @move t q ss k turn cue workspace tasks keeps =>
    obtain ⟨root, owner, hr, frames, hq⟩ := hf.cue cue
    have suits := hf.suits (Expectation.wellFormed_met u).toFormed hc hq
    obtain ⟨i, hi⟩ := List.getElem?_of_mem hv
    have moved : (h.next q).2.Serves e ∨ (∃ st ∈ ss, st.engine? = some e) ∨ v ∈ h.tasks := by
      rw [tasks] at hi
      by_cases he : i = t
      · subst he
        exact (serves_of_move hi serves).imp_right .inl
      · obtain hi | ⟨-, j, hj, rfl⟩ := getElem?_of_move he hi
        · exact .inr (.inr (List.mem_of_getElem? hi))
        · exact .inl (Move.serves_of_jobs hj (serves.resolve_right (by simp)))
    obtain for_ | hv := (or_assoc.2 moved)
    · have known := works_of_cue cue (for_.symm.imp_right (hq.serves suits))
      exact known.imp_right fun ⟨r, hr, he⟩ => ⟨r, ⟨t, ss, turn, hr ▸ cue⟩, he⟩
    · exact .inl ⟨v, hv, serves⟩
  | announce turn ended workspace tasks =>
    rw [tasks] at hv
    obtain ⟨w, hw, rfl⟩ := List.mem_map.1 hv
    exact .inl ⟨w, hw, serves.hear⟩
  | @answer t q o ss k turn asked admits workspace tasks =>
    rw [tasks] at hv
    obtain hv | rfl := List.mem_or_eq_of_mem_set hv
    · exact .inl ⟨v, hv, serves⟩
    · exact .inl ⟨_, List.mem_of_getElem? asked, serves.imp_left (by simp [Focus.engine?])⟩
  | @start js k idle workspace tasks =>
    rw [tasks] at hv
    obtain hv | hv := List.mem_append.1 hv
    · exact .inl ⟨v, hv, serves⟩
    · obtain ⟨j, hj, rfl⟩ := List.mem_map.1 hv
      have he := serves.resolve_right (by simp)
      obtain ⟨r, rfl⟩ | ⟨p, rfl⟩ | ⟨p, rfl⟩ | rfl := hl j hj <;> cases he
  | change idle workspace tasks => exact hl.elim

/-- A compile that begins makes its configuration the active one. -/
theorem Effect.activates {r : CompileRequest} (hs : Effect h l k) (hb : h.Begins r) :
    k.workspace.fingerprint = some r.fingerprint ∧
      (k.workspace.inventory = h.workspace.inventory ∧
          (h.workspace.fingerprint = none ∨ h.workspace.fingerprint = some r.fingerprint) ∨
        k.workspace.inventory = h.workspace.inventory.reset) := by
  obtain ⟨t, ss, hturn, hcue⟩ := hb
  cases hs with
  | quiet still => cases (still t hturn).symm.trans hcue
  | move turn cue workspace =>
    obtain rfl := Option.some.inj (turn.symm.trans hturn)
    obtain ⟨rfl, -⟩ := cue?_inj cue hcue
    have alike : (h.workspace.activate r.fingerprint).2.Alike k.workspace :=
      workspace ▸ Work.alike_compile
    rw [alike.fingerprint, alike.inventory]
    exact h.workspace.activate_cases r.fingerprint
  | announce turn ended =>
    obtain rfl := Option.some.inj (turn.symm.trans hturn)
    simp [cue?_eq_begin, ended] at hcue
  | answer turn asked =>
    obtain rfl := Option.some.inj (turn.symm.trans hturn)
    simp [cue?_eq_begin, asked] at hcue
  | start idle => cases idle.symm.trans hturn
  | change idle => cases idle.symm.trans hturn

/-- No other step changes which configuration is active. -/
theorem Effect.fingerprint (hs : Effect h l k) (hl : l.Compiling) (hn : ∀ r, ¬ h.Begins r) :
    k.workspace.fingerprint = h.workspace.fingerprint := by
  cases hs with
  | @move t q ss k turn cue workspace =>
    rw [workspace]
    cases q.does h.tasks.length h.workspace with
    | activate => exact (hn _ ⟨t, ss, turn, cue⟩).elim
    | bundle alike => exact alike.fingerprint.trans (Workspace.fingerprint_addBundled ..)
    | nothing alike => exact alike.fingerprint
    | forget alike => exact alike.fingerprint
    | spell found spelt alike => exact alike.fingerprint
    | register evaluated given alike => exact alike.fingerprint
  | change => exact hl.elim
  | quiet still silent workspace => rw [workspace]
  | announce turn ended workspace => rw [workspace]
  | answer turn asked admits workspace => rw [workspace]
  | start idle workspace => rw [workspace]

end Host

end PluginHost
