import PluginHost.Proofs.Host.Tasks

/-!
Tasks on errands. A task that is sent to a collaborator asks as the first thing it does, and it acts
on the answer as soon as it has it. So whoever has been told an answer was told it by the last step.
-/
namespace PluginHost

variable {s : Settings} {E : Expectation} {roots : List Job} {root owner j : Job} {st : Stage}
  {ss : List Stage} {src : Source} {o : Outcome} {c : Workspace} {fresh : TaskId} {e : Errand}

/-- A task on an errand, until it acts on the answer. -/
inductive Task.Pursues (e : Errand) : Task → Prop where
  | begin {j : Job} (job : j.errand? = some e) : Pursues e ⟨.begin j, []⟩
  | asking {st : Stage} {q : Query} (stage : st.errand? = some e) (query : q.errand? = some e) :
      Pursues e ⟨.asking q, [st]⟩
  | told {st : Stage} {o : Outcome} (stage : st.errand? = some e) : Pursues e ⟨.resume o, [st]⟩

theorem Task.Pursues.unended {v : Task} (hv : v.Pursues e) : v.outcome? = none := by
  cases hv <;> rfl

namespace Stage.Awaits

/-- A stage of an errand waits for the answer to the question of its job. -/
theorem errand (ha : st.Awaits s owner src) (he : st.errand? = some e) :
    owner.errand? = some e ∧ ∃ q, src = .asked q ∧ q.errand? = some e := by
  cases ha with
  | projectCopied => exact ⟨he, _, rfl, he⟩
  | downloaded => exact ⟨he, _, rfl, he⟩
  | _ => cases he

theorem errand_of_asked {q : Query} (ha : st.Awaits s owner (.asked q))
    (hq : q.errand? = some e) : st.errand? = some e ∧ owner.errand? = some e := by
  cases ha with
  | projectCopied => exact ⟨hq, hq⟩
  | downloaded => exact ⟨hq, hq⟩
  | transformed prepared => cases hq

/-- No job is sent on an errand in the place of another one. -/
theorem errand_called (ha : st.Awaits s owner (.called j)) :
    st.errand? = none ∧ st.minds = false ∧ j.errand? = none := by
  cases ha <;> exact ⟨rfl, rfl, rfl⟩

theorem joined_of_minds (ha : st.Awaits s owner src) (hm : st.minds = true) :
    ∃ j, src = .joined j := by
  cases ha with
  | storeAwaited => exact ⟨_, rfl⟩
  | downloadOwned => exact ⟨_, rfl⟩
  | _ => cases hm

end Stage.Awaits

namespace Job.Frames

/-- An errand is run by a task of its own. -/
theorem of_errand (hf : root.Frames s owner ss) (he : owner.errand? = some e) :
    root = owner ∧ ss = [] := by
  cases hf with
  | root => exact ⟨rfl, rfl⟩
  | under outer awaits => cases awaits.errand_called.2.2.symm.trans he

theorem head (hf : root.Frames s owner (st :: ss)) : st.errand? = none ∧ st.minds = false := by
  cases hf with
  | under outer awaits => exact ⟨awaits.errand_called.1, awaits.errand_called.2.1⟩

end Job.Frames

/-- A job with an errand asks when it begins and never again. -/
theorem Cue.For.begin_of_ask {q : Cue} {r : Query} (hq : q.For s E owner)
    (he : owner.errand? = some e) (hm : (q.move fresh c).2 = .ask st r) : q = .begin owner := by
  cases hq with
  | begin => rfl
  | told awaits gives =>
    cases awaits with
    | projectCopied =>
      obtain ⟨r, ends⟩ := Work.projectCopied_ends _ c
      cases ends.symm.trans hm
    | @downloaded p a =>
      rcases Work.downloaded_goes p a _ c with ⟨r, ends⟩ | ⟨q, calls⟩
      · cases ends.symm.trans hm
      · cases calls.symm.trans hm
    | metadataTried =>
      obtain ⟨r, ends⟩ := Work.metadataTried_ends _ c
      cases ends.symm.trans hm
    | _ => cases he

/-- A task is sent on an errand alone. -/
theorem Cue.Handles.launch {q : Cue} {r : Workspace × Move} (hr : q.Handles fresh c r)
    (hj : j ∈ r.2.jobs) (he : j.errand? = some e) : ∃ st, r.2 = .launch st j := by
  cases hr with
  | aside beside plain => cases (plain.jobs j hj).symm.trans he
  | opens unready closed => exact ⟨_, by rw [List.mem_singleton.1 hj]⟩
  | loads unknown free => exact ⟨_, by rw [List.mem_singleton.1 hj]⟩
  | places goes => obtain rfl | ⟨q, rfl⟩ := goes <;> cases hj
  | _ => cases hj

/-- Hearing of an end leaves alone whoever waits for nobody. -/
theorem Task.eq_of_hear {v : Task} {t : TaskId} {f : Focus} (hv : v.hear t o = ⟨f, ss⟩)
    (hf : ∀ p, f ≠ .resume p) (hw : (⟨f, ss⟩ : Task).waits = false) : v = ⟨f, ss⟩ := by
  cases goes : v.waits with
  | false => rw [← hv, hear_of_waits goes]
  | true =>
    cases resumes : v.afterEnd? t o with
    | some g =>
      obtain ⟨p, rfl⟩ := resume_of_afterEnd? resumes
      rw [hear, resumes] at hv
      exact (hf p (congrArg Task.focus hv).symm).elim
    | none =>
      obtain ⟨focus, stages⟩ := v
      rw [hear, resumes] at hv
      cases focus <;> cases goes <;> cases hv <;> cases hw

/-- Hearing of an end sends nobody on an errand. -/
theorem Task.Fits.pursues_of_hear {v x : Task} {t : TaskId} (hv : v.Fits s E roots root)
    (hears : v.hear t o = x) (hx : x.Pursues e) : v.Pursues e := by
  cases hx with
  | begin job => exact Task.eq_of_hear hears (by simp) rfl ▸ .begin job
  | asking stage query => exact Task.eq_of_hear hears (by simp) rfl ▸ .asking stage query
  | told stage =>
    rcases Host.resume_of_hear hears with rfl | ⟨w, rfl⟩ | ⟨ws, rfl⟩
    · exact .told stage
    · cases hv with
      | awaiting frames awaits job =>
        obtain ⟨-, _, source, -⟩ := awaits.errand stage
        cases source
    · cases hv with
      | gathering frames awaits jobs =>
        obtain ⟨-, _, source, -⟩ := awaits.errand stage
        cases source

namespace Host

variable {u : Setup} {h k : Host} {t i : TaskId} {l : Label} {ls rs : List Label}

/-- Whether a task is on an errand. -/
def Pursues (h : Host) (e : Errand) (t : TaskId) : Prop :=
  ∃ v, h.tasks[t]? = some v ∧ v.Pursues e

/-- Whether callers send a task on an errand themselves. -/
def Label.Sends (e : Errand) : Label → Prop
  | .started js => ∃ j ∈ js, j.errand? = some e
  | _ => False

theorem Label.Internal.sends (hl : l.Internal) : ¬ l.Sends e := by
  cases l with
  | started js => exact hl.elim
  | _ => exact id

theorem Pursues.outcome? (hp : h.Pursues e t) : h.outcome? t = none := by
  obtain ⟨v, hv, pursues⟩ := hp
  rw [outcome?_eq hv, pursues.unended]

/-- Whoever asks for an errand is on it. -/
theorem Fits.pursues_of_asking {q : Query} (hf : h.Fits s E roots)
    (ht : h.tasks[t]? = some ⟨.asking q, ss⟩) (hq : q.errand? = some e) : h.Pursues e t := by
  obtain ⟨root, -, fits⟩ := hf.tasks ht
  cases fits with
  | asking frames awaits =>
    obtain ⟨stage, job⟩ := awaits.errand_of_asked hq
    obtain ⟨-, rfl⟩ := frames.of_errand job
    exact ⟨_, ht, .asking stage hq⟩

theorem tasks_of_query? {q : Query} (hq : h.query? t = some q) :
    ∃ ss, h.tasks[t]? = some ⟨.asking q, ss⟩ := by
  obtain ⟨⟨focus, ss⟩, ht, hf⟩ := Option.bind_eq_some_iff.1 hq
  cases focus with
  | asking r =>
    cases hf
    exact ⟨ss, ht⟩
  | _ => simp [Task.query?] at hf

theorem query?_eq {q : Query} (ht : h.tasks[t]? = some ⟨.asking q, ss⟩) :
    h.query? t = some q := by
  simp [query?, ht, Task.query?]

theorem pursues_of_query? {q : Query} (hr : u.Runs ls h) (hq : h.query? t = some q)
    (he : q.errand? = some e) : h.Pursues e t := by
  obtain ⟨roots, hf⟩ := fits_of_runs hr
  obtain ⟨ss, ht⟩ := tasks_of_query? hq
  exact hf.pursues_of_asking ht he

/-- A move that keeps to its job leaves its task on an errand only if it puts the question. -/
theorem pursues_of_moved {q : Cue} (cue : h.cue? t = some (q, ss))
    (frames : root.Frames u.settings owner ss)
    (hq : q.For u.settings E owner) (suits : (h.next q).2.Suits u.settings roots owner)
    (hp : (h.moved ss (h.next q).2).Pursues e) : h.Pursues e t := by
  generalize hm : (h.next q).2 = m at suits hp
  cases m with
  | finish p =>
    cases hp with
    | told stage => cases frames.head.1.symm.trans stage
  | call st j => cases hp
  | await st w =>
    obtain ⟨j, -, awaits⟩ := suits
    simp only [Host.moved] at hp
    split at hp
    · cases hp with
      | told stage =>
        obtain ⟨-, _, source, -⟩ := awaits.errand stage
        cases source
    · cases hp
  | launch st j => cases hp
  | gather st js =>
    cases js with
    | nil =>
      cases hp with
      | told stage =>
        obtain ⟨-, _, source, -⟩ := Stage.Awaits.errand suits stage
        cases source
    | cons j js => cases hp
  | ask st r =>
    cases hp with
    | asking stage query =>
      obtain ⟨-, job⟩ := Stage.Awaits.errand_of_asked suits query
      obtain rfl := hq.begin_of_ask job hm
      exact ⟨_, cue?_eq_begin.1 cue, .begin job⟩

/-- A task on an errand was on it before, or it was just sent: by a move that launches it, or by a
caller. -/
theorem Step.pursues (hr : u.Runs ls h) (hs : Step h l k) (hk : k.Pursues e i) :
    h.Pursues e i ∨
      (∃ t q ss st j, h.turn = some t ∧ h.cue? t = some (q, ss) ∧ (h.next q).2 = .launch st j ∧
        k.workspace = (h.next q).1 ∧ j.errand? = some e ∧ i = h.tasks.length) ∨
      l.Sends e := by
  obtain ⟨roots, hf⟩ := fits_of_runs hr
  obtain ⟨x, hx, pursues⟩ := hk
  obtain ⟨v, hv, becomes⟩ | ⟨j, rfl, begins⟩ := hs.came hx
  · left
    obtain ⟨root, -, fits⟩ := hf.tasks hv
    cases becomes with
    | kept => exact ⟨x, hv, pursues⟩
    | heard turn ended hears => exact ⟨v, hv, fits.pursues_of_hear hears pursues⟩
    | told turn label =>
      cases pursues with
      | told stage =>
        cases fits with
        | asking frames awaits =>
          obtain ⟨-, _, source, query⟩ := awaits.errand stage
          cases source
          exact ⟨_, hv, .asking stage query⟩
    | @went _ _ q ss turn cue label workspace moves =>
      obtain ⟨root, owner, -, frames, hq⟩ := hf.cue cue
      have suits := hf.suits (Expectation.wellFormed_met u).toFormed (from_of_runs hr) hq
      exact pursues_of_moved cue frames hq suits (moves ▸ pursues)
  · right
    cases pursues with
    | begin job =>
      cases begins with
      | @launched t q ss turn cue member new workspace =>
        obtain ⟨st, launched⟩ := (q.handles h.tasks.length h.workspace).launch member job
        have single : (h.next q).2.jobs = [j] := congrArg Move.jobs launched
        rw [single, List.mem_range'_1, List.length_singleton] at new
        have fresh := Nat.le_antisymm (Nat.lt_succ_iff.1 new.2) new.1
        exact .inl ⟨t, q, ss, st, j, turn, cue, launched, workspace, job, fresh⟩
      | started label member =>
        rw [label]
        exact .inr ⟨j, member, job⟩

/-- Whoever has been told the answer to an errand has the turn. -/
structure Prompt (h : Host) : Prop where
  turn : ∀ {t : TaskId} {st : Stage} {o : Outcome} {ss : List Stage} {e : Errand},
    h.tasks[t]? = some ⟨.resume o, st :: ss⟩ → st.errand? = some e → h.turn = some t

/-- Whoever has been told an answer was told it by the last step. -/
theorem Prompt.answered (hp : h.Prompt) (hr : u.Runs ls h) (hs : Step h l k)
    (ht : k.tasks[i]? = some ⟨.resume o, st :: ss⟩) (he : st.errand? = some e) :
    ∃ q, l = .answered i q o ∧ q.errand? = some e ∧ h.query? i = some q := by
  obtain ⟨roots, hf⟩ := fits_of_runs hr
  obtain ⟨v, hv, becomes⟩ | ⟨j, begun, -⟩ := hs.came ht
  · obtain ⟨root, -, fits⟩ := hf.tasks hv
    cases becomes with
    | kept rests => cases (rests (hp.turn hv he)).symm.trans (cue?_eq_told.2 hv)
    | @heard _ _ t p turn ended hears =>
      rcases resume_of_hear hears with rfl | ⟨w, rfl⟩ | ⟨ws, rfl⟩
      · obtain rfl := Option.some.inj ((hp.turn hv he).symm.trans turn)
        cases ended.symm.trans hv
      · cases fits with
        | awaiting frames awaits job =>
          obtain ⟨-, _, source, -⟩ := awaits.errand he
          cases source
      · cases fits with
        | gathering frames awaits jobs =>
          obtain ⟨-, _, source, -⟩ := awaits.errand he
          cases source
    | told turn label =>
      cases fits with
      | asking frames awaits =>
        obtain ⟨-, _, source, query⟩ := awaits.errand he
        cases source
        exact ⟨_, label, query, query?_eq hv⟩
    | @went _ _ q rest turn cue label workspace moves =>
      obtain ⟨root, owner, -, frames, hq⟩ := hf.cue cue
      have suits := hf.suits (Expectation.wellFormed_met u).toFormed (from_of_runs hr) hq
      generalize (h.next q).2 = m at moves suits
      have top (st' : Stage) (hst : m.stage? = some st') : st' = st :=
        (List.cons.inj ((stages_moved hst).symm.trans (congrArg Task.stages moves))).1
      cases m with
      | finish p =>
        cases moves
        cases frames.head.1.symm.trans he
      | await st w =>
        obtain ⟨j, -, awaits⟩ := suits
        obtain rfl := top _ rfl
        obtain ⟨-, _, source, -⟩ := awaits.errand he
        cases source
      | gather st js =>
        obtain rfl := top _ rfl
        obtain ⟨-, _, source, -⟩ := Stage.Awaits.errand suits he
        cases source
      | _ => cases moves
  · cases begun

theorem Step.turn_answered {q : Query} (hs : Step h (.answered t q o) k) : k.turn = some t := by
  cases hs with
  | answer turn asked admits =>
    unfold Host.answer
    split <;> exact turn

theorem prompt_of_runs (hr : u.Runs ls h) : h.Prompt := by
  refine Steps.forward (P := fun _ k => k.Prompt) ⟨fun ht => by simp [Setup.host] at ht⟩ ?_ hr
  intro ls k m l hk hp hs
  refine ⟨fun ht he => ?_⟩
  obtain ⟨q, rfl, -, -⟩ := hp.answered hk hs ht he
  exact hs.turn_answered

/-- A question that waits for its answer was waiting before, or it was just put. -/
theorem Step.query? {q : Query} (hs : Step h l k) (hq : k.query? i = some q) :
    h.query? i = some q ∨ l = .asked i q := by
  obtain ⟨ss, hi⟩ := tasks_of_query? hq
  obtain ⟨v, hv, becomes⟩ | ⟨j, begun, -⟩ := hs.came hi
  · cases becomes with
    | kept => exact .inl (query?_eq hv)
    | heard turn ended hears =>
      obtain rfl := Task.eq_of_hear hears (by simp) rfl
      exact .inl (query?_eq hv)
    | went turn cue label workspace moves =>
      obtain ⟨st, hm, -⟩ := ask_of_moved moves
      exact .inr (by rw [label, hm, Move.label])
  · cases begun

/-- A question that waits for its answer was put during a run or waited when the run began. -/
theorem Steps.asked {q : Query} (hs : Steps h ls k) (hq : k.query? t = some q) :
    .asked t q ∈ ls ∨ h.query? t = some q := by
  induction hs with
  | refl => exact .inr hq
  | @cons h m k l ls first rest ih =>
    rcases ih hq with later | now
    · exact .inl (List.mem_cons_of_mem _ later)
    · rcases first.query? now with before | rfl
      · exact .inr before
      · exact .inl (List.mem_cons_self ..)

/-- Nobody has been told an answer that it has not acted on yet. -/
structure Untold (h : Host) : Prop where
  done : ∀ {t : TaskId} {st : Stage} {o : Outcome} {ss : List Stage} {e : Errand},
    h.tasks[t]? = some ⟨.resume o, st :: ss⟩ → st.errand? ≠ some e

theorem Prompt.untold_of_idle (hp : h.Prompt) (idle : h.turn = none) : h.Untold := by
  refine ⟨fun ht he => ?_⟩
  cases idle.symm.trans (hp.turn ht he)

/-- An answer that a task has been told came during a run, by its last step, if nobody had been told
any when the run began. The question was put before it, or waited when the run began. -/
theorem Untold.answered (untold : h.Untold) (hr : u.Runs ls h) (hk : Steps h rs k)
    (ht : k.tasks[t]? = some ⟨.resume o, st :: ss⟩) (he : st.errand? = some e) :
    ∃ before q, rs = before ++ [.answered t q o] ∧ q.errand? = some e ∧
      (.asked t q ∈ before ∨ h.query? t = some q) := by
  revert ht
  refine Steps.forward (P := fun rs k => k.tasks[t]? = some ⟨.resume o, st :: ss⟩ →
    ∃ before q, rs = before ++ [.answered t q o] ∧ q.errand? = some e ∧
      (.asked t q ∈ before ∨ h.query? t = some q)) (fun ht => (untold.done ht he).elim) ?_ hk
  intro rs g k l hg _ hs ht
  have run := hr.trans hg
  obtain ⟨q, rfl, query, asked⟩ := (prompt_of_runs run).answered run hs ht he
  exact ⟨rs, q, rfl, query, hg.asked asked⟩

theorem Steps.answered (hr : u.Runs ls h) (idle : h.turn = none) (hk : Steps h rs k)
    (ht : k.tasks[t]? = some ⟨.resume o, st :: ss⟩) (he : st.errand? = some e) :
    ∃ before q, rs = before ++ [.answered t q o] ∧ q.errand? = some e ∧
      (.asked t q ∈ before ∨ h.query? t = some q) :=
  ((prompt_of_runs hr).untold_of_idle idle).answered hr hk ht he

/-- Whoever is to go on with what a task ends with was to do so before, or has just begun to wait,
if its stage goes on with nothing else. -/
theorem Step.joiner {f : Focus} (hr : u.Runs ls h) (hs : Step h l k)
    (hx : k.tasks[i]? = some ⟨f, st :: ss⟩)
    (joins : ∀ {owner : Job} {src : Source}, st.Awaits u.settings owner src → ∃ j, src = .joined j) :
    (∃ g, h.tasks[i]? = some ⟨g, st :: ss⟩ ∧ (h.turn = some i → h.cue? i = none) ∧
        ∀ w, h.Heeds w g → k.Heeds w f) ∨
      ∃ q, h.turn = some i ∧ h.cue? i = some (q, ss) ∧ (h.next q).2.stage? = some st ∧
        k.workspace = (h.next q).1 ∧ h.moved ss (h.next q).2 = ⟨f, st :: ss⟩ := by
  obtain ⟨roots, hf⟩ := fits_of_runs hr
  obtain ⟨v, hv, becomes⟩ | ⟨j, begun, -⟩ := hs.came hx
  · obtain ⟨root, -, fits⟩ := hf.tasks hv
    cases becomes with
    | kept rests => exact .inl ⟨f, hv, rests, fun w hw => hs.heeds_kept hw⟩
    | @heard _ _ t o turn ended hears =>
      obtain ⟨g, stages⟩ := v
      obtain rfl := stages_of_hear hears
      refine .inl ⟨g, hv, fun own => ?_, fun w hw => hs.heeds_heard ended hw hears⟩
      obtain rfl := Option.some.inj (own.symm.trans turn)
      cases hv.symm.trans ended
    | told turn label =>
      cases fits with
      | asking frames awaits =>
        obtain ⟨_, source⟩ := joins awaits
        cases source
    | @went _ _ q rest turn cue label workspace moves =>
      obtain ⟨root, owner, -, frames, -⟩ := hf.cue cue
      obtain ⟨o, -, -, rfl⟩ | ⟨st', stage, same⟩ := stages_of_moved moves
      · cases frames with
        | under outer awaits =>
          obtain ⟨_, source⟩ := joins awaits
          cases source
      · obtain ⟨rfl, rfl⟩ := List.cons.inj same
        exact .inr ⟨q, turn, cue, stage, workspace, moves⟩
  · cases begun

/-- Whoever is to take a task off the records was to do so before, or has just begun to wait. -/
theorem Step.minder {f : Focus} (hr : u.Runs ls h) (hs : Step h l k)
    (hx : k.tasks[i]? = some ⟨f, st :: ss⟩) (hm : st.minds = true) :
    (∃ g, h.tasks[i]? = some ⟨g, st :: ss⟩ ∧ (h.turn = some i → h.cue? i = none) ∧
        ∀ w, h.Heeds w g → k.Heeds w f) ∨
      ∃ q, h.turn = some i ∧ h.cue? i = some (q, ss) ∧ (h.next q).2.stage? = some st ∧
        k.workspace = (h.next q).1 ∧ h.moved ss (h.next q).2 = ⟨f, st :: ss⟩ :=
  hs.joiner hr hx fun ha => ha.joined_of_minds hm

end Host

end PluginHost
