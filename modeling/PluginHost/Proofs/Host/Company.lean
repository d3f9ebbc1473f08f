import PluginHost.Proofs.Host.Tasks

/-!
The company that a compile keeps on a host where nothing else is at work. Whatever its tasks have
started is waited for until the compile fails, so a compile that succeeds leaves no work behind.
-/
namespace PluginHost

variable {s : Settings} {E : Expectation} {roots : List Job} {owner j : Job} {st : Stage}
  {ss : List Stage} {v : Task} {m : Move} {o : Outcome} {r q : CompileRequest}

/-- Tasks are started only for jobs that rank below the one that starts them. -/
theorem Move.Suits.rank_lt {m : Move} (hm : m.Suits s roots owner) (hj : j ∈ m.jobs) :
    j.rank s < owner.rank s := by
  cases m with
  | launch st i => exact Stage.Awaits.rank_lt hm hj
  | gather st js => exact Stage.Awaits.rank_lt hm hj
  | _ => cases hj

/-- Jobs that tasks of their own are started for rank below the installation of everything that a
configuration needs. -/
theorem Move.Suits.rank_of_jobs (hs : m.Suits s roots owner) (hj : j ∈ m.jobs) :
    j.rank s ≤ 12 := by
  have joined {st : Stage} (ha : st.Awaits s owner (.joined j)) : j.rank s ≤ 12 := by
    have download (p : String) := Downloads.turns_le (Path.normalize s.packagesRoot) 3 p
    cases ha with
    | @downloadJoined p a =>
      have := download (Path.normalize p)
      simp only [Job.rank]
      omega
    | @downloadOwned p a =>
      have := download (Path.normalize p)
      simp only [Job.rank]
      omega
    | _ => simp [Job.rank]
  cases m with
  | launch st i =>
    obtain rfl := List.mem_singleton.1 hj
    exact joined hs
  | gather st js =>
    cases hs with
    | pluginsInstalled =>
      obtain ⟨name, -, rfl⟩ := List.mem_map.1 hj
      simp [Job.rank]
    | presetsInstalled =>
      obtain ⟨name, -, rfl⟩ := List.mem_map.1 hj
      simp [Job.rank]
  | _ => cases hj

/-- The job that a task was started for does not wait beneath another one. -/
theorem Job.Frames.top {root : Job} (hf : root.Frames s owner ss)
    (le : root.rank s ≤ owner.rank s) : owner = root ∧ ss = [] := by
  cases hf with
  | root => exact ⟨rfl, rfl⟩
  | under outer awaits =>
    have lower := awaits.rank_lt (List.mem_singleton_self _)
    have := outer.rank_le
    omega

/-- A compile is run in the place of no other compile. -/
theorem Job.Frames.compile (hf : (Job.compile r).Frames s (.compile q) ss) : q = r ∧ ss = [] := by
  obtain ⟨same, rfl⟩ := hf.top (Nat.le_refl _)
  cases same
  exact ⟨rfl, rfl⟩

theorem Job.Frames.installAll {n : Needs} (hf : (Job.compile r).Frames s (.installAll n) ss) :
    ∃ c, ss = [.needsInstalled c] ∧ c.Prepared s ∧ c.request = r ∧ c.needs = n := by
  cases hf with
  | under outer awaits =>
    cases awaits with
    | needsInstalled prepared =>
      obtain ⟨rfl, rfl⟩ := outer.compile
      exact ⟨_, rfl, prepared, rfl, rfl⟩

/-- Whether a stage passes every failure on. -/
def Stage.relays : Stage → Bool
  | .pluginsInstalled .. | .presetsInstalled .. | .needsInstalled _ => true
  | _ => false

theorem Stage.resume_of_relays (hs : st.relays = true) (f : Failure) (c : Workspace) :
    (st.resume (.error f) c).2 = .finish (.error f) := by
  cases st <;> first | rfl | cases hs

namespace Task

theorem cue?_of_waits {h : Host} {u : TaskId} (waits : v.waits = true)
    (hv : h.tasks[u]? = some v) : h.cue? u = none := by
  obtain ⟨focus, ss⟩ := v
  cases focus with
  | awaiting t => simp [Host.cue?, hv]
  | gathering us => simp [Host.cue?, hv]
  | _ => cases waits

/-- Whether a task waits for the end of another one. -/
def Expects (t : TaskId) (v : Task) : Prop :=
  v.focus = .awaiting t ∨ ∃ us, v.focus = .gathering us ∧ t ∈ us

namespace Expects

variable {t u : TaskId}

theorem waits (he : v.Expects t) : v.waits = true := by
  obtain hf | ⟨us, hf, -⟩ := he <;> simp [Task.waits, hf]

theorem outcome? (he : v.Expects t) : v.outcome? = none := by
  obtain hf | ⟨us, hf, -⟩ := he <;> simp [Task.outcome?, hf]

theorem cue? {h : Host} (he : v.Expects t) (hv : h.tasks[u]? = some v) : h.cue? u = none :=
  cue?_of_waits he.waits hv

/-- Whoever waits for a task waits on while others end, unless it gathered them all and one has
failed. -/
theorem hear (he : v.Expects t) (hne : u ≠ t) :
    (v.hear u o).Expects t ∨
      ∃ us f, v.focus = .gathering us ∧ o = .error f ∧ v.hear u o = ⟨.resume o, v.stages⟩ := by
  obtain ⟨focus, ss⟩ := v
  obtain rfl | ⟨us, rfl, hm⟩ := he
  · exact .inl (.inl (by simp [Task.hear, afterEnd?, Ne.symm hne]))
  · by_cases hu : u ∈ us
    · cases o with
      | error f =>
        exact .inr ⟨us, f, rfl, rfl, by simp [Task.hear, afterEnd?, hu, Outcome.isFailure]⟩
      | ok r =>
        have left : us.all (· = u) = false := by
          rw [List.all_eq_false]
          exact ⟨t, hm, by simpa using Ne.symm hne⟩
        refine .inl (.inr ⟨us.filter (· ≠ u), ?_,
          List.mem_filter.2 ⟨hm, by simpa using Ne.symm hne⟩⟩)
        simp [Task.hear, afterEnd?, hu, Outcome.isFailure, left]
    · refine .inl (.inr ⟨us.filter (· ≠ u), by simp [Task.hear, afterEnd?, hu], ?_⟩)
      exact List.mem_filter.2 ⟨hm, by simpa using Ne.symm hne⟩

end Expects

/-- A task that does not wait for the one that has ended stays as it is. -/
theorem hear_of_not_expects {t : TaskId} (apart : ¬ v.Expects t) : v.hear t o = v := by
  obtain ⟨focus, ss⟩ := v
  cases focus with
  | awaiting u =>
    have other : u ≠ t := fun same => apart (.inl (by rw [same]))
    simp [hear, afterEnd?, other]
  | gathering us =>
    have other : t ∉ us := fun member => apart (.inr ⟨us, rfl, member⟩)
    have left : us.filter (· ≠ t) = us :=
      List.filter_eq_self.2 fun i hi => decide_eq_true fun same => other (same ▸ hi)
    simp only [hear, afterEnd?, if_neg other, left]
  | _ => rfl

end Task

namespace Host

variable {u : Setup} {h k : Host} {l : Label} {ls : List Label} {b t i : TaskId} {w : Task}

/-- A task that starts others waits for them. -/
theorem expects_of_jobs (hi : i ∈ List.range' h.tasks.length m.jobs.length) :
    (h.moved ss m).Expects i := by
  cases m with
  | launch st j =>
    refine .inl ?_
    have : i = h.tasks.length := by simpa [Move.jobs] using hi
    simp [moved, this]
  | gather st js =>
    cases js with
    | nil => cases hi
    | cons j js => exact .inr ⟨_, rfl, hi⟩
  | _ => cases hi

/-- Whoever waits for a task works on a job of higher rank. -/
theorem Fits.rank_lt_of_expects (hf : h.Fits s E roots) (hi : h.tasks[i]? = some w)
    (he : w.Expects t) (hj : roots[t]? = some j) :
    ∃ root, roots[i]? = some root ∧ j.rank s < root.rank s := by
  obtain ⟨focus, ss⟩ := w
  obtain ⟨root, hr, fits⟩ := hf.tasks hi
  obtain rfl | ⟨us, rfl, hm⟩ := he
  · cases fits with
    | awaiting frames awaits job =>
      obtain rfl := Option.some.inj (job.symm.trans hj)
      exact ⟨root, hr,
        Nat.lt_of_lt_of_le (awaits.rank_lt (List.mem_singleton_self _)) frames.rank_le⟩
  · cases fits with
    | gathering frames awaits jobs =>
      obtain ⟨i, hi, job⟩ := jobs t hm
      obtain rfl := Option.some.inj (job.symm.trans hj)
      exact ⟨root, hr, Nat.lt_of_lt_of_le (awaits.rank_lt hi) frames.rank_le⟩

/-- Whoever waits for a task waits for one that is there. -/
theorem Fits.lt_of_expects (hf : h.Fits s E roots) (hi : h.tasks[i]? = some w)
    (he : w.Expects t) : t < h.tasks.length := by
  obtain ⟨focus, ss⟩ := w
  obtain ⟨root, -, fits⟩ := hf.tasks hi
  rw [hf.length]
  obtain rfl | ⟨us, rfl, member⟩ := he
  · cases fits with
    | awaiting frames awaits job => exact (List.getElem?_eq_some_iff.1 job).1
  · cases fits with
    | gathering frames awaits jobs =>
      obtain ⟨j, -, job⟩ := jobs t member
      exact (List.getElem?_eq_some_iff.1 job).1

/-- Whoever waits for a task is still to be told of its end. -/
theorem Awake.owes_of_expects (ha : h.Awake) (hi : h.tasks[i]? = some w)
    (he : w.Expects t) : h.Owes t := by
  cases ha.alert hi with
  | able next goes => cases goes.symm.trans he.waits
  | ended outcome => cases he.outcome?.symm.trans outcome
  | asking => obtain h | ⟨us, h, -⟩ := he <;> cases h
  | awaiting owes =>
    obtain h | ⟨us, h, -⟩ := he
    · cases h
      exact owes
    · cases h
  | gathering some owe =>
    obtain h | ⟨us, h, member⟩ := he
    · cases h
    · cases h
      exact owe t member

/-- Every task but `b` that has not ended is waited for. -/
def Tended (b : TaskId) (h : Host) : Prop :=
  ∀ (t : TaskId) (v : Task), h.tasks[t]? = some v → t ≠ b → v.outcome? = none →
    ∃ (i : TaskId) (w : Task), h.tasks[i]? = some w ∧ w.Expects t

/-- A task has failed, or nothing can keep it from failing. -/
def Fails (b : TaskId) (h : Host) : Prop :=
  ∃ f ss, h.tasks[b]? = some ⟨.resume (.error f), ss⟩ ∧ ∀ st ∈ ss, st.relays = true

theorem Fails.step (hs : Step h l k) (hf : h.Fails b) : k.Fails b := by
  obtain ⟨f, ss, task, relays⟩ := hf
  obtain ⟨x, hx, becomes⟩ := hs.becomes task
  cases becomes with
  | kept => exact ⟨f, ss, hx, relays⟩
  | heard turn ended hears => exact ⟨f, ss, hx.trans (congrArg some hears.symm), relays⟩
  | @went _ _ q rest turn cue label workspace moves =>
    cases ss with
    | nil => simp [cue?, task] at cue
    | cons st ss =>
      obtain ⟨rfl, rfl⟩ := cue?_inj (cue?_eq_told.2 task) cue
      rw [List.forall_mem_cons] at relays
      refine ⟨f, ss, ?_, relays.2⟩
      rw [hx, ← moves, show (h.next (.told st (.error f))).2 = .finish (.error f) from
        Stage.resume_of_relays relays.1 f h.workspace]
      rfl

/-- Tasks stay waited for, unless the one that gathers others is bound to fail. -/
theorem Tended.step (ht : h.Tended b) (hs : Step h l k) (internal : l.Internal)
    (gathers : ∀ {i : TaskId} {us : List TaskId} {ss : List Stage},
      h.tasks[i]? = some ⟨.gathering us, ss⟩ → i = b ∧ ∀ st ∈ ss, st.relays = true) :
    k.Tended b ∨ k.Fails b := by
  by_cases fails : k.Fails b
  · exact .inr fails
  refine .inl fun t x hx hne none => ?_
  obtain ⟨v, hv, -⟩ | ⟨j, rfl, launches⟩ := hs.came hx
  · have unended : v.outcome? = Option.none := by
      cases ho : v.outcome? with
      | none => rfl
      | some o =>
        have := hs.ended ((outcome?_eq hv).trans ho)
        cases none.symm.trans ((outcome?_eq hx).symm.trans this)
    obtain ⟨i, w, hw, expects⟩ := ht t v hv hne unended
    obtain ⟨y, hy, becomes⟩ := hs.becomes hw
    cases becomes with
    | kept => exact ⟨i, w, hy, expects⟩
    | @heard _ _ t' o turn ended hears =>
      have apart : t' ≠ t := by
        rintro rfl
        obtain rfl := Option.some.inj (ended.symm.trans hv)
        cases unended
      obtain still | ⟨us, f, focus, rfl, failed⟩ := expects.hear (o := o) apart
      · exact ⟨i, y, hy, hears ▸ still⟩
      · obtain ⟨_, ss⟩ := w
        obtain rfl := focus
        obtain ⟨rfl, relays⟩ := gathers hw
        exact (fails ⟨f, ss, by rw [hy, ← hears, failed], relays⟩).elim
    | told turn label => obtain h | ⟨us, h, -⟩ := expects <;> cases h
    | went turn cue => cases (expects.cue? hw).symm.trans cue
  · cases launches with
    | launched turn cue job new workspace =>
      exact ⟨_, _, (hs.went turn cue).2.2, expects_of_jobs new⟩
    | started label => exact (label ▸ internal).elim

/-- A host on which nothing is at work but a job of one task, and what that has started. -/
structure Headed (u : Setup) (b : TaskId) (j : Job) (roots : List Job) (h : Host) : Prop where
  fits : h.Fits u.settings (.wellFormed u) roots
  root : roots[b]? = some j
  before : ∀ t < b, ∃ o, h.outcome? t = some o
  helpers : ∀ {t : TaskId} {j : Job}, b < t → roots[t]? = some j → j.rank u.settings ≤ 12

/-- The tasks of a host on which a job was started after every other task had ended. -/
theorem Step.started_alone {x : Task} (rest : ∀ t < h.tasks.length, ∃ o, h.outcome? t = some o)
    (hs : Step h (.started [j]) k) (hx : k.tasks[t]? = some x) :
    (t < h.tasks.length ∧ ∃ o, x = ⟨.resume o, []⟩) ∨
      t = h.tasks.length ∧ x = ⟨.begin j, []⟩ := by
  cases hs with
  | start idle =>
    simp only [Host.start, List.getElem?_append] at hx
    split at hx
    · rename_i lt
      obtain ⟨o, ended⟩ := rest t lt
      exact .inl ⟨lt, o, Task.outcome?_eq_some.1 ((outcome?_eq hx).symm.trans ended)⟩
    · rename_i ge
      have bound := (List.getElem?_eq_some_iff.1 hx).1
      rw [List.length_map, List.length_singleton] at bound
      have le := Nat.le_of_sub_eq_zero (Nat.lt_one_iff.1 bound)
      exact .inr ⟨Nat.le_antisymm le (Nat.not_lt.1 ge),
        List.mem_singleton.1 (List.mem_of_getElem? hx)⟩

namespace Headed

theorem step (hr : u.Runs ls h) (hl : h.Headed u b j roots) (hs : Step h l k)
    (internal : l.Internal) : ∃ js, h.Spawns l js ∧ k.Headed u b j (roots ++ js) := by
  have hE := Expectation.wellFormed_met u
  obtain ⟨js, spawns, fits⟩ :=
    hl.fits.effect hE (from_of_runs hr) hs.effect fun t q o _ ha => ha
  refine ⟨js, spawns, fits, getElem?_grow hl.root js, fun t lt => ?_, fun {t j} lt hj => ?_⟩
  · obtain ⟨o, ended⟩ := hl.before t lt
    exact ⟨o, hs.ended ended⟩
  · rw [List.getElem?_append] at hj
    split at hj
    · exact hl.helpers lt hj
    · have member := List.mem_of_getElem? hj
      cases spawns with
      | none => cases member
      | move turn cue apart =>
        obtain ⟨root, owner, -, -, hq⟩ := hl.fits.cue cue
        exact (hl.fits.suits hE.toFormed (from_of_runs hr) hq).rank_of_jobs member
      | start => exact internal.elim

/-- When callers start a job on a host on which every task has ended. -/
theorem start (hr : u.Runs ls h) (rest : ∀ t < h.tasks.length, ∃ o, h.outcome? t = some o)
    (hs : Step h (.started [j]) k) : ∃ roots, k.Headed u h.tasks.length j roots := by
  obtain ⟨before, hf⟩ := fits_of_runs hr
  obtain ⟨js, spawns, fits⟩ := hf.effect (Expectation.wellFormed_met u) (from_of_runs hr) hs.effect
    fun t q o _ ha => ha
  obtain rfl := spawns.started
  refine ⟨_, fits, by simp [hf.length], fun t lt => ?_, fun {t i} lt hi => ?_⟩
  · obtain ⟨o, ended⟩ := rest t lt
    exact ⟨o, hs.ended ended⟩
  · have bound := (List.getElem?_eq_some_iff.1 hi).1
    rw [List.length_append, ← hf.length, List.length_singleton] at bound
    exact (Nat.not_lt_of_le (Nat.le_of_lt_succ bound) lt).elim

end Headed

/-- A host on which nothing is at work but the compile of a request. -/
structure Lone (u : Setup) (b : TaskId) (r : CompileRequest) (roots : List Job) (h : Host) :
    Prop extends Headed u b (.compile r) roots h where
  tended : h.Tended b ∨ h.Fails b

namespace Lone

/-- Only the compile gathers tasks, and it fails if one of them does. -/
theorem gathers (hl : h.Lone u b r roots) {us : List TaskId}
    (hi : h.tasks[i]? = some ⟨.gathering us, ss⟩) : i = b ∧ ∀ st ∈ ss, st.relays = true := by
  obtain ⟨root, hr, fits⟩ := hl.fits.tasks hi
  cases fits with
  | @gathering st us owner js rest frames awaits jobs =>
    obtain ⟨n, rfl, relays⟩ : ∃ n, owner = .installAll n ∧ st.relays = true := by
      cases awaits <;> exact ⟨_, rfl, rfl⟩
    have rank : 13 ≤ root.rank u.settings := frames.rank_le
    obtain rfl : i = b := by
      rcases Nat.lt_trichotomy i b with lt | rfl | gt
      · obtain ⟨o, ended⟩ := hl.before i lt
        cases (outcome?_eq hi).symm.trans ended
      · rfl
      · have := hl.helpers gt hr
        omega
    obtain rfl := Option.some.inj (hl.root.symm.trans hr)
    obtain ⟨c, rfl, -⟩ := frames.installAll
    exact ⟨rfl, by simpa [Stage.relays] using relays⟩

theorem step (hr : u.Runs ls h) (hl : h.Lone u b r roots) (hs : Step h l k)
    (internal : l.Internal) : ∃ js, h.Spawns l js ∧ k.Lone u b r (roots ++ js) := by
  obtain ⟨js, spawns, headed⟩ := hl.toHeaded.step hr hs internal
  refine ⟨js, spawns, headed, ?_⟩
  obtain tended | fails := hl.tended
  · exact tended.step hs internal hl.gathers
  · exact .inr (fails.step hs)

/-- Unless the compile waits or fails, nothing else is at work. -/
theorem alone (hl : h.Lone u b r roots) (hf : ¬ h.Fails b) (hv : h.tasks[b]? = some v)
    (free : v.waits = false) (hne : t ≠ b) (ht : t < h.tasks.length) :
    ∃ o, h.outcome? t = some o := by
  have tended : h.Tended b := hl.tended.resolve_right hf
  obtain ⟨x, hx⟩ : ∃ x, h.tasks[t]? = some x := ⟨_, List.getElem?_eq_getElem ht⟩
  obtain ⟨j, hj, -⟩ := hl.fits.tasks hx
  induction hn : 13 - j.rank u.settings using Nat.strongRecOn generalizing t x j with
  | _ n ih =>
    cases ho : x.outcome? with
    | some o => exact ⟨o, (outcome?_eq hx).trans ho⟩
    | none =>
      obtain ⟨i, w, hw, expects⟩ := tended t x hx hne ho
      obtain ⟨root, hr, lower⟩ := hl.fits.rank_lt_of_expects hw expects hj
      have unended : h.outcome? i = none := (outcome?_eq hw).trans expects.outcome?
      have unequal : i ≠ b := by
        rintro rfl
        obtain rfl := Option.some.inj (hw.symm.trans hv)
        cases free.symm.trans expects.waits
      obtain ⟨o, ended⟩ : ∃ o, h.outcome? i = some o := by
        rcases Nat.lt_or_ge i b with lt | ge
        · exact hl.before i lt
        · have := hl.helpers (Nat.lt_of_le_of_ne ge (Ne.symm unequal)) hr
          exact ih (13 - root.rank u.settings) (by omega) unequal
            (List.getElem?_eq_some_iff.1 hw).1 w hw root hr rfl
      cases unended.symm.trans ended

end Lone

end Host

end PluginHost
