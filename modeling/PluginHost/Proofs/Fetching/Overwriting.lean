import PluginHost.Proofs.Fetching.Sharing
import PluginHost.Proofs.Host.Company
import PluginHost.Proofs.Path.Metadata
import PluginHost.Proofs.Store.Copies
import PluginHost.Proofs.Store.History

/-!
What a fetch makes of files that are there already. Nothing that can be read is lost by it. But what
a download brings takes the place of files of the lower layer, whoever put them there.
-/
namespace PluginHost

variable {s : Settings} {E : Expectation} {roots : List Job} {root owner j : Job} {st : Stage}
  {ss : List Stage} {src : Source} {o : Outcome} {p q : String} {u : Setup}

/-- The paths that are downloaded when a path is fetched: it, and the metadata of its package. The
path of the metadata has metadata too. -/
inductive Downloads.Along (root p : String) : String → Prop where
  | self : Along root p (Path.normalize p)
  | metadata {q r : String} (along : Along root p q)
      (metadata : Downloads.metadata? root q = some r) : Along root p r

/-- The jobs that are run when a path is fetched. -/
inductive Job.Along (s : Settings) (p : String) : Job → Prop where
  | fetch {q : String} {a : Json}
      (along : Downloads.Along (Path.normalize s.packagesRoot) p (Path.normalize q)) :
      Along s p (.fetch q a)
  | download {q : String} {a : Json}
      (along : Downloads.Along (Path.normalize s.packagesRoot) p q) : Along s p (.download q a)

/-- A fetch starts fetches and downloads along with it, and nothing else. -/
theorem Job.Along.source (hj : owner.Along s p) (ha : st.Awaits s owner src) :
    (∀ i ∈ src.jobs, i.Along s p) ∧
      ∀ q, src = .asked q → ∃ r a, q = .download r a ∧
        Downloads.Along (Path.normalize s.packagesRoot) p r := by
  cases hj with
  | fetch along =>
    cases ha with
    | downloadJoined =>
      exact ⟨fun i hi => List.mem_singleton.1 hi ▸ .download along, fun _ hq => by cases hq⟩
    | downloadOwned =>
      exact ⟨fun i hi => List.mem_singleton.1 hi ▸ .download along, fun _ hq => by cases hq⟩
  | download along =>
    cases ha with
    | downloaded =>
      refine ⟨fun i hi => (List.not_mem_nil hi).elim, fun q hq => ?_⟩
      cases hq
      exact ⟨_, _, rfl, along⟩
    | metadataTried metadata =>
      refine ⟨fun i hi => List.mem_singleton.1 hi ▸ .fetch ?_, fun _ hq => by cases hq⟩
      rw [Downloads.normalize_metadata? metadata]
      exact .metadata along metadata

namespace Host

variable {h k m : Host} {t : TaskId} {l : Label} {ls rs : List Label} {P : Job → Prop} {a : Json}

/-- A host on which nothing is at work but jobs of some kind. -/
structure Only (u : Setup) (P : Job → Prop) (roots : List Job) (h : Host) : Prop where
  fits : h.Fits u.settings (.wellFormed u) roots
  live : ∀ {t : TaskId} {j : Job}, roots[t]? = some j → h.outcome? t = none → P j

/-- Jobs that start and await only jobs of their kind. -/
def Closed (s : Settings) (P : Job → Prop) : Prop :=
  ∀ {owner : Job} {st : Stage} {src : Source}, P owner → st.Awaits s owner src → ∀ i ∈ src.jobs, P i

theorem Closed.frames (hP : Closed s P) (hf : root.Frames s owner ss) (hr : P root) : P owner := by
  induction hf with
  | root => exact hr
  | under outer awaits ih => exact hP ih awaits _ (List.mem_singleton_self _)

theorem Closed.jobs {m : Move} (hP : Closed s P) (hm : m.Suits s roots owner) (ho : P owner)
    (hj : j ∈ m.jobs) : P j := by
  cases m with
  | launch st i => exact hP ho hm j hj
  | gather st js => exact hP ho hm j hj
  | _ => cases hj

/-- A host stays one on which nothing else is at work if callers start only jobs of the kind. -/
theorem Only.grows (ho : h.Only u P roots) (hP : Closed u.settings P) (hr : u.Runs ls h)
    (hs : Step h l k) (starts : ∀ js, l = .started js → ∀ j ∈ js, P j) :
    ∃ js, h.Spawns l js ∧ k.Only u P (roots ++ js) := by
  have hE := Expectation.wellFormed_met u
  obtain ⟨js, spawns, fits⟩ := ho.fits.effect hE (from_of_runs hr) hs.effect fun _ _ _ _ ha => ha
  refine ⟨js, spawns, fits, fun {t j} hj none => ?_⟩
  have unended : h.outcome? t = Option.none := by
    cases ended : h.outcome? t with
    | none => rfl
    | some o => cases none.symm.trans (hs.ended ended)
  rw [List.getElem?_append] at hj
  split at hj
  · exact ho.live hj unended
  · have member := List.mem_of_getElem? hj
    cases spawns with
    | none => cases member
    | start => exact starts _ rfl j member
    | @move _ t q ss turn cue apart =>
      obtain ⟨root, owner, hr', frames, hq⟩ := ho.fits.cue cue
      have works := hP.frames frames (ho.live hr' (outcome?_of_cue? cue))
      exact hP.jobs (ho.fits.suits hE.toFormed (from_of_runs hr) hq) works member

theorem Only.step (ho : h.Only u P roots) (hP : Closed u.settings P) (hr : u.Runs ls h)
    (hs : Step h l k) (internal : l.Internal) :
    ∃ js, h.Spawns l js ∧ k.Only u P (roots ++ js) :=
  ho.grows hP hr hs fun _ hl => (hl ▸ internal : Label.Internal (.started _)).elim

theorem Only.steps (ho : m.Only u P roots) (hP : Closed u.settings P) (hm : u.Runs ls m)
    (hk : Steps m rs h) (internal : ∀ l ∈ rs, l.Internal) : ∃ js, h.Only u P (roots ++ js) :=
  kept_of_steps (P := Only u P) hm ho hk fun hl hr ho hs => ho.step hP hr hs (internal _ hl)

/-- When nothing is at work but jobs of some kind, only the questions of such jobs are answered. -/
theorem Only.answered {v : TaskId} {q : Query} (ho : h.Only u P roots) (hP : Closed u.settings P)
    (hs : Step h (.answered v q o) k) :
    ∃ (owner : Job) (st : Stage), P owner ∧ st.Awaits u.settings owner (.asked q) := by
  cases hs with
  | answer turn asked admits =>
    obtain ⟨ss, hv⟩ := tasks_of_query? asked
    obtain ⟨root, hroot, fits⟩ := ho.fits.tasks hv
    cases fits with
    | asking frames awaits =>
      exact ⟨_, _, hP.frames frames (ho.live hroot ((outcome?_eq hv).trans rfl)), awaits⟩

/-- The files that a collaborator brings from the remote. -/
def Label.files : Label → List (String × Content)
  | .answered _ (.download ..) (.ok (.files fs)) => fs.entries
  | _ => []

/-- A label on account of which nothing but files from the remote is put into the store. -/
def Label.OnlyFetches : Label → Prop
  | .changed c => c.operations = []
  | .answered _ (.projectFiles _) (.ok _) => False
  | _ => True

theorem Label.OnlyFetches.operations (hl : l.OnlyFetches) :
    l.does ++ l.delivers = l.files.map fun f => .place f.1 f.2 := by
  cases l with
  | changed c => exact (List.append_nil _).trans hl
  | answered t q o =>
    cases q with
    | download p a =>
      cases o with
      | error f => rfl
      | ok r => cases r <;> rfl
    | projectFiles a =>
      cases o with
      | error f => rfl
      | ok r => exact hl.elim
    | transform code config registry => rfl
  | _ => rfl

theorem operations_of_onlyFetches (only : ∀ l ∈ rs, l.OnlyFetches) :
    operations rs = (rs.flatMap Label.files).map fun f => .place f.1 f.2 := by
  rw [List.map_flatMap]
  exact List.flatMap_congr fun l hl => (only l hl).operations

/-- While nothing but files from the remote is put into the store, a path reads as what was written
to it, or else as what was brought for it last, or else as before. -/
theorem Steps.read?_of_onlyFetches (hm : u.Runs ls m) (hk : Steps m rs h)
    (only : ∀ l ∈ rs, l.OnlyFetches) (before : m.owes = []) (after : h.owes = []) (q : String) :
    h.workspace.store.read? q = (m.workspace.store.writable.read? q).or
      ((Layer.last? q (rs.flatMap Label.files)).or (m.workspace.store.remote.read? q)) := by
  obtain ⟨done, all, same⟩ := hk.matches hm
  rw [before, after, List.append_nil, List.nil_append, operations_of_onlyFetches only] at all
  rw [same.read?, all, Store.afterAll_place, Store.read?, Layer.read?_writeEach]

/-- A task that has just returned from a job that it ran in the place of another one owes nothing,
and neither does anybody between turns. -/
theorem owes_of_returned (hm : u.Runs ls m) (cue : m.cue? t = some (.begin j, ss))
    (after : h.turn = none ∨ h.turn = some t ∧ ∃ o, h.tasks[t]? = some ⟨.resume o, ss⟩) :
    h.owes = [] := by
  obtain idle | ⟨turn, o, returned⟩ := after
  · exact owes_of_rest (still_of_idle idle)
  · obtain ⟨roots, hf⟩ := fits_of_runs hm
    obtain ⟨root, owner, -, frames, -⟩ := hf.cue cue
    cases ss with
    | nil =>
      exact owes_of_rest (still_of_turn turn (cue?_eq_none_of_ended returned))
    | cons st ss =>
      rw [owes_of_cue turn (cue?_eq_told.2 returned), Cue.puts, frames.head.1]
      rfl

theorem Steps.exists_step (hk : Steps m rs h) (apart : m.turn ≠ h.turn) : ∃ l k, Step m l k := by
  cases hk with
  | refl => exact (apart rfl).elim
  | cons first rest => exact ⟨_, _, first⟩

/-- A fetch of a file that is there does nothing. -/
theorem Step.fetch_found (hs : Step m l k) (turn : m.turn = some t)
    (cue : m.cue? t = some (.begin (.fetch p a), ss))
    (there : m.workspace.store.contains p = true) :
    k.workspace.store = m.workspace.store ∧
      k.tasks[t]? = some ⟨.resume (.ok .nothing), ss⟩ := by
  obtain ⟨-, workspace, goes⟩ := hs.went turn cue
  have found : m.workspace.store.contains (Path.normalize p) = true := by
    simpa [Store.contains, Store.read?, Layer.read?, Path.normalize_normalize] using there
  obtain ⟨store, done⟩ : (m.next (.begin (.fetch p a))).1.store = m.workspace.store ∧
      (m.next (.begin (.fetch p a))).2 = .done := by
    have goes := (Cue.begin (.fetch p a)).goes m.tasks.length m.workspace
    rw [Host.next]
    generalize Cue.move m.tasks.length m.workspace (.begin (.fetch p a)) = x at goes
    cases goes with
    | fetchKnown | fetchThere => exact ⟨rfl, rfl⟩
    | fetchJoined _ absent | fetchLaunched _ absent => cases absent.symm.trans found
  exact ⟨workspace ▸ store, by rw [goes, done]; rfl⟩

/-- A fetch that is alone at work has nothing downloaded but its path and metadata. -/
theorem Steps.along (hm : u.Runs ls m) (cue : m.cue? t = some (.begin (.fetch p a), []))
    (alone : ∀ v < m.tasks.length, v ≠ t → ∃ o, m.outcome? v = some o) (hk : Steps m rs h)
    (internal : ∀ l ∈ rs, l.Internal) {v : TaskId} {q : Query} (answered : .answered v q o ∈ rs) :
    ∃ r b, q = .download r b ∧
      Downloads.Along (Path.normalize u.settings.packagesRoot) p r := by
  have closed : Closed u.settings (Job.Along u.settings p) := fun ho ha => (ho.source ha).1
  obtain ⟨roots, hf⟩ := fits_of_runs hm
  have only : m.Only u (Job.Along u.settings p) roots := by
    refine ⟨hf, fun {v j} hv unended => ?_⟩
    by_cases hit : v = t
    · subst hit
      obtain ⟨root, owner, hroot, frames, hq⟩ := hf.cue cue
      cases frames
      cases hq
      obtain rfl := Option.some.inj (hv.symm.trans hroot)
      exact .fetch .self
    · obtain ⟨o, ended⟩ := alone v (hf.length ▸ (List.getElem?_eq_some_iff.1 hv).1) hit
      cases unended.symm.trans ended
  obtain ⟨xs, ys, rfl⟩ := List.append_of_mem answered
  obtain ⟨g, g', hg, answers, -⟩ := hk.split
  obtain ⟨js, works⟩ := only.steps closed hm hg fun l hl => internal l (List.mem_append_left _ hl)
  obtain ⟨owner, st, along, awaits⟩ := works.answered closed answers
  exact (along.source awaits).2 q rfl

/-- What could be read when a fetch began can be read between turns and when the fetch returns,
while nothing but files from the remote is put into the store. It reads as before unless it was not
written, and some of these files are for it: then it reads as the last of them. If the fetch is
alone at work, those files are the ones that were brought for its path and for metadata. A fetch of
a file that is there does nothing. -/
theorem readable_after_fetch (hm : u.Runs ls m) (turn : m.turn = some t)
    (cue : m.cue? t = some (.begin (.fetch p a), ss)) (hk : Steps m rs h)
    (after : h.turn = none ∨ h.turn = some t ∧ ∃ o, h.tasks[t]? = some ⟨.resume o, ss⟩) :
    ((∀ l ∈ rs, l.OnlyFetches) → ∀ q c, m.workspace.store.read? q = some c →
      h.workspace.store.read? q = some (((m.workspace.store.writable.read? q).or
        (Layer.last? q (rs.flatMap Label.files))).getD c)) ∧
    (ss = [] → (∀ v < m.tasks.length, v ≠ t → ∃ o, m.outcome? v = some o) →
      (∀ l ∈ rs, l.Internal) →
        (∀ l ∈ rs, l.OnlyFetches) ∧ ∀ v q o, .answered v q o ∈ rs →
          ∃ r b, q = .download r b ∧
            Downloads.Along (Path.normalize u.settings.packagesRoot) p r) ∧
    (m.workspace.store.contains p = true → ∀ l k, Step m l k →
      k.workspace.store = m.workspace.store ∧
        k.tasks[t]? = some ⟨.resume (.ok .nothing), ss⟩) := by
  refine ⟨?_, ?_, fun there l k hs => hs.fetch_found turn cue there⟩
  · intro only q c readable
    have before : m.owes = [] := owes_of_cue turn cue
    rw [hk.read?_of_onlyFetches hm only before (owes_of_returned hm cue after)]
    rw [Store.read?] at readable
    cases hw : m.workspace.store.writable.read? q with
    | some w => rfl
    | none =>
      rw [hw, Option.none_or] at readable
      rw [readable]
      cases Layer.last? q (rs.flatMap Label.files) <;> rfl
  · rintro rfl alone internal
    have along {v : TaskId} {q : Query} {o : Outcome} (answered : .answered v q o ∈ rs) :=
      hk.along hm cue alone internal answered
    refine ⟨fun l hl => ?_, fun v q o => along⟩
    cases l with
    | answered v q o =>
      obtain ⟨r, b, rfl, -⟩ := along hl
      trivial
    | changed c => exact (internal _ hl).elim
    | _ => trivial

end Host

/-- A project with a file of a package that the remote has as well. -/
def Query.overlapping : Query → Option Outcome
  | .projectFiles _ => some (.ok (.files (.ofList [("/n/p/index.json", "0".toUTF8.toList)])))
  | q => package q

theorem World.overlapping_admits : (World.steady Query.overlapping).Admits := by
  refine steady_admits fun q o h => ?_
  unfold Query.overlapping at h
  split at h
  · cases h
    trivial
  · unfold Query.package at h
    split at h <;> cases h <;> exact trivial

/-- A host that has copied such a project. -/
def Setup.copied : Host :=
  ((Setup.project.host.start [.openStore .null]).run (.steady Query.overlapping) 20 ()).1

/-- A path is to be fetched by the task that has the turn. -/
def Setup.refetching (p : String) : Host :=
  ((copied.start [.fetch p .null]).run (.steady Query.overlapping) 1 ()).1

def Setup.refetched (p : String) : Host :=
  ((refetching p).run (.steady Query.overlapping) 40 ()).1

theorem Setup.runs_refetching (p : String) : ∃ ls, Setup.project.Runs ls (refetching p) := by
  have copies := Setup.project.runs_run World.overlapping_admits [.openStore .null] 20 ()
  have fetches : Host.Steps copied (.started [.fetch p .null] :: _) (refetching p) :=
    .cons (.start (by decide +kernel)) (Host.steps_run World.overlapping_admits 1 _ ())
  exact ⟨_, copies.trans fetches⟩

theorem Setup.steps_refetched (p : String) :
    Host.Steps (refetching p) (Host.labels (.steady Query.overlapping) 40 (refetching p) ())
      (refetched p) :=
  Host.steps_run World.overlapping_admits 40 _ ()

theorem Setup.refetching_alone :
    ∀ v < (refetching "/n/p").tasks.length, v ≠ 2 →
      ∃ o, (refetching "/n/p").outcome? v = some o := by
  have ended : ∀ v < (refetching "/n/p").tasks.length, v ≠ 2 →
      ((refetching "/n/p").outcome? v).isSome = true := by decide +kernel
  exact fun v lt hne => Option.isSome_iff_exists.1 (ended v lt hne)

/-- A file of the project that a fetch of its package replaces, and that a fetch of the file itself
does not. -/
theorem readable_after_fetch_overlapping :
    (∃ ls m rs h, Setup.project.Runs ls m ∧ m.turn = some 2 ∧
      m.cue? 2 = some (.begin (.fetch "/n/p" .null), []) ∧ Host.Steps m rs h ∧ h.turn = none ∧
      (∀ l ∈ rs, l.Internal) ∧ (∀ v < m.tasks.length, v ≠ 2 → ∃ o, m.outcome? v = some o) ∧
      (∀ v q o, .answered v q o ∈ rs → ∃ r b, q = .download r b ∧
        Downloads.Along "/n" "/n/p" r) ∧
      m.workspace.store.read? "/n/p/index.json" = some "0".toUTF8.toList ∧
      h.workspace.store.read? "/n/p/index.json" = some "1".toUTF8.toList) ∧
    ∃ ls m l k, Setup.project.Runs ls m ∧ m.turn = some 2 ∧
      m.cue? 2 = some (.begin (.fetch "/n/p/index.json" .null), []) ∧
      m.workspace.store.contains "/n/p/index.json" = true ∧ Host.Step m l k ∧
      k.workspace.store = m.workspace.store ∧ k.tasks[2]? = some ⟨.resume (.ok .nothing), []⟩ := by
  refine ⟨?_, ?_⟩
  · obtain ⟨ls, hm⟩ := Setup.runs_refetching "/n/p"
    have turn : (Setup.refetching "/n/p").turn = some 2 := by decide +kernel
    have cue : (Setup.refetching "/n/p").cue? 2 = some (.begin (.fetch "/n/p" .null), []) :=
      Host.cue?_eq_begin.2 rfl
    have idle : (Setup.refetched "/n/p").turn = none := by decide +kernel
    have internal := Host.internal_labels (.steady Query.overlapping) 40 (Setup.refetching "/n/p") ()
    have readable : (Setup.refetching "/n/p").workspace.store.read? "/n/p/index.json" =
        some "0".toUTF8.toList := by decide +kernel
    obtain ⟨keeps, along, -⟩ :=
      Host.readable_after_fetch hm turn cue (Setup.steps_refetched "/n/p") (.inl idle)
    obtain ⟨only, downloads⟩ := along rfl Setup.refetching_alone internal
    have root : Path.normalize Setup.project.settings.packagesRoot = "/n" := by decide +kernel
    refine ⟨ls, _, _, _, hm, turn, cue, Setup.steps_refetched "/n/p", idle, internal,
      Setup.refetching_alone, root ▸ downloads, readable, ?_⟩
    rw [keeps only _ _ readable]
    decide +kernel
  · obtain ⟨ls, hm⟩ := Setup.runs_refetching "/n/p/index.json"
    have turn : (Setup.refetching "/n/p/index.json").turn = some 2 := by decide +kernel
    have cue : (Setup.refetching "/n/p/index.json").cue? 2 =
        some (.begin (.fetch "/n/p/index.json" .null), []) := Host.cue?_eq_begin.2 rfl
    have idle : (Setup.refetched "/n/p/index.json").turn = none := by decide +kernel
    have there : (Setup.refetching "/n/p/index.json").workspace.store.contains
        "/n/p/index.json" = true := by decide +kernel
    have hk := Setup.steps_refetched "/n/p/index.json"
    obtain ⟨-, -, found⟩ := Host.readable_after_fetch hm turn cue hk (.inl idle)
    obtain ⟨l, k, hs⟩ := hk.exists_step (by simp [turn, idle])
    exact ⟨ls, _, l, k, hm, turn, cue, there, hs, found there l k hs⟩

/-- A fetch does not always leave what could be read as it was. -/
theorem fetch_can_overwrite :
    ¬ ∀ u ls m t p a rs h q c, Setup.Runs u ls m → m.turn = some t →
      m.cue? t = some (.begin (.fetch p a), []) → Host.Steps m rs h → h.turn = none →
        (∀ v < m.tasks.length, v ≠ t → ∃ o, m.outcome? v = some o) → (∀ l ∈ rs, l.Internal) →
          m.workspace.store.read? q = some c → h.workspace.store.read? q = some c := by
  intro always
  obtain ⟨ls, hm⟩ := Setup.runs_refetching "/n/p"
  have kept := always _ ls (Setup.refetching "/n/p") 2 "/n/p" .null _ (Setup.refetched "/n/p")
    "/n/p/index.json" "0".toUTF8.toList hm (by decide +kernel) (Host.cue?_eq_begin.2 rfl)
    (Setup.steps_refetched "/n/p") (by decide +kernel) Setup.refetching_alone
    (Host.internal_labels _ _ _ _) (by decide +kernel)
  have changed : (Setup.refetched "/n/p").workspace.store.read? "/n/p/index.json" ≠
      some "0".toUTF8.toList := by decide +kernel
  exact changed kept

end PluginHost
