import PluginHost.Proofs.Fetching.Sharing
import PluginHost.Proofs.Host.Causes

/-!
What metadata does to a fetch along with which it is fetched. That the remote does not have it is
passed over. Any other failure of it becomes that of the fetch, although the files have come.
-/
namespace PluginHost

variable {u : Setup} {ls : List Host.Label} {p : String} {a : Json} {r o : Outcome}

/-- A failure with which the remote answered for a path, or that came from metadata that was fetched
on account of the path. -/
inductive Downloads.Raised (root : String) (ls : List Host.Label) (f : Failure) :
    String → Prop where
  | refused {p : String} {v : TaskId} {a : Json}
      (answered : .answered v (.download p a) (.error f) ∈ ls) : Raised root ls f p
  | passed {p q : String} (metadata : Downloads.metadata? root p = some q) (apart : q ≠ p)
      (other : f.fault.isUnfetchable = false) (raised : Raised root ls f q) : Raised root ls f p

/-- What comes of a download of a path upon the answer to it. -/
inductive Downloads.Ends (root : String) (ls : List Host.Label) (p : String) :
    Outcome → Outcome → Prop where
  | refused {f : Failure} : Ends root ls p (.error f) (.error f)
  | brought {fs : Files} : Ends root ls p (.ok (.files fs)) (.ok .nothing)
  /-- The metadata of the package failed otherwise than by its absence. -/
  | leaked {fs : Files} {f : Failure} {q : String}
      (metadata : Downloads.metadata? root p = some q) (apart : q ≠ p)
      (other : f.fault.isUnfetchable = false) (raised : Raised root ls f q) :
      Ends root ls p (.ok (.files fs)) (.error f)

/-- The root under which packages lie. -/
def Settings.root (s : Settings) : String := Path.normalize s.packagesRoot

/-- Fetches fail as the remote did, for their path or for metadata. -/
def Expectation.raised (u : Setup) (ls : List Host.Label) : Expectation where
  ends j o := (∀ r, o = .ok r → j.Returns u.settings r) ∧ ∀ f, o = .error f →
    match j with
    | .fetch p _ => Downloads.Raised u.settings.root ls f (Path.normalize p)
    | .download p _ => Downloads.Raised u.settings.root ls f p
    | _ => True
  answers q o := q.Admits o ∧ ∃ v, .answered v q o ∈ ls

theorem Expectation.raised_formed (u : Setup) (ls : List Host.Label) : (raised u ls).Formed u :=
  ⟨fun h => h.1 _ rfl, fun h => h.1⟩

theorem Expectation.raised_met (u : Setup) (ls : List Host.Label) : (raised u ls).Met u where
  toFormed := raised_formed u ls
  finishes hc hk hq hm := by
    refine ⟨fun r hr => ?_, fun f hf => ?_⟩
    · have suits := (hq.lawful (raised_formed u ls) hc hk).suits
      rw [hm] at suits
      exact suits r hr
    · subst hf
      rename_i owner _ _
      cases owner with
      | fetch p a =>
        obtain ⟨b, ends⟩ := Work.cause_fetch hq hm
        exact ends.2 f rfl
      | download p a =>
        obtain ⟨-, v, answered⟩ | ⟨q, metadata, apart, ends, other⟩ :=
          Work.cause_download (raised_formed u ls) hq hm
        · exact .refused answered
        · have raised : Downloads.Raised u.settings.root ls f (Path.normalize q) := ends.2 f rfl
          rw [Downloads.normalize_metadata? metadata] at raised
          exact .passed metadata apart other raised
      | _ => trivial

/-- How far the task of a download has got. -/
inductive Task.Loads (root : String) (ls : List Host.Label) (v : TaskId) (p : String) (a : Json) :
    Task → Prop where
  | begins : Loads root ls v p a ⟨.begin (.download p a), []⟩
  | asks : Loads root ls v p a ⟨.asking (.download p a), [.downloaded p a]⟩
  | told {r : Outcome} (answered : .answered v (.download p a) r ∈ ls) :
      Loads root ls v p a ⟨.resume r, [.downloaded p a]⟩
  /-- It has its files and fetches metadata. -/
  | tries {x : Task} {fs : Files} (answered : .answered v (.download p a) (.ok (.files fs)) ∈ ls)
      (waits : .metadataTried ∈ x.stages) : Loads root ls v p a x
  | ended {r o : Outcome} (answered : .answered v (.download p a) r ∈ ls)
      (ends : Downloads.Ends root ls p r o) : Loads root ls v p a ⟨.resume o, []⟩

namespace Host

variable {h k m : Host} {t v i : TaskId} {l : Label} {rs xs : List Label} {roots : List Job}
  {x y : Task} {ss : List Stage} {q : Cue} {fs : Files}

/-- The move of a download that has its answer. -/
theorem loads_told (admits : Query.Admits (.download p a) r)
    (answered : .answered v (.download p a) r ∈ ls) :
    (h.moved [] (h.next (.told (.downloaded p a) r)).2).Loads root ls v p a := by
  cases r with
  | error f => exact .ended answered .refused
  | ok reply =>
    cases reply with
    | files fs =>
      obtain ⟨-, done | ⟨metadata, calls⟩⟩ := Work.downloaded_files p a fs h.workspace
      · have goes : (h.next (.told (.downloaded p a) (.ok (.files fs)))).2 = .done := done
        rw [goes]
        exact .ended answered .brought
      · have goes : (h.next (.told (.downloaded p a) (.ok (.files fs)))).2 =
            .call .metadataTried (.fetch metadata a) := calls
        rw [goes]
        exact .tries answered (List.mem_singleton_self _)
    | _ => exact admits.elim

/-- The move of a download that has its files and is told what came of metadata. -/
theorem Fits.loads_tried (hf : h.Fits u.settings (.raised u ls) roots)
    (hv : h.tasks[v]? = some ⟨.resume o, .metadataTried :: ss⟩)
    (job : roots[v]? = some (.download p a))
    (answered : .answered v (.download p a) (.ok (.files fs)) ∈ ls) :
    (h.moved ss (h.next (.told .metadataTried o)).2).Loads u.settings.root ls v p a := by
  obtain ⟨root, hr, fits⟩ := hf.tasks hv
  obtain rfl := Option.some.inj (job.symm.trans hr)
  cases fits with
  | told frames awaits gives =>
    cases awaits with
    | @metadataTried p' q b metadata apart =>
      obtain ⟨same, rfl⟩ := frames.of_errand rfl
      cases same
      cases o with
      | ok reply => exact .ended answered .brought
      | error f =>
        by_cases absent : f.fault.isUnfetchable = true
        · have goes : (h.next (.told .metadataTried (.error f))).2 = .done := if_pos absent
          rw [goes]
          exact .ended answered .brought
        · have goes : (h.next (.told .metadataTried (.error f))).2 = .fail f := if_neg absent
          have raised : Downloads.Raised u.settings.root ls f (Path.normalize q) := gives.2 f rfl
          rw [Downloads.normalize_metadata? metadata] at raised
          rw [goes]
          exact .ended answered (.leaked metadata apart (by simpa using absent) raised)

/-- A stage that waits beneath others goes on waiting upon the moves of those. -/
theorem mem_stages_moved {st : Stage} {move : Move} (hst : st ∈ ss) :
    st ∈ (h.moved ss move).stages := by
  generalize hx : h.moved ss move = x
  obtain ⟨f, rest⟩ := x
  obtain ⟨o, -, -, rfl⟩ | ⟨st', -, rfl⟩ := stages_of_moved hx
  · exact hst
  · exact List.mem_cons_of_mem _ hst

/-- A download goes on from phase to phase. -/
theorem Step.loads_on (hf : h.Fits u.settings (.raised u ls) roots) (hs : Step h l k) (hl : l ∈ ls)
    (hv : h.tasks[v]? = some x) (job : roots[v]? = some (.download p a))
    (loads : x.Loads u.settings.root ls v p a) :
    ∃ y, k.tasks[v]? = some y ∧ y.Loads u.settings.root ls v p a := by
  obtain ⟨y, hy, becomes⟩ := hs.becomes hv
  refine ⟨y, hy, ?_⟩
  cases becomes with
  | kept => exact loads
  | @heard _ _ t o turn ended hears =>
    subst hears
    cases loads with
    | begins => exact .begins
    | asks => exact .asks
    | told answered => exact .told answered
    | tries answered waits => exact .tries answered (x.stages_hear t o ▸ waits)
    | ended answered ends => exact .ended answered ends
  | told turn label =>
    cases loads with
    | asks => exact .told (label ▸ hl)
    | tries answered waits => exact .tries answered waits
  | @went _ _ q ss turn cue label workspace moves =>
    subst moves
    cases loads with
    | begins =>
      obtain ⟨rfl, rfl⟩ := cue?_inj (cue?_eq_begin.2 hv) cue
      exact .asks
    | asks => simp [cue?, hv] at cue
    | told answered =>
      obtain ⟨rfl, rfl⟩ := cue?_inj (cue?_eq_told.2 hv) cue
      obtain ⟨root, owner, -, -, hq⟩ := hf.cue cue
      cases hq with
      | told awaits gives =>
        cases awaits with
        | downloaded => exact loads_told gives.1 answered
    | tries answered waits =>
      cases q with
      | begin j =>
        obtain rfl := Option.some.inj (hv.symm.trans (cue?_eq_begin.1 cue))
        exact .tries answered (mem_stages_moved waits)
      | told st o =>
        obtain rfl := Option.some.inj (hv.symm.trans (cue?_eq_told.1 cue))
        obtain rfl | below := List.mem_cons.1 waits
        · exact hf.loads_tried hv job answered
        · exact .tries answered (mem_stages_moved below)
    | ended => cases (cue?_eq_none_of_ended hv).symm.trans cue

/-- Hosts whose downloads have got as far as labels tell. -/
structure Loading (u : Setup) (ls : List Label) (roots : List Job) (h : Host) : Prop where
  fits : h.Fits u.settings (.raised u ls) roots
  loads : ∀ {v : TaskId} {p : String} {a : Json} {x : Task}, h.tasks[v]? = some x →
    roots[v]? = some (.download p a) → x.Loads u.settings.root ls v p a

theorem Loading.step (hd : h.Loading u ls roots) (hr : u.Runs xs h) (hs : Step h l k)
    (hl : l ∈ ls) : ∃ js, h.Spawns l js ∧ k.Loading u ls (roots ++ js) := by
  obtain ⟨js, spawns, fits⟩ := hd.fits.effect (Expectation.raised_met u ls) (from_of_runs hr)
    hs.effect fun t q o label admits => ⟨admits, t, label ▸ hl⟩
  refine ⟨js, spawns, fits, fun {v p a y} hy job => ?_⟩
  obtain ⟨x, hv, -⟩ | ⟨j, rfl, -⟩ := hs.came hy
  · have old : roots[v]? = some (.download p a) := by
      rwa [List.getElem?_append_left (hd.fits.length ▸ (List.getElem?_eq_some_iff.1 hv).1)] at job
    obtain ⟨z, hz, loads⟩ := hs.loads_on hd.fits hl hv old (hd.loads hv old)
    obtain rfl := Option.some.inj (hz.symm.trans hy)
    exact loads
  · obtain ⟨root, hr', begun⟩ := fits.tasks hy
    obtain rfl := Option.some.inj (job.symm.trans hr')
    cases begun with
    | begin frames =>
      cases frames
      exact .begins

theorem Loading.steps (hd : h.Loading u ls roots) (hr : u.Runs xs h) (hk : Steps h rs k)
    (labels : ∀ l ∈ rs, l ∈ ls) : ∃ js, k.Loading u ls (roots ++ js) :=
  kept_of_steps (P := Loading u ls) hr hd hk fun hl hr hd hs => hd.step hr hs (labels _ hl)

/-- In every run each download has got as far as the labels tell. -/
theorem loading_of_runs (hr : u.Runs xs h) (labels : ∀ l ∈ xs, l ∈ ls) :
    ∃ roots, h.Loading u ls roots := by
  have start : u.host.Loading u ls [] :=
    ⟨.start u _, fun hv => by simp [Setup.host] at hv⟩
  obtain ⟨js, hd⟩ := start.steps .refl hr labels
  exact ⟨_, hd⟩

/-- A download that has ended was answered, and ended as the answer and its metadata made it. -/
theorem Loading.ends (hd : h.Loading u ls roots) (job : roots[v]? = some (.download p a))
    (ended : h.outcome? v = some o) :
    ∃ r, .answered v (.download p a) r ∈ ls ∧ Downloads.Ends u.settings.root ls p r o := by
  obtain ⟨x, hv, outcome⟩ := Option.bind_eq_some_iff.1 ended
  obtain rfl := Task.outcome?_eq_some.1 outcome
  cases hd.loads hv job with
  | tries answered waits => cases waits
  | ended answered ends => exact ⟨_, answered, ends⟩

end Host

/-- A fetch is done, or it goes on with the download of its path. -/
theorem Work.fetch_goes (fresh : TaskId) (p : String) (a : Json) (c : Workspace) :
    (fetch fresh p a c).2 = .done ∨
      (∃ v, c.downloads.pending.get? (Path.normalize p) = some v ∧
        (fetch fresh p a c).2 = .await .passOn v) ∨
      (fetch fresh p a c).2 =
        .launch (.downloadOwned (Path.normalize p)) (.download (Path.normalize p) a) := by
  have begins : (Job.fetch p a).Begins fresh c (fetch fresh p a c) := begins_fetch
  generalize fetch fresh p a c = x at begins
  cases begins with
  | fetchKnown | fetchThere => exact .inl rfl
  | fetchJoined unknown absent pending => exact .inr (.inl ⟨_, pending, rfl⟩)
  | fetchLaunched => exact .inr (.inr rfl)

/-- The task that is to take a download off the list waits for that download. -/
theorem Stage.Awaits.of_downloadOwned {s : Settings} {st : Stage} {owner : Job} {src : Source}
    (ha : st.Awaits s owner src) (hst : st = .downloadOwned p) :
    ∃ a, src = .joined (.download p a) := by
  cases ha with
  | downloadOwned =>
    cases hst
    exact ⟨_, rfl⟩
  | _ => cases hst

namespace Host

variable {h k m : Host} {t v : TaskId} {l : Label} {rs xs : List Label} {ss : List Stage}

/-- A task is to pass on what comes of another one. -/
def Relays (h : Host) (t v : TaskId) (ss : List Stage) : Prop :=
  ∃ st f, (∀ o c, (st.resume o c).2 = .finish o) ∧ h.tasks[t]? = some ⟨f, st :: ss⟩ ∧ h.Heeds v f

theorem Relays.unended (hs : h.Relays t v ss) : h.outcome? t = none := by
  obtain ⟨st, f, -, hf, heeds⟩ := hs
  rw [outcome?_eq hf]
  cases f <;> rfl

/-- A fetch that has begun is done, or is to pass on what comes of a download of its path. -/
theorem Step.fetch_begun (hd : ∃ roots, m.Loading u ls roots) (hm : u.Runs xs m) (hs : Step m l k)
    (hl : l ∈ ls) (turn : m.turn = some t) (cue : m.cue? t = some (.begin (.fetch p a), ss)) :
    k.tasks[t]? = some ⟨.resume (.ok .nothing), ss⟩ ∨
      ∃ v b roots, k.Loading u ls roots ∧ roots[v]? = some (.download (Path.normalize p) b) ∧
        k.Relays t v ss := by
  obtain ⟨roots, hd⟩ := hd
  obtain ⟨js, -, next⟩ := hd.step hm hs hl
  obtain ⟨-, -, goes⟩ := hs.went turn cue
  obtain done | ⟨v, pending, joins⟩ | launches := Work.fetch_goes m.tasks.length p a m.workspace
  · left
    rw [goes, show (m.next (.begin (.fetch p a))).2 = .done from done]
    rfl
  · obtain ⟨b, job⟩ := hd.fits.knows.pending _ v pending
    obtain ⟨f, hf, heeds⟩ := hs.shares_of_await turn cue joins
    exact .inr ⟨v, b, _, next, getElem?_grow job js, .passOn, f, fun _ _ => rfl, hf, heeds⟩
  · rw [show (m.next (.begin (.fetch p a))).2 = _ from launches] at goes
    obtain ⟨root, -, fits⟩ := next.fits.tasks goes
    cases fits with
    | awaiting frames awaits job =>
      obtain ⟨b, source⟩ := awaits.of_downloadOwned rfl
      cases source
      exact .inr ⟨_, b, _, next, job, _, _, fun _ _ => rfl, goes, .inl rfl⟩

/-- What comes of a fetch of a path in the steps from a host on which it begins. -/
inductive Fetches (u : Setup) (ls : List Label) (m : Host) (rs : List Label) (t : TaskId)
    (ss : List Stage) (p : String) : Outcome → Prop where
  /-- The path was there. -/
  | found {l : Label} {k : Host} {later : List Label} (labels : rs = l :: later)
      (first : Step m l k) (done : k.tasks[t]? = some ⟨.resume (.ok .nothing), ss⟩) :
      Fetches u ls m rs t ss p (.ok .nothing)
  /-- It went on with what a download of the path had ended with. -/
  | loaded {v : TaskId} {b : Json} {r o : Outcome} {xs ys : List Label} {g : Host}
      (labels : rs = xs ++ ys) (steps : Steps m xs g)
      (returned : g.tasks[t]? = some ⟨.resume o, ss⟩) (ended : g.outcome? v = some o)
      (answered : .answered v (.download (Path.normalize p) b) r ∈ ls ++ rs)
      (ends : Downloads.Ends u.settings.root (ls ++ rs) (Path.normalize p) r o) :
      Fetches u ls m rs t ss p o

/-- However fetches and all else follow one another: a fetch that has begun still waits for another
task, or it has come to an end, at the latest when nothing is left to be done. It succeeds because
the path was there, or it ends as the download of the path did that it waited for: that one was
refused, or it brought files and succeeded, or it brought files and the remote raised a failure
other than absence for metadata that was fetched on account of the path. So whatever else the remote
does for metadata, a fetch whose files came succeeds. -/
theorem fetch_ends (hm : u.Runs ls m) (turn : m.turn = some t)
    (cue : m.cue? t = some (.begin (.fetch p a), ss)) (hk : Steps m rs h) :
    (rs ≠ [] → (∃ v, h.Relays t v ss) ∨ ∃ o, Fetches u ls m rs t ss p o) ∧
      (h.Rests → ∃ o, Fetches u ls m rs t ss p o) := by
  have goes (some : rs ≠ []) : (∃ v, h.Relays t v ss) ∨ ∃ o, Fetches u ls m rs t ss p o := by
    cases hk with
    | refl => exact (some rfl).elim
    | @cons _ k _ l rs first rest =>
      have all : ∀ l' ∈ ls, l' ∈ ls ++ l :: rs := fun _ hl => List.mem_append_left _ hl
      have later : ∀ l' ∈ rs, l' ∈ ls ++ l :: rs := fun _ hl =>
        List.mem_append_right _ (List.mem_cons_of_mem _ hl)
      obtain done | ⟨v, b, roots, hd, job, st, f, passes, task, heeds⟩ :=
        first.fetch_begun (loading_of_runs hm all) hm (by simp) turn cue
      · exact .inr ⟨_, .found rfl first done⟩
      · obtain ⟨f, stays, still⟩ | ⟨xs, ys, g, o, labels, hg, returned, before, ended⟩ :=
          Steps.heeds passes first rest ⟨f, task, heeds⟩
        · exact .inl ⟨v, st, f, passes, stays, still⟩
        · obtain ⟨js, after⟩ := hd.steps (hm.snoc first) rest later
          obtain ⟨r, answered, ends⟩ := after.ends (getElem?_grow job js) ended
          exact .inr ⟨o, .loaded labels hg returned before answered ends⟩
  refine ⟨goes, fun rests => ?_⟩
  have some : rs ≠ [] := by
    rintro rfl
    cases hk
    cases rests.idle.turn.symm.trans turn
  refine (goes some).resolve_left ?_
  rintro ⟨v, relays⟩
  obtain ⟨st, f, -, hf, -⟩ := id relays
  obtain ⟨o, ended⟩ := rests.ended (hm.trans hk) (List.getElem?_eq_some_iff.1 hf).1
  cases relays.unended.symm.trans ended

end Host

/-- A remote that has a package and loses the connection upon everything else. -/
def Query.faltering : Query → Option Outcome
  | .download "/n/p" _ => some (.ok (.files (.ofList [("/n/p/a.js", [])])))
  | .download .. => some (.error (Fault.connection "lost"))
  | _ => none

theorem World.faltering_admits : (World.steady Query.faltering).Admits := by
  refine steady_admits fun q o h => ?_
  unfold Query.faltering at h
  split at h <;> cases h <;> exact trivial

/-- A host that begins to fetch the package, and what becomes of it. -/
def Setup.unpacking : Host :=
  ((Setup.bare.host.start [.fetch "/n/p" .null]).run (.steady Query.faltering) 1 ()).1

def Setup.unpacked : Host := (unpacking.run (.steady Query.faltering) 30 ()).1

theorem Setup.runs_unpacking :
    Setup.bare.Runs (Setup.bare.labels (.steady Query.faltering) [.fetch "/n/p" .null] 1 ())
      unpacking :=
  Setup.bare.runs_run World.faltering_admits [.fetch "/n/p" .null] 1 ()

theorem Setup.steps_unpacked :
    Host.Steps unpacking (Host.labels (.steady Query.faltering) 30 unpacking ()) unpacked :=
  Host.steps_run World.faltering_admits 30 unpacking ()

/-- A fetch whose files come and whose metadata does not. -/
theorem fetch_ends_faltering :
    ∃ ls m rs h, Setup.bare.Runs ls m ∧ m.turn = some 0 ∧
      m.cue? 0 = some (.begin (.fetch "/n/p" .null), []) ∧ Host.Steps m rs h ∧ h.Rests ∧
        ∃ o, Host.Fetches Setup.bare ls m rs 0 [] "/n/p" o := by
  have turn : Setup.unpacking.turn = some 0 := by decide +kernel
  have cue : Setup.unpacking.cue? 0 = some (.begin (.fetch "/n/p" .null), []) :=
    Host.cue?_eq_begin.2 rfl
  have rests : Setup.unpacked.Rests := Host.Idle.rests (by decide +kernel)
  exact ⟨_, _, _, _, Setup.runs_unpacking, turn, cue, Setup.steps_unpacked, rests,
    (Host.fetch_ends Setup.runs_unpacking turn cue Setup.steps_unpacked).2 rests⟩

/-- A fetch can fail although its files have come. -/
theorem fetch_can_leak :
    ∃ ls h, Setup.bare.Runs (.started [.fetch "/n/p" .null] :: ls) h ∧ (∀ l ∈ ls, l.Internal) ∧
      h.Rests ∧ ls.any (Host.Label.brings "/n/p") = true ∧
        (h.outcome? 0).any Outcome.isFailure = true := by
  have run : Setup.bare.Runs _ _ :=
    Setup.bare.runs_run World.faltering_admits [.fetch "/n/p" .null] 40 ()
  refine ⟨_, _, run, Host.internal_labels _ _ _ _, Host.Idle.rests ?_, ?_, ?_⟩ <;> decide +kernel

end PluginHost
