import PluginHost.Proofs.Host.Replay
import PluginHost.Proofs.Path.Normal
import PluginHost.Proofs.Store.Filling

/-!
What is remembered as fetched is in the store, if every download brings something for its path. A
reset empties the store alone. The downloads still remember the paths of an earlier generation, and
may add to them, until they find out that theirs is not the generation of the store any more.
-/
namespace PluginHost

variable {isExtension : String → Prop}

/-- A file serves a path if it lies there, there with an extension, or below. -/
def Path.Serves (isExtension : String → Prop) (path file : String) : Prop :=
  file = path ∨ (∃ e, isExtension e ∧ file = path ++ e) ∨ ∃ rest, file = path ++ "/" ++ rest

namespace Store

variable {s t : Store} {path : String}

theorem contains_eq (s : Store) (path : String) :
    s.contains path = (s.writable.contains path || s.remote.contains path) := by
  simp [contains, read?, Layer.contains]

theorem contains_write (p : String) (x : Content) (hs : s.contains path = true) :
    (s.write p x).contains path = true := by
  rw [contains, read?_write]
  split
  · rfl
  · exact hs

theorem contains_placeAll {fs : Files} :
    (s.placeAll fs).contains path = true ↔
      s.contains path = true ∨ ∃ f ∈ fs.entries, Path.normalize f.1 = Path.normalize path := by
  rw [contains_eq, contains_eq, Bool.or_eq_true, Bool.or_eq_true, placeAll,
    Layer.contains_writeAll, or_assoc]

theorem contains_place (p : String) (x : Content) (hs : s.contains path = true) :
    (s.place p x).contains path = true := by
  rw [contains_eq, Bool.or_eq_true] at hs ⊢
  apply hs.imp_right
  intro remote
  rw [Layer.contains, place, Layer.read?_write]
  split
  · rfl
  · exact remote

/-- Whether the store has a file that serves a path. -/
def Backs (isExtension : String → Prop) (s : Store) (path : String) : Prop :=
  ∃ file, s.contains file = true ∧ Path.Serves isExtension path (Path.normalize file)

end Store

/-- If the downloads are up to date with the store, all that they remember is there. -/
structure Workspace.Backed (isExtension : String → Prop) (c : Workspace) : Prop where
  generation : c.downloads.generation ≤ c.store.generation
  held : c.downloads.generation = c.store.generation →
    ∀ p ∈ c.downloads.fetched, c.store.Backs isExtension p

namespace Workspace.Backed

variable {c d : Workspace} {p : String}

/-- A store that keeps what it has goes on serving what is remembered. -/
theorem mono (hc : c.Backed isExtension) (fetched : d.downloads.fetched = c.downloads.fetched)
    (synced : d.downloads.generation = c.downloads.generation)
    (generation : d.store.generation = c.store.generation)
    (keeps : ∀ q, c.store.contains q = true → d.store.contains q = true) :
    d.Backed isExtension := by
  constructor
  · rw [synced, generation]
    exact hc.generation
  · intro same p hp
    rw [synced, generation] at same
    rw [fetched] at hp
    obtain ⟨file, there, serves⟩ := hc.held same p hp
    exact ⟨file, keeps file there, serves⟩

theorem beside (hc : c.Backed isExtension) (hd : c.Beside d) : d.Backed isExtension :=
  hc.mono (by rw [hd.downloads]) (by rw [hd.downloads]) (by rw [hd.store]) fun _ hq => hd.store ▸ hq

theorem sync (hc : c.Backed isExtension) :
    ({ c with downloads := c.downloads.sync c.store } : Workspace).Backed isExtension := by
  unfold Downloads.sync
  split
  · exact hc
  · exact ⟨Nat.le_refl _, fun _ p hp => by cases hp⟩

theorem record (hc : c.Backed isExtension) (hp : c.store.Backs isExtension p) :
    ({ c with downloads := c.downloads.record p } : Workspace).Backed isExtension := by
  unfold Downloads.record
  split
  · exact hc
  · exact ⟨hc.generation, fun same => List.forall_mem_cons.2 ⟨hp, hc.held same⟩⟩

end Workspace.Backed

namespace Host

variable {h k : Host} {l : Label} {ls : List Label} {d : Workspace} {u : Setup}

/-- A step keeps the store and the downloads in line if the files that were brought for a path serve
it. -/
theorem Tends.backed (ht : h.Tends l d) (hb : h.workspace.Backed isExtension)
    (serves : ∀ t p a fs ss, h.cue? t = some (.told (.downloaded p a) (.ok (.files fs)), ss) →
      ∃ f ∈ fs.entries, Path.Serves isExtension p (Path.normalize f.1)) :
    d.Backed isExtension := by
  cases ht with
  | aside beside => exact hb.beside beside
  | @move t q ss d m turn cue next handles =>
    cases handles with
    | aside beside => exact hb.beside beside
    | waits => exact hb
    | opens => exact hb.mono rfl rfl rfl fun q hq => hq
    | abandons => exact hb.mono rfl rfl rfl fun q hq => hq
    | copies => exact hb.mono rfl rfl rfl fun q hq => Store.contains_placeAll.2 (.inl hq)
    | remembers => exact hb.sync
    | finds there => exact hb.sync.record ⟨_, there, .inl (Path.normalize_normalize _)⟩
    | joins => exact hb.sync
    | loads => exact hb.sync.mono rfl rfl rfl fun q hq => hq
    | settles => exact hb.mono rfl rfl rfl fun q hq => hq
    | @places p a fs _ goes =>
      obtain ⟨f, hf, hs⟩ := serves t p a fs ss cue
      have placed : ({ h.workspace with
          store := h.workspace.store.placeAll fs
          downloads := h.workspace.downloads.counted } : Workspace).Backed isExtension :=
        hb.mono rfl rfl rfl fun q hq => Store.contains_placeAll.2 (.inl hq)
      exact placed.record ⟨f.1, Store.contains_placeAll.2 (.inr ⟨f, hf, rfl⟩), hs⟩
  | write => exact hb.mono rfl rfl rfl fun q hq => Store.contains_write _ _ hq
  | place => exact hb.mono rfl rfl rfl fun q hq => Store.contains_place _ _ hq
  | empty empties store downloads =>
    have generation : d.store.generation = h.workspace.store.generation + 1 := by rw [store]; rfl
    have before := hb.generation
    rw [← downloads] at before
    -- The downloads are behind the store from now on.
    constructor
    · omega
    · intro same
      omega

/-- The store has something for every path that counts as fetched, whatever was reset and written
meanwhile, if every download that succeeded brought something for its path. -/
theorem fetched_backed (hr : u.Runs ls h)
    (serves : ∀ t p a fs, .answered t (.download p a) (.ok (.files fs)) ∈ ls →
      ∃ f ∈ fs.entries, Path.Serves isExtension p (Path.normalize f.1))
    {path : String} (fetched : (h.workspace.isFetched path).1 = true) :
    ∃ file, h.workspace.store.contains file = true ∧
      Path.Serves isExtension (Path.normalize path) (Path.normalize file) := by
  have backed : h.workspace.Backed isExtension := by
    revert serves
    refine Steps.forward (P := fun ls h => (∀ t p a fs,
      .answered t (.download p a) (.ok (.files fs)) ∈ ls →
        ∃ f ∈ fs.entries, Path.Serves isExtension p (Path.normalize f.1)) →
          h.workspace.Backed isExtension) ?_ ?_ hr
    · exact fun _ => ⟨Nat.le_refl _, fun _ p hp => by cases hp⟩
    · intro ls k m l hk ih hs serves
      apply hs.tends.backed (ih fun t p a fs member => serves t p a fs (by simp [member]))
      intro t p a fs ss cue
      -- What the task was told is the last label of the run, so the assumption is about it.
      obtain ⟨before, q, rfl, brings, -⟩ := hk.answered .refl rfl (cue?_eq_told.1 cue) rfl
      cases q with
      | download q b =>
        cases brings
        exact serves t p b fs (by simp)
      | projectFiles b => cases brings
      | transform code config registry => cases brings
  have recorded : Path.normalize path ∈
      (h.workspace.downloads.sync h.workspace.store).fetched := by
    simpa [Workspace.isFetched] using fetched
  exact backed.sync.held (Downloads.generation_sync ..) _ recorded

end Host

theorem Query.package_serves {p : String} {a : Json} {fs : Files}
    (hq : package (.download p a) = some (.ok (.files fs))) :
    ∃ f ∈ fs.entries, Path.Serves (· = ".json") p (Path.normalize f.1) := by
  unfold package at hq
  split at hq
  · rename_i path _ hp
    cases hp
    cases hq
    exact ⟨_, List.mem_singleton.2 rfl, .inr (.inr ⟨"index.json", by decide +kernel⟩)⟩
  · rename_i path _ hp
    cases hp
    cases hq
    exact ⟨_, List.mem_singleton.2 rfl, .inl (by decide +kernel)⟩
  · cases hq
  · cases hq

/-- A package that is fetched, dropped by a reset and fetched again. -/
theorem fetched_backed_again :
    ∃ ls h, Setup.bare.Runs ls h ∧ .changed .resetStore ∈ ls ∧
      (∀ t p a fs, .answered t (.download p a) (.ok (.files fs)) ∈ ls →
        ∃ f ∈ fs.entries, Path.Serves (· = ".json") p (Path.normalize f.1)) ∧
      (h.workspace.isFetched "/n/p").1 = true ∧
      ∃ file, h.workspace.store.contains file = true ∧
        Path.Serves (· = ".json") (Path.normalize "/n/p") (Path.normalize file) := by
  let js : List Job := [.fetch "/n/p" .null]
  let h : Host := ((Setup.bare.host.start js).run (.steady Query.package) 40 ()).1
  have first : Setup.bare.Runs (Setup.bare.labels (.steady Query.package) js 40 ()) h :=
    Setup.bare.runs_run World.package_admits js 40 ()
  have idle : h.turn = none := by decide +kernel
  have hr := first.resume idle .resetStore js World.package_admits 40 ()
  have fetched : ((((h.changed .resetStore).start js).run (.steady Query.package) 40
      ()).1.workspace.isFetched "/n/p").1 = true := by decide +kernel
  have serves (t : TaskId) (p : String) (a : Json) (fs : Files)
      (member : .answered t (.download p a) (.ok (.files fs)) ∈
        Setup.bare.labels (.steady Query.package) js 40 () ++ .changed .resetStore ::
          .started js ::
            Host.labels (.steady Query.package) 40 ((h.changed .resetStore).start js) ()) :
      ∃ f ∈ fs.entries, Path.Serves (· = ".json") p (Path.normalize f.1) := by
    apply Query.package_serves
    simp only [Setup.labels, List.mem_append, List.mem_cons, reduceCtorEq, false_or] at member
    exact member.elim World.answer_of_labels World.answer_of_labels
  exact ⟨_, _, hr, List.mem_append_right _ (List.mem_cons_self ..), serves, fetched,
    Host.fetched_backed hr serves fetched⟩

end PluginHost
