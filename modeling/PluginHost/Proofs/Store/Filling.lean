import PluginHost.Proofs.Host.Errands

/-!
What steps do to the store and to the downloads. A file that turns up in the lower layer was placed
there by a caller, or a collaborator answered with it.
-/
namespace PluginHost

namespace Layer

variable {l : Layer} {fs : Files} {path : String} {c : Content}

/-- A layer into which files were put one after another. -/
def writeEach (l : Layer) (log : List (String × Content)) : Layer :=
  log.foldl (fun l f => l.write f.1 f.2) l

/-- The last of some files that is for a path. -/
def last? (path : String) (log : List (String × Content)) : Option Content :=
  (log.reverse.find? fun f => Path.normalize f.1 = Path.normalize path).map Prod.snd

theorem read?_writeEach (l : Layer) (log : List (String × Content)) (path : String) :
    (l.writeEach log).read? path = (last? path log).or (l.read? path) := by
  unfold writeEach last?
  induction log generalizing l with
  | nil => rfl
  | cons e es ih =>
    rw [List.foldl_cons, ih, read?_write, List.reverse_cons, List.find?_append]
    by_cases he : Path.normalize e.1 = Path.normalize path
    · cases List.find? _ es.reverse <;> simp [he]
    · cases List.find? _ es.reverse <;> simp [he]

/-- Of several files for one path the last one counts. -/
theorem read?_writeAll (l : Layer) (fs : Files) (path : String) :
    (l.writeAll fs).read? path = (last? path fs.entries).or (l.read? path) :=
  l.read?_writeEach fs.entries path

theorem mem_of_last? {log : List (String × Content)} (hc : last? path log = some c) :
    ∃ f ∈ log, Path.normalize f.1 = Path.normalize path ∧ f.2 = c := by
  obtain ⟨f, hf, rfl⟩ := Option.map_eq_some_iff.1 hc
  have same := List.find?_some hf
  exact ⟨f, List.mem_reverse.1 (List.mem_of_find?_eq_some hf), by simpa using same, rfl⟩

theorem mem_of_read?_writeAll (hc : (l.writeAll fs).read? path = some c) :
    l.read? path = some c ∨
      ∃ f ∈ fs.entries, Path.normalize f.1 = Path.normalize path ∧ f.2 = c := by
  rw [read?_writeAll, Option.or_eq_some_iff] at hc
  obtain new | ⟨-, old⟩ := hc
  · exact .inr (mem_of_last? new)
  · exact .inl old

theorem contains_writeAll :
    (l.writeAll fs).contains path = true ↔
      l.contains path = true ∨ ∃ f ∈ fs.entries, Path.normalize f.1 = Path.normalize path := by
  simp [contains, read?_writeAll, last?, or_comm]

end Layer

@[simp] theorem Downloads.generation_sync (d : Downloads) (s : Store) :
    (d.sync s).generation = s.generation := by
  unfold sync
  split
  · assumption
  · rfl

/-- Whether a change empties the store. -/
def Change.empties : Change → Bool
  | .resetStore => true
  | .reset includeStore => includeStore
  | _ => false

/-- Whether a step empties the store. -/
def Host.Label.empties : Host.Label → Bool
  | .changed c => c.empties
  | _ => false

theorem Host.Label.Internal.spares {l : Host.Label} (hl : l.Internal) : l.empties = false := by
  cases l with
  | changed c => exact hl.elim
  | _ => rfl

theorem Move.empties_label (m : Move) (t : TaskId) : (m.label t).empties = false := by
  cases m <;> rfl

namespace Host

variable {h k m : Host} {l : Label} {ls rs : List Label} {d : Workspace} {t : TaskId} {u : Setup}

/-- What a step does to the store and to the downloads. -/
inductive Tends (h : Host) : Label → Workspace → Prop where
  | aside {l : Label} {d : Workspace} (beside : h.workspace.Beside d) (spares : l.empties = false) :
      Tends h l d
  | move {t : TaskId} {q : Cue} {ss : List Stage} {d : Workspace} {m : Move}
      (turn : h.turn = some t) (cue : h.cue? t = some (q, ss)) (next : h.next q = (d, m))
      (handles : q.Handles h.tasks.length h.workspace (d, m)) : Tends h (m.label t) d
  | write {p : String} {x : Content} :
      Tends h (.changed (.write p x)) { h.workspace with store := h.workspace.store.write p x }
  | place {p : String} {x : Content} :
      Tends h (.changed (.place p x)) { h.workspace with store := h.workspace.store.place p x }
  | empty {l : Label} {d : Workspace} (empties : l.empties = true)
      (store : d.store = h.workspace.store.reset)
      (downloads : d.downloads = h.workspace.downloads) : Tends h l d

theorem tends_change (h : Host) (c : Change) : h.Tends (.changed c) (h.workspace.after c) := by
  cases c with
  | write p x => exact .write
  | place p x => exact .place
  | resetStore => exact .empty rfl rfl rfl
  | reset includeStore =>
    cases includeStore with
    | true => exact .empty rfl rfl rfl
    | false => exact .aside ⟨rfl, rfl⟩ rfl
  | activate fp => exact .aside (h.workspace.beside_activate fp) rfl
  | _ => exact .aside ⟨rfl, rfl⟩ rfl

theorem Step.tends (hs : Step h l k) : h.Tends l k.workspace := by
  cases hs.effect with
  | quiet still silent workspace =>
    refine .aside (workspace ▸ .refl _) ?_
    cases l with
    | changed c => exact silent.elim
    | _ => rfl
  | @move t q ss k turn cue workspace =>
    rw [workspace]
    exact .move turn cue rfl (q.handles _ _)
  | announce turn ended workspace => exact .aside (workspace ▸ .refl _) rfl
  | answer turn asked admits workspace => exact .aside (workspace ▸ .refl _) rfl
  | start idle workspace => exact .aside (workspace ▸ .refl _) rfl
  | change idle workspace => exact workspace ▸ h.tends_change _

/-- Callers empty the store between turns. -/
theorem Step.emptied (hs : Step h l k) (he : l.empties = true) :
    h.turn = none ∧ k.workspace.store = h.workspace.store.reset ∧ k.tasks = h.tasks ∧
      k.turn = none := by
  have store : k.workspace.store = h.workspace.store.reset := by
    have tends := hs.tends
    generalize k.workspace = d at tends
    cases tends with
    | aside beside spares => cases spares.symm.trans he
    | move => cases (Move.empties_label _ _).symm.trans he
    | write => cases he
    | place => cases he
    | empty empties store => exact store
  cases hs with
  | change idle => exact ⟨idle, store, rfl, idle⟩
  | _ => cases he

/-- A file of the lower layer was there before a step, or a caller places it, or it is among those
that the task with the turn was told. -/
theorem Tends.remote {path : String} {x : Content} (ht : h.Tends l d)
    (hx : d.store.remote.read? path = some x) :
    h.workspace.store.remote.read? path = some x ∨
      (∃ p, l = .changed (.place p x) ∧ Path.normalize p = Path.normalize path) ∨
      ∃ t st ss fs e, st.errand? = some e ∧
        h.cue? t = some (.told st (.ok (.files fs)), ss) ∧
        ∃ f ∈ fs.entries, Path.normalize f.1 = Path.normalize path ∧ f.2 = x := by
  cases ht with
  | aside beside => exact .inl (beside.store ▸ hx)
  | move turn cue next handles =>
    cases handles with
    | aside beside => exact .inl (beside.store ▸ hx)
    | copies =>
      rcases Layer.mem_of_read?_writeAll hx with old | new
      · exact .inl old
      · exact .inr (.inr ⟨_, _, _, _, _, rfl, cue, new⟩)
    | places =>
      rcases Layer.mem_of_read?_writeAll hx with old | new
      · exact .inl old
      · exact .inr (.inr ⟨_, _, _, _, _, rfl, cue, new⟩)
    | _ => exact .inl hx
  | write => exact .inl hx
  | @place p y =>
    rw [show (h.workspace.store.place p y).remote.read? path = _ from Layer.read?_write ..] at hx
    split at hx
    · cases hx
      exact .inr (.inl ⟨p, rfl, by assumption⟩)
    · exact .inl hx
  | empty empties store =>
    rw [store] at hx
    cases hx

/-- Where a file of the lower layer comes from that turned up during a run. -/
inductive Supplied (k : Host) (rs : List Label) (path : String) (x : Content) : Prop where
  /-- A caller placed it. -/
  | given {p : String} (label : .changed (.place p x) ∈ rs)
      (same : Path.normalize p = Path.normalize path)
  /-- A collaborator answered with it. The question was put before, or waited when the run
  began. -/
  | brought {before after : List Label} {t : TaskId} {q : Query} {fs : Files}
      {f : String × Content} (labels : rs = before ++ .answered t q (.ok (.files fs)) :: after)
      (asked : .asked t q ∈ before ∨ k.query? t = some q) (file : f ∈ fs.entries)
      (same : Path.normalize f.1 = Path.normalize path) (content : f.2 = x)

theorem Supplied.append {path : String} {x : Content} (hs : k.Supplied rs path x)
    (more : List Label) : k.Supplied (rs ++ more) path x := by
  cases hs with
  | given label same => exact .given (List.mem_append_left _ label) same
  | @brought before after t q fs f labels asked file same content =>
    have longer : rs ++ more = before ++ .answered t q (.ok (.files fs)) :: (after ++ more) := by
      rw [labels, List.append_assoc, List.cons_append]
    exact .brought longer asked file same content

/-- Every file that turned up in the lower layer during a run that began between turns was placed
or brought during that run. -/
theorem Steps.supplied {path : String} {x : Content} (hr : u.Runs ls k) (idle : k.turn = none)
    (hk : Steps k rs h) (hx : h.workspace.store.remote.read? path = some x) :
    k.workspace.store.remote.read? path = some x ∨ k.Supplied rs path x := by
  revert hx
  refine Steps.forward (P := fun rs h => h.workspace.store.remote.read? path = some x →
    k.workspace.store.remote.read? path = some x ∨ k.Supplied rs path x) .inl ?_ hk
  intro rs g m l hg ih hs hx
  rcases hs.tends.remote hx with old | ⟨p, rfl, same⟩ | ⟨t, st, ss, fs, e, he, cue, f, hf, path, hc⟩
  · exact (ih old).imp_right fun supplied => supplied.append _
  · exact .inr (.given (by simp) same)
  · -- Files are told by the last step before they are written.
    obtain ⟨before, q, rfl, -, asked⟩ := hg.answered hr idle (cue?_eq_told.1 cue) he
    exact .inr (.brought (List.append_assoc ..) asked hf path hc)

end Host

end PluginHost
