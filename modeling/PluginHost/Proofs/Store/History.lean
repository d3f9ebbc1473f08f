import Mathlib.Data.List.DropRight
import PluginHost.Proofs.Store.Filling

/-!
What a store holds after any history of operations. Each layer has what was put into it since the
store was last emptied, and of several files for one path the last one counts, however the path is
spelt. Every store that a host can reach has such a history.
-/
namespace PluginHost

/-- What is done to a store. -/
inductive Store.Operation where
  | write (path : String) (c : Content)
  | place (path : String) (c : Content)
  | copyProject (files : Files)
  | reset

namespace Store.Operation

/-- The files that an operation puts into the upper layer. -/
def written : Operation → List (String × Content)
  | .write path c => [(path, c)]
  | _ => []

/-- The files that an operation puts into the lower layer. -/
def placed : Operation → List (String × Content)
  | .place path c => [(path, c)]
  | .copyProject files => files.entries
  | _ => []

def empties : Operation → Bool
  | .reset => true
  | _ => false

end Store.Operation

namespace Layer

variable {l : Layer} {log : List (String × Content)}

theorem mem_paths_write {path q : String} {c : Content} :
    q ∈ (l.write path c).paths ↔ q ∈ l.paths ∨ Path.normalize path = q := by
  unfold write paths
  by_cases hp : Path.normalize path ∈ l.files.keys
  · rw [Table.keys_insert_of_mem hp]
    refine ⟨.inl, ?_⟩
    rintro (hq | rfl)
    · exact hq
    · exact hp
  · rw [Table.keys_insert_of_not_mem hp, List.mem_append, List.mem_singleton, eq_comm]

theorem mem_paths_writeEach {q : String} :
    q ∈ (l.writeEach log).paths ↔ q ∈ l.paths ∨ ∃ f ∈ log, Path.normalize f.1 = q := by
  induction log generalizing l with
  | nil => simp [writeEach]
  | cons f log ih =>
    calc q ∈ (l.writeEach (f :: log)).paths
        ↔ q ∈ (l.write f.1 f.2).paths ∨ ∃ g ∈ log, Path.normalize g.1 = q := ih
      _ ↔ q ∈ l.paths ∨ ∃ g ∈ f :: log, Path.normalize g.1 = q := by
        rw [mem_paths_write, or_assoc, List.exists_mem_cons_iff]

end Layer

namespace Store

variable {s t : Store} {path : String}

def after (s : Store) : Operation → Store
  | .write path c => s.write path c
  | .place path c => s.place path c
  | .copyProject files => s.copyProject files
  | .reset => s.reset

def afterAll (s : Store) (ops : List Operation) : Store := ops.foldl after s

/-- The operations since the store was last emptied. -/
def sinceReset (ops : List Operation) : List Operation := ops.rtakeWhile fun op => !op.empties

/-- What was written since the store was last emptied, in order. -/
def written (ops : List Operation) : List (String × Content) :=
  (sinceReset ops).flatMap Operation.written

/-- What was placed, or copied from the project, since the store was last emptied, in order. -/
def placed (ops : List Operation) : List (String × Content) :=
  (sinceReset ops).flatMap Operation.placed

theorem afterAll_append (s : Store) (ops more : List Operation) :
    s.afterAll (ops ++ more) = (s.afterAll ops).afterAll more :=
  List.foldl_append

/-- A layer has what every single operation puts into it, if a reset leaves nothing there. -/
theorem layer_afterAll (layer : Store → Layer) {put : Operation → List (String × Content)}
    (reset : ∀ s : Store, layer s.reset = .empty)
    (kept : ∀ (s : Store) (op : Operation), op.empties = false →
      layer (s.after op) = (layer s).writeEach (put op))
    (s : Store) (ops : List Operation) :
    layer (s.afterAll ops) = (if ops.any Operation.empties then .empty else layer s).writeEach
      ((sinceReset ops).flatMap put) := by
  induction ops using List.reverseRecOn with
  | nil => rfl
  | append_singleton ops op ih =>
    rw [afterAll_append, sinceReset, List.rtakeWhile_concat, List.any_append]
    cases he : op.empties with
    | true =>
      cases op with
      | reset =>
        have last : layer ((s.afterAll ops).afterAll [.reset]) = .empty := reset _
        rw [last]
        simp [Operation.empties, Layer.writeEach]
      | _ => cases he
    | false =>
      have last : layer ((s.afterAll ops).afterAll [op]) = _ := kept (s.afterAll ops) op he
      rw [last, ih]
      simp [Layer.writeEach, sinceReset, he]

theorem writable_afterAll (s : Store) (ops : List Operation) :
    (s.afterAll ops).writable =
      (if ops.any Operation.empties then .empty else s.writable).writeEach (written ops) := by
  refine layer_afterAll Store.writable (fun _ => rfl) (fun s op he => ?_) s ops
  cases op with
  | reset => cases he
  | _ => rfl

theorem remote_afterAll (s : Store) (ops : List Operation) :
    (s.afterAll ops).remote =
      (if ops.any Operation.empties then .empty else s.remote).writeEach (placed ops) := by
  refine layer_afterAll Store.remote (fun _ => rfl) (fun s op he => ?_) s ops
  cases op with
  | reset => cases he
  | _ => rfl

theorem contains_iff_read : s.contains path = true ↔ ∃ c, s.read path = .ok c := by
  unfold contains read
  cases s.read? path <;> simp

/-- However a store was written to, filled and emptied: a path, in any spelling, reads as what was
last written to it since the last reset, or else as what was last placed or copied there since then,
and a path of neither kind is missed under its normal form. It is there exactly if it can be read,
and the lower layer lists the normal form of each path that was placed or copied once. -/
theorem read_afterAll (project : Bool) (ops : List Operation) (path : String) :
    let s := ({ hasProject := project } : Store).afterAll ops
    s.read path =
        (match (Layer.last? path (written ops)).or (Layer.last? path (placed ops)) with
          | some c => .ok c
          | none => .error (Fault.storeMiss (Path.normalize path))) ∧
      (s.contains path = true ↔ ∃ c, s.read path = .ok c) ∧
      s.remotePaths.Nodup ∧
      ∀ q, q ∈ s.remotePaths ↔ ∃ f ∈ placed ops, Path.normalize f.1 = q := by
  intro s
  have writable : s.writable = Layer.empty.writeEach (written ops) := by
    simpa using writable_afterAll { hasProject := project } ops
  have remote : s.remote = Layer.empty.writeEach (placed ops) := by
    simpa using remote_afterAll { hasProject := project } ops
  have reads : s.read? path =
      (Layer.last? path (written ops)).or (Layer.last? path (placed ops)) := by
    rw [read?, writable, remote, Layer.read?_writeEach, Layer.read?_writeEach, Layer.read?_empty,
      Option.or_none, Option.or_none]
  refine ⟨?_, contains_iff_read, s.remote.files.nodup_keys, fun q => ?_⟩
  · cases found : (Layer.last? path (written ops)).or (Layer.last? path (placed ops)) <;>
      simp only [read, reads, found]
  · rw [remotePaths, remote, Layer.mem_paths_writeEach]
    simp [Layer.paths, Layer.empty, Table.keys, Table.empty]

/-- Stores with the same files in both layers. -/
structure Matches (s t : Store) : Prop where
  writable : t.writable = s.writable
  remote : t.remote = s.remote

namespace Matches

theorem refl (s : Store) : s.Matches s := ⟨rfl, rfl⟩

theorem trans {r : Store} (hr : r.Matches s) (hs : s.Matches t) : r.Matches t :=
  ⟨hs.writable.trans hr.writable, hs.remote.trans hr.remote⟩

theorem afterAll (hs : s.Matches t) (ops : List Operation) :
    (s.afterAll ops).Matches (t.afterAll ops) := by
  constructor
  · rw [writable_afterAll, writable_afterAll, hs.writable]
  · rw [remote_afterAll, remote_afterAll, hs.remote]

theorem read? (hs : s.Matches t) (path : String) : t.read? path = s.read? path := by
  rw [Store.read?, Store.read?, hs.writable, hs.remote]

end Matches

theorem afterAll_place (s : Store) (fs : List (String × Content)) :
    s.afterAll (fs.map fun f => .place f.1 f.2) = { s with remote := s.remote.writeEach fs } := by
  induction fs generalizing s with
  | nil => rfl
  | cons f fs ih => exact ih (s.place f.1 f.2)

end Store

/-- What is put into the store upon the answer to an errand. -/
def Errand.puts : Errand → Outcome → List Store.Operation
  | .copy, .ok (.files fs) => [.copyProject fs]
  | .load _, .ok (.files fs) => fs.entries.map fun f => .place f.1 f.2
  | _, _ => []

/-- What a task puts into the store upon a cue. -/
def Cue.puts : Cue → List Store.Operation
  | .begin _ => []
  | .told st o => st.errand?.elim [] (·.puts o)

def Change.operations : Change → List Store.Operation
  | .write path c => [.write path c]
  | .place path c => [.place path c]
  | .resetStore | .reset true => [.reset]
  | _ => []

theorem Cue.Handles.matches {q : Cue} {c : Workspace} {fresh : TaskId} {r : Workspace × Move}
    (hr : q.Handles fresh c r) (puts : q.puts = []) : c.store.Matches r.1.store := by
  cases hr with
  | aside beside => exact beside.store ▸ .refl c.store
  | copies => cases puts
  | @places p a fs =>
    refine ⟨rfl, ?_⟩
    have empty : fs.entries = [] := List.map_eq_nil_iff.1 puts
    rw [Work.placed, Store.placeAll, Layer.writeAll, empty]
    rfl
  | _ => exact ⟨rfl, rfl⟩

/-- Besides what it was told, a move puts nothing into the store. -/
theorem Cue.matches_move (q : Cue) (fresh : TaskId) (c : Workspace) :
    (c.store.afterAll q.puts).Matches (q.move fresh c).1.store := by
  by_cases puts : q.puts = []
  · rw [puts]
    exact (q.handles fresh c).matches puts
  cases q with
  | begin j => exact (puts rfl).elim
  | told st o =>
    cases o with
    | error f => cases st <;> exact (puts rfl).elim
    | ok r =>
      cases r with
      | files fs =>
        cases st with
        | projectCopied => exact ⟨rfl, rfl⟩
        | downloaded p a =>
          rw [show ((Cue.told (.downloaded p a) (.ok (.files fs))).move fresh c).1 = _ from
            (Work.downloaded_files p a fs c).1]
          exact Store.afterAll_place c.store fs.entries ▸ ⟨rfl, rfl⟩
        | _ => exact (puts rfl).elim
      | _ => cases st <;> exact (puts rfl).elim

theorem Workspace.matches_after (c : Workspace) (change : Change) :
    (c.store.afterAll change.operations).Matches (c.after change).store := by
  cases change with
  | activate fp => exact (c.beside_activate fp).store ▸ .refl c.store
  | reset includeStore => cases includeStore <;> exact ⟨rfl, rfl⟩
  | _ => exact ⟨rfl, rfl⟩

namespace Host

variable {u : Setup} {h k m : Host} {l : Label} {ls rs : List Label} {t : TaskId}

/-- What the task with the turn has been told and is about to put into the store. -/
def owes (h : Host) : List Store.Operation :=
  match h.turn.bind h.cue? with
  | some (q, _) => q.puts
  | none => []

theorem owes_of_rest (rests : ∀ t, h.turn = some t → h.cue? t = none) : h.owes = [] := by
  unfold owes
  cases turn : h.turn with
  | none => rfl
  | some t => simp [rests t turn]

theorem owes_of_cue {q : Cue} {ss : List Stage} (turn : h.turn = some t)
    (cue : h.cue? t = some (q, ss)) : h.owes = q.puts := by
  simp [owes, turn, cue]

/-- What callers do to the store. -/
def Label.does : Label → List Store.Operation
  | .changed c => c.operations
  | _ => []

/-- What a collaborator's answer makes a task put into the store. -/
def Label.delivers : Label → List Store.Operation
  | .answered _ q o => q.errand?.elim [] (·.puts o)
  | _ => []

/-- What is done to the store on account of some labels. -/
def operations (ls : List Label) : List Store.Operation := ls.flatMap fun l => l.does ++ l.delivers

/-- A step does what callers do and puts what the task with the turn owes. -/
theorem Step.matches (hs : Step h l k) :
    (h.workspace.store.afterAll (h.owes ++ l.does)).Matches k.workspace.store := by
  have same (rests : ∀ t, h.turn = some t → h.cue? t = none) (does : l.does = [])
      (workspace : k.workspace = h.workspace) :
      (h.workspace.store.afterAll (h.owes ++ l.does)).Matches k.workspace.store := by
    rw [owes_of_rest rests, does, workspace]
    exact .refl _
  cases hs.effect with
  | quiet still silent workspace =>
    refine same still ?_ workspace
    cases l with
    | changed c => exact silent.elim
    | _ => rfl
  | @move t q ss k turn cue workspace =>
    have does : ((h.next q).2.label t).does = [] := by cases (h.next q).2 <;> rfl
    rw [owes_of_cue turn cue, does, List.append_nil, workspace]
    exact q.matches_move _ _
  | @announce t o k turn ended workspace =>
    exact same (still_of_turn turn (cue?_eq_none_of_ended ended)) rfl workspace
  | @answer t q o ss k turn asked admits workspace =>
    exact same (still_of_turn turn (cue?_eq_none_of_query? (query?_eq asked))) rfl workspace
  | start idle workspace => exact same (still_of_idle idle) rfl workspace
  | change idle workspace =>
    rw [owes_of_rest (still_of_idle idle), workspace]
    exact h.workspace.matches_after _

/-- A task owes what it was told by the last step. -/
theorem Step.owes (hr : u.Runs ls h) (hs : Step h l k) : k.owes = l.delivers := by
  have untold (apart : ∀ t q o e, l = .answered t q o → q.errand? ≠ some e) : k.owes = [] := by
    unfold Host.owes
    split
    · rename_i q ss hq
      obtain ⟨t, turn, cue⟩ := Option.bind_eq_some_iff.1 hq
      cases q with
      | begin j => rfl
      | told st o =>
        cases he : st.errand? with
        | none => simp [Cue.puts, he]
        | some e =>
          obtain ⟨q, label, query, -⟩ :=
            (prompt_of_runs hr).answered hr hs (cue?_eq_told.1 cue) he
          exact (apart t q o e label query).elim
    · rfl
  cases l with
  | answered t q o =>
    obtain ⟨roots, hf⟩ := fits_of_runs hr
    cases he : q.errand? with
    | none =>
      simp only [Label.delivers, he]
      refine untold fun t' q' o' e label query => ?_
      cases label
      cases he.symm.trans query
    | some e =>
      have turn := hs.turn_answered
      cases hs with
      | answer own asked admits =>
        obtain ⟨ss, ht⟩ := tasks_of_query? asked
        obtain ⟨v, hv, pursues⟩ := hf.pursues_of_asking ht he
        obtain rfl := Option.some.inj (ht.symm.trans hv)
        cases pursues with
        | @asking st q stage =>
          have told : (h.answer t o).tasks[t]? = some ⟨.resume o, [st]⟩ := by
            rw [Host.answer, ht]
            exact List.getElem?_set_self (List.getElem?_eq_some_iff.1 ht).1
          rw [owes_of_cue turn (cue?_eq_told.2 told)]
          simp only [Cue.puts, Label.delivers, stage, he]
  | _ => exact untold (by simp)

/-- The store after a run is the one before it after everything that was done on account of the
labels, and what has been told and not yet put there is still to come. -/
theorem Steps.matches (hm : u.Runs ls m) (hk : Steps m rs h) :
    ∃ done, done ++ h.owes = m.owes ++ operations rs ∧
      (m.workspace.store.afterAll done).Matches h.workspace.store := by
  refine Steps.forward (P := fun rs h => ∃ done, done ++ h.owes = m.owes ++ operations rs ∧
    (m.workspace.store.afterAll done).Matches h.workspace.store) ?_ ?_ hk
  · exact ⟨[], by simp [operations], .refl _⟩
  · rintro rs g k l hg ⟨done, told, same⟩ hs
    refine ⟨done ++ (g.owes ++ l.does), ?_, ?_⟩
    · rw [hs.owes (hm.trans hg), operations, List.flatMap_append, ← List.append_assoc m.owes]
      rw [operations] at told
      rw [← told]
      simp
    · rw [Store.afterAll_append]
      exact (same.afterAll _).trans hs.matches

end Host

end PluginHost
