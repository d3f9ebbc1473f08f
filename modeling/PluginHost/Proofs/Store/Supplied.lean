import PluginHost.Proofs.Store.History
import PluginHost.Store.Supplied

/-!
What becomes of the layers over which a store was made. A layer that held files then is part of the
store and follows its operations; one that held none stays empty, whatever is written to the store.
-/
namespace PluginHost

/-- A layer after some operations of which each puts certain files into it. -/
def Layer.updated (l : Layer) (put : List Store.Operation → List (String × Content))
    (ops : List Store.Operation) : Layer :=
  (if ops.any Store.Operation.empties then .empty else l).writeEach (put ops)

theorem Layer.eq_empty_of_isEmpty {l : Layer} (none : l.isEmpty = true) : l = .empty := by
  obtain ⟨⟨es, distinct⟩⟩ := l
  obtain rfl : es = [] := List.isEmpty_iff.1 none
  rfl

/-- An empty layer stays so exactly if nothing is put into it. -/
theorem Layer.updated_eq_self_iff {l : Layer} (none : l.isEmpty = true)
    {put : List Store.Operation → List (String × Content)} {ops : List Store.Operation} :
    l.updated put ops = l ↔ put ops = [] := by
  have start : (if ops.any Store.Operation.empties then .empty else l) = Layer.empty := by
    rw [eq_empty_of_isEmpty none, ite_self]
  rw [updated, start, eq_empty_of_isEmpty none]
  constructor
  · intro same
    rw [List.eq_nil_iff_forall_not_mem]
    intro f hf
    have listed : Path.normalize f.1 ∈ (Layer.empty.writeEach (put ops)).paths :=
      mem_paths_writeEach.2 (.inr ⟨f, hf, rfl⟩)
    rw [same] at listed
    cases listed
  · intro nothing
    rw [nothing]
    rfl

namespace SuppliedStore

/-- An operation on a store reaches the layers over which it was made through the store only. -/
def after (s : SuppliedStore) (op : Store.Operation) : SuppliedStore :=
  { s with store := s.store.after op }

def afterAll (s : SuppliedStore) (ops : List Store.Operation) : SuppliedStore := ops.foldl after s

theorem afterAll_eq (s : SuppliedStore) (ops : List Store.Operation) :
    s.afterAll ops = { s with store := s.store.afterAll ops } := by
  induction ops generalizing s with
  | nil => rfl
  | cons op ops ih => exact ih (s.after op)

/-- What can be seen of a layer that was handed over. -/
theorem map_hold (given own : Layer) :
    ((some given).map hold).map (fun | .shared => own | .apart l => l)
      = some (if given.isEmpty then given else own) := by
  unfold hold
  by_cases none : given.isEmpty = true <;> simp [none]

/-- A layer shows what its side of the store comes to, or it was empty and stands apart: then the
two differ as soon as something is put into the store's own. -/
theorem shows_iff {given : Layer} {put : List Store.Operation → List (String × Content)}
    {ops : List Store.Operation} :
    (if given.isEmpty then given else given.updated put ops) = given.updated put ops ↔
      (given.isEmpty = true → put ops = []) := by
  by_cases none : given.isEmpty = true
  · simp only [none, if_true, forall_const]
    rw [eq_comm, Layer.updated_eq_self_iff none]
  · simp [none]

/-- For a store that is made over two layers, whatever they hold, and any history of operations:
the store is read as the two layers would be if each followed its operations from what it held at
first, the upper one before the lower one. A layer that held files is seen to do so, and one that
held none is seen empty for good; so a layer fails to show what its side of the store has exactly if
it was empty at first and something was put there since the last reset. -/
theorem layers_afterAll (project : Bool) (writable remote : Layer) (ops : List Store.Operation) :
    let s := (ofLayers project (some writable) (some remote)).afterAll ops
    let top := writable.updated Store.written ops
    let low := remote.updated Store.placed ops
    s.layer? .writable = some (if writable.isEmpty then writable else top) ∧
      s.layer? .remote = some (if remote.isEmpty then remote else low) ∧
      (s.layer? .writable = some top ↔
        (writable.isEmpty = true → Store.written ops = [])) ∧
      (s.layer? .remote = some low ↔ (remote.isEmpty = true → Store.placed ops = [])) ∧
      ∀ path, s.store.contains path = (top.contains path || low.contains path) ∧
        s.store.read path =
          match (top.read? path).or (low.read? path) with
          | some c => .ok c
          | none => .error (Fault.storeMiss (Path.normalize path)) := by
  intro s top low
  have store : s.store = (ofLayers project (some writable) (some remote)).store.afterAll ops := by
    rw [show s = _ from afterAll_eq _ ops]
  have upper : s.store.writable = top := by
    rw [store, Store.writable_afterAll]
    rfl
  have lower : s.store.remote = low := by
    rw [store, Store.remote_afterAll]
    rfl
  have seenWritable : s.layer? .writable = some (if writable.isEmpty then writable else top) := by
    rw [← upper, ← map_hold, show s = _ from afterAll_eq _ ops]
    rfl
  have seenRemote : s.layer? .remote = some (if remote.isEmpty then remote else low) := by
    rw [← lower, ← map_hold, show s = _ from afterAll_eq _ ops]
    rfl
  have reads (path : String) : s.store.read? path = (top.read? path).or (low.read? path) := by
    rw [Store.read?, upper, lower]
  refine ⟨seenWritable, seenRemote, ?_, ?_, fun path => ⟨?_, ?_⟩⟩
  · rw [seenWritable, Option.some_inj]
    exact shows_iff
  · rw [seenRemote, Option.some_inj]
    exact shows_iff
  · exact (congrArg Option.isSome (reads path)).trans Option.isSome_or
  · cases found : (top.read? path).or (low.read? path) <;>
      simp only [Store.read, reads, found]

/-- Two empty layers do not see what is written to the store over them. -/
theorem layers_can_part :
    ¬ ∀ (project : Bool) (writable remote : Layer) (ops : List Store.Operation),
      let s := (ofLayers project (some writable) (some remote)).afterAll ops
      s.layer? .writable = some (writable.updated Store.written ops) ∧
        s.layer? .remote = some (remote.updated Store.placed ops) := by
  intro follows
  have shows := (follows false .empty .empty [.write "/a.js" [0x31]]).1
  have listed := congrArg (Option.map Layer.paths) shows
  revert listed
  decide +kernel

end SuppliedStore

end PluginHost
