import PluginHost.Module.Evaluator

/-!
What a running file does to the evaluator: it binds names in its own module and requires other
files. Whatever these keep is kept by the run.
-/
namespace PluginHost.Evaluator

variable {α β : Type} {G : Evaluator → Evaluator → Prop} {scope : Scope} {s : Evaluator}

theorem run_bind (a : Run α) (f : α → Run β) (s : Evaluator) :
    (a >>= f).run.run s =
      match a.run.run s with
      | (.ok v, t) => (f v).run.run t
      | (.error why, t) => (.error why, t) := by
  rw [ExceptT.run_bind, StateT.run_bind]
  rcases run : a.run.run s with ⟨why | v, t⟩ <;> rfl

theorem run_tryCatch (a : Run α) (f : Failure → Run α) (s : Evaluator) :
    (tryCatch a f).run.run s =
      match a.run.run s with
      | (.ok v, t) => (.ok v, t)
      | (.error why, t) => (f why).run.run t := by
  simp only [tryCatch, tryCatchThe, MonadExceptOf.tryCatch, ExceptT.tryCatch, ExceptT.run_mk,
    StateT.run_bind]
  rw [show StateT.run a s = a.run.run s from rfl]
  rcases run : a.run.run s with ⟨why | v, t⟩ <;> rfl

/-- The members of a value do not change when one of them is asked for. -/
theorem run_memberOf (scope : Scope) (v : Value) (name : String) (s : Evaluator) :
    (scope.memberOf v name).run.run s =
      match lookup? name (s.members scope.reach.host v).2 with
      | some w => (.ok w, s)
      | none => (.error (noMember (s.members scope.reach.host v).1 name), s) := by
  unfold Scope.memberOf
  rw [run_bind]
  show ((match lookup? name (s.members scope.reach.host v).2 with
    | some w => pure w
    | none => fail (noMember (s.members scope.reach.host v).1 name) : Run Value)).run.run s = _
  split <;> rfl

theorem run_nameOf (scope : Scope) (name : String) (s : Evaluator) :
    (scope.nameOf name).run.run s =
      match lookup? name (s.bindings scope.index) with
      | some w => (.ok w, s)
      | none => (.error (Fault.unboundName name), s) := by
  unfold Scope.nameOf
  rw [run_bind]
  show ((match lookup? name (s.bindings scope.index) with
    | some w => pure w
    | none => fail (.unboundName name) : Run Value)).run.run s = _
  split <;> rfl

/-- Whether every state in which a run can end is in a relation to the one in which it began. -/
def Stays (G : Evaluator → Evaluator → Prop) (a : Run α) : Prop := ∀ s, G s (a.run.run s).2

/-- A relation that holds of whatever a running file does, step by step. -/
structure Frame (G : Evaluator → Evaluator → Prop) (scope : Scope) : Prop where
  refl : ∀ s, G s s
  trans : ∀ r s t, G r s → G s t → G r t
  required : ∀ v, Stays G (scope.require v)
  bound : ∀ s name v, G s (s.bind scope.index name v)

namespace Frame

variable (k : Frame G scope)

include k

theorem pure (v : α) : Stays G (Pure.pure v : Run α) := fun s => k.refl s

theorem fail (f : Fault) : Stays G (fail f : Run α) := fun s => k.refl s

theorem bind {a : Run α} {f : α → Run β} (ha : Stays G a) (hf : ∀ v, Stays G (f v)) :
    Stays G (a >>= f) := by
  intro s
  have first := ha s
  rw [run_bind]
  generalize a.run.run s = r at first
  rcases r with ⟨why | v, t⟩
  · exact first
  · exact k.trans _ _ _ first (hf v t)

theorem memberOf (v : Value) (name : String) : Stays G (scope.memberOf v name) := by
  intro s
  rw [run_memberOf]
  split <;> exact k.refl s

theorem nameOf (name : String) : Stays G (scope.nameOf name) := by
  intro s
  rw [run_nameOf]
  split <;> exact k.refl s

theorem itemOf (v : Value) (key : String) : Stays G (Scope.itemOf v key) := by
  unfold Scope.itemOf
  split
  · split
    · exact k.pure _
    · exact k.fail _
  all_goals exact k.fail _

omit k

mutual

theorem value (k : Frame G scope) : ∀ e, Stays G (scope.value e)
  | .null | .bool _ | .int _ | .text _ | .installed _ _ => by
    simp only [Scope.value]
    exact k.pure _
  | .name _ => by
    rw [Scope.value]
    exact k.nameOf _
  | .list es => by
    rw [Scope.value]
    exact k.bind (k.values es) fun _ => k.pure _
  | .dict es => by
    rw [Scope.value]
    exact k.bind (k.entries [] es) fun _ => k.pure _
  | .item e _ => by
    rw [Scope.value]
    exact k.bind (k.value e) fun _ => k.itemOf _ _
  | .member e _ => by
    rw [Scope.value]
    exact k.bind (k.value e) fun _ => k.memberOf _ _
  | .require e => by
    rw [Scope.value]
    exact k.bind (k.value e) k.required

theorem values (k : Frame G scope) : ∀ es, Stays G (scope.values es)
  | [] => by
    rw [Scope.values]
    exact k.pure _
  | e :: es => by
    rw [Scope.values]
    exact k.bind (k.value e) fun _ => k.bind (k.values es) fun _ => k.pure _

theorem entries (k : Frame G scope) : ∀ done es, Stays G (scope.entries done es)
  | _, [] => by
    rw [Scope.entries]
    exact k.pure _
  | done, (key, e) :: es => by
    rw [Scope.entries]
    exact k.bind (k.value e) fun v => k.entries (putEntry key v done) es

end

include k

theorem statement (st : Script.Statement) : Stays G (scope.statement st) := by
  cases st with
  | bind name e => exact k.bind (k.value e) fun v s => k.bound s name v
  | run e => exact k.bind (k.value e) fun _ => k.pure _
  | raiseValue text => exact k.fail _
  | raiseRuntime text => exact k.fail _

theorem script (sts : Script) : Stays G (scope.script sts) := by
  induction sts with
  | nil => exact k.pure _
  | cons st sts ih => exact k.bind (k.statement st) fun _ => ih

/-- Whatever binding names and requiring other files keep is kept by the run of a file. -/
theorem fill (file : ModuleFile) : Stays G (Evaluator.fill scope file) := by
  unfold Evaluator.fill
  split
  · exact k.fail _
  · split
    · split
      · exact fun s => k.bound s "default" _
      · exact k.fail _
    · split
      · exact k.script _
      · exact k.fail _

end Frame

end PluginHost.Evaluator
