import PluginHost.Proofs.Module.Memory

/-!
What a running file may do, whatever it is written in: look at what is evaluated, bind names, ask
for other modules, go on with the answer even if that is a failure, and end. Only the number of its
steps is finite on every way that it can take. Scripts are one kind of such files.
-/
namespace PluginHost.Evaluator

variable {α β : Type} {reach : Reach} {path : String} {own : Nat}

/-- What a running file does from now on. -/
inductive Conduct (α : Type) where
  | ends (r : Except Failure α)
  | looks (next : Evaluator → Conduct α)
  /-- A name is bound in a module, the file's own or one that it got hold of. -/
  | binds (index : Nat) (name : String) (v : Value) (next : Conduct α)
  /-- A request that no installed module answers, in the name of the file or of another one. -/
  | asks (q : ModuleRequest) (next : Except Failure Value → Conduct α)

/-- How files run: what each one does when it is evaluated. The place of its module is another one
each time, so that no two of its runs need be alike. -/
abbrev Manner := Reach → Nat → ModuleFile → Conduct Unit

namespace Conduct

/-- Goes on with what a conduct ends in. -/
def andThen : Conduct α → (Except Failure α → Conduct β) → Conduct β
  | .ends r, go => go r
  | .looks next, go => .looks fun s => (next s).andThen go
  | .binds index name v next, go => .binds index name v (next.andThen go)
  | .asks q next, go => .asks q fun r => (next r).andThen go

/-- The outcome of a conduct if requests are answered in a given way. -/
def perform (answer : ModuleRequest → Evaluator → Except Failure Value × Evaluator) :
    Conduct α → Evaluator → Except Failure α × Evaluator
  | .ends r, s => (r, s)
  | .looks next, s => (next s).perform answer s
  | .binds index name v next, s => next.perform answer (s.bind index name v)
  | .asks q next, s => (next (answer q s).1).perform answer (answer q s).2

theorem perform_andThen (answer : ModuleRequest → Evaluator → Except Failure Value × Evaluator)
    (c : Conduct α) (go : Except Failure α → Conduct β) (s : Evaluator) :
    (c.andThen go).perform answer s =
      (go (c.perform answer s).1).perform answer (c.perform answer s).2 := by
  induction c generalizing s with
  | ends r => rfl
  | looks next ih => exact ih s s
  | binds index name v next ih => exact ih _
  | asks q next ih => exact ih _ _

end Conduct

/-- The answer to a request if files are loaded in a given way. -/
def answer (reach : Reach) (load : ModuleFile → Run Value) (q : ModuleRequest) (s : Evaluator) :
    Except Failure Value × Evaluator :=
  (exportFor reach load q).run.run s

/-- Whether something that a file does, given the way files are loaded, is a conduct that does not
depend on that way. -/
def Conducted (reach : Reach) (a : (ModuleFile → Run Value) → Run α) : Prop :=
  ∃ c : Conduct α, ∀ load s, (a load).run.run s = c.perform (answer reach load) s

namespace Conducted

theorem pure (v : α) : Conducted reach fun _ => (Pure.pure v : Run α) :=
  ⟨.ends (.ok v), fun _ _ => rfl⟩

theorem fail (f : Fault) : Conducted reach fun _ => (Evaluator.fail f : Run α) :=
  ⟨.ends (.error f), fun _ _ => rfl⟩

theorem bind {a : (ModuleFile → Run Value) → Run α} {f : (ModuleFile → Run Value) → α → Run β}
    (ha : Conducted reach a) (hf : ∀ v, Conducted reach fun load => f load v) :
    Conducted reach fun load => a load >>= f load := by
  obtain ⟨c, hc⟩ := ha
  choose go hgo using hf
  let resume : Except Failure α → Conduct β
    | .ok v => go v
    | .error why => .ends (.error why)
  refine ⟨c.andThen resume, fun load s => ?_⟩
  rw [run_bind, hc, Conduct.perform_andThen]
  generalize c.perform (answer reach load) s = r
  rcases r with ⟨why | v, t⟩
  · rfl
  · exact hgo v load t

/-- Something that neither changes the evaluator nor asks for anything. -/
theorem looking {a : (ModuleFile → Run Value) → Run α} (r : Evaluator → Except Failure α)
    (h : ∀ load s, (a load).run.run s = (r s, s)) : Conducted reach a :=
  ⟨.looks fun s => .ends (r s), h⟩

theorem binding (index : Nat) (name : String) (v : Value) :
    Conducted reach fun _ => (modify (·.bind index name v) : Run Unit) :=
  ⟨.binds index name v (.ends (.ok ())), fun _ _ => rfl⟩

/-- A require is answered by what is installed, or it is a request for a file. -/
theorem require (v : Value) : Conducted reach fun load => Evaluator.require reach load path v := by
  unfold Evaluator.require
  split
  · dsimp only
    split
    · exact .pure _
    · refine ⟨.asks ⟨_, some path⟩ .ends, fun load s => rfl⟩
  · exact .looking (fun s => .error _) fun _ _ => rfl

theorem memberOf (v : Value) (name : String) :
    Conducted reach fun load => (loadScope reach load own path).memberOf v name := by
  refine .looking (fun s => (lookup? name (s.members reach.host v).2).elim
    (.error (noMember (s.members reach.host v).1 name)) .ok) fun load s => ?_
  rw [run_memberOf]
  dsimp only [loadScope]
  cases lookup? name (s.members reach.host v).2 <;> rfl

theorem nameOf (name : String) :
    Conducted reach fun load => (loadScope reach load own path).nameOf name := by
  refine .looking (fun s => (lookup? name (s.bindings own)).elim
    (.error (Fault.unboundName name)) .ok) fun load s => ?_
  rw [run_nameOf]
  dsimp only [loadScope]
  cases lookup? name (s.bindings own) <;> rfl

theorem itemOf (v : Value) (key : String) : Conducted reach fun _ => Scope.itemOf v key := by
  unfold Scope.itemOf
  split
  · split
    · exact .pure _
    · exact .fail _
  all_goals exact .fail _

mutual

theorem value : ∀ e, Conducted reach fun load => (loadScope reach load own path).value e
  | .null | .bool _ | .int _ | .text _ => by
    simp only [Scope.value]
    exact .pure _
  | .installed kind name => by
    simp only [Scope.value]
    exact .pure (reach.registry.get kind name)
  | .name _ => by
    simp only [Scope.value]
    exact .nameOf _
  | .list es => by
    simp only [Scope.value]
    exact .bind (values es) fun _ => .pure _
  | .dict es => by
    simp only [Scope.value]
    exact .bind (entries [] es) fun _ => .pure _
  | .item e _ => by
    simp only [Scope.value]
    exact .bind (value e) fun _ => .itemOf _ _
  | .member e _ => by
    simp only [Scope.value]
    exact .bind (value e) fun _ => .memberOf _ _
  | .require e => by
    simp only [Scope.value]
    exact .bind (value e) fun v => .require v

theorem values : ∀ es, Conducted reach fun load => (loadScope reach load own path).values es
  | [] => by
    simp only [Scope.values]
    exact .pure _
  | e :: es => by
    simp only [Scope.values]
    exact .bind (value e) fun _ => .bind (values es) fun _ => .pure _

theorem entries : ∀ done es,
    Conducted reach fun load => (loadScope reach load own path).entries done es
  | _, [] => by
    simp only [Scope.entries]
    exact .pure _
  | done, (key, e) :: es => by
    simp only [Scope.entries]
    exact .bind (value e) fun v => entries (putEntry key v done) es

end

theorem statement (st : Script.Statement) :
    Conducted reach fun load => (loadScope reach load own path).statement st := by
  cases st with
  | bind name e => exact .bind (value e) fun v => .binding own name v
  | run e => exact .bind (value e) fun _ => .pure _
  | raiseValue text => exact .fail _
  | raiseRuntime text => exact .fail _

theorem script (sts : Script) :
    Conducted reach fun load => (loadScope reach load own path).script sts := by
  induction sts with
  | nil => exact .pure _
  | cons st sts ih => exact .bind (.statement st) fun _ => ih

/-- Every file of a store runs as a conduct says. -/
theorem fill (file : ModuleFile) :
    Conducted reach fun load => Evaluator.fill (loadScope reach load own path) file := by
  unfold Evaluator.fill
  split
  · exact .fail _
  · split
    · split
      · exact .binding own "default" _
      · exact .fail _
    · split
      · exact .script _
      · exact .fail _

end Conducted

/-- How scripts and JSON files run. -/
noncomputable def scripts : Manner := fun reach own file =>
  (@Conducted.fill reach file.path own file).choose

theorem run_fill (load : ModuleFile → Run Value) (own : Nat) (file : ModuleFile) (s : Evaluator) :
    (fill (loadScope reach load own file.path) file).run.run s =
      (scripts reach own file).perform (answer reach load) s :=
  (Conducted.fill file).choose_spec load s

end PluginHost.Evaluator
