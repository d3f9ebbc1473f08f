import PluginHost.Proofs.Module.Conduct

/-!
Which files are executed, and when, while modules are asked for and evaluations are forgotten. Files
may run in any manner, require each other in any way and fail anywhere. The files that are executing
are all remembered, so that none is executed inside itself, and there are never more of them than
the store has files: that is why every evaluation comes to an end, although a failure takes a file
out of memory again.
-/
namespace PluginHost

theorem Table.keys_erase {κ α : Type} [DecidableEq κ] (t : Table κ α) (k : κ) :
    (t.erase k).keys = t.keys.erase k := by
  rw [t.nodup_keys.erase_eq_filter]
  unfold erase keys
  rw [List.filter_map]
  congr 1
  refine List.filter_congr fun e _ => ?_
  rw [Function.comp_apply, bne, beq_eq_decide, decide_not]

namespace Evaluator

variable {α : Type} {manner : Manner} {reach : Reach} {q : ModuleRequest} {file : ModuleFile}
  {c : Conduct α} {s t u : Evaluator} {p : String} {i : Nat} {os : List String}
  {r : Except Failure α}

/-- What happens to files while modules are asked for. -/
inductive FileEvent where
  | entered (path : String)
  | left (path : String) (succeeded : Bool)
  /-- Every evaluation was forgotten. -/
  | forgot

/-- The file that a request leads to. -/
def lead (reach : Reach) (q : ModuleRequest) : Except Failure ModuleFile :=
  match reach.finder.resolve reach.store q with
  | .ok (some file) => .ok file
  | .ok none => .error (absent reach.finder q)
  | .error why => .error why

theorem stored_of_lead (h : lead reach q = .ok file) : Finder.Stored reach.store file := by
  unfold lead at h
  split at h
  · rename_i found
    cases h
    exact Finder.stored_of_resolvePath found
  all_goals cases h

theorem answer_eq (load : ModuleFile → Run Value) (s : Evaluator) :
    answer reach load q s = match lead reach q with
      | .ok file => (load file).run.run s
      | .error why => (.error why, s) := by
  unfold answer exportFor lead
  rw [run_bind]
  rcases reach.finder.resolve reach.store q with why | (- | file) <;> rfl

/-- How a conduct runs to its end: what happens to files on the way, its outcome, and the evaluator
afterwards. Nothing limits how many files run inside one another. -/
inductive Performs (manner : Manner) (reach : Reach) : {α : Type} → Conduct α → Evaluator →
    List FileEvent → Except Failure α → Evaluator → Prop where
  | ends {α : Type} (r : Except Failure α) (s : Evaluator) :
    Performs manner reach (.ends r) s [] r s
  | looks {α : Type} {next : Evaluator → Conduct α} {s t : Evaluator} {es : List FileEvent}
    {r : Except Failure α} (rest : Performs manner reach (next s) s es r t) :
    Performs manner reach (.looks next) s es r t
  | binds {α : Type} {index : Nat} {name : String} {v : Value} {next : Conduct α} {s t : Evaluator}
    {es : List FileEvent} {r : Except Failure α}
    (rest : Performs manner reach next (s.bind index name v) es r t) :
    Performs manner reach (.binds index name v next) s es r t
  /-- A request leads to no file. -/
  | astray {α : Type} {q : ModuleRequest} {next : Except Failure Value → Conduct α} {why : Failure}
    {s t : Evaluator} {es : List FileEvent} {r : Except Failure α}
    (h : lead reach q = .error why) (rest : Performs manner reach (next (.error why)) s es r t) :
    Performs manner reach (.asks q next) s es r t
  | remembered {α : Type} {q : ModuleRequest} {next : Except Failure Value → Conduct α}
    {file : ModuleFile} {i : Nat} {s t : Evaluator} {es : List FileEvent} {r : Except Failure α}
    (h : lead reach q = .ok file) (hi : s.loaded.get? file.path = some i)
    (rest : Performs manner reach (next (.ok (s.exportOf i))) s es r t) :
    Performs manner reach (.asks q next) s es r t
  /-- A file is executed. -/
  | executed {α : Type} {q : ModuleRequest} {next : Except Failure Value → Conduct α}
    {file : ModuleFile} {s t u : Evaluator} {inner es : List FileEvent} {o : Except Failure Unit}
    {r : Except Failure α} (h : lead reach q = .ok file) (new : s.loaded.get? file.path = none)
    (run :
      Performs manner reach (manner reach s.modules.length file) (s.opened file.path) inner o t)
    (rest : Performs manner reach (next (concluded s.modules.length file.path (o, t)).1)
      (concluded s.modules.length file.path (o, t)).2 es r u) :
    Performs manner reach (.asks q next) s
      (.entered file.path :: inner ++ .left file.path o.isOk :: es) r u

namespace Performs

variable {es : List FileEvent}

/-- A run comes out in one way only. -/
theorem unique (h : Performs manner reach c s es r t) {es' : List FileEvent}
    {r' : Except Failure α} {t' : Evaluator} (h' : Performs manner reach c s es' r' t') :
    es' = es ∧ r' = r ∧ t' = t := by
  induction h generalizing es' t' with
  | ends r s =>
    cases h'
    exact ⟨rfl, rfl, rfl⟩
  | looks _ ih | binds _ ih =>
    cases h' with
    | _ rest => exact ih rest
  | astray h _ ih =>
    cases h' with
    | astray h' rest =>
      cases h.symm.trans h'
      exact ih rest
    | remembered h' | executed h' => cases h.symm.trans h'
  | remembered h hi _ ih =>
    cases h' with
    | astray h' => cases h.symm.trans h'
    | remembered h' hi' rest =>
      cases h.symm.trans h'
      cases hi.symm.trans hi'
      exact ih rest
    | executed h' new =>
      cases h.symm.trans h'
      cases hi.symm.trans new
  | executed h new _ _ inner outer =>
    cases h' with
    | astray h' => cases h.symm.trans h'
    | remembered h' hi =>
      cases h.symm.trans h'
      cases new.symm.trans hi
    | executed h' _ run rest =>
      cases h.symm.trans h'
      obtain ⟨rfl, rfl, rfl⟩ := inner run
      obtain ⟨rfl, rfl, rfl⟩ := outer rest
      exact ⟨rfl, rfl, rfl⟩

end Performs

@[simp]
theorem modules_concluded (own : Nat) (o : Except Failure Unit) (t : Evaluator) :
    (concluded own p (o, t)).2.modules = t.modules := by
  cases o <;> rfl

theorem evaluations_concluded (own : Nat) (o : Except Failure Unit) (t : Evaluator) :
    (concluded own p (o, t)).2.evaluations = t.evaluations + if o.isOk then 1 else 0 := by
  cases o <;> rfl

theorem keys_opened (new : s.loaded.get? p = none) :
    (s.opened p).loaded.keys.Perm (p :: s.loaded.keys) := by
  have absent : p ∉ s.loaded.keys := by
    rw [← Table.contains_iff_mem_keys, Table.contains, new]
    exact Bool.false_ne_true
  rw [Evaluator.opened, Table.keys_insert_of_not_mem absent]
  exact List.perm_append_singleton ..

theorem paths_bind (s : Evaluator) (index : Nat) (name : String) (v : Value) :
    (s.bind index name v).modules.map (·.path) = s.modules.map (·.path) := by
  refine List.ext_getElem? fun i => ?_
  simp only [Evaluator.bind, List.getElem?_map, List.getElem?_modify]
  cases s.modules[i]? with
  | none => rfl
  | some m =>
    by_cases h : index = i
    · simp [h]
    · simp [h]

/-- A file that ends forgets no other one. -/
theorem concluded_keeps {path : String} (new : s.loaded.get? path = none)
    (hi : s.loaded.get? p = some i) {own : Nat} {o : Except Failure Unit}
    (within : t.loaded.get? p = some i) :
    (concluded own path (o, t)).2.loaded.get? p = some i := by
  cases o with
  | ok v => exact within
  | error why =>
    show (t.forgotten path).loaded.get? p = some i
    rw [forgotten, Table.get?_erase, if_neg (get?_opened new hi).1, within]

/-- Whatever is remembered before a run is remembered afterwards: a file that fails was entered
within the run. -/
theorem Performs.keeps {es : List FileEvent} (h : Performs manner reach c s es r t)
    (hi : s.loaded.get? p = some i) : t.loaded.get? p = some i := by
  induction h with
  | ends r s => exact hi
  | looks _ ih | binds _ ih | astray _ _ ih | remembered _ _ _ ih => exact ih hi
  | executed _ new _ _ inner outer =>
    exact outer (concluded_keeps new hi (inner (get?_opened new hi).2))

/-- Files that are executing, one inside the other. -/
structure Executing (reach : Reach) (os : List String) (s : Evaluator) : Prop where
  distinct : os.Nodup
  remembered : ∀ p ∈ os, (s.loaded.get? p).isSome = true
  stored : os ⊆ reach.store.paths

namespace Executing

variable {es : List FileEvent} {o : Except Failure Unit} {own n : Nat}

theorem nil (reach : Reach) (s : Evaluator) : Executing reach [] s :=
  ⟨List.nodup_nil, by simp, List.nil_subset _⟩

theorem length_le (k : Executing reach os s) : os.length ≤ reach.store.paths.length :=
  (List.subperm_of_subset k.distinct k.stored).length_le

/-- A level is left as long as the levels are more than the files that are not executing. -/
theorem exists_level (k : Executing reach os s)
    (enough : reach.store.paths.length < n + os.length) : ∃ m, n = m + 1 := by
  have := k.length_le
  exact ⟨n - 1, by omega⟩

theorem kept (k : Executing reach os s)
    (h : ∀ p i, s.loaded.get? p = some i → t.loaded.get? p = some i) : Executing reach os t where
  distinct := k.distinct
  remembered p hp := by
    obtain ⟨i, hi⟩ := Option.isSome_iff_exists.1 (k.remembered p hp)
    rw [h p i hi]
    rfl
  stored := k.stored

theorem not_mem (k : Executing reach os s) (new : s.loaded.get? p = none) : p ∉ os := by
  intro within
  have known := k.remembered p within
  rw [new] at known
  cases known

/-- A file is executed inside those that are executing. -/
theorem opened (k : Executing reach os s) (new : s.loaded.get? file.path = none)
    (stored : Finder.Stored reach.store file) :
    Executing reach (file.path :: os) (s.opened file.path) where
  distinct := List.nodup_cons.2 ⟨k.not_mem new, k.distinct⟩
  remembered p hp := by
    rcases List.mem_cons.1 hp with rfl | hp
    · simp [Evaluator.opened]
    · obtain ⟨i, hi⟩ := Option.isSome_iff_exists.1 (k.remembered p hp)
      rw [(get?_opened new hi).2]
      rfl
  stored := List.cons_subset.2 ⟨stored.mem_paths, k.stored⟩

theorem concluded (k : Executing reach os s) (new : s.loaded.get? p = none)
    {c : Conduct Unit} (run : Performs manner reach c (s.opened p) es o t) :
    Executing reach os (concluded own p (o, t)).2 :=
  k.kept fun _ _ hi => concluded_keeps new hi (run.keeps (get?_opened new hi).2)

/-- There is always an end, by induction on the number of files of the store that are not executing,
and within the run of one file on what it still has to do. -/
theorem performs (manner : Manner) (k : Executing reach os s)
    (enough : reach.store.paths.length < n + os.length) (c : Conduct α) :
    ∃ es r t, Performs manner reach c s es r t := by
  induction n generalizing α os s c with
  | zero =>
    obtain ⟨m, absurd⟩ := k.exists_level enough
    cases absurd
  | succ n inner =>
    induction c generalizing s with
    | ends r => exact ⟨[], r, s, .ends r s⟩
    | looks next ih =>
      obtain ⟨es, r, t, rest⟩ := ih s k
      exact ⟨es, r, t, .looks rest⟩
    | binds index name v next ih =>
      obtain ⟨es, r, t, rest⟩ := @ih (s.bind index name v) (k.kept fun _ _ hi => hi)
      exact ⟨es, r, t, .binds rest⟩
    | asks q next outer =>
      cases h : lead reach q with
      | error why =>
        obtain ⟨es, r, t, rest⟩ := outer (.error why) k
        exact ⟨es, r, t, .astray h rest⟩
      | ok file =>
        cases new : s.loaded.get? file.path with
        | some i =>
          obtain ⟨es, r, t, rest⟩ := outer (.ok (s.exportOf i)) k
          exact ⟨es, r, t, .remembered h new rest⟩
        | none =>
          obtain ⟨es, o, t, run⟩ := inner (k.opened new (stored_of_lead h))
            (by rw [List.length_cons]; omega) (manner reach s.modules.length file)
          obtain ⟨es', r, u, rest⟩ := outer _ (k.concluded new run)
          exact ⟨_, r, u, .executed h new run rest⟩

end Executing

/-- The evaluator runs scripts as they run if nothing limits how many are executing, as soon as the
levels that it has left are more than the files that are not executing. -/
theorem Performs.perform_eq {es : List FileEvent} (h : Performs scripts reach c s es r t) {n : Nat}
    (k : Executing reach os s) (enough : reach.store.paths.length < n + os.length) :
    c.perform (answer reach (load reach n)) s = (r, t) := by
  induction h generalizing os n with
  | ends r s => rfl
  | looks _ ih => exact ih k enough
  | binds _ ih => exact ih (k.kept fun _ _ hi => hi) enough
  | astray h _ ih =>
    rw [Conduct.perform, answer_eq, h]
    exact ih k enough
  | remembered h hi _ ih =>
    obtain ⟨m, rfl⟩ := k.exists_level enough
    rw [Conduct.perform, answer_eq, h]
    dsimp only
    rw [run_load, hi]
    exact ih k enough
  | executed h new run _ inner outer =>
    obtain ⟨m, rfl⟩ := k.exists_level enough
    have within := inner (k.opened new (stored_of_lead h)) (n := m)
      (by rw [List.length_cons]; omega)
    rw [Conduct.perform, answer_eq, h]
    dsimp only
    rw [run_load, new]
    dsimp only
    rw [run_fill, within]
    exact outer (k.concluded new run) enough

namespace FileEvent

/-- The files that were executed with success since evaluations were last forgotten, if some were
before. -/
@[simp]
def succeeded (done : List String) : FileEvent → List String
  | .left p true => done ++ [p]
  | .forgot => []
  | _ => done

/-- The files that are executing, the innermost one first, if some were before. -/
@[simp]
def running (os : List String) : FileEvent → List String
  | .entered p => p :: os
  | .left p _ => os.erase p
  | .forgot => os

@[simp]
def entered? : FileEvent → Option String
  | .entered p => some p
  | _ => none

@[simp]
def succeeds : FileEvent → Bool
  | .left _ succeeded => succeeded
  | _ => false

end FileEvent

/-- Whether no file is entered while it is executing, if some files are at first. -/
def EntersAnew (os : List String) (es : List FileEvent) : Prop :=
  ∀ before p after, es = before ++ .entered p :: after → p ∉ before.foldl FileEvent.running os

theorem entersAnew_nil (os : List String) : EntersAnew os [] := by
  intro before p after split
  cases before <;> cases split

theorem entersAnew_cons {e : FileEvent} {es : List FileEvent} :
    EntersAnew os (e :: es) ↔ (∀ p, e = .entered p → p ∉ os) ∧ EntersAnew (e.running os) es := by
  constructor
  · intro h
    exact ⟨fun p he => h [] p es (by rw [he]; rfl),
      fun before p after split => h (e :: before) p after (by rw [split]; rfl)⟩
  · rintro ⟨first, rest⟩ before p after split
    cases before with
    | nil => exact first p (List.cons.inj split).1
    | cons e' before =>
      obtain ⟨rfl, behind⟩ := List.cons.inj split
      exact rest before p after behind

theorem entersAnew_append {es es' : List FileEvent} : EntersAnew os (es ++ es') ↔
    EntersAnew os es ∧ EntersAnew (es.foldl FileEvent.running os) es' := by
  induction es generalizing os with
  | nil => simp [entersAnew_nil]
  | cons e es ih =>
    rw [List.cons_append, entersAnew_cons, ih, entersAnew_cons, and_assoc, List.foldl_cons]

namespace Performs

variable {es : List FileEvent}

/-- Files are left in the opposite order to that in which they are entered, and none is entered
while it is executing. -/
theorem nests (h : Performs manner reach c s es r t) (k : Executing reach os s) :
    es.foldl FileEvent.running os = os ∧ EntersAnew os es := by
  induction h generalizing os with
  | ends r s => exact ⟨rfl, entersAnew_nil os⟩
  | binds _ ih => exact ih (k.kept fun _ _ hi => hi)
  | looks _ ih | astray _ _ ih | remembered _ _ _ ih => exact ih k
  | executed h new run _ inner outer =>
    obtain ⟨closed, anew⟩ := inner (k.opened new (stored_of_lead h))
    obtain ⟨closed', anew'⟩ := outer (k.concluded new run)
    constructor
    · rw [List.foldl_append, List.foldl_cons, List.foldl_cons, FileEvent.running, closed,
        FileEvent.running, List.erase_cons_head, closed']
    · rw [entersAnew_append, entersAnew_cons, entersAnew_cons, List.foldl_cons, FileEvent.running,
        closed, FileEvent.running, List.erase_cons_head]
      refine ⟨⟨fun p entered => ?_, anew⟩, fun p entered => ?_, anew'⟩
      · cases entered
        exact k.not_mem new
      · cases entered

/-- What is remembered are the files that succeeded, next to those that were remembered before. A
file that fails is forgotten with nothing else, so that the files that succeeded within it stay. -/
theorem remembers (h : Performs manner reach c s es r t) : ∃ done,
    (∀ ps, es.foldl FileEvent.succeeded ps = ps ++ done) ∧
      t.loaded.keys.Perm (s.loaded.keys ++ done) := by
  induction h with
  | ends r s => exact ⟨[], by simp, by simp⟩
  | looks _ ih | binds _ ih | astray _ _ ih | remembered _ _ _ ih => exact ih
  | @executed _ _ _ file s t _ _ _ o _ _ new _ _ inner outer =>
    obtain ⟨done, noted, keys⟩ := inner
    obtain ⟨done', noted', keys'⟩ := outer
    have within : t.loaded.keys.Perm (file.path :: (s.loaded.keys ++ done)) :=
      keys.trans ((keys_opened new).append_right done)
    cases o with
    | ok v =>
      refine ⟨done ++ file.path :: done', fun ps => ?_, ?_⟩
      · simp [Except.isOk, Except.toBool, noted, noted']
      · rw [← List.append_assoc]
        exact (keys'.trans (within.append_right done')).trans List.perm_middle.symm
    | error why =>
      refine ⟨done ++ done', fun ps => ?_, ?_⟩
      · simp [Except.isOk, Except.toBool, noted, noted']
      · have forgotten : (t.forgotten file.path).loaded.keys.Perm (s.loaded.keys ++ done) := by
          rw [Evaluator.forgotten, Table.keys_erase]
          simpa using within.erase file.path
        rw [← List.append_assoc]
        exact keys'.trans (forgotten.append_right done')

/-- Each file that is entered gets a module, and those that succeed are counted. -/
theorem counts (h : Performs manner reach c s es r t) :
    t.modules.map (·.path) = s.modules.map (·.path) ++ es.filterMap FileEvent.entered? ∧
      t.evaluations = s.evaluations + es.countP FileEvent.succeeds := by
  induction h with
  | ends r s => simp
  | looks _ ih | astray _ _ ih | remembered _ _ _ ih => exact ih
  | binds _ ih =>
    rw [paths_bind] at ih
    exact ih
  | @executed _ _ _ _ _ _ _ _ _ o _ _ _ _ _ inner outer =>
    obtain ⟨begun, counted⟩ := inner
    obtain ⟨begun', counted'⟩ := outer
    rw [modules_concluded, begun] at begun'
    rw [evaluations_concluded, counted] at counted'
    constructor
    · simp [begun', Evaluator.opened, List.filterMap_cons]
    · cases ok : o.isOk
      · simp [counted', ok, Evaluator.opened, Nat.add_assoc]
      · simp [counted', ok, Evaluator.opened, List.countP_cons]
        omega

end Performs

theorem perm_succeeded {ps ps' : List String} (h : ps.Perm ps') (es : List FileEvent) :
    (es.foldl FileEvent.succeeded ps).Perm (es.foldl FileEvent.succeeded ps') := by
  induction es generalizing ps ps' with
  | nil => exact h
  | cons e es ih =>
    refine ih ?_
    cases e with
    | entered p => exact h
    | left p succeeded =>
      cases succeeded with
      | true => exact h.append_right [p]
      | false => exact h
    | forgot => exact .refl []

/-- What is asked of an evaluator from outside. -/
inductive Call where
  | evaluate (reach : Reach) (path : String)
  | reset

/-- How calls are served, one after another: what happens to files, the answers, and the evaluator
afterwards. -/
inductive Serves (manner : Manner) : List Call → Evaluator → List FileEvent →
    List (Except Failure Value) → Evaluator → Prop where
  | nil (s : Evaluator) : Serves manner [] s [] [] s
  | evaluate {reach : Reach} {path : String} {calls : List Call} {s t u : Evaluator}
    {es es' : List FileEvent} {r : Except Failure Value} {rs : List (Except Failure Value)}
    (h : Performs manner reach (.asks ⟨path, none⟩ .ends) s es r t)
    (rest : Serves manner calls t es' rs u) :
    Serves manner (.evaluate reach path :: calls) s (es ++ es') (r :: rs) u
  | reset {calls : List Call} {s t : Evaluator} {es : List FileEvent}
    {rs : List (Except Failure Value)} (rest : Serves manner calls s.reset es rs t) :
    Serves manner (.reset :: calls) s (.forgot :: es) rs t

/-- The answers to calls, one after another, and the evaluator afterwards. -/
def serve (s : Evaluator) : List Call → List (Except Failure Value) × Evaluator
  | [] => ([], s)
  | .evaluate reach path :: calls =>
    let (r, t) := s.evaluate reach path
    let (rs, u) := t.serve calls
    (r :: rs, u)
  | .reset :: calls => s.reset.serve calls

variable {calls : List Call} {es : List FileEvent} {rs : List (Except Failure Value)}

namespace Serves

/-- Calls are served in one way only. -/
theorem unique (h : Serves manner calls s es rs t) {es' : List FileEvent}
    {rs' : List (Except Failure Value)} {t' : Evaluator}
    (h' : Serves manner calls s es' rs' t') : es' = es ∧ rs' = rs ∧ t' = t := by
  induction h generalizing es' rs' t' with
  | nil s =>
    cases h'
    exact ⟨rfl, rfl, rfl⟩
  | evaluate h _ ih =>
    cases h' with
    | evaluate h' rest =>
      obtain ⟨rfl, rfl, rfl⟩ := h.unique h'
      obtain ⟨rfl, rfl, rfl⟩ := ih rest
      exact ⟨rfl, rfl, rfl⟩
  | reset _ ih =>
    cases h' with
    | reset rest =>
      obtain ⟨rfl, rfl, rfl⟩ := ih rest
      exact ⟨rfl, rfl, rfl⟩

theorem nests (h : Serves manner calls s es rs t) :
    es.foldl FileEvent.running [] = [] ∧ EntersAnew [] es := by
  induction h with
  | nil s => exact ⟨rfl, entersAnew_nil []⟩
  | evaluate h _ ih =>
    obtain ⟨closed, anew⟩ := h.nests (.nil _ _)
    rw [List.foldl_append, entersAnew_append, closed]
    exact ⟨ih.1, anew, ih.2⟩
  | reset _ ih => exact ⟨ih.1, entersAnew_cons.2 ⟨by simp, ih.2⟩⟩

/-- The files that succeeded since evaluations were last forgotten are those that are remembered. -/
theorem remembers (h : Serves manner calls s es rs t) :
    t.loaded.keys.Perm (es.foldl FileEvent.succeeded s.loaded.keys) := by
  induction h with
  | nil s => exact .refl _
  | evaluate h _ ih =>
    obtain ⟨done, noted, keys⟩ := h.remembers
    rw [List.foldl_append, noted]
    exact ih.trans (perm_succeeded keys _)
  | reset _ ih => exact ih

theorem counts (h : Serves manner calls s es rs t) :
    t.modules.map (·.path) = s.modules.map (·.path) ++ es.filterMap FileEvent.entered? ∧
      t.evaluations = s.evaluations + es.countP FileEvent.succeeds := by
  induction h with
  | nil s => simp
  | evaluate h _ ih =>
    obtain ⟨begun, counted⟩ := h.counts
    simp [ih.1, ih.2, begun, counted, Nat.add_assoc]
  | reset _ ih => exact ih

end Serves

theorem exists_serves (manner : Manner) (calls : List Call) (s : Evaluator) :
    ∃ es rs t, Serves manner calls s es rs t := by
  induction calls generalizing s with
  | nil => exact ⟨[], [], s, .nil s⟩
  | cons call calls ih =>
    cases call with
    | evaluate reach path =>
      obtain ⟨es, r, t, h⟩ :=
        (Executing.nil reach s).performs manner (Nat.lt_succ_self _) (.asks ⟨path, none⟩ .ends)
      obtain ⟨es', rs, u, rest⟩ := ih t
      exact ⟨es ++ es', r :: rs, u, .evaluate h rest⟩
    | reset =>
      obtain ⟨es, rs, t, rest⟩ := ih s.reset
      exact ⟨.forgot :: es, rs, t, .reset rest⟩

/-- The evaluator serves calls as they are served if files run as scripts do. -/
theorem Serves.eq_serve (h : Serves scripts calls s es rs t) : s.serve calls = (rs, t) := by
  induction h with
  | nil s => rfl
  | @evaluate reach path _ s t _ _ _ r _ h _ ih =>
    have answered : s.evaluate reach path = (r, t) :=
      h.perform_eq (.nil reach s) (by rw [length_paths]; simp)
    rw [serve, answered]
    dsimp only
    rw [ih]
  | reset _ ih => exact ih

/-- However files run, whatever they require and wherever they fail: every sequence of calls is
served to its end, in one way. No file is entered while it is executing, and none is executing
between calls. What is remembered then are the files that were executed with success since
evaluations were last forgotten, each once, so that no file was executed with success twice. If the
files are scripts, the evaluator serves the calls in just that way. -/
theorem calls_served (calls : List Call) :
    (∀ manner, ∃ es rs s,
      (∀ es' rs' s', Serves manner calls {} es' rs' s' ↔ es' = es ∧ rs' = rs ∧ s' = s) ∧
        EntersAnew [] es ∧ es.foldl FileEvent.running [] = [] ∧
        s.loaded.keys.Perm (es.foldl FileEvent.succeeded []) ∧
        s.loaded.size = (es.foldl FileEvent.succeeded []).length ∧
        (es.foldl FileEvent.succeeded []).Nodup ∧
        s.modules.map (·.path) = es.filterMap FileEvent.entered? ∧
        s.evaluations = es.countP FileEvent.succeeds) ∧
      ∃ es, Serves scripts calls {} es (({} : Evaluator).serve calls).1
        (({} : Evaluator).serve calls).2 := by
  constructor
  · intro manner
    obtain ⟨es, rs, s, h⟩ := exists_serves manner calls {}
    have remembered : s.loaded.keys.Perm (es.foldl FileEvent.succeeded []) := h.remembers
    obtain ⟨closed, anew⟩ := h.nests
    obtain ⟨begun, counted⟩ := h.counts
    refine ⟨es, rs, s, fun es' rs' s' => ⟨h.unique, ?_⟩, anew, closed, remembered, ?_,
      remembered.nodup_iff.1 s.loaded.nodup_keys, begun, counted.trans (Nat.zero_add _)⟩
    · rintro ⟨rfl, rfl, rfl⟩
      exact h
    · rw [← remembered.length_eq, Table.keys, List.length_map, Table.size]
  · obtain ⟨es, rs, s, h⟩ := exists_serves scripts calls {}
    rw [h.eq_serve]
    exact ⟨es, h⟩

/-- Files that require each other and themselves, and one that fails. -/
def knot : Reach := .ofFiles [("/a.py", "require('./d')\nrequire('./b')\nrequire('./c')"),
  ("/b.py", "require('./a')\nrequire('./b')"), ("/c.py", "raise ValueError('no')"),
  ("/d.py", "x = 1")]

def knotCalls : List Call :=
  [.evaluate knot "/a", .evaluate knot "/b", .evaluate knot "/a", .reset, .evaluate knot "/d"]

/-- A file that fails is executed again, while those that succeeded within it are not until
evaluations are forgotten. -/
theorem calls_served_knot : ∃ es s,
    Serves scripts knotCalls {} es (({} : Evaluator).serve knotCalls).1 s ∧
      es.filterMap FileEvent.entered? =
        ["/a.py", "/d.py", "/b.py", "/c.py", "/a.py", "/c.py", "/d.py"] ∧
      ["/d.py"].Perm (es.foldl FileEvent.succeeded []) ∧ es.countP FileEvent.succeeds = 3 := by
  have ends : (({} : Evaluator).serve knotCalls).2.modules.map (·.path) =
        ["/a.py", "/d.py", "/b.py", "/c.py", "/a.py", "/c.py", "/d.py"] ∧
      (({} : Evaluator).serve knotCalls).2.loaded.keys = ["/d.py"] ∧
      (({} : Evaluator).serve knotCalls).2.evaluations = 3 := by
    decide +kernel
  obtain ⟨served, es, scripted⟩ := calls_served knotCalls
  obtain ⟨es', rs, s, same, -, -, remembered, -, -, begun, counted⟩ := served scripts
  obtain ⟨rfl, rfl, rfl⟩ := (same _ _ _).1 scripted
  refine ⟨es, _, scripted, begun.symm.trans ends.1, ?_, counted.symm.trans ends.2.2⟩
  exact ends.2.1 ▸ remembered

end Evaluator

end PluginHost
