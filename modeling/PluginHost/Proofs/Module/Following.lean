import PluginHost.Proofs.Module.Frames
import PluginHost.Proofs.Module.Rounds

/-!
How the run of a file follows its run in a round. Whatever the file does, it does with values that
resemble those of the round, as long as the round has an answer to each of its requires.
-/
namespace PluginHost.Evaluator

open Value

section

variable (reach : Reach) (old : List EvaluatedModule)

/-- What is at hand leads to no other evaluated modules than those that are there from the start. -/
structure Grounded : Prop where
  registry : ∀ kind name v, reach.registry.get? kind name = some v → v.within old.length = true
  host : ∀ name bs, lookup? name reach.host = some bs → bindingsWithin old.length bs = true
  modules : ∀ m ∈ old, bindingsWithin old.length m.bindings = true

/-- The module of a round that stands for one of the evaluator: one that was there from the start,
or that of a file which is evaluated in both. -/
inductive Stands (n : Nat) (os : List String) (s : Evaluator) : Nat → Nat → Prop where
  | old {i : Nat} (here : i < old.length) : Stands n os s i i
  | file {q : String} {i : Nat} {bs : Bindings} (loaded : s.loaded.get? q = some i)
      (closed : q ∉ os) (known : outcome reach old n q = some (.ok bs)) :
      Stands n os s (place reach old q) i

/-- How an evaluator agrees with the rounds while some files are open, that is, being evaluated. -/
structure Coherent (os : List String) (s : Evaluator) : Prop where
  start : old <+: s.modules
  opened : ∀ q ∈ os, (s.loaded.get? q).isSome = true
  loaded : ∀ q i, s.loaded.get? q = some i →
    old.length ≤ i ∧ ∃ bs, s.modules[i]? = some ⟨q, bs⟩
  stored : ∀ q i, s.loaded.get? q = some i →
    ∃ source, Finder.Stored reach.store ⟨q, source⟩
  closed : ∀ q i, s.loaded.get? q = some i → q ∉ os → ∀ n r, outcome reach old n q = some r →
    ∃ bs, r = .ok bs ∧ BindingsResemble (Stands reach old n os s) bs (s.bindings i)

/-- All modules but one stay as they are, and so do the entries of all loaded files. -/
structure KeepsBut (own : Nat) (s t : Evaluator) : Prop where
  modules : ∀ i m, i ≠ own → s.modules[i]? = some m → t.modules[i]? = some m
  loaded : ∀ q i, s.loaded.get? q = some i → t.loaded.get? q = some i

end

variable {reach : Reach} {old : List EvaluatedModule} {n m : Nat} {p q : String}
  {os os' : List String} {own i : Nat} {bs : Bindings} {s t : Evaluator} {α β γ δ : Type}
  {v w : Value}

theorem Stands.mono (h : Stands reach old n os s i m) (rounds : n ≤ own)
    (loaded : ∀ q j, q ∉ os → s.loaded.get? q = some j → q ∉ os' ∧ t.loaded.get? q = some j) :
    Stands reach old own os' t i m := by
  cases h with
  | old here => exact .old here
  | file found closed known =>
    obtain ⟨closed', found'⟩ := loaded _ _ closed found
    exact .file found' closed' (outcome_le rounds known)

namespace KeepsBut

theorem refl (own : Nat) (s : Evaluator) : KeepsBut own s s := ⟨fun _ _ _ h => h, fun _ _ h => h⟩

theorem trans {r : Evaluator} (h : KeepsBut own r s) (h' : KeepsBut own s t) :
    KeepsBut own r t where
  modules i m apart hm := h'.modules i m apart (h.modules i m apart hm)
  loaded q i hi := h'.loaded q i (h.loaded q i hi)

theorem stands (h : KeepsBut own s t) {i j : Nat} (hs : Stands reach old n os s i j) :
    Stands reach old n os t i j :=
  hs.mono (Nat.le_refl n) fun q j closed found => ⟨closed, h.loaded q j found⟩

theorem resembles (h : KeepsBut own s t) (hv : Resembles (Stands reach old n os s) w v) :
    Resembles (Stands reach old n os t) w v := hv.mono fun _ _ => h.stands

theorem bind (own : Nat) (s : Evaluator) (name : String) (v : Value) :
    KeepsBut own s (s.bind own name v) where
  modules i m apart hm := by
    simpa [Evaluator.bind, List.getElem?_modify, Ne.symm apart] using hm
  loaded _ _ h := h

end KeepsBut

theorem bindings_bind (own : Nat) (s : Evaluator) (name : String) (v : Value) (i : Nat) :
    (s.bind own name v).bindings i =
      if i = own ∧ i < s.modules.length then putEntry name v (s.bindings i) else s.bindings i := by
  unfold bindings Evaluator.bind
  dsimp only
  rw [List.getElem?_modify]
  by_cases here : own = i
  · subst here
    by_cases inside : own < s.modules.length
    · simp [inside]
    · simp [inside]
  · simp [here, Ne.symm here]

theorem Coherent.getElem?_old (h : Coherent reach old os s) {m : EvaluatedModule}
    (hm : old[i]? = some m) : s.modules[i]? = some m := by
  obtain ⟨more, split⟩ := h.start
  rw [← split, List.getElem?_append_left (List.getElem?_eq_some_iff.1 hm).1, hm]

/-- An open file may bind names. -/
theorem Coherent.bind (h : Coherent reach old (p :: os) s) (mine : s.loaded.get? p = some own)
    (name : String) (v : Value) : Coherent reach old (p :: os) (s.bind own name v) where
  start := by
    obtain ⟨behind, -⟩ := h.loaded p own mine
    rw [List.prefix_iff_getElem?]
    intro i hi
    have before := h.getElem?_old (List.getElem?_eq_getElem hi)
    exact (KeepsBut.bind own s name v).modules i _ (by omega) before
  opened := h.opened
  loaded q i hi := by
    obtain ⟨behind, bs, found⟩ := h.loaded q i hi
    refine ⟨behind, ?_⟩
    by_cases here : own = i
    · exact ⟨putEntry name v bs, by simp [Evaluator.bind, here, found]⟩
    · exact ⟨bs, (KeepsBut.bind own s name v).modules i _ (Ne.symm here) found⟩
  stored := h.stored
  closed q i hi closed n r known := by
    obtain ⟨bs, rfl, resembles⟩ := h.closed q i hi closed n r known
    have apart : i ≠ own := by
      rintro rfl
      obtain ⟨-, _, found⟩ := h.loaded q i hi
      obtain ⟨-, _, found'⟩ := h.loaded p i mine
      obtain rfl := congrArg EvaluatedModule.path (Option.some.inj (found.symm.trans found'))
      exact closed (List.mem_cons_self ..)
    refine ⟨bs, rfl, ?_⟩
    rw [bindings_bind, if_neg fun here => apart here.1]
    exact resembles.mono fun _ _ hs => hs.mono (Nat.le_refl n) fun _ _ out found => ⟨out, found⟩

theorem bindings_stage (known : Outcomes) :
    (stage reach old known p bs).bindings (last reach old) = bs := by
  have lengths : (old ++ reach.store.paths.map (knownModule known)).length = last reach old := by
    simp [last]
  rw [bindings, stage, ← lengths, List.getElem?_concat_length]

theorem modify_concat (ms : List EvaluatedModule) (m : EvaluatedModule)
    (f : EvaluatedModule → EvaluatedModule) : (ms ++ [m]).modify ms.length f = ms ++ [f m] := by
  induction ms with
  | nil => rfl
  | cons _ ms ih => exact congrArg (_ :: ·) ih

theorem bind_stage (known : Outcomes) (name : String) (v : Value) :
    (stage reach old known p bs).bind (last reach old) name v =
      stage reach old known p (putEntry name v bs) := by
  have lengths : (old ++ reach.store.paths.map (knownModule known)).length = last reach old := by
    simp [last]
  rw [Evaluator.bind, stage, stage, ← lengths, modify_concat]

theorem getElem?_stage_place (known : Outcomes) (hq : q ∈ reach.store.paths) :
    (stage reach old known p bs).modules[place reach old q]? = some (knownModule known q) := by
  have inside := List.idxOf_lt_length_of_mem hq
  rw [stage, place, List.append_assoc, List.getElem?_append_right (by omega),
    Nat.add_sub_cancel_left, List.getElem?_append_left (by simpa using inside), List.getElem?_map,
    List.getElem?_eq_getElem inside, List.getElem_idxOf]
  rfl

theorem getElem?_stage_old (known : Outcomes) (hi : i < old.length) :
    (stage reach old known p bs).modules[i]? = old[i]? := by
  rw [stage, List.append_assoc, List.getElem?_append_left hi]

theorem resembles_of_within (h : v.within old.length = true) :
    Resembles (Stands reach old n os s) v v :=
  Resembles.refl (fun _ here => .old here) v h

/-- A file that is evaluated in a round, while other files are open. -/
structure Part where
  reach : Reach
  old : List EvaluatedModule
  round : Nat
  path : String
  others : List String

namespace Part

variable (x : Part)

/-- What is known in the round, with the file having bound some names. -/
def stage (bs : Bindings) : Evaluator :=
  Evaluator.stage x.reach x.old (outcome x.reach x.old x.round) x.path bs

def scope : Scope := stageScope x.reach x.old (outcome x.reach x.old x.round) x.path

def Coherent (s : Evaluator) : Prop := Evaluator.Coherent x.reach x.old (x.path :: x.others) s

/-- The module of the round that stands for one of the evaluator. -/
def Stands (s : Evaluator) : Nat → Nat → Prop :=
  Evaluator.Stands x.reach x.old x.round (x.path :: x.others) s

/-- Values of the round and of the evaluator that are alike. -/
def Alike (s : Evaluator) (w v : Value) : Prop := Resembles (x.Stands s) w v

/-- The file is as far in the evaluator as it is in the round when it has bound some names. -/
structure Abreast (own : Nat) (bs : Bindings) (s : Evaluator) : Prop where
  coherent : x.Coherent s
  mine : s.loaded.get? x.path = some own
  bindings : BindingsResemble (x.Stands s) bs (s.bindings own)

/-- How a step of the file follows the same step in the round: the round has no answer, or the step
fails in both, or it has corresponding results. -/
inductive Follows {α β : Type} (own : Nat) (s : Evaluator) (R : Evaluator → α → β → Prop) :
    Except Failure α × Evaluator → Except Failure β × Evaluator → Prop where
  | stuck {f : Failure} {t : Evaluator} {r : Except Failure β × Evaluator}
      (unknown : isUnanswered f = true) : Follows own s R (.error f, t) r
  | failed {f g : Failure} {t s' : Evaluator} (coherent : x.Coherent s')
      (keeps : KeepsBut own s s') : Follows own s R (.error f, t) (.error g, s')
  | done {w : α} {v : β} {bs : Bindings} {s' : Evaluator} (abreast : x.Abreast own bs s')
      (keeps : KeepsBut own s s') (result : R s' w v) :
      Follows own s R (.ok w, x.stage bs) (.ok v, s')

/-- Whether a step of the file follows a step in the round from where they stand. -/
def Tracks {α β : Type} (own : Nat) (bs : Bindings) (s : Evaluator) (a : Run α) (b : Run β)
    (R : Evaluator → α → β → Prop) : Prop :=
  x.Follows own s R (a.run.run (x.stage bs)) (b.run.run s)

variable {x} {α β γ δ : Type} {own : Nat} {bs : Bindings} {s : Evaluator} {v w : Value}

/-- Values that are alike have members that are alike. -/
theorem members_alike (g : Grounded x.reach x.old) (c : x.Coherent s) (h : x.Alike s w v)
    (bs : Bindings) :
    BindingsResemble (x.Stands s) ((x.stage bs).members x.reach.host w).2
      (s.members x.reach.host v).2 := by
  cases h with
  | host name =>
    unfold members
    dsimp only
    cases found : lookup? name x.reach.host with
    | none => exact .nil
    | some entries => exact .refl (fun _ here => .old here) entries (g.host name entries found)
  | file place =>
    unfold members
    dsimp only
    cases place with
    | old here =>
      have hm := List.getElem?_eq_getElem here
      rw [stage, getElem?_stage_old _ here, hm, c.getElem?_old hm]
      exact .refl (fun _ here => .old here) _ (g.modules _ (List.mem_of_getElem? hm))
    | @file q _ entries loaded closed known =>
      obtain ⟨-, found, hm⟩ := c.loaded q _ loaded
      obtain ⟨_, same, resembles⟩ := c.closed q _ loaded closed x.round _ known
      obtain rfl := Except.ok.inj same
      rw [bindings, hm] at resembles
      rw [stage, getElem?_stage_place _ (mem_paths_of_outcome known), hm, knownModule, known]
      exact resembles
  | _ => exact .nil

namespace Tracks

variable {a : Run α} {b : Run β} {f : α → Run γ} {h : β → Run δ} {R : Evaluator → α → β → Prop}
  {R' : Evaluator → γ → δ → Prop}

theorem pure {w : α} {v : β} (along : x.Abreast own bs s) (result : R s w v) :
    x.Tracks own bs s (Pure.pure w) (Pure.pure v) R :=
  .done along (.refl own s) result

theorem fail {f g : Fault} (along : x.Abreast own bs s) :
    x.Tracks own bs s (fail f : Run α) (Evaluator.fail g : Run β) R :=
  .failed along.coherent (.refl own s)

theorem bind (first : x.Tracks own bs s a b R)
    (next : ∀ w v bs' s', x.Abreast own bs' s' → KeepsBut own s s' → R s' w v →
      x.Tracks own bs' s' (f w) (h v) R') :
    x.Tracks own bs s (a >>= f) (b >>= h) R' := by
  unfold Tracks at first ⊢
  rw [run_bind, run_bind]
  generalize a.run.run _ = y at first
  generalize b.run.run s = z at first
  cases first with
  | stuck unknown => exact .stuck unknown
  | failed coherent keeps => exact .failed coherent keeps
  | @done w v bs' s' along keeps result =>
    have rest := next w v bs' s' along keeps result
    unfold Tracks at rest
    dsimp only
    generalize (f w).run.run _ = y at rest ⊢
    generalize (h v).run.run s' = z at rest ⊢
    cases rest with
    | stuck unknown => exact .stuck unknown
    | failed coherent keeps' => exact .failed coherent (keeps.trans keeps')
    | done along keeps' result => exact .done along (keeps.trans keeps') result

end Tracks

theorem Abreast.bind (along : x.Abreast own bs s) (h : x.Alike s w v) (name : String) :
    x.Abreast own (putEntry name w bs) (s.bind own name v) where
  coherent := along.coherent.bind along.mine name v
  mine := along.mine
  bindings := by
    obtain ⟨-, _, found⟩ := along.coherent.loaded x.path own along.mine
    have inside := (List.getElem?_eq_some_iff.1 found).1
    rw [bindings_bind, if_pos ⟨rfl, inside⟩]
    have keeps := KeepsBut.bind own s name v
    exact (along.bindings.put h name).mono fun _ _ => keeps.stands

/-- A name is bound to values that are alike. -/
theorem Abreast.modify {scope : Scope} (along : x.Abreast scope.index bs s) (h : x.Alike s w v)
    (name : String) : x.Tracks scope.index bs s (modify (·.bind x.scope.index name w))
      (modify (·.bind scope.index name v)) fun _ _ _ => True := by
  have step : (x.stage bs).bind x.scope.index name w = x.stage (putEntry name w bs) :=
    bind_stage _ name w
  have follows : x.Follows scope.index s (fun _ _ _ => True)
      (.ok PUnit.unit, (x.stage bs).bind x.scope.index name w)
      (.ok PUnit.unit, s.bind scope.index name v) :=
    step ▸ .done (along.bind h name) (.bind ..) trivial
  exact follows

theorem Abreast.itemOf (along : x.Abreast own bs s) (h : x.Alike s w v) (key : String) :
    x.Tracks own bs s (Scope.itemOf w key) (Scope.itemOf v key) x.Alike := by
  cases h with
  | dict entries =>
    have found := entries.lookup key
    unfold Scope.itemOf
    dsimp only
    generalize lookup? key _ = y at found ⊢
    generalize lookup? key _ = z at found ⊢
    cases found with
    | none => exact .fail along
    | some same => exact .pure along same
  | _ => exact .fail along

theorem Abreast.nameOf {scope : Scope} (along : x.Abreast scope.index bs s) (name : String) :
    x.Tracks scope.index bs s (x.scope.nameOf name) (scope.nameOf name) x.Alike := by
  have found := along.bindings.lookup name
  unfold Tracks
  rw [run_nameOf, run_nameOf, stage, show x.scope.index = last x.reach x.old from rfl,
    bindings_stage]
  generalize lookup? name bs = y at found ⊢
  generalize lookup? name _ = z at found ⊢
  cases found with
  | none => exact .failed along.coherent (.refl ..)
  | some same => exact .done along (.refl ..) same

/-- How the run of a file goes along with the round: it can reach the same, and the answers that the
round has to its requires are alike those that it gets. -/
structure Along (x : Part) (scope : Scope) : Prop where
  grounded : Grounded x.reach x.old
  reaches : scope.reach = x.reach
  asks : ∀ bs s w v, x.Abreast scope.index bs s → x.Alike s w v →
    x.Tracks scope.index bs s (x.scope.require w) (scope.require v) x.Alike

namespace Along

variable {scope : Scope} (k : x.Along scope)

section

variable (along : x.Abreast scope.index bs s)

include k along

theorem memberOf (h : x.Alike s w v) (name : String) :
    x.Tracks scope.index bs s (x.scope.memberOf w name) (scope.memberOf v name) x.Alike := by
  have found := (members_alike k.grounded along.coherent h bs).lookup name
  unfold Tracks
  rw [run_memberOf, run_memberOf, k.reaches, show x.scope.reach = x.reach from rfl]
  generalize lookup? name _ = y at found ⊢
  generalize lookup? name _ = z at found ⊢
  cases found with
  | none => exact .failed along.coherent (.refl ..)
  | some same => exact .done along (.refl ..) same

theorem installed (kind : ModuleKind) (name : String) :
    x.Tracks scope.index bs s (Pure.pure (x.scope.reach.registry.get kind name))
      (Pure.pure (scope.reach.registry.get kind name)) x.Alike := by
  refine .pure along ?_
  rw [k.reaches, show x.scope.reach = x.reach from rfl, Registry.get]
  cases found : x.reach.registry.get? kind name with
  | none => exact .null
  | some v => exact resembles_of_within (k.grounded.registry kind name v found)

end

theorem keepsBindings {t : Evaluator} {es fs : Bindings} (keeps : KeepsBut own s t)
    (h : BindingsResemble (x.Stands s) es fs) : BindingsResemble (x.Stands t) es fs :=
  h.mono fun _ _ => keeps.stands

mutual

theorem value (k : x.Along scope) : ∀ e {bs s}, x.Abreast scope.index bs s →
    x.Tracks scope.index bs s (x.scope.value e) (scope.value e) x.Alike
  | .null, _, _, along => by
    simp only [Scope.value]
    exact .pure along .null
  | .bool b, _, _, along => by
    simp only [Scope.value]
    exact .pure along (.bool b)
  | .int i, _, _, along => by
    simp only [Scope.value]
    exact .pure along (.int i)
  | .text t, _, _, along => by
    simp only [Scope.value]
    exact .pure along (.text t)
  | .installed kind name, _, _, along => by
    simp only [Scope.value]
    exact k.installed along kind name
  | .name name, _, _, along => by
    rw [Scope.value, Scope.value]
    exact along.nameOf name
  | .list es, _, _, along => by
    rw [Scope.value, Scope.value]
    exact (k.values es along).bind fun _ _ _ _ along _ same => .pure along (.list same)
  | .dict es, _, _, along => by
    rw [Scope.value, Scope.value]
    exact (k.entries es along .nil).bind fun _ _ _ _ along _ same => .pure along (.dict same)
  | .item e key, _, _, along => by
    rw [Scope.value, Scope.value]
    exact (k.value e along).bind fun _ _ _ _ along _ same => along.itemOf same key
  | .member e name, _, _, along => by
    rw [Scope.value, Scope.value]
    exact (k.value e along).bind fun _ _ _ _ along _ same => k.memberOf along same name
  | .require e, _, _, along => by
    rw [Scope.value, Scope.value]
    exact (k.value e along).bind fun w v bs s along _ same => k.asks bs s w v along same

theorem values (k : x.Along scope) : ∀ es {bs s}, x.Abreast scope.index bs s →
    x.Tracks scope.index bs s (x.scope.values es) (scope.values es)
      fun s ws vs => AllResemble (x.Stands s) ws vs
  | [], _, _, along => by
    rw [Scope.values, Scope.values]
    exact .pure along .nil
  | e :: es, _, _, along => by
    rw [Scope.values, Scope.values]
    refine (k.value e along).bind fun _ _ _ _ along _ same => ?_
    refine (k.values es along).bind fun _ _ _ _ along keeps rest => .pure along ?_
    exact .cons (keeps.resembles same) rest

theorem entries (k : x.Along scope) : ∀ es {bs s done done'}, x.Abreast scope.index bs s →
    BindingsResemble (x.Stands s) done done' →
    x.Tracks scope.index bs s (x.scope.entries done es) (scope.entries done' es)
      fun s es fs => BindingsResemble (x.Stands s) es fs
  | [], _, _, _, _, along, before => by
    rw [Scope.entries, Scope.entries]
    exact .pure along before
  | (key, e) :: es, _, _, _, _, along, before => by
    rw [Scope.entries, Scope.entries]
    refine (k.value e along).bind fun _ _ _ _ along keeps same => ?_
    exact k.entries es along ((keepsBindings keeps before).put same key)

end

include k

theorem statement (st : Script.Statement) (along : x.Abreast scope.index bs s) :
    x.Tracks scope.index bs s (x.scope.statement st) (scope.statement st) fun _ _ _ => True := by
  cases st with
  | bind name e => exact (k.value e along).bind fun _ _ _ _ along _ same => along.modify same name
  | run e => exact (k.value e along).bind fun _ _ _ _ along _ _ => .pure along trivial
  | raiseValue text => exact .fail along
  | raiseRuntime text => exact .fail along

theorem script (sts : Script) (along : x.Abreast scope.index bs s) :
    x.Tracks scope.index bs s (x.scope.script sts) (scope.script sts) fun _ _ _ => True := by
  induction sts generalizing bs s with
  | nil => exact .pure along trivial
  | cons st sts ih => exact (k.statement st along).bind fun _ _ _ _ along _ _ => ih along

/-- The run of a file follows its run in the round. -/
theorem fill (file : ModuleFile) (along : x.Abreast scope.index bs s) :
    x.Tracks scope.index bs s (Evaluator.fill x.scope file) (Evaluator.fill scope file)
      fun _ _ _ => True := by
  unfold Evaluator.fill
  split
  · exact .fail along
  · split
    · split
      · exact along.modify (.refl (fun i (here : i < 0) => absurd here (Nat.not_lt_zero i)) _
          (within_ofJson _)) "default"
      · exact .fail along
    · split
      · exact k.script _ along
      · exact .fail along

end Along

end Part

end PluginHost.Evaluator
