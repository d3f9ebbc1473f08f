import Mathlib.Data.List.Perm.Subperm
import PluginHost.Proofs.Module.Following

/-!
Which loaded files could be evaluated on their own. While files are loaded, all that are remembered
agree with what the rounds know of them. A file whose requires run into a cycle may be remembered
only for what else was being evaluated at that time, but every other one is evaluated alike at any
time.
-/
namespace PluginHost.Evaluator

open Value

variable {reach : Reach} {old : List EvaluatedModule} {n m : Nat} {p q : String}
  {os : List String} {own i : Nat} {s t : Evaluator} {file : ModuleFile} {f : Failure}
  {o : Except Failure Bindings} {v w : Value} {r : Except Failure Value}

/-- What a file has at hand when it is loaded. -/
def loadScope (reach : Reach) (load : ModuleFile → Run Value) (own : Nat) (path : String) : Scope :=
  ⟨own, reach, require reach load path⟩

/-- A file that was run is remembered, or forgotten. -/
def concluded (own : Nat) (path : String) :
    Except Failure Unit × Evaluator → Except Failure Value × Evaluator
  | (.ok _, t) => (.ok (t.exportOf own), t.counted)
  | (.error f, t) => (.error f, t.forgotten path)

/-- How loading a file ends. -/
theorem run_load (reach : Reach) (fuel : Nat) (file : ModuleFile) (s : Evaluator) :
    (load reach (fuel + 1) file).run.run s =
      match s.loaded.get? file.path with
      | some i => (.ok (s.exportOf i), s)
      | none => concluded s.modules.length file.path
          ((fill (loadScope reach (load reach fuel) s.modules.length file.path) file).run.run
            (s.opened file.path)) := by
  rw [load, run_bind]
  show ((match s.loaded.get? file.path with
    | some i => _
    | none => _ : Run Value)).run.run s = _
  cases s.loaded.get? file.path with
  | some i => rfl
  | none =>
    dsimp only
    rw [run_bind]
    show (_ : Run Value).run.run s = _
    rw [run_bind]
    show (_ : Run Value).run.run (s.opened file.path) = _
    rw [run_bind, run_tryCatch, loadScope]
    rcases (fill _ file).run.run (s.opened file.path) with ⟨why | v, t⟩ <;> rfl

/-- Opening a file leaves the loaded files as they are. -/
theorem get?_opened (new : s.loaded.get? p = none) (hi : s.loaded.get? q = some i) :
    p ≠ q ∧ (s.opened p).loaded.get? q = some i := by
  have apart : p ≠ q := by
    rintro rfl
    cases new.symm.trans hi
  exact ⟨apart, by simp [Evaluator.opened, apart, hi]⟩

theorem eq_or_loaded_of_opened (hi : (s.opened p).loaded.get? q = some i) :
    p = q ∧ i = s.modules.length ∨ p ≠ q ∧ s.loaded.get? q = some i := by
  by_cases same : p = q
  · simp [Evaluator.opened, same] at hi
    exact .inl ⟨same, hi.symm⟩
  · simp [Evaluator.opened, same] at hi
    exact .inr ⟨same, hi⟩

theorem getElem?_opened {m : EvaluatedModule} (hm : s.modules[i]? = some m) :
    (s.opened p).modules[i]? = some m :=
  (List.getElem?_append_left (List.getElem?_eq_some_iff.1 hm).1).trans hm

namespace Coherent

variable {source : Content}

/-- A file that is not loaded may be opened. -/
theorem opening (h : Coherent reach old os s) (new : s.loaded.get? p = none)
    (stored : Finder.Stored reach.store ⟨p, source⟩) :
    Coherent reach old (p :: os) (s.opened p) where
  start := h.start.trans (List.prefix_append ..)
  opened q hq := by
    rcases List.mem_cons.1 hq with rfl | hq
    · simp [Evaluator.opened]
    · obtain ⟨i, hi⟩ := Option.isSome_iff_exists.1 (h.opened q hq)
      rw [(get?_opened new hi).2]
      rfl
  loaded q i hi := by
    rcases eq_or_loaded_of_opened hi with ⟨rfl, rfl⟩ | ⟨-, hi⟩
    · exact ⟨h.start.length_le, [], by simp [Evaluator.opened]⟩
    · obtain ⟨behind, bs, hm⟩ := h.loaded q i hi
      exact ⟨behind, bs, getElem?_opened hm⟩
  stored q i hi := by
    rcases eq_or_loaded_of_opened hi with ⟨rfl, -⟩ | ⟨-, hi⟩
    · exact ⟨source, stored⟩
    · exact h.stored q i hi
  closed q i hi closed n o known := by
    rcases eq_or_loaded_of_opened hi with ⟨rfl, -⟩ | ⟨apart, hi⟩
    · exact (closed (List.mem_cons_self ..)).elim
    · have out : q ∉ os := fun hq => closed (List.mem_cons_of_mem _ hq)
      obtain ⟨bs, rfl, same⟩ := h.closed q i hi out n o known
      obtain ⟨-, _, hm⟩ := h.loaded q i hi
      refine ⟨bs, rfl, ?_⟩
      rw [bindings, getElem?_opened hm]
      rw [bindings, hm] at same
      refine same.mono fun _ _ hs => hs.mono (Nat.le_refl n) fun q j out found => ?_
      obtain ⟨apart, found⟩ := get?_opened new found
      exact ⟨by simp [Ne.symm apart, out], found⟩

/-- A file that binds what the rounds know of it may be closed. -/
theorem closing (h : Coherent reach old (p :: os) t) (mine : t.loaded.get? p = some own)
    (known : ∀ n o, outcome reach old n p = some o → ∃ bs, o = .ok bs ∧
      BindingsResemble (Stands reach old n (p :: os) t) bs (t.bindings own)) :
    Coherent reach old os t.counted := by
  have stands {n i j : Nat} (hs : Stands reach old n (p :: os) t i j) :
      Stands reach old n os t.counted i j :=
    hs.mono (Nat.le_refl n) fun q j out found =>
      ⟨fun hq => out (List.mem_cons_of_mem _ hq), found⟩
  refine ⟨h.start, fun q hq => h.opened q (List.mem_cons_of_mem _ hq), h.loaded, h.stored, ?_⟩
  intro q i hi closed n o ho
  by_cases same : q = p
  · subst same
    obtain rfl := Option.some.inj (mine.symm.trans hi)
    obtain ⟨bs, rfl, same⟩ := known n o ho
    exact ⟨bs, rfl, same.mono fun _ _ => stands⟩
  · obtain ⟨bs, rfl, same⟩ := h.closed q i hi (by simp [same, closed]) n o ho
    exact ⟨bs, rfl, same.mono fun _ _ => stands⟩

/-- A file that cannot be evaluated may be forgotten. -/
theorem forgetting (h : Coherent reach old (p :: os) t) (new : p ∉ os) :
    Coherent reach old os (t.forgotten p) := by
  have kept {q : String} {i : Nat} (apart : p ≠ q) (hi : t.loaded.get? q = some i) :
      (t.forgotten p).loaded.get? q = some i := by
    rw [forgotten, Table.get?_erase, if_neg apart, hi]
  have entry {q : String} {i : Nat} (hi : (t.forgotten p).loaded.get? q = some i) :
      p ≠ q ∧ t.loaded.get? q = some i := by
    rw [forgotten, Table.get?_erase] at hi
    split at hi
    · cases hi
    · rename_i apart
      exact ⟨apart, hi⟩
  refine ⟨h.start, fun q hq => ?_, fun q i hi => h.loaded q i (entry hi).2,
    fun q i hi => h.stored q i (entry hi).2, fun q i hi closed n o ho => ?_⟩
  · obtain ⟨i, hi⟩ := Option.isSome_iff_exists.1 (h.opened q (List.mem_cons_of_mem _ hq))
    have apart : p ≠ q := by
      rintro rfl
      exact new hq
    rw [kept apart hi]
    rfl
  · obtain ⟨apart, hi⟩ := entry hi
    obtain ⟨bs, rfl, same⟩ := h.closed q i hi (by simp [Ne.symm apart, closed]) n o ho
    refine ⟨bs, rfl, same.mono fun _ _ hs => hs.mono (Nat.le_refl n) fun q j out found => ?_⟩
    obtain ⟨apart, out⟩ := List.ne_and_not_mem_of_not_mem_cons out
    exact ⟨out, kept (Ne.symm apart) found⟩

end Coherent

/-- What requires keep is kept by every request that loads a file of the store. -/
theorem require_stays {G : Evaluator → Evaluator → Prop} (refl : ∀ s, G s s)
    {load : ModuleFile → Run Value}
    (loads : ∀ file, Finder.Stored reach.store file → Stays G (load file)) (importer : String)
    (v : Value) : Stays G (require reach load importer v) := by
  unfold require
  split
  · dsimp only
    split
    · exact fun s => refl s
    · unfold exportFor
      intro s
      rw [run_bind]
      cases found : reach.finder.resolve reach.store ⟨_, some importer⟩ with
      | error why => exact refl s
      | ok file =>
        cases file with
        | none => exact refl s
        | some file => exact loads file (Finder.stored_of_resolvePath found) s
  · exact fun s => refl s

theorem Grounded.within_of_installed (g : Grounded reach old) {name : String}
    (h : installed? reach.registry name = some v) : v.within old.length = true := by
  have kind {kind : ModuleKind}
      (h : (reach.registry.get? kind name).filter (!·.isNull) = some v) :
      v.within old.length = true :=
    g.registry kind name v (Option.filter_eq_some_iff.1 h).1
  rcases Option.or_eq_some_iff.1 h with plugin | ⟨-, preset⟩
  · exact kind plugin
  · exact kind preset

/-- A request of an open file has an answer in the round that is alike, if each file that it can
lead to has. -/
theorem Part.Abreast.require {x : Part} (g : Grounded x.reach x.old) {bs : Bindings}
    (along : x.Abreast own bs s) {load : ModuleFile → Run Value}
    (loads : ∀ file, Finder.Stored x.reach.store file → x.Tracks own bs s
      (knownExport x.reach x.old (outcome x.reach x.old x.round) file) (load file) x.Alike)
    (same : x.Alike s w v) :
    x.Tracks own bs s (x.scope.require w) (require x.reach load x.path v) x.Alike := by
  show x.Tracks own bs s (Evaluator.require x.reach _ x.path w) _ _
  cases same with
  | text request =>
    unfold Evaluator.require
    dsimp only
    cases installed : (if ModuleRequest.isBare request then
        installed? x.reach.registry request else none) with
    | some v =>
      refine .pure along (resembles_of_within ?_)
      split at installed
      · exact g.within_of_installed installed
      · cases installed
    | none =>
      unfold exportFor Part.Tracks
      rw [run_bind, run_bind]
      cases found : x.reach.finder.resolve x.reach.store ⟨request, some x.path⟩ with
      | error why => exact .failed along.coherent (.refl own s)
      | ok file =>
        cases file with
        | none => exact .failed along.coherent (.refl own s)
        | some file => exact loads file (Finder.stored_of_resolvePath found)
  | _ => exact .failed along.coherent (.refl own s)

section

variable (reach old)

/-- A file is evaluated in an earlier round than each file that is open. -/
def Rises (os : List String) (p : String) : Prop :=
  ∀ z ∈ os, ∀ n o, outcome reach old n z = some o →
    ∃ m < n, (outcome reach old m p).isSome = true

/-- A result of loading a file that is alike what is known of the file. -/
inductive Matches (n : Nat) (os : List String) (t : Evaluator) (p : String) :
    Except Failure Bindings → Except Failure Value → Prop where
  | ok {bs : Bindings} {v : Value} (same : Resembles (Stands reach old n os t)
      ((lookup? "default" bs).getD (.module (.file (place reach old p)))) v) :
      Matches n os t p (.ok bs) (.ok v)
  | error {f g : Failure} : Matches n os t p (.error f) (.error g)

/-- How loading a file ends, with some files open. -/
structure Loads (os : List String) (p : String) (s : Evaluator) (r : Except Failure Value)
    (t : Evaluator) : Prop where
  coherent : Coherent reach old os t
  modules : ∀ (i : Nat) (m : EvaluatedModule), s.modules[i]? = some m → t.modules[i]? = some m
  loaded : ∀ q i, s.loaded.get? q = some i → t.loaded.get? q = some i
  result : ∀ n o, outcome reach old n p = some o → Matches reach old n os t p o r

end

/-- How the run of an open file ends. -/
structure Fills (reach : Reach) (old : List EvaluatedModule) (os : List String) (p : String)
    (own : Nat) (s : Evaluator) (r : Except Failure Unit) (t : Evaluator) : Prop where
  coherent : Coherent reach old (p :: os) t
  keeps : KeepsBut own s t
  result : ∀ n o, outcome reach old n p = some o →
    (∃ bs, o = .ok bs ∧ r = .ok () ∧
      BindingsResemble (Stands reach old n (p :: os) t) bs (t.bindings own)) ∨
    ∃ f g, o = .error f ∧ r = .error g

/-- A file that is open, and required by open files, is evaluated in no round. -/
theorem Rises.outcome_eq_none (h : Rises reach old os p) (hp : p ∈ os) (n : Nat) :
    outcome reach old n p = none := by
  induction n using Nat.strong_induction_on with
  | _ n ih =>
    cases known : outcome reach old n p with
    | none => rfl
    | some o =>
      obtain ⟨m, early, some⟩ := h p hp n o known
      rw [ih m early] at some
      cases some

theorem Loads.keepsBut {r : Except Failure Value} (h : Loads reach old os p s r t) (own : Nat) :
    KeepsBut own s t := ⟨fun i m _ hm => h.modules i m hm, h.loaded⟩

/-- What a file exports that binds what is known of it. -/
theorem matches_of_bindings {bs : Bindings} (mine : t.loaded.get? p = some own) (closed : p ∉ os)
    (known : outcome reach old n p = some (.ok bs))
    (same : BindingsResemble (Stands reach old n os t) bs (t.bindings own)) :
    Matches reach old n os t p (.ok bs) (.ok (t.exportOf own)) := by
  refine .ok ?_
  have found := same.lookup "default"
  rw [exportOf]
  generalize lookup? "default" bs = y at found ⊢
  generalize lookup? "default" _ = z at found ⊢
  cases found with
  | none => exact .file (.file mine closed known)
  | some same => exact same

/-- An open file stays as far as it is while another one is loaded. -/
theorem Loads.abreast {x : Part} {bs : Bindings} (along : x.Abreast own bs s)
    (ends : Loads x.reach x.old (x.path :: x.others) p s r t) : x.Abreast own bs t := by
  obtain ⟨-, _, hm⟩ := along.coherent.loaded x.path own along.mine
  have before := along.bindings
  refine ⟨ends.coherent, ends.loaded _ _ along.mine, ?_⟩
  rw [bindings, hm] at before
  rw [bindings, ends.modules own _ hm]
  exact before.mono fun _ _ => (ends.keepsBut own).stands

/-- The answer of a round to a request is alike what loading the file comes to. -/
theorem Loads.tracks {x : Part} {bs : Bindings} {load : Run Value} (along : x.Abreast own bs s)
    (loads : ∀ o, outcome x.reach x.old x.round file.path = some o →
      Loads x.reach x.old (x.path :: x.others) file.path s (load.run.run s).1 (load.run.run s).2) :
    x.Tracks own bs s (knownExport x.reach x.old (outcome x.reach x.old x.round) file) load
      x.Alike := by
  unfold Part.Tracks knownExport
  cases known : outcome x.reach x.old x.round file.path with
  | none => exact .stuck rfl
  | some o =>
    have ends := loads o known
    have result := ends.result _ _ known
    generalize load.run.run s = y at ends result ⊢
    rcases y with ⟨r, t⟩
    cases result with
    | ok same => exact .done (ends.abreast along) (ends.keepsBut own) same
    | error => exact .failed ends.coherent (ends.keepsBut own)

section

variable (g : Grounded reach old) {load : ModuleFile → Run Value}
  (opened : Coherent reach old (file.path :: os) s)
  (mine : s.loaded.get? file.path = some own)

include opened mine

/-- The run of a file that is evaluated in no round. -/
theorem fills_of_not_settles (never : ¬ Settles reach old file.path)
    (loads : ∀ f s, Finder.Stored reach.store f → Coherent reach old (file.path :: os) s →
      Loads reach old (file.path :: os) f.path s ((load f).run.run s).1 ((load f).run.run s).2) :
    Fills reach old os file.path own s
      ((fill (loadScope reach load own file.path) file).run.run s).1
      ((fill (loadScope reach load own file.path) file).run.run s).2 := by
  let G (s t : Evaluator) : Prop := Coherent reach old (file.path :: os) s →
    s.loaded.get? file.path = some own →
      Coherent reach old (file.path :: os) t ∧ KeepsBut own s t
  have refl (s : Evaluator) : G s s := fun c _ => ⟨c, .refl own s⟩
  have kept (f : ModuleFile) (stored : Finder.Stored reach.store f) : Stays G (load f) := by
    intro s c _
    have ends := loads f s stored c
    exact ⟨ends.coherent, ends.keepsBut own⟩
  have frame : Frame G (loadScope reach load own file.path) := by
    refine ⟨refl, fun r s t first second c mine => ?_, require_stays refl kept file.path, ?_⟩
    · obtain ⟨c, keeps⟩ := first c mine
      obtain ⟨c, keeps'⟩ := second c (keeps.loaded _ _ mine)
      exact ⟨c, keeps.trans keeps'⟩
    · exact fun s name v c mine => ⟨c.bind mine name v, .bind own s name v⟩
  obtain ⟨coherent, keeps⟩ := frame.fill file s opened mine
  exact ⟨coherent, keeps, fun n o known => (never ⟨n, by rw [known]; rfl⟩).elim⟩

include g

/-- The run of a file that is evaluated in some round follows its run there. -/
theorem fills_of_settles (settles : Settles reach old file.path)
    (stored : Finder.Stored reach.store file) (nothing : s.bindings own = [])
    (rises : Rises reach old os file.path)
    (loads : ∀ f s, Finder.Stored reach.store f → Coherent reach old (file.path :: os) s →
      Rises reach old (file.path :: os) f.path →
      Loads reach old (file.path :: os) f.path s ((load f).run.run s).1 ((load f).run.run s).2) :
    Fills reach old os file.path own s
      ((fill (loadScope reach load own file.path) file).run.run s).1
      ((fill (loadScope reach load own file.path) file).run.run s).2 := by
  obtain ⟨n, source, o, first, read, run⟩ := settles.first
  obtain rfl := Option.some.inj (stored.read.symm.trans read)
  let x : Part := ⟨reach, old, n, file.path, os⟩
  have along : x.Along (loadScope reach load own file.path) := by
    refine ⟨g, rfl, fun bs s w v along same => along.require g (fun f stored => ?_) same⟩
    refine Loads.tracks along fun o known => loads f s stored along.coherent fun z hz m r hr => ?_
    have some : (outcome reach old n f.path).isSome = true := by rw [known]; rfl
    rcases List.mem_cons.1 hz with rfl | hz
    · exact ⟨n, (first m r hr).1, some⟩
    · obtain ⟨m', early, before⟩ := rises z hz m r hr
      obtain ⟨r', hr'⟩ := Option.isSome_iff_exists.1 before
      exact ⟨n, (first m' r' hr').1.trans early, some⟩
  have abreast : x.Abreast own [] s := ⟨opened, mine, by rw [nothing]; exact .nil⟩
  have follows := along.fill file abreast
  have later {t : Evaluator} {bs : Bindings} {m : Nat} {r : Except Failure Bindings}
      (hr : outcome reach old m file.path = some r) (h : x.Abreast own bs t) :
      BindingsResemble (Stands reach old m (file.path :: os) t) bs (t.bindings own) :=
    h.bindings.mono fun _ _ hs => hs.mono (first m r hr).1.le fun _ _ out found => ⟨out, found⟩
  unfold Part.Tracks at follows
  change conclusion (last reach old) ((Evaluator.fill x.scope file).run.run (x.stage [])) = some o
    at run
  generalize (Evaluator.fill x.scope file).run.run (x.stage []) = y at follows run
  generalize (Evaluator.fill _ file).run.run s = z at follows ⊢
  cases follows with
  | @stuck f t r unknown =>
    rw [conclusion, if_pos unknown] at run
    cases run
  | @failed f _ t s' coherent keeps =>
    refine ⟨coherent, keeps, fun m r hr => .inr ?_⟩
    rw [conclusion] at run
    split at run
    · cases run
    · obtain rfl := Option.some.inj run
      exact ⟨f, _, (first m r hr).2, rfl⟩
  | @done w v bs s' abreast keeps result =>
    refine ⟨abreast.coherent, keeps, fun m r hr => .inl ⟨bs, ?_, rfl, later hr abreast⟩⟩
    rw [(first m r hr).2, ← Option.some.inj run]
    exact congrArg Except.ok (bindings_stage _)

end

theorem modules_of_opened {u : Evaluator} (keeps : KeepsBut s.modules.length (s.opened p) u)
    (i : Nat) (m : EvaluatedModule) (hm : s.modules[i]? = some m) : u.modules[i]? = some m := by
  have inside := (List.getElem?_eq_some_iff.1 hm).1
  exact keeps.modules i m (Nat.ne_of_lt inside) (getElem?_opened hm)

theorem loaded_of_opened {u : Evaluator} (new : s.loaded.get? p = none)
    (keeps : KeepsBut s.modules.length (s.opened p) u) (q : String) (i : Nat)
    (hi : s.loaded.get? q = some i) : p ≠ q ∧ u.loaded.get? q = some i := by
  obtain ⟨apart, there⟩ := get?_opened new hi
  exact ⟨apart, keeps.loaded q i there⟩

/-- A file that was opened and run is loaded or forgotten. -/
theorem Fills.loads {r : Except Failure Unit} {t : Evaluator}
    (fills : Fills reach old os p s.modules.length (s.opened p) r t)
    (new : s.loaded.get? p = none) (closed : p ∉ os) :
    Loads reach old os p s (concluded s.modules.length p (r, t)).1
      (concluded s.modules.length p (r, t)).2 := by
  have modules := modules_of_opened fills.keeps
  have loaded := loaded_of_opened new fills.keeps
  have mine : t.loaded.get? p = some s.modules.length :=
    fills.keeps.loaded p _ (by simp [Evaluator.opened])
  cases r with
  | error f =>
    refine ⟨fills.coherent.forgetting closed, modules, fun q i hi => ?_, fun n o known => ?_⟩
    · obtain ⟨apart, hi⟩ := loaded q i hi
      show (t.loaded.erase p).get? q = some i
      rw [Table.get?_erase, if_neg apart, hi]
    · obtain ⟨bs, -, failed, -⟩ | ⟨f, g, rfl, -⟩ := fills.result n o known
      · cases failed
      · exact .error
  | ok _ =>
    have known {n : Nat} {o : Except Failure Bindings} (ho : outcome reach old n p = some o) :
        ∃ bs, o = .ok bs ∧ BindingsResemble (Stands reach old n (p :: os) t) bs
          (t.bindings s.modules.length) := by
      obtain ⟨bs, rfl, -, same⟩ | ⟨f, g, -, failed⟩ := fills.result n o ho
      · exact ⟨bs, rfl, same⟩
      · cases failed
    have coherent := fills.coherent.closing mine fun n o => known
    refine ⟨coherent, modules, fun q i hi => (loaded q i hi).2, fun n o ho => ?_⟩
    obtain ⟨bs, rfl, same⟩ := coherent.closed p _ mine closed n o ho
    exact matches_of_bindings (t := t.counted) mine closed ho same

/-- Loading a file of the store comes to what is known of it, whatever is open meanwhile, as long as
the open files are evaluated in later rounds only. -/
theorem load_loads (g : Grounded reach old) (fuel : Nat) {os : List String} {file : ModuleFile}
    {s : Evaluator} (stored : Finder.Stored reach.store file) (c : Coherent reach old os s)
    (distinct : os.Nodup) (enough : reach.store.paths.length < fuel + os.length)
    (rises : Rises reach old os file.path) :
    Loads reach old os file.path s ((load reach fuel file).run.run s).1
      ((load reach fuel file).run.run s).2 := by
  induction fuel generalizing os file s with
  | zero =>
    have inside : os ⊆ reach.store.paths := by
      intro q hq
      obtain ⟨i, hi⟩ := Option.isSome_iff_exists.1 (c.opened q hq)
      obtain ⟨source, stored⟩ := c.stored q i hi
      exact stored.mem_paths
    have := (List.subperm_of_subset distinct inside).length_le
    omega
  | succ fuel ih =>
    rw [run_load]
    cases found : s.loaded.get? file.path with
    | some i =>
      refine ⟨c, fun _ _ h => h, fun _ _ h => h, fun n o known => ?_⟩
      have closed : file.path ∉ os := by
        intro hp
        cases (rises.outcome_eq_none hp n).symm.trans known
      obtain ⟨bs, rfl, same⟩ := c.closed _ i found closed n o known
      exact matches_of_bindings found closed known same
    | none =>
      dsimp only
      have new : file.path ∉ os := by
        intro hp
        have loaded := c.opened _ hp
        rw [found] at loaded
        cases loaded
      have opened := c.opening found stored
      have mine : (s.opened file.path).loaded.get? file.path = some s.modules.length := by
        simp [Evaluator.opened]
      have nothing : (s.opened file.path).bindings s.modules.length = [] := by
        simp [bindings, Evaluator.opened]
      have distinct' : (file.path :: os).Nodup := List.nodup_cons.2 ⟨new, distinct⟩
      have enough' : reach.store.paths.length < fuel + (file.path :: os).length := by
        rw [List.length_cons]
        omega
      have fills : Fills reach old os file.path s.modules.length (s.opened file.path)
          ((fill (loadScope reach (load reach fuel) s.modules.length file.path) file).run.run
            (s.opened file.path)).1
          ((fill (loadScope reach (load reach fuel) s.modules.length file.path) file).run.run
            (s.opened file.path)).2 := by
        by_cases settles : Settles reach old file.path
        · exact fills_of_settles g opened mine settles stored nothing rises
            fun f s stored c rises => ih stored c distinct' enough' rises
        · refine fills_of_not_settles opened mine settles fun f s stored c => ?_
          refine ih stored c distinct' enough' fun z hz n o known => ?_
          rcases List.mem_cons.1 hz with rfl | hz
          · exact (settles ⟨n, by rw [known]; rfl⟩).elim
          · obtain ⟨m, -, some⟩ := rises z hz n o known
            exact (settles ⟨m, some⟩).elim
      exact fills.loads found new

theorem length_paths (store : Store) : store.paths.length = store.size := by
  simp [Store.paths, Store.size, Layer.paths, Layer.size, Table.keys, Table.size]

/-- Nothing that is loaded contradicts the rounds while nothing is loaded. -/
theorem coherent_of_empty (fresh : t.loaded = .empty) (start : old <+: t.modules) :
    Coherent reach old [] t := by
  have none {q : String} {i : Nat} (hi : t.loaded.get? q = some i) : False := by
    rw [fresh] at hi
    cases hi
  exact ⟨start, by simp, fun _ _ hi => (none hi).elim, fun _ _ hi => (none hi).elim,
    fun _ _ hi => (none hi).elim⟩

theorem loads_of_evaluate (g : Grounded reach old) (c : Coherent reach old [] s)
    (stored : Finder.Stored reach.store file) :
    Loads reach old [] file.path s
      ((load reach (reach.store.size + 1) file).run.run s).1
      ((load reach (reach.store.size + 1) file).run.run s).2 :=
  load_loads g _ stored c List.nodup_nil (by rw [length_paths]; simp) (by simp [Rises])

theorem evaluate_coherent (g : Grounded reach old) (c : Coherent reach old [] s) (path : String) :
    Coherent reach old [] (s.evaluate reach path).2 := by
  unfold evaluate exportFor
  rw [run_bind]
  cases found : reach.finder.resolve reach.store ⟨path, none⟩ with
  | error why => exact c
  | ok file =>
    cases file with
    | none => exact c
    | some file => exact (loads_of_evaluate g c (Finder.stored_of_resolvePath found)).coherent

/-- The evaluator after it was asked for the modules at some paths, one after another. -/
def evaluateAll (s : Evaluator) (reach : Reach) (paths : List String) : Evaluator :=
  paths.foldl (fun s path => (s.evaluate reach path).2) s

theorem evaluateAll_coherent (g : Grounded reach old) (paths : List String)
    (c : Coherent reach old [] s) : Coherent reach old [] (s.evaluateAll reach paths) := by
  induction paths generalizing s with
  | nil => exact c
  | cons path paths ih => exact ih (evaluate_coherent g c path)

/-- The path of a file of the store leads to that file. -/
theorem resolve_of_stored (stored : Finder.Stored reach.store file) :
    reach.finder.resolve reach.store ⟨file.path, none⟩ = .ok (some file) := by
  obtain ⟨cs, hcs⟩ : ∃ cs, file.path.toList = '/' :: cs := by
    have normal := congrArg String.toList stored.normal
    rw [Path.normalize, String.toList_ofList, Path.normalized_eq] at normal
    exact ⟨_, normal.symm⟩
  have place : reach.finder.locate ⟨file.path, none⟩ = file.path := by
    have relative : ModuleRequest.isRelative file.path = false := by
      have ne {q : String} (hq : q.toList.head? = some '.') : file.path ≠ q := by
        rintro rfl
        simp [hcs] at hq
      simp [ModuleRequest.isRelative, Text.startsWith, Text.after?, Text.rest?, hcs,
        ne (q := ".") rfl, ne (q := "..") rfl]
    have absolute : ModuleRequest.isAbsolute file.path = true := by
      simp [ModuleRequest.isAbsolute, Text.startsWith, Text.after?, Text.rest?, hcs]
    rw [Finder.locate, ModuleRequest.path]
    dsimp only
    rw [relative, absolute]
    exact stored.normal
  have first : reach.finder.file? reach.store file.path = some file := by
    rw [Finder.file?, Finder.candidates, List.findSome?_cons, stored.read, stored.normal]
    rfl
  rw [Finder.resolve, place, Finder.resolvePath, first]

/-- A path that is remembered can be evaluated on its own, unless the requires of its file run into
a cycle. -/
theorem remembered_evaluates (g : Grounded reach s.modules) (fresh : s.loaded = .empty)
    (paths : List String)
    (held : ((s.evaluateAll reach paths).loaded.get? p).isSome = true)
    (settles : Settles reach s.modules p) (empty : t.loaded = .empty)
    (start : s.modules <+: t.modules) : ∃ v u, t.evaluate reach p = (.ok v, u) := by
  have coherent := evaluateAll_coherent g paths (coherent_of_empty fresh (List.prefix_refl _))
  obtain ⟨i, held⟩ := Option.isSome_iff_exists.1 held
  obtain ⟨source, stored⟩ := coherent.stored p i held
  obtain ⟨n, some⟩ := settles
  obtain ⟨o, known⟩ := Option.isSome_iff_exists.1 some
  obtain ⟨bs, rfl, -⟩ := coherent.closed p i held (by simp) n o known
  have loads := loads_of_evaluate g (coherent_of_empty empty start) stored
  have result := loads.result n _ known
  unfold evaluate exportFor
  rw [run_bind, resolve_of_stored stored]
  change ∃ v u, (load reach (reach.store.size + 1) ⟨p, source⟩).run.run t = (.ok v, u)
  generalize (load reach (reach.store.size + 1) ⟨p, source⟩).run.run t = y at result ⊢
  rcases y with ⟨r, u⟩
  cases result with
  | ok same => exact ⟨_, u, rfl⟩

/-- Nothing at hand but the files of a store. -/
def Reach.ofFiles (files : List (String × String)) : Reach :=
  ⟨.ofRoot "/node_modules", files.foldl (fun s f => s.place f.1 f.2.toUTF8.toList) {}, .empty, []⟩

theorem grounded_ofFiles (files : List (String × String)) : Grounded (.ofFiles files) [] where
  registry kind name v h := by cases kind <;> cases h
  host _ _ h := by cases h
  modules _ h := by cases h

/-- A file that another one requires. -/
def chain : Reach := .ofFiles [("/a.py", "b = require('./b')\ny = b.x"), ("/b.py", "x = 1")]

/-- A file that requires another one is remembered and can be evaluated on its own. -/
theorem remembered_evaluates_chain :
    ((({} : Evaluator).evaluateAll chain ["/a"]).loaded.get? "/a.py").isSome = true ∧
      Settles chain ({} : Evaluator).modules "/a.py" ∧
      ∃ v u, ({} : Evaluator).evaluate chain "/a.py" = (.ok v, u) := by
  have held : ((({} : Evaluator).evaluateAll chain ["/a"]).loaded.get? "/a.py").isSome = true := by
    decide +kernel
  have settles : Settles chain ({} : Evaluator).modules "/a.py" := ⟨2, by decide +kernel⟩
  have grounded : Grounded chain ({} : Evaluator).modules := grounded_ofFiles _
  exact ⟨held, settles,
    remembered_evaluates grounded rfl ["/a"] held settles rfl (List.prefix_refl _)⟩

/-- Whether a module is asked for, with or without success, and then a path is remembered that
cannot be evaluated on its own. -/
def Strands (reach : Reach) (path : String) (succeeds : Bool) (p : String) : Prop :=
  (({} : Evaluator).evaluate reach path).1.isOk = succeeds ∧
    ((({} : Evaluator).evaluateAll reach [path]).loaded.get? p).isSome = true ∧
    (({} : Evaluator).evaluate reach p).1.isOk = false

instance (reach : Reach) (path : String) (succeeds : Bool) (p : String) :
    Decidable (Strands reach path succeeds p) := inferInstanceAs (Decidable (_ ∧ _ ∧ _))

/-- Files that require each other can be stranded: one that was evaluated while the other had not
failed yet, and one that is there only since the other was evaluated first. -/
theorem remembered_can_strand :
    Strands (.ofFiles [("/a.py", "x = 1\nrequire('./b')\nraise ValueError('no')"),
        ("/b.py", "require('./a')\ny = 2")]) "/a" false "/b.py" ∧
      Strands (.ofFiles [("/a.py", "b = require('./b')\nx = 1"),
        ("/b.py", "a = require('./a')\ny = a.x")]) "/b" true "/a.py" := by
  decide +kernel

end PluginHost.Evaluator
