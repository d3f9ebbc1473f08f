import Mathlib.Data.List.Nodup
import PluginHost.Proofs.Module.Inventory

/-!
Built-in modules in an inventory. Every alias leads to a slot, and a built-in module stays where it
was seeded as long as nothing binds its names or takes its slot.
-/
namespace PluginHost

namespace Builtins

/-- The engine's own modules of a kind. -/
def ofKind (b : Builtins) : ModuleKind → List (String × Value)
  | .plugin => b.plugins
  | .preset => b.presets

/-- No two built-in modules of a kind share their short name, and none is named by the short name of
another. -/
structure Distinct (b : Builtins) : Prop where
  shorts : ∀ kind, ((b.ofKind kind).map fun m => PackageName.short kind m.1).Nodup
  apart : ∀ kind, ∀ m ∈ b.ofKind kind, ∀ n ∈ b.ofKind kind, PackageName.short kind m.1 = n.1 →
    m.1 = n.1

theorem Distinct.eq {b : Builtins} (hb : b.Distinct) {kind : ModuleKind} {m n : String × Value}
    (hm : m ∈ b.ofKind kind) (hn : n ∈ b.ofKind kind)
    (he : PackageName.short kind m.1 = PackageName.short kind n.1) : m = n :=
  List.inj_on_of_nodup_map (hb.shorts kind) hm hn he

end Builtins

namespace Inventory

variable {c : Inventory} {kind k : ModuleKind} {key name b : String} {v w : Value}
  {canonical : Option String} {builtin : Bool}

/-- Nothing but built-in modules is there from the start. -/
theorem mem_of_slotValue_seeded {b : Builtins} {generation : Nat}
    (hv : (seeded b generation).slotValue (kind, key) = some v) :
    ∃ name, (name, v) ∈ b.ofKind kind := by
  have registered {c : Inventory} {kind k : ModuleKind} {m : String × Value} {key : String}
      (hm : m ∈ b.ofKind k) (hc : ∀ kind key v, c.slotValue (kind, key) = some v →
        ∃ name, (name, v) ∈ b.ofKind kind) {v : Value}
      (hv : (c.register k m.1 m.2 none true).slotValue (kind, key) = some v) :
      ∃ name, (name, v) ∈ b.ofKind kind := by
    rw [slotValue_register] at hv
    split at hv
    · rename_i he
      obtain ⟨rfl, -⟩ := Prod.mk.inj he
      obtain rfl := Option.some.inj hv
      exact ⟨m.1, hm⟩
    · exact hc _ _ _ hv
  refine seeded_induction (P := fun c => ∀ kind key v, c.slotValue (kind, key) = some v →
    ∃ name, (name, v) ∈ b.ofKind kind) ?_ ?_ ?_ ?_ kind key v hv
  · exact fun _ _ _ hv => by cases hv
  · exact fun c m hm hc _ _ _ hv => registered (k := .plugin) hm hc hv
  · exact fun c m hm hc _ _ _ hv => registered (k := .preset) hm hc hv
  · exact fun c name target key m _ _ hc _ _ _ hv => hc _ _ _ (slotValue_bind .. ▸ hv)

/-- Every alias leads to a slot. -/
structure Sound (c : Inventory) : Prop where
  slot : ∀ {kind : ModuleKind} {name key : String}, c.aliases.get? (kind, name) = some key →
    (c.slotValue (kind, key)).isSome = true

namespace Sound

theorem bind (hc : c.Sound) (hk : (c.slotValue (kind, key)).isSome = true) (name : String) :
    (c.bind kind key name).Sound := by
  refine ⟨fun {k n j} hn => ?_⟩
  rw [slotValue_bind]
  simp only [Inventory.bind, Table.get?_insert] at hn
  split at hn
  · rename_i he
    obtain ⟨rfl, -⟩ := Prod.mk.inj he
    exact Option.some.inj hn ▸ hk
  · exact hc.slot hn

theorem register (hc : c.Sound) (kind : ModuleKind) (name : String) (v : Value)
    (canonical : Option String) (builtin : Bool) :
    (c.register kind name v canonical builtin).Sound := by
  refine ⟨fun {k n j} hn => ?_⟩
  rw [aliases_register] at hn
  rw [slotValue_register]
  split
  · rfl
  · rename_i hne
    split at hn
    · rename_i he
      obtain rfl := Option.some.inj hn
      exact (hne (by rw [he.1])).elim
    · exact hc.slot hn

theorem seeded (b : Builtins) (generation : Nat) : (seeded b generation).Sound := by
  refine seeded_induction (P := Sound) ⟨fun hn => by cases hn⟩ (fun c m _ hc => hc.register ..)
    (fun c m _ hc => hc.register ..) fun c name target key m _ hf hc => hc.bind ?_ name
  obtain ⟨-, hm⟩ := find?_eq_some.1 hf
  simp [slotValue, hm]

/-- A name that is bound, or whose short form is, is found. -/
theorem contains (hc : c.Sound)
    (hn : (c.aliases.get? (kind, name)).isSome = true ∨
      (c.aliases.get? (kind, PackageName.short kind name)).isSome = true) :
    c.contains kind name = true := by
  rw [contains_eq]
  unfold key?
  cases ha : c.aliases.get? (kind, name) with
  | some key => simpa using hc.slot ha
  | none =>
    rw [ha] at hn
    obtain ⟨key, hk⟩ := Option.isSome_iff_exists.1 (hn.resolve_left (by simp))
    simpa [hk] using hc.slot hk

end Sound

/-- A built-in module of the given value stands in the slot of its short name, and its name and its
short name lead there. -/
structure Holds (c : Inventory) (kind : ModuleKind) (name : String) (v : Value) : Prop where
  named : c.aliases.get? (kind, name) = some (PackageName.short kind name)
  short : c.aliases.get? (kind, PackageName.short kind name) = some (PackageName.short kind name)
  slot : c.slotValue (kind, PackageName.short kind name) = some v

/-- A name other than a module's own two names. -/
def Spares (kind : ModuleKind) (b name : String) : Prop :=
  name ≠ b ∧ name ≠ PackageName.short kind b

namespace Holds

theorem value (hc : c.Holds kind b v) : c.value kind b = v := by
  rw [value_eq, key?, hc.named]
  simp [hc.slot]

theorem contains (hc : c.Holds kind b v) {name : String}
    (hn : name = b ∨ name = PackageName.short kind b) : c.contains kind name = true := by
  rw [contains_eq, key?]
  obtain rfl | rfl := hn
  · simp [hc.named, hc.slot]
  · simp [hc.short, hc.slot]

theorem bind (hc : c.Holds kind b v) (hn : kind = k → Spares kind b name) :
    (c.bind k key name).Holds kind b v := by
  refine ⟨?_, ?_, (slotValue_bind ..).trans hc.slot⟩
  · simp only [Inventory.bind, Table.get?_insert, Prod.mk.injEq]
    rw [if_neg fun h => (hn h.1.symm).1 h.2, hc.named]
  · simp only [Inventory.bind, Table.get?_insert, Prod.mk.injEq]
    rw [if_neg fun h => (hn h.1.symm).2 h.2, hc.short]

/-- A further name for a built-in module itself. -/
theorem bind_own (hc : c.Holds kind b v) (name : String) :
    (c.bind kind (PackageName.short kind b) name).Holds kind b v := by
  refine ⟨?_, ?_, (slotValue_bind ..).trans hc.slot⟩
  · simp only [Inventory.bind, Table.get?_insert]
    split
    · rfl
    · exact hc.named
  · simp only [Inventory.bind, Table.get?_insert]
    split
    · rfl
    · exact hc.short

/-- An installed module that answers to one more spelling. -/
theorem addAlias {i : Inventory} {m : Installed} (hc : c.Holds kind b v)
    (found : c.find? k name = some (key, m)) (spelt : c.addAlias k name key = .ok i) :
    i.Holds kind b v := by
  obtain ⟨key', m', hk, rfl⟩ := addAlias_eq_ok spelt
  by_cases own : kind = k ∧ ¬ Spares kind b name
  · obtain ⟨rfl, own⟩ := own
    have led : c.key? kind name = some (PackageName.short kind b) := by
      obtain rfl | rfl : name = b ∨ name = PackageName.short kind b := by
        by_cases hn : name = b
        · exact .inl hn
        · exact .inr (Classical.not_not.1 fun h => own ⟨hn, h⟩)
      · simp [key?, hc.named]
      · simp [key?, hc.short]
    obtain rfl := Option.some.inj (led.symm.trans (find?_eq_some.1 found).1)
    obtain rfl : PackageName.short kind b = key' := by
      have := (find?_eq_some.1 hk).1
      simpa [key?, hc.short] using this
    exact hc.bind_own name
  · exact hc.bind fun hk => Classical.not_not.1 fun h => own ⟨hk, h⟩

theorem register (hc : c.Holds kind b v)
    (hs : kind = k → ∀ n ∈ bound k name canonical, Spares kind b n) :
    (c.register k name w canonical builtin).Holds kind b v := by
  refine ⟨?_, ?_, ?_⟩
  · rw [aliases_register, if_neg fun h => (hs h.1.symm _ h.2).1 rfl, hc.named]
  · rw [aliases_register, if_neg fun h => (hs h.1.symm _ h.2).2 rfl, hc.short]
  · rw [slotValue_register, if_neg fun h => ?_, hc.slot]
    obtain ⟨rfl, hk⟩ := Prod.mk.inj h
    exact (hs rfl _ (by simp [bound])).2 hk

theorem of_register (c : Inventory) (kind : ModuleKind) (b : String) (v : Value) :
    (c.register kind b v none true).Holds kind b v := by
  refine ⟨?_, ?_, ?_⟩
  · simp [aliases_register, bound, slotKey, given]
  · simp [aliases_register, bound, slotKey, given]
  · simp [slotValue_register, slotKey, given]

end Holds

/-- Whether a name is bound. -/
def Answers (c : Inventory) (kind : ModuleKind) (name : String) : Prop :=
  (c.aliases.get? (kind, name)).isSome = true

namespace Answers

theorem bind (hc : c.Answers kind b) (k : ModuleKind) (key name : String) :
    (c.bind k key name).Answers kind b := by
  unfold Answers Inventory.bind
  rw [Table.get?_insert]
  split
  · rfl
  · exact hc

theorem register (hc : c.Answers kind b) (k : ModuleKind) (name : String) (v : Value)
    (canonical : Option String) (builtin : Bool) :
    (c.register k name v canonical builtin).Answers kind b := by
  unfold Answers
  rw [aliases_register]
  split
  · rfl
  · exact hc

end Answers

/-- Every built-in module answers to its name and to its short name. -/
structure Knows (c : Inventory) (builtins : Builtins) : Prop where
  answers : ∀ kind, ∀ m ∈ builtins.ofKind kind,
    c.Answers kind m.1 ∧ c.Answers kind (PackageName.short kind m.1)

theorem Knows.bind {builtins : Builtins} (hc : c.Knows builtins) (k : ModuleKind)
    (key name : String) : (c.bind k key name).Knows builtins :=
  ⟨fun kind m hm => ⟨(hc.answers kind m hm).1.bind .., (hc.answers kind m hm).2.bind ..⟩⟩

theorem Knows.register {builtins : Builtins} (hc : c.Knows builtins) (k : ModuleKind)
    (name : String) (v : Value) (canonical : Option String) (builtin : Bool) :
    (c.register k name v canonical builtin).Knows builtins :=
  ⟨fun kind m hm => ⟨(hc.answers kind m hm).1.register .., (hc.answers kind m hm).2.register ..⟩⟩

/-- A name that says nothing of a built-in module, nor does its short form. -/
def Apart (kind : ModuleKind) (b name : String) : Prop :=
  Spares kind b name ∧ Spares kind b (PackageName.short kind name)

/-- A name that is not found has nothing to do with any built-in module. -/
theorem Knows.apart {builtins : Builtins} (hc : c.Knows builtins) (hs : c.Sound)
    (hn : c.contains kind name = false) {m : String × Value} (hm : m ∈ builtins.ofKind kind) :
    Apart kind m.1 name := by
  obtain ⟨named, short⟩ := hc.answers kind m hm
  have absent (n : String) (hn' : n = name ∨ n = PackageName.short kind name) :
      ¬ c.Answers kind n := by
    intro ha
    have found : c.contains kind name = true := hs.contains (by
      obtain rfl | rfl := hn'
      · exact .inl ha
      · exact .inr ha)
    simp [hn] at found
  refine ⟨⟨?_, ?_⟩, ?_, ?_⟩
  · exact fun h => absent _ (.inl rfl) (h ▸ named)
  · exact fun h => absent _ (.inl rfl) (h ▸ short)
  · exact fun h => absent _ (.inr rfl) (h ▸ named)
  · exact fun h => absent _ (.inr rfl) (h ▸ short)

theorem Apart.bound_none (hn : Apart kind b name) :
    ∀ n ∈ Inventory.bound kind name none, Spares kind b n := by
  intro n hm
  have hm : n = name ∨ n = PackageName.short kind name := by
    simpa [Inventory.bound, slotKey, given] using hm
  obtain rfl | rfl := hm
  · exact hn.1
  · exact hn.2

/-- A registration that has nothing to do with a built-in module, under a package name that has
nothing to do with it either. -/
theorem Apart.bound {package : String} (hn : Apart kind b name)
    (hp : package = name ∨ Apart kind b package) :
    ∀ n ∈ Inventory.bound kind name (some package), Spares kind b n := by
  have hp : Apart kind b package := hp.elim (fun h => h ▸ hn) fun h => h
  intro n hm
  have key : Spares kind b (slotKey kind name (some package)) := by
    unfold slotKey
    cases hg : given (some package) with
    | none => exact hn.2
    | some p =>
      have : package = p := by
        unfold given at hg
        exact Option.some.inj (Option.filter_eq_some_iff.1 hg).1
      exact this ▸ hp.2
  simp only [Inventory.bound, List.mem_append, List.mem_cons, List.not_mem_nil, or_false] at hm
  obtain (rfl | rfl | rfl) | hm := hm
  · exact hn.1
  · exact hn.2
  · exact key
  · obtain rfl : package = n := by
      have := Option.mem_toList.1 hm
      unfold given at this
      exact Option.some.inj (Option.filter_eq_some_iff.1 this).1
    exact hp.1

section Seeding

variable {builtins : Builtins} {all modules : List (String × Value)}

/-- Registering a built-in module leaves the others where they are. -/
theorem Holds.register_other (hb : builtins.Distinct) {m n : String × Value}
    (hm : m ∈ builtins.ofKind kind) (hn : n ∈ builtins.ofKind kind) (hne : m ≠ n)
    (hc : c.Holds kind m.1 m.2) : (c.register kind n.1 n.2 none true).Holds kind m.1 m.2 := by
  have shorts : PackageName.short kind n.1 ≠ PackageName.short kind m.1 := fun h =>
    hne (hb.eq hm hn h.symm)
  refine hc.register fun _ name hname => ?_
  have hname : name = n.1 ∨ name = PackageName.short kind n.1 := by
    simpa [bound, slotKey, given] using hname
  obtain rfl | rfl := hname
  · exact ⟨fun h => shorts (by rw [h]), fun h => shorts (by rw [hb.apart kind m hm n hn h.symm])⟩
  · exact ⟨fun h => shorts (by rw [hb.apart kind n hn m hm h]), shorts⟩

theorem holds_registerBuiltins (hb : builtins.Distinct)
    (hs : ∀ m ∈ modules, m ∈ builtins.ofKind kind)
    (hc : ∀ m ∈ builtins.ofKind kind, m ∉ modules → c.Holds kind m.1 m.2) :
    ∀ m ∈ builtins.ofKind kind, (registerBuiltins c kind modules).Holds kind m.1 m.2 := by
  induction modules generalizing c with
  | nil => exact fun m hm => hc m hm (by simp)
  | cons n modules ih =>
    refine ih (fun m hm => hs m (by simp [hm])) fun m hm hne => ?_
    by_cases he : m = n
    · subst he
      exact .of_register ..
    · exact (hc m hm (by simp [he, hne])).register_other hb hm (hs n (by simp)) he

theorem Holds.registerBuiltins (hc : c.Holds kind b v) (hk : kind ≠ k) :
    (registerBuiltins c k modules).Holds kind b v := by
  induction modules generalizing c with
  | nil => exact hc
  | cons n modules ih => exact ih (hc.register fun h => (hk h).elim)

theorem Holds.remap (hc : c.Holds kind b v) (name target : String) :
    (c.remap name target).Holds kind b v := by
  unfold Inventory.remap
  split
  · exact hc
  · rename_i hn
    split
    · refine hc.bind fun hk => ?_
      subst hk
      exact ⟨fun h => hn (hc.contains (.inl h)), fun h => hn (hc.contains (.inr h))⟩
    · exact hc

/-- Every built-in module is where it belongs in an inventory of nothing else. -/
theorem holds_seeded (hb : builtins.Distinct) (generation : Nat) {m : String × Value}
    (hm : m ∈ builtins.ofKind kind) : (seeded builtins generation).Holds kind m.1 m.2 := by
  have remaps (rs : List (String × String)) {c : Inventory} (hc : c.Holds kind m.1 m.2) :
      (rs.foldl (fun c r => c.remap r.1 r.2) c).Holds kind m.1 m.2 := by
    induction rs generalizing c with
    | nil => exact hc
    | cons r rs ih => exact ih (hc.remap ..)
  refine remaps _ ?_
  cases kind with
  | plugin =>
    refine Holds.registerBuiltins ?_ (by simp)
    exact holds_registerBuiltins hb (fun n hn => hn) (fun n hn hne => (hne hn).elim) m hm
  | preset =>
    exact holds_registerBuiltins hb (fun n hn => hn) (fun n hn hne => (hne hn).elim) m hm

end Seeding

end Inventory

end PluginHost
