import PluginHost.Module.Inventory

/-!
Looking names up in an inventory and in the registries made of it, and how each change of an
inventory shows in what is found.
-/
namespace PluginHost

section Tables

variable {κ α : Type} [DecidableEq κ]

theorem lookup?_eq_none {k : κ} {es : List (κ × α)} :
    lookup? k es = none ↔ k ∉ es.map Prod.fst := by
  induction es with
  | nil => simp [lookup?]
  | cons e es ih =>
    by_cases he : e.1 = k
    · simp [lookup?, he]
    · simp [lookup?, he, ih, Ne.symm he]

namespace Table

theorem get?_foldl_insert {es : List (κ × α)} (hd : (es.map Prod.fst).Nodup) (t : Table κ α)
    (k : κ) :
    (es.foldl (fun t e => t.insert e.1 e.2) t).get? k = (lookup? k es).or (t.get? k) := by
  induction es generalizing t with
  | nil => simp [lookup?]
  | cons e es ih =>
    rw [List.map_cons, List.nodup_cons] at hd
    obtain ⟨hn, hd⟩ := hd
    rw [List.foldl_cons, ih hd, get?_insert]
    by_cases he : e.1 = k
    · have : lookup? k es = none := lookup?_eq_none.2 (he ▸ hn)
      simp [lookup?, he, this]
    · simp [lookup?, he]

theorem get?_ofList {es : List (κ × α)} (hd : (es.map Prod.fst).Nodup) (k : κ) :
    (ofList es).get? k = lookup? k es := by
  simp [ofList, get?_foldl_insert hd]

end Table

end Tables

namespace Inventory

variable {c : Inventory} {kind : ModuleKind} {key name : String} {v : Value}

/-- The value in a slot. -/
def slotValue (c : Inventory) (slot : ModuleName) : Option Value :=
  (c.slots.get? slot).map (·.value)

theorem find?_eq_some {m : Installed} :
    c.find? kind name = some (key, m) ↔
      c.key? kind name = some key ∧ c.slots.get? (kind, key) = some m := by
  unfold find?
  cases c.key? kind name with
  | none => simp
  | some k => cases hm : c.slots.get? (kind, k) <;> simp [hm] <;> grind

theorem find?_eq (c : Inventory) (kind : ModuleKind) (name : String) :
    (c.find? kind name).map (·.2.value) = (c.key? kind name).bind fun key =>
      c.slotValue (kind, key) := by
  unfold find? slotValue
  cases c.key? kind name with
  | none => rfl
  | some k => cases hm : c.slots.get? (kind, k) <;> simp [hm]

theorem contains_eq (c : Inventory) (kind : ModuleKind) (name : String) :
    c.contains kind name = ((c.key? kind name).bind fun key => c.slotValue (kind, key)).isSome := by
  rw [← find?_eq, Option.isSome_map]
  rfl

theorem value_eq (c : Inventory) (kind : ModuleKind) (name : String) :
    c.value kind name =
      ((c.key? kind name).bind fun key => c.slotValue (kind, key)).getD .null := by
  rw [← find?_eq]
  unfold value
  cases c.find? kind name <;> rfl

section Snapshots

/-- An alias as it shows in a snapshot. -/
private def shown (c : Inventory) (kind : ModuleKind) (e : ModuleName × String) :
    Option (String × Value) :=
  if e.1.1 = kind then (c.slots.get? (kind, e.2)).map fun m => (e.1.2, m.value) else none

private theorem shown_fst {e : ModuleName × String} {f : String × Value}
    (h : c.shown kind e = some f) : e.1 = (kind, f.1) := by
  unfold shown at h
  split at h
  · rename_i hk
    obtain ⟨m, -, rfl⟩ := Option.map_eq_some_iff.1 h
    exact Prod.ext hk rfl
  · simp at h

private theorem keys_shown {es : List (ModuleName × String)} {n : String}
    (h : n ∈ (es.filterMap (c.shown kind)).map Prod.fst) : (kind, n) ∈ es.map Prod.fst := by
  obtain ⟨f, hf, rfl⟩ := List.mem_map.1 h
  obtain ⟨e, he, hs⟩ := List.mem_filterMap.1 hf
  exact List.mem_map.2 ⟨e, he, shown_fst hs⟩

private theorem nodup_shown {es : List (ModuleName × String)} (hd : (es.map Prod.fst).Nodup) :
    ((es.filterMap (c.shown kind)).map Prod.fst).Nodup := by
  induction es with
  | nil => simp
  | cons e es ih =>
    rw [List.map_cons, List.nodup_cons] at hd
    obtain ⟨hn, hd⟩ := hd
    cases hs : c.shown kind e with
    | none => simpa [List.filterMap_cons, hs] using ih hd
    | some f =>
      rw [List.filterMap_cons_some hs, List.map_cons, List.nodup_cons]
      refine ⟨fun hf => hn ?_, ih hd⟩
      rw [shown_fst hs]
      exact keys_shown hf

private theorem lookup?_shown {es : List (ModuleName × String)} (hd : (es.map Prod.fst).Nodup) :
    lookup? name (es.filterMap (c.shown kind)) =
      (lookup? (kind, name) es).bind fun key => c.slotValue (kind, key) := by
  induction es with
  | nil => simp [lookup?]
  | cons e es ih =>
    rw [List.map_cons, List.nodup_cons] at hd
    obtain ⟨hn, hd⟩ := hd
    cases hs : c.shown kind e with
    | none =>
      rw [List.filterMap_cons_none hs, ih hd]
      by_cases he : e.1 = (kind, name)
      · have hslot : c.slotValue (kind, e.2) = none := by simpa [shown, slotValue, he] using hs
        have hrest : lookup? (kind, name) es = none := lookup?_eq_none.2 (he ▸ hn)
        simp [lookup?, he, hslot, hrest]
      · simp [lookup?, he]
    | some f =>
      have he := shown_fst hs
      rw [List.filterMap_cons_some hs]
      by_cases hf : f.1 = name
      · have hslot : c.slotValue (kind, e.2) = some f.2 := by
          obtain ⟨m, hm, hv⟩ := Option.map_eq_some_iff.1 (by simpa [shown, he] using hs)
          rw [slotValue, hm, ← hv]
          rfl
        subst hf
        rw [lookup?, if_pos rfl, lookup?, if_pos he, Option.bind_some, hslot]
      · have : ¬ e.1 = (kind, name) := fun h => hf (Prod.mk.inj (he.symm.trans h)).2
        simp [lookup?, hf, this, ih hd]

/-- A snapshot shows what the alias of a name leads to. -/
theorem get?_available (c : Inventory) (kind : ModuleKind) (name : String) :
    (c.available kind).get? name =
      (c.aliases.get? (kind, name)).bind fun key => c.slotValue (kind, key) := by
  have hd := c.aliases.distinct
  exact (Table.get?_ofList (nodup_shown hd) name).trans (lookup?_shown hd)

theorem table_registry (c : Inventory) (kind : ModuleKind) :
    c.registry.table kind = c.available kind := by
  cases kind <;> rfl

/-- A module that is installed under a name is in the registry under that name. -/
theorem registry_of_contains (h : c.contains kind name = true) :
    (c.registry.get? kind name).isSome = true := by
  rw [contains_eq] at h
  unfold Registry.get?
  rw [table_registry, get?_available, get?_available]
  unfold key? at h
  cases ha : c.aliases.get? (kind, name) with
  | none => simpa [ha] using h
  | some key =>
    obtain ⟨w, hw⟩ := Option.isSome_iff_exists.1 (show (c.slotValue (kind, key)).isSome = true by
      simpa [ha] using h)
    simp [hw]

end Snapshots

section Changes

variable {canonical : Option String} {builtin : Bool} {slot : ModuleName}

@[simp] theorem slotValue_bind (c : Inventory) (kind : ModuleKind) (key name : String)
    (slot : ModuleName) : (c.bind kind key name).slotValue slot = c.slotValue slot := by
  unfold bind slotValue
  dsimp only
  split
  · rename_i m hm
    rw [Table.get?_insert]
    split
    · rename_i h
      rw [← h, hm]
      unfold Installed.named
      split <;> rfl
    · rfl
  · rfl

@[simp] theorem builtins_bind (c : Inventory) (kind : ModuleKind) (key name : String) :
    (c.bind kind key name).builtins = c.builtins := rfl

@[simp] theorem generation_bind (c : Inventory) (kind : ModuleKind) (key name : String) :
    (c.bind kind key name).generation = c.generation := rfl

theorem bindAll_cons (c : Inventory) (kind : ModuleKind) (key name : String) (names : List String) :
    c.bindAll kind key (name :: names) = (c.bind kind key name).bindAll kind key names := rfl

@[simp] theorem slotValue_bindAll (c : Inventory) (kind : ModuleKind) (key : String)
    (names : List String) (slot : ModuleName) :
    (c.bindAll kind key names).slotValue slot = c.slotValue slot := by
  induction names generalizing c with
  | nil => rfl
  | cons name names ih => rw [bindAll_cons, ih, slotValue_bind]

@[simp] theorem builtins_bindAll (c : Inventory) (kind : ModuleKind) (key : String)
    (names : List String) : (c.bindAll kind key names).builtins = c.builtins := by
  induction names generalizing c with
  | nil => rfl
  | cons name names ih => rw [bindAll_cons, ih, builtins_bind]

@[simp] theorem generation_bindAll (c : Inventory) (kind : ModuleKind) (key : String)
    (names : List String) : (c.bindAll kind key names).generation = c.generation := by
  induction names generalizing c with
  | nil => rfl
  | cons name names ih => rw [bindAll_cons, ih, generation_bind]

theorem aliases_bindAll (c : Inventory) (kind : ModuleKind) (key : String) (names : List String)
    (k : ModuleKind) (n : String) :
    (c.bindAll kind key names).aliases.get? (k, n) =
      if kind = k ∧ n ∈ names then some key else c.aliases.get? (k, n) := by
  induction names generalizing c with
  | nil => simp [bindAll]
  | cons name names ih =>
    rw [bindAll_cons, ih]
    unfold bind
    simp only [Table.get?_insert, Prod.mk.injEq, List.mem_cons]
    grind

/-- Every name that a registration binds. -/
def bound (kind : ModuleKind) (name : String) (canonical : Option String) : List String :=
  [name, PackageName.short kind name, slotKey kind name canonical] ++ (given canonical).toList

theorem aliases_register (c : Inventory) (kind : ModuleKind) (name : String) (v : Value)
    (canonical : Option String) (builtin : Bool) (k : ModuleKind) (n : String) :
    (c.register kind name v canonical builtin).aliases.get? (k, n) =
      if kind = k ∧ n ∈ bound kind name canonical then some (slotKey kind name canonical)
      else c.aliases.get? (k, n) := by
  unfold register
  rw [aliases_bindAll]
  rfl

/-- A registration changes one slot. -/
theorem slotValue_register (c : Inventory) (kind : ModuleKind) (name : String) (v : Value)
    (canonical : Option String) (builtin : Bool) (slot : ModuleName) :
    (c.register kind name v canonical builtin).slotValue slot =
      if (kind, slotKey kind name canonical) = slot then some v else c.slotValue slot := by
  unfold register
  rw [slotValue_bindAll]
  unfold slotValue
  rw [Table.get?_insert]
  split
  · cases c.slots.get? (kind, slotKey kind name canonical) <;> rfl
  · rfl

@[simp] theorem builtins_register (c : Inventory) (kind : ModuleKind) (name : String) (v : Value)
    (canonical : Option String) (builtin : Bool) :
    (c.register kind name v canonical builtin).builtins = c.builtins := by
  simp [register]

@[simp] theorem generation_register (c : Inventory) (kind : ModuleKind) (name : String) (v : Value)
    (canonical : Option String) (builtin : Bool) :
    (c.register kind name v canonical builtin).generation = c.generation := by
  simp [register]

/-- Induction along the seeding of an inventory with built-in modules and their further names. -/
theorem seeded_induction {P : Inventory → Prop} {b : Builtins} {generation : Nat}
    (empty : P ⟨b, .empty, .empty, generation⟩)
    (plugin : ∀ c m, m ∈ b.plugins → P c → P (c.register .plugin m.1 m.2 none true))
    (preset : ∀ c m, m ∈ b.presets → P c → P (c.register .preset m.1 m.2 none true))
    (remap : ∀ c name target key m, c.contains .plugin name = false →
      c.find? .plugin target = some (key, m) → P c → P (c.bind .plugin key name)) :
    P (seeded b generation) := by
  have each {α : Type} (f : Inventory → α → Inventory) (es : List α)
      (hf : ∀ c e, e ∈ es → P c → P (f c e)) : ∀ c, P c → P (es.foldl f c) := by
    induction es with
    | nil => exact fun c hc => hc
    | cons e es ih =>
      exact fun c hc => ih (fun c e he => hf c e (by simp [he])) _ (hf c e (by simp) hc)
  refine each _ _ (fun c r _ hc => ?_) _ (each _ _ preset _ (each _ _ plugin _ empty))
  unfold Inventory.remap
  split
  · exact hc
  · rename_i hn
    split
    · rename_i key m hf
      exact remap c r.1 r.2 key m (by simpa using hn) hf hc
    · exact hc

@[simp] theorem builtins_seeded (b : Builtins) (generation : Nat) :
    (seeded b generation).builtins = b :=
  seeded_induction (P := fun c => c.builtins = b) rfl (fun _ _ _ hc => by simp [hc])
    (fun _ _ _ hc => by simp [hc]) fun _ _ _ _ _ _ _ hc => hc

@[simp] theorem generation_seeded (b : Builtins) (generation : Nat) :
    (seeded b generation).generation = generation :=
  seeded_induction (P := fun c => c.generation = generation) rfl (fun _ _ _ hc => by simp [hc])
    (fun _ _ _ hc => by simp [hc]) fun _ _ _ _ _ _ _ hc => hc

@[simp] theorem builtins_reset (c : Inventory) : c.reset.builtins = c.builtins :=
  builtins_seeded _ _

/-- A further name for an installed module changes no value. -/
theorem addAlias_eq_ok {d : Inventory} {spelling : String}
    (h : c.addAlias kind spelling name = .ok d) :
    ∃ key m, c.find? kind name = some (key, m) ∧ d = c.bind kind key spelling := by
  unfold addAlias at h
  split at h
  · rename_i key m hf
    exact ⟨key, m, hf, (Except.ok.inj h).symm⟩
  · cases h

end Changes

end Inventory

end PluginHost
