import Mathlib.Data.String.Basic
import PluginHost.Proofs.Module.Spellings

/-!
Inventories after any history of operations. No alias ever leads nowhere, so a snapshot can always
be made, and it answers every lookup as the inventory itself does.
-/
namespace PluginHost

theorem Table.get?_of_mem {κ α : Type} [DecidableEq κ] {t : Table κ α} {e : κ × α}
    (he : e ∈ t.entries) : t.get? e.1 = some e.2 := by
  have distinct := t.distinct
  unfold Table.get?
  generalize t.entries = es at he distinct
  induction es with
  | nil => cases he
  | cons d es ih =>
    obtain ⟨fresh, distinct⟩ := List.nodup_cons.1 distinct
    obtain rfl | he := List.mem_cons.1 he
    · simp [lookup?]
    · have other : d.1 ≠ e.1 := fun same => fresh (same ▸ List.mem_map_of_mem he)
      simp [lookup?, other, ih he distinct]

/-- What is done to an inventory. -/
inductive Inventory.Operation where
  | register (kind : ModuleKind) (name : String) (value : Value) (canonical : Option String)
      (builtin : Bool)
  | addAlias (kind : ModuleKind) (spelling name : String)
  | reset

namespace Inventory

variable {c : Inventory} {kind : ModuleKind} {name : String}

/-- A further name for what is not installed changes nothing. -/
def after (c : Inventory) : Operation → Inventory
  | .register kind name v canonical builtin => c.register kind name v canonical builtin
  | .addAlias kind spelling name => (c.addAlias kind spelling name).toOption.getD c
  | .reset => c.reset

def afterAll (c : Inventory) (ops : List Operation) : Inventory := ops.foldl after c

/-- An alias with the value in its slot; none if it leads to no slot. -/
def shown? (c : Inventory) (e : ModuleName × String) : Option (String × Value) :=
  (c.slots.get? (e.1.1, e.2)).map fun m => (e.1.2, m.value)

/-- The value of every name of a kind; none if some name of the kind leads to no slot. -/
def available? (c : Inventory) (kind : ModuleKind) : Option (Table String Value) :=
  ((c.aliases.entries.filter (·.1.1 = kind)).mapM c.shown?).map Table.ofList

/-- A snapshot; none if an alias leads to no slot. -/
def snapshot? (c : Inventory) : Option Registry := do
  let plugins ← c.available? .plugin
  let presets ← c.available? .preset
  return ⟨plugins, presets⟩

/-- A snapshot of an inventory can be made, and of one kind it has what the inventory finds, under
the names that the inventory lists. -/
structure Reflected (c : Inventory) (kind : ModuleKind) : Prop where
  slot : ∀ {name key : String}, c.aliases.get? (kind, name) = some key →
    (c.slots.get? (kind, key)).isSome = true
  made : c.snapshot? = some c.registry
  get : ∀ name, c.registry.get kind name = c.value kind name
  listed : (c.names kind).Perm (c.registry.table kind).keys
  ordered : (c.names kind).Pairwise (· < ·)

theorem mapM_filter {α β : Type} {p : α → Prop} [DecidablePred p] {f : α → Option β} {es : List α}
    (found : ∀ e ∈ es, p e → (f e).isSome = true) :
    (es.filter fun e => p e).mapM f = some (es.filterMap fun e => if p e then f e else none) := by
  induction es with
  | nil => rfl
  | cons e es ih =>
    have rest := ih fun e' he' => found e' (List.mem_cons_of_mem _ he')
    by_cases own : p e
    · obtain ⟨b, hb⟩ := Option.isSome_iff_exists.1 (found e (List.mem_cons_self ..) own)
      simp [own, hb, rest]
    · simp [own, rest]

theorem textsInOrder_strict {ss : List String} (distinct : ss.Nodup) :
    (textsInOrder ss).Pairwise (· < ·) := by
  have total (a b : String) : decide (a ≤ b) = true ∨ decide (b ≤ a) = true := by
    simpa using le_total a b
  have trans (a b c : String) (hab : decide (a ≤ b) = true) (hbc : decide (b ≤ c) = true) :
      decide (a ≤ c) = true := by
    simp only [decide_eq_true_eq] at hab hbc ⊢
    exact le_trans hab hbc
  have sorted := pairwise_inOrder total trans ss
  have apart := (perm_inOrder (fun a b => decide (a ≤ b)) ss).nodup_iff.2 distinct
  refine (sorted.and apart).imp fun {a b} h => ?_
  exact lt_of_le_of_ne (by simpa using h.1) h.2

namespace Sound

theorem after (hc : c.Sound) (op : Operation) : (c.after op).Sound := by
  cases op with
  | register kind name v canonical builtin => exact hc.register ..
  | addAlias kind spelling name =>
    show ((c.addAlias kind spelling name).toOption.getD c).Sound
    cases spelt : c.addAlias kind spelling name with
    | error f => exact hc
    | ok i => exact hc.addAlias spelt
  | reset => exact .seeded ..

theorem afterAll (hc : c.Sound) (ops : List Operation) : (c.afterAll ops).Sound := by
  induction ops generalizing c with
  | nil => exact hc
  | cons op ops ih => exact ih (hc.after op)

theorem available?_eq (hc : c.Sound) (kind : ModuleKind) :
    c.available? kind = some (c.available kind) := by
  have slots : ∀ e ∈ c.aliases.entries, e.1.1 = kind → (c.shown? e).isSome = true := by
    rintro ⟨⟨k, name⟩, key⟩ he -
    simpa [shown?, slotValue] using hc.slot (Table.get?_of_mem he)
  rw [available?, mapM_filter slots, available]
  refine congrArg (some ∘ Table.ofList) (List.filterMap_congr fun e _ => ?_)
  split
  · rename_i own
    rw [shown?, own]
  · rfl

theorem snapshot?_eq (hc : c.Sound) : c.snapshot? = some c.registry := by
  rw [snapshot?, hc.available?_eq, hc.available?_eq]
  rfl

theorem registry_get (hc : c.Sound) (kind : ModuleKind) (name : String) :
    c.registry.get kind name = c.value kind name := by
  rw [Registry.get, hc.registry_get?, value_eq, find?_eq]

theorem mem_names (hc : c.Sound) (kind : ModuleKind) (name : String) :
    name ∈ c.names kind ↔ name ∈ (c.registry.table kind).keys := by
  have listed : name ∈ c.names kind ↔ (kind, name) ∈ c.aliases.keys := by
    rw [names, textsInOrder, (perm_inOrder ..).mem_iff]
    simp
  rw [listed, ← Table.contains_iff_mem_keys, ← Table.contains_iff_mem_keys, table_registry,
    Table.contains, Table.contains, get?_available]
  cases bound : c.aliases.get? (kind, name) with
  | none => rfl
  | some key => simpa using hc.slot bound

theorem reflected (hc : c.Sound) (kind : ModuleKind) : c.Reflected kind := by
  have distinct : ((c.aliases.keys.filter (·.1 = kind)).map Prod.snd).Nodup := by
    refine (c.aliases.nodup_keys.filter _).map_on fun a ha b hb same => ?_
    have own : a.1 = kind := by simpa using (List.mem_filter.1 ha).2
    have own' : b.1 = kind := by simpa using (List.mem_filter.1 hb).2
    exact Prod.ext (own.trans own'.symm) same
  have ordered := textsInOrder_strict distinct
  refine ⟨fun bound => ?_, hc.snapshot?_eq, hc.registry_get kind, ?_, ordered⟩
  · simpa [slotValue] using hc.slot bound
  · exact (List.perm_ext_iff_of_nodup (ordered.imp fun h => h.ne) (Table.nodup_keys _)).2
      (hc.mem_names kind)

end Sound

/-- Whatever is done to an inventory of built-in modules, a snapshot of it can be made and has what
the inventory finds. -/
theorem reflected_afterAll (b : Builtins) (generation : Nat) (ops : List Operation)
    (kind : ModuleKind) : ((seeded b generation).afterAll ops).Reflected kind :=
  ((Sound.seeded b generation).afterAll ops).reflected kind

end Inventory

end PluginHost
