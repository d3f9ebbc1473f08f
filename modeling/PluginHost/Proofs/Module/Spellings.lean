import PluginHost.Proofs.Module.Builtins

/-!
Spellings of one short form. They are all found alike as long as each of them that is bound leads to
the slot that the short form leads to.
-/
namespace PluginHost

/-- Taking one start off a name leaves another name than `n`, and taking two off leaves `n`. -/
def PackageName.Twofold (kind : ModuleKind) (name n : String) : Prop :=
  short kind name ≠ n ∧ short kind (short kind name) = n

/-- What keeps spellings of `n` apart from the start: a further name for a built-in module that is
not `n` itself, or a built-in module that has two starts to its name. -/
inductive Builtins.Splits (b : Builtins) (kind : ModuleKind) (n : String) : Prop where
  | remap {name target : String} (plugin : kind = .plugin) (listed : (name, target) ∈ b.remaps)
      (spelt : PackageName.short kind name = n) (other : name ≠ n) : Splits b kind n
  | twofold {m : String × Value} (member : m ∈ b.ofKind kind)
      (twice : PackageName.short kind (PackageName.short kind m.1) ≠ PackageName.short kind m.1)
      (leaves : PackageName.short kind m.1 = n ∨
        PackageName.short kind (PackageName.short kind m.1) = n) : Splits b kind n

namespace Inventory

variable {c : Inventory} {kind k : ModuleKind} {key n name s t : String} {v : Value}
  {canonical : Option String} {builtin : Bool}

/-- A spelling of `n` that is bound leads where `n` leads. -/
structure Agrees (c : Inventory) (kind : ModuleKind) (n : String) : Prop where
  bound : ∀ {name key : String}, PackageName.short kind name = n →
    c.aliases.get? (kind, name) = some key → c.aliases.get? (kind, n) = some key

/-- A name that is bound by a registration is a spelling of a name that is bound by it, too, save
for names with two starts. -/
theorem mem_bound_short (hs : s ∈ bound kind name canonical) (hn : PackageName.short kind s = n)
    (single : ∀ m, m = name ∨ given canonical = some m → ¬ PackageName.Twofold kind m n) :
    n ∈ bound kind name canonical := by
  have once {m : String} (hm : m = name ∨ given canonical = some m)
      (twice : PackageName.short kind (PackageName.short kind m) = n) :
      PackageName.short kind m = n :=
    Classical.not_not.1 fun h => single m hm ⟨h, twice⟩
  have names : s = name ∨ s = PackageName.short kind name ∨ s = slotKey kind name canonical ∨
      given canonical = some s := by
    simpa [bound, Option.mem_toList] using hs
  obtain rfl | rfl | rfl | hg := names
  · simp [bound, ← hn]
  · have := once (.inl rfl) hn
    simp [bound, ← this]
  · have : slotKey kind name canonical = n := by
      unfold slotKey at hn ⊢
      cases hg : given canonical with
      | none => exact once (.inl rfl) (by simpa [hg] using hn)
      | some m => exact once (.inr hg) (by simpa [hg] using hn)
    simp [bound, this]
  · have : slotKey kind name canonical = n := by simpa [slotKey, hg] using hn
    simp [bound, this]

namespace Agrees

theorem key?_eq (hc : c.Agrees kind n) (hn : PackageName.short kind name = n) :
    c.key? kind name = c.aliases.get? (kind, n) := by
  unfold key?
  cases ha : c.aliases.get? (kind, name) with
  | none => simp [hn]
  | some key => simp [hc.bound hn ha]

/-- All spellings of one short form are found alike. -/
theorem find?_eq (hc : c.Agrees kind n) (hs : PackageName.short kind s = n)
    (ht : PackageName.short kind t = n) : c.find? kind s = c.find? kind t := by
  unfold find?
  rw [hc.key?_eq hs, hc.key?_eq ht]

/-- A short form leads to every module that one of its spellings leads to. -/
theorem find?_short (hc : c.Agrees kind n) (hs : PackageName.short kind s = n)
    (found : c.contains kind s = true) : c.find? kind n = c.find? kind s := by
  have led : c.key? kind s = c.aliases.get? (kind, n) := hc.key?_eq hs
  have own : c.key? kind n = c.aliases.get? (kind, n) := by
    cases hn : c.aliases.get? (kind, n) with
    | none => simp [contains, find?, led, hn] at found
    | some key => simp [key?, hn]
  unfold find?
  rw [own, led]

theorem bind (hc : c.Agrees kind n)
    (spelt : k = kind → PackageName.short kind name = n → name ≠ n →
      c.aliases.get? (kind, n) = some key)
    (own : k = kind → name = n → ∀ j, c.aliases.get? (kind, n) = some j → j = key) :
    (c.bind k key name).Agrees kind n := by
  refine ⟨fun {s j} hs ha => ?_⟩
  simp only [Inventory.bind, Table.get?_insert, Prod.mk.injEq] at ha ⊢
  by_cases hn : k = kind ∧ name = n
  · obtain ⟨hk, hn⟩ := hn
    rw [if_pos ⟨hk, hn⟩]
    split at ha
    · exact ha
    · rw [own hk hn j (hc.bound hs ha)]
  · rw [if_neg hn]
    split at ha
    · rename_i he
      obtain rfl := Option.some.inj ha
      exact spelt he.1 (he.2 ▸ hs) fun h => hn ⟨he.1, h⟩
    · exact hc.bound hs ha

/-- An installed module that answers to one more spelling, unless the key of its slot leads
elsewhere. -/
theorem addAlias {i : Inventory} {m : Installed} (hc : c.Agrees kind n)
    (found : c.find? k name = some (key, m)) (spelt : c.addAlias k name key = .ok i)
    (straight : k = kind → name = n ∨ PackageName.short kind name = n →
      c.key? kind key = some key) : i.Agrees kind n := by
  obtain ⟨key', m', hk, rfl⟩ := addAlias_eq_ok spelt
  have led := (find?_eq_some.1 found).1
  have same (h : k = kind) (hn : name = n ∨ PackageName.short kind name = n) : key' = key := by
    subst h
    exact Option.some.inj ((find?_eq_some.1 hk).1.symm.trans (straight rfl hn))
  refine hc.bind (fun h hn _ => ?_) fun h hn j hj => ?_
  · obtain rfl := same h (.inr hn)
    subst h
    exact (hc.key?_eq hn).symm.trans led
  · obtain rfl := same h (.inl hn)
    subst h hn
    exact Option.some.inj (((by simp [key?, hj] : c.key? k name = some j)).symm.trans led)

theorem register (hc : c.Agrees kind n)
    (single : k = kind → ∀ m, m = name ∨ given canonical = some m →
      ¬ PackageName.Twofold kind m n)
    (keeps : k = kind → n ∈ Inventory.bound kind name canonical →
      ∀ j, c.aliases.get? (kind, n) = some j → j = slotKey kind name canonical) :
    (c.register k name v canonical builtin).Agrees kind n := by
  refine ⟨fun {s j} hs ha => ?_⟩
  rw [aliases_register] at ha ⊢
  by_cases hk : k = kind
  · subst hk
    simp only [true_and] at ha ⊢
    split at ha
    · rename_i hm
      rw [if_pos (mem_bound_short hm hs (single rfl)), ha]
    · have led := hc.bound hs ha
      split
      · rename_i hn
        rw [← keeps rfl hn j led]
      · exact led
  · simp only [hk, false_and, if_false] at ha ⊢
    exact hc.bound hs ha

/-- A registration under a name that nothing was found under takes no name over. -/
theorem register_none (hc : c.Agrees kind n) (hs : c.Sound) (hn : c.contains k name = false)
    (single : k = kind → ¬ PackageName.Twofold kind name n) :
    (c.register k name v none builtin).Agrees kind n := by
  refine hc.register (fun hk m hm => ?_) fun hk hm j hj => ?_
  · obtain rfl : m = name := hm.resolve_right (by simp [given])
    exact single hk
  · subst hk
    have hm : n = name ∨ n = PackageName.short k name := by
      simpa [Inventory.bound, slotKey, given] using hm
    have found : c.contains k name = true := hs.contains <| by
      obtain rfl | rfl := hm
      · exact .inl (by rw [hj]; rfl)
      · exact .inr (by rw [hj]; rfl)
    cases hn.symm.trans found

end Agrees

section Seeding

variable {b : Builtins} {modules : List (String × Value)}

/-- While built-in modules are registered, `n` leads to the slot of its own short form. -/
structure Settled (c : Inventory) (kind : ModuleKind) (n : String) : Prop extends
    Agrees c kind n where
  own : ∀ {key : String}, c.aliases.get? (kind, n) = some key → key = PackageName.short kind n

theorem Settled.register (hc : c.Settled kind n) (hn : k = kind →
      PackageName.short kind (PackageName.short kind name) ≠ PackageName.short kind name →
      PackageName.short kind name ≠ n ∧
        PackageName.short kind (PackageName.short kind name) ≠ n) :
    (c.register k name v none builtin).Settled kind n := by
  have key (hk : k = kind) (hm : n ∈ Inventory.bound kind name none) :
      slotKey kind name none = PackageName.short kind n := by
    have hm : n = name ∨ n = PackageName.short kind name := by
      simpa [Inventory.bound, slotKey, given] using hm
    obtain rfl | rfl := hm
    · simp [slotKey, given]
    · have once := Classical.not_not.1 fun h => (hn hk h).1 rfl
      simpa [slotKey, given] using once.symm
  refine ⟨hc.toAgrees.register (fun hk m hm => ?_) fun hk hm j hj => ?_, fun {j} hj => ?_⟩
  · obtain rfl : m = name := hm.resolve_right (by simp [given])
    rintro ⟨one, two⟩
    exact (hn hk fun h => one (h.symm.trans two)).2 two
  · rw [key hk hm, hc.own hj]
  · rw [aliases_register] at hj
    split at hj
    · rename_i hm
      obtain ⟨rfl, hm⟩ := hm
      rw [← Option.some.inj hj, key rfl hm]
    · exact hc.own hj

theorem Settled.registerBuiltins (hc : c.Settled kind n) (hb : ¬ b.Splits kind n)
    (hs : ∀ m ∈ modules, m ∈ b.ofKind k) : (registerBuiltins c k modules).Settled kind n := by
  induction modules generalizing c with
  | nil => exact hc
  | cons m modules ih =>
    refine ih (hc.register fun hk twice => ?_) fun m' hm => hs m' (by simp [hm])
    have member : m ∈ b.ofKind kind := hk ▸ hs m (by simp)
    exact ⟨fun h => hb (.twofold member twice (.inl h)),
      fun h => hb (.twofold member twice (.inr h))⟩

theorem Agrees.remap {target : String} (hc : c.Agrees kind n) (hs : c.Sound)
    (hn : kind = .plugin → PackageName.short kind name = n → name = n) :
    (c.remap name target).Agrees kind n := by
  unfold Inventory.remap
  split
  · exact hc
  · rename_i free
    split
    · refine hc.bind (fun hk hs hne => (hne (hn hk.symm hs)).elim) fun hk he j hj => ?_
      subst hk he
      exact (free (hs.contains (.inl (by rw [hj]; rfl)))).elim
    · exact hc

/-- A registry has what the inventory that it was made of finds. -/
theorem Sound.registry_get? (hc : c.Sound) (kind : ModuleKind) (name : String) :
    c.registry.get? kind name = (c.find? kind name).map (·.2.value) := by
  unfold Registry.get?
  rw [find?_eq, table_registry, get?_available, get?_available]
  unfold key?
  cases ha : c.aliases.get? (kind, name) with
  | none => simp
  | some key =>
    obtain ⟨v, hv⟩ := Option.isSome_iff_exists.1 (hc.slot ha)
    simp [hv]

theorem Sound.addAlias {i : Inventory} (hc : c.Sound) (spelt : c.addAlias k name key = .ok i) :
    i.Sound := by
  obtain ⟨j, m, hk, rfl⟩ := addAlias_eq_ok spelt
  obtain ⟨-, hm⟩ := find?_eq_some.1 hk
  exact hc.bind (by simp [slotValue, hm]) _

theorem Sound.remap {target : String} (hc : c.Sound) : (c.remap name target).Sound := by
  unfold Inventory.remap
  split
  · exact hc
  · split
    · rename_i key m hf
      obtain ⟨-, hm⟩ := find?_eq_some.1 hf
      exact hc.bind (by simp [slotValue, hm]) name
    · exact hc

theorem Sound.registerBuiltins (hc : c.Sound) : (registerBuiltins c k modules).Sound := by
  induction modules generalizing c with
  | nil => exact hc
  | cons m modules ih => exact ih (hc.register ..)

/-- In an inventory of nothing but built-in modules all spellings are found alike, unless the
built-in modules keep them apart. -/
theorem agrees_seeded (hb : ¬ b.Splits kind n) (generation : Nat) :
    (seeded b generation).Agrees kind n := by
  have remaps (rs : List (String × String)) (hr : ∀ r ∈ rs, r ∈ b.remaps) {c : Inventory}
      (sound : c.Sound) (hc : c.Agrees kind n) :
      (rs.foldl (fun c r => c.remap r.1 r.2) c).Agrees kind n := by
    induction rs generalizing c with
    | nil => exact hc
    | cons r rs ih =>
      refine ih (fun r' hr' => hr r' (by simp [hr'])) sound.remap (hc.remap sound ?_)
      exact fun plugin spelt => Classical.not_not.1 fun other =>
        hb (.remap plugin (hr r (by simp)) spelt other)
  have empty : (⟨b, .empty, .empty, generation⟩ : Inventory).Settled kind n :=
    ⟨⟨fun _ ha => by cases ha⟩, fun ha => by cases ha⟩
  have plugins := empty.registerBuiltins (k := .plugin) hb fun m hm => hm
  refine remaps b.remaps (fun _ hr => hr) ?_
    (plugins.registerBuiltins (k := .preset) hb fun m hm => hm).toAgrees
  exact Sound.registerBuiltins (Sound.registerBuiltins ⟨fun ha => by cases ha⟩)

end Seeding

/-- The key of every slot leads to a slot itself. -/
structure Keyed (c : Inventory) : Prop where
  bound : ∀ {kind : ModuleKind} {key : String}, (c.slotValue (kind, key)).isSome = true →
    c.Answers kind key

namespace Keyed

theorem bind (hc : c.Keyed) (k : ModuleKind) (key name : String) : (c.bind k key name).Keyed :=
  ⟨fun hv => (hc.bound (slotValue_bind .. ▸ hv)).bind ..⟩

theorem register (hc : c.Keyed) (k : ModuleKind) (name : String) (v : Value)
    (canonical : Option String) (builtin : Bool) :
    (c.register k name v canonical builtin).Keyed := by
  refine ⟨fun {kind key} hv => ?_⟩
  rw [slotValue_register] at hv
  split at hv
  · rename_i he
    obtain ⟨rfl, rfl⟩ := Prod.mk.inj he
    simp [Answers, aliases_register, Inventory.bound]
  · exact (hc.bound hv).register ..

theorem seeded (b : Builtins) (generation : Nat) : (seeded b generation).Keyed :=
  seeded_induction (P := Keyed) ⟨fun hv => by cases hv⟩ (fun _ _ _ hc => hc.register ..)
    (fun _ _ _ hc => hc.register ..) fun _ _ _ _ _ _ _ hc => hc.bind ..

theorem addAlias {i : Inventory} (hc : c.Keyed) (spelt : c.addAlias k name key = .ok i) :
    i.Keyed := by
  obtain ⟨j, m, -, rfl⟩ := addAlias_eq_ok spelt
  exact hc.bind ..

/-- An installed module can always be given a further name. -/
theorem spells {m : Installed} (hc : c.Keyed) (hs : c.Sound)
    (found : c.find? kind name = some (key, m)) : ∃ i, c.addAlias kind name key = .ok i := by
  obtain ⟨-, slot⟩ := find?_eq_some.1 found
  have own : c.contains kind key = true :=
    hs.contains (.inl (hc.bound (by simp [slotValue, slot])))
  obtain ⟨⟨j, m'⟩, hj⟩ := Option.isSome_iff_exists.1 own
  exact ⟨_, by rw [Inventory.addAlias, hj]⟩

end Keyed

theorem answers_of_contains (found : c.contains kind name = true) :
    c.Answers kind name ∨ c.Answers kind (PackageName.short kind name) := by
  rw [contains_eq] at found
  unfold key? at found
  cases hs : c.aliases.get? (kind, name) with
  | some _ => exact .inl (by simp [Answers, hs])
  | none =>
    cases ht : c.aliases.get? (kind, PackageName.short kind name) with
    | some _ => exact .inr (by simp [Answers, ht])
    | none => simp [hs, ht] at found

/-- A further name for a module makes no name disappear. -/
theorem Sound.contains_addAlias {i : Inventory} (hc : c.Sound)
    (spelt : c.addAlias k name key = .ok i) (found : c.contains kind s = true) :
    i.contains kind s = true := by
  have sound := hc.addAlias spelt
  obtain ⟨j, m, -, rfl⟩ := addAlias_eq_ok spelt
  exact sound.contains ((answers_of_contains found).imp (·.bind ..) (·.bind ..))

end Inventory

end PluginHost
