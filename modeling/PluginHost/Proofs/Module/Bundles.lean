import PluginHost.Proofs.Module.Alike
import PluginHost.Workspace

/-!
Plugins that come with the host. Those of a list may be registered in any order, unless one of them
is found under the name of another one.
-/
namespace PluginHost

variable {s : Settings} {m : HostModules} {i j i' : Inventory} {a b name : String}
  {ps qs : List String}

/-- An inventory after a plugin was registered, if that comes with the host and is not installed;
nothing if it cannot be imported. -/
def Settings.bundle (s : Settings) (m : HostModules) (i : Inventory) (name : String) :
    Option Inventory :=
  match lookup? name s.bundled, i.contains .plugin name with
  | some path, false =>
    (m.import? path).toOption.map fun v => i.register .plugin name v none true
  | _, _ => some i

/-- Different plugins of a list that come with the host have distant names. -/
def Settings.Unrivalled (s : Settings) (names : List String) : Prop :=
  ∀ a ∈ names, ∀ b ∈ names, a ≠ b → (lookup? a s.bundled).isSome = true →
    (lookup? b s.bundled).isSome = true → Inventory.Distant .plugin a b

theorem Inventory.Alike.refl_option (x : Option Inventory) : Option.Rel Inventory.Alike x x := by
  cases x with
  | none => exact .none
  | some i => exact .some (.refl i)

namespace Settings

theorem bundle_of_none (hn : lookup? name s.bundled = none) : s.bundle m i name = some i := by
  simp [bundle, hn]

theorem bundle_of_some {path : String} (hp : lookup? name s.bundled = some path) :
    s.bundle m i name =
      if i.contains .plugin name = true then some i
      else (m.import? path).toOption.map fun v => i.register .plugin name v none true := by
  unfold bundle
  rw [hp]
  cases i.contains .plugin name <;> rfl

theorem bundle_alike (hi : i.Alike j) (name : String) :
    Option.Rel Inventory.Alike (s.bundle m i name) (s.bundle m j name) := by
  unfold bundle
  rw [hi.contains]
  split
  · cases (m.import? _).toOption with
    | none => exact .none
    | some v => exact .some (hi.register ..)
  · exact .some hi

theorem sound_bundle (hi : i.Sound) (hb : s.bundle m i name = some i') : i'.Sound := by
  unfold bundle at hb
  split at hb
  · obtain ⟨v, -, rfl⟩ := Option.map_eq_some_iff.1 hb
    exact hi.register ..
  · exact Option.some.inj hb ▸ hi

/-- Plugins with distant names may be bundled in either order. -/
theorem bundle_comm (hi : i.Sound) (hn : (lookup? a s.bundled).isSome = true →
      (lookup? b s.bundled).isSome = true → Inventory.Distant .plugin a b) :
    Option.Rel Inventory.Alike ((s.bundle m i a).bind (s.bundle m · b))
      ((s.bundle m i b).bind (s.bundle m · a)) := by
  cases ha : lookup? a s.bundled with
  | none =>
    simp only [bundle_of_none ha, Option.bind_some, Option.bind_fun_some]
    exact Inventory.Alike.refl_option _
  | some path =>
    cases hb : lookup? b s.bundled with
    | none =>
      simp only [bundle_of_none hb, Option.bind_some, Option.bind_fun_some]
      exact Inventory.Alike.refl_option _
    | some path' =>
      have distant : Inventory.Distant .plugin a b := hn (by rw [ha]; rfl) (by rw [hb]; rfl)
      have left (v : Value) :
          (i.register .plugin a v none true).contains .plugin b = i.contains .plugin b :=
        distant.contains_register hi
      have right (v : Value) :
          (i.register .plugin b v none true).contains .plugin a = i.contains .plugin a :=
        distant.symm.contains_register hi
      simp only [bundle_of_some ha, bundle_of_some hb]
      cases hc : i.contains .plugin a <;> cases hd : i.contains .plugin b <;>
        cases (m.import? path).toOption <;> cases (m.import? path').toOption <;>
        simp [left, right, hc, hd, Inventory.Alike.refl, distant.register_comm]

/-- What is made of inventories that have the same is the same. -/
theorem rel_bind {x y : Option Inventory} {f g : Inventory → Option Inventory}
    (hx : Option.Rel Inventory.Alike x y)
    (same : ∀ i j, i.Alike j → Option.Rel Inventory.Alike (f i) (g j)) :
    Option.Rel Inventory.Alike (x.bind f) (y.bind g) := by
  cases hx with
  | none => exact .none
  | some hi => exact same _ _ hi

theorem rel_trans {x y z : Option Inventory} (hx : Option.Rel Inventory.Alike x y)
    (hy : Option.Rel Inventory.Alike y z) : Option.Rel Inventory.Alike x z := by
  cases hx with
  | none => exact hy
  | some hi =>
    cases hy with
    | some hj => exact .some (hi.trans hj)

theorem bundleAll_alike (hi : i.Alike j) (names : List String) :
    Option.Rel Inventory.Alike (names.foldlM (s.bundle m) i) (names.foldlM (s.bundle m) j) := by
  induction names generalizing i j with
  | nil => exact .some hi
  | cons name names ih => exact rel_bind (bundle_alike hi name) fun _ _ => ih

theorem Unrivalled.perm (hu : s.Unrivalled ps) (perm : ps.Perm qs) : s.Unrivalled qs :=
  fun a ha b hb => hu a (perm.mem_iff.2 ha) b (perm.mem_iff.2 hb)

/-- The plugins of a list that come with the host may be registered in any order. -/
theorem bundleAll_perm (perm : ps.Perm qs) (hi : i.Sound) (alike : i.Alike j)
    (hu : s.Unrivalled ps) :
    Option.Rel Inventory.Alike (ps.foldlM (s.bundle m) i) (qs.foldlM (s.bundle m) j) := by
  induction perm generalizing i j with
  | nil => exact .some alike
  | @cons name ps qs _ ih =>
    have first := bundle_alike (s := s) (m := m) alike name
    rw [List.foldlM_cons, List.foldlM_cons]
    cases hb : s.bundle m i name with
    | none =>
      rw [hb] at first
      generalize s.bundle m j name = y at first ⊢
      cases first
      exact .none
    | some i' =>
      rw [hb] at first
      generalize s.bundle m j name = y at first ⊢
      cases first with
      | some alike =>
        exact ih (sound_bundle hi hb) alike fun a ha b hb =>
          hu a (List.mem_cons_of_mem _ ha) b (List.mem_cons_of_mem _ hb)
  | swap a b ps =>
    by_cases same : a = b
    · subst same
      exact bundleAll_alike alike _
    · have swapped := bundle_comm (a := b) (b := a) (m := m) hi <|
        hu b (by simp) a (by simp) (Ne.symm same)
      refine rel_trans ?_ (bundleAll_alike alike _)
      simpa [List.foldlM_cons, Option.bind_assoc] using
        rel_bind swapped fun _ _ hi => bundleAll_alike (s := s) (m := m) hi ps
  | trans first _ ih₁ ih₂ =>
    exact rel_trans (ih₁ hi (.refl i) hu) (ih₂ hi alike (hu.perm first))

end Settings

namespace Workspace

/-- Registering a bundled plugin makes nothing but an inventory, unless it fails. -/
theorem addBundled_cons (c : Workspace) (name : String) (names : List String) :
    (∃ i, c.settings.bundle c.host c.inventory name = some i ∧
        c.addBundled (name :: names) = ({ c with inventory := i } : Workspace).addBundled names) ∨
      ∃ f, c.settings.bundle c.host c.inventory name = none ∧
        (c.addBundled (name :: names)).1 = .error f := by
  rw [addBundled, Settings.bundle]
  cases lookup? name c.settings.bundled with
  | none => exact .inl ⟨_, rfl, rfl⟩
  | some path =>
    cases c.inventory.contains .plugin name with
    | true => exact .inl ⟨_, rfl, rfl⟩
    | false =>
      dsimp only
      cases c.host.import? path with
      | ok v => exact .inl ⟨_, rfl, rfl⟩
      | error f => exact .inr ⟨_, rfl, rfl⟩

theorem addBundled_eq (c : Workspace) (names : List String) :
    (∃ i, names.foldlM (c.settings.bundle c.host) c.inventory = some i ∧
        c.addBundled names = (.ok (), { c with inventory := i })) ∨
      ∃ f, names.foldlM (c.settings.bundle c.host) c.inventory = none ∧
        (c.addBundled names).1 = .error f := by
  induction names generalizing c with
  | nil => exact .inl ⟨_, rfl, rfl⟩
  | cons name names ih =>
    rw [List.foldlM_cons]
    obtain ⟨i, made, rest⟩ | ⟨f, none, fails⟩ := c.addBundled_cons name names
    · rw [made, rest]
      exact ih { c with inventory := i }
    · rw [none]
      exact .inr ⟨f, rfl, fails⟩

end Workspace

end PluginHost
