import PluginHost.Proofs.Host.Replacements
import PluginHost.Proofs.Module.Spellings

/-!
Spellings of one name along a run. They stay together unless a name with two starts is installed, an
installation takes the short form over from another module, or a module answers to one more spelling
while the key of its own slot leads elsewhere.
-/
namespace PluginHost

variable {u : Setup} {h k : Host} {l : Host.Label} {ls : List Host.Label} {kind : ModuleKind}
  {n s t : String} {i : Inventory}

/-- What keeps spellings of `n` apart in every host of a setup: the engine's own modules, or a
bundled plugin that has two starts to its name. -/
inductive Setup.Parts (u : Setup) (kind : ModuleKind) (n : String) : Prop where
  | builtin (splits : u.builtins.Splits kind n) : Parts u kind n
  | bundled {name path : String} (plugin : kind = .plugin)
      (listed : lookup? name u.settings.bundled = some path)
      (twofold : PackageName.Twofold kind name n) : Parts u kind n

namespace Host

/-- Whether the task that has the turn may part spellings of `n`. -/
inductive Parts (kind : ModuleKind) (n : String) (h : Host) : Prop where
  /-- It installs something that has two starts to its name, or to the name of its package. -/
  | twofold {w : Wanted} {package : String} {v : Value} (installs : h.Installs w package v)
      (same : w.kind = kind)
      (two : PackageName.Twofold kind w.name n ∨ PackageName.Twofold kind package n) :
      Parts kind n h
  /-- It installs something that answers to `n` from now on, while another module does so. -/
  | taken {w : Wanted} {package key : String} {v : Value} (installs : h.Installs w package v)
      (same : w.kind = kind) (answers : n ∈ Inventory.bound kind w.name (some package))
      (led : h.workspace.inventory.aliases.get? (kind, n) = some key)
      (elsewhere : key ≠ Inventory.slotKey kind w.name (some package)) : Parts kind n h
  /-- It finds a spelling of `n` in a slot whose own key leads elsewhere. -/
  | crooked {name key : String} {m : Installed} (wants : h.Wants kind name)
      (spelt : name = n ∨ PackageName.short kind name = n)
      (found : h.workspace.inventory.find? kind name = some (key, m))
      (elsewhere : h.workspace.inventory.key? kind key ≠ some key) : Parts kind n h

/-- A step keeps spellings together that nothing parts. -/
theorem Shifts.agrees (hu : ¬ u.Parts kind n) (hc : h.workspace.From u) (hs : Shifts u h i)
    (sound : h.workspace.inventory.Sound) (agrees : h.workspace.inventory.Agrees kind n)
    (hp : ¬ h.Parts kind n) : i.Agrees kind n := by
  cases hs with
  | same => exact agrees
  | reset => exact Inventory.agrees_seeded (fun splits => hu (.builtin splits)) _
  | spell found spelt wants =>
    refine agrees.addAlias found spelt fun hk hn => Classical.not_not.1 fun elsewhere => ?_
    subst hk
    exact hp (.crooked wants hn found elsewhere)
  | @bundle names =>
    have both := Workspace.addBundled_induction (c := h.workspace)
      (P := fun i => i.Sound ∧ i.Agrees kind n) names
      (fun i name path v listed _ new hi => ⟨hi.1.register ..,
        hi.2.register_none hi.1 new fun plugin two =>
          hu (.bundled plugin.symm (hc.settings ▸ listed) two)⟩)
      ⟨sound, agrees⟩
    exact both.2
  | @install w package v installs =>
    refine agrees.register (fun hk m hm two => ?_) fun hk answers key led => ?_
    · refine hp (.twofold installs hk (hm.imp (fun he => ?_) fun he => ?_))
      · exact he ▸ two
      · obtain rfl : package = m := Option.some.inj (Option.filter_eq_some_iff.1 he).1
        exact two
    · subst hk
      exact Classical.not_not.1 fun elsewhere => hp (.taken installs rfl answers led elsewhere)

/-- What holds of an inventory of built-in modules, and is kept by further names and by
registrations, holds of the installed modules whatever callers and tasks do. -/
theorem inventory_induction {P : Inventory → Prop} (seeded : ∀ b g, P (.seeded b g))
    (addAlias : ∀ {c i : Inventory} {kind : ModuleKind} {name key : String},
      c.addAlias kind name key = .ok i → P c → P i)
    (register : ∀ (c : Inventory) (kind : ModuleKind) (name : String) (v : Value)
      (canonical : Option String) (builtin : Bool), P c →
        P (c.register kind name v canonical builtin))
    (hr : u.Runs ls h) : P h.workspace.inventory := by
  have shifts {h : Host} {i : Inventory} (hs : Shifts u h i) (hp : P h.workspace.inventory) :
      P i := by
    cases hs with
    | same => exact hp
    | reset => exact seeded ..
    | spell found spelt => exact addAlias spelt hp
    | bundle =>
      exact Workspace.addBundled_induction (P := P) _
        (fun i name path v _ _ _ hi => register _ _ _ _ _ _ hi) hp
    | install => exact register _ _ _ _ _ _ hp
  refine Steps.forward (P := fun _ k => P k.workspace.inventory) (seeded ..) ?_ hr
  intro ls h k l hk hp hs
  by_cases ordinary : l.Ordinary
  · exact shifts (hs.effect.shifts (from_of_runs hk) ordinary) hp
  · cases hs.effect with
    | quiet still silent workspace => exact workspace ▸ hp
    | start idle workspace => exact workspace ▸ hp
    | @move t q => exact (ordinary (by cases (h.next q).2 <;> trivial)).elim
    | @change change k idle workspace =>
      rw [workspace]
      cases change with
      | register kind name v canonical builtin => exact register _ _ _ _ _ _ hp
      | addAlias kind spelling name =>
        simp only [Workspace.after]
        cases spelt : h.workspace.inventory.addAlias kind spelling name with
        | error => exact hp
        | ok i => exact addAlias spelt hp
      | _ => exact (ordinary trivial).elim
    | _ => exact (ordinary trivial).elim

/-- Every alias leads to a slot. -/
theorem sound_of_runs (hr : u.Runs ls h) : h.workspace.inventory.Sound :=
  inventory_induction Inventory.Sound.seeded (fun spelt hc => hc.addAlias spelt)
    (fun _ kind name v canonical builtin hc => hc.register kind name v canonical builtin) hr

/-- The key of every slot leads to a slot itself. -/
theorem keyed_of_runs (hr : u.Runs ls h) : h.workspace.inventory.Keyed :=
  inventory_induction Inventory.Keyed.seeded (fun spelt hc => hc.addAlias spelt)
    (fun _ kind name v canonical builtin hc => hc.register kind name v canonical builtin) hr

/-- Spellings of one short form stay together along a run unless something parts them. -/
theorem agrees_of_runs (hu : ¬ u.Parts kind n) (hr : u.Runs ls h) (ho : ∀ l ∈ ls, l.Ordinary) :
    h.workspace.inventory.Agrees kind n ∨ u.Lately ls h (Parts kind n) := by
  have fresh (generation : Nat) : (Inventory.seeded u.builtins generation).Agrees kind n :=
    Inventory.agrees_seeded (fun splits => hu (.builtin splits)) _
  refine Steps.forward (P := fun ls k => (∀ l ∈ ls, l.Ordinary) →
    k.workspace.inventory.Agrees kind n ∨ u.Lately ls k (Parts kind n)) ?_ ?_ hr ho
  · exact fun _ => .inl (fresh 0)
  · intro ls k m l hk hi hs ho
    have hc := from_of_runs hk
    have shifts := hs.effect.shifts hc (ho l (by simp))
    obtain agrees | lately := hi fun l hl => ho l (by simp [hl])
    · by_cases hp : k.Parts kind n
      · exact .inr (.now hk hs hp)
      · exact .inl (shifts.agrees hu hc (sound_of_runs hk) agrees hp)
    · obtain same | reset := shifts.generation
      · exact .inr (lately.snoc hs same)
      · exact .inl (reset ▸ fresh _)

/-- All spellings of a name are found alike: either none of them is installed or all of them lead to
the same module, unless the engine's own modules, the remaps or the bundled plugins of the setup
keep them apart, or, since the modules were last dropped, something parted them. -/
theorem spellings_alike (hr : u.Runs ls h) (ho : ∀ l ∈ ls, l.Ordinary)
    (same : PackageName.short kind s = PackageName.short kind t) :
    h.workspace.inventory.find? kind s = h.workspace.inventory.find? kind t ∨
      u.Parts kind (PackageName.short kind t) ∨
        u.Lately ls h (Parts kind (PackageName.short kind t)) := by
  by_cases hu : u.Parts kind (PackageName.short kind t)
  · exact .inr (.inl hu)
  · obtain agrees | lately := agrees_of_runs hu hr ho
    · exact .inl (agrees.find?_eq same rfl)
    · exact .inr (.inr lately)

end Host

/-- Two spellings of a name that was installed under a third one. -/
theorem spellings_alike_file :
    ∃ ls h, Setup.onePlugin.Runs ls h ∧ (∀ l ∈ ls, l.Ordinary) ∧
      PackageName.short .plugin "@babel/plugin-x" = PackageName.short .plugin "babel-plugin-x" ∧
      (h.workspace.inventory.find? .plugin "@babel/plugin-x" =
          h.workspace.inventory.find? .plugin "babel-plugin-x" ∨
        Setup.onePlugin.Parts .plugin (PackageName.short .plugin "babel-plugin-x") ∨
        Setup.onePlugin.Lately ls h
          (Host.Parts .plugin (PackageName.short .plugin "babel-plugin-x"))) := by
  have hr := Setup.onePlugin.runs_run World.rivalled_admits [.install .file] 33 ()
  have ordinary := Wanted.ordinary_labels Setup.onePlugin (.steady Query.rivalled) 33 ()
  exact ⟨_, _, hr, ordinary, by decide, Host.spellings_alike hr ordinary (by decide)⟩

/-- An engine whose plugin goes by a further name. -/
def Setup.renamed : Setup where
  settings := { Settings.short with remaps := [("babel-plugin-old", "detective")] }
  plugins := [("babel-plugin-detective", .int 1)]

/-- The install of a plugin that has two starts to its name. -/
def Wanted.twice : Wanted := ⟨.plugin, "babel-plugin-babel-plugin-x", 7, .null⟩

/-- A remote that has one package, with two starts to its name. -/
def Query.twice : Query → Option Outcome
  | .download "/n/babel-plugin-babel-plugin-x/package.json" _ =>
    some (.ok (.files (.ofList
      [("/n/babel-plugin-babel-plugin-x/package.json", "\x7b\x7d".toUTF8.toList)])))
  | .download "/n/babel-plugin-babel-plugin-x" _ =>
    some (.ok (.files (.ofList
      [("/n/babel-plugin-babel-plugin-x/index.json", "2".toUTF8.toList)])))
  | .download path _ => some (.error (Fault.unfetchable path none))
  | _ => none

theorem World.twice_admits : (World.steady Query.twice).Admits := by
  refine steady_admits fun q o h => ?_
  unfold Query.twice at h
  split at h <;> cases h <;> exact trivial

/-- A further name leads to a module that its short form does not lead to, and so does a name that
is left by taking one of two starts off an installed one. -/
theorem spellings_can_part :
    (¬ ∀ ls h, Setup.renamed.Runs ls h → (∀ l ∈ ls, l.Ordinary) →
        h.workspace.inventory.find? .plugin "babel-plugin-old" =
          h.workspace.inventory.find? .plugin "old") ∧
      ¬ ∀ ls h, Setup.bare.Runs ls h → (∀ l ∈ ls, l.Ordinary) →
        h.workspace.inventory.find? .plugin "babel-plugin-x" =
          h.workspace.inventory.find? .plugin "x" := by
  have parted {c : Inventory} {s t : String}
      (one : (c.contains .plugin s && !c.contains .plugin t) = true) :
      c.find? .plugin s ≠ c.find? .plugin t := by
    intro same
    rw [Inventory.contains, Inventory.contains, same] at one
    cases found : (c.find? .plugin t).isSome <;> simp [found] at one
  refine ⟨fun always => ?_, fun always => ?_⟩
  · exact parted (by decide +kernel) (always [] Setup.renamed.host .refl fun _ hl => by cases hl)
  · have hr := Setup.bare.runs_run World.twice_admits [.install .twice] 33 ()
    have ordinary : ∀ l ∈ Setup.bare.labels (.steady Query.twice) [.install .twice] 33 (),
        l.Ordinary :=
      List.forall_mem_cons.2 ⟨fun _ hv => by simp at hv,
        fun l hl => (Host.internal_labels _ 33 _ () l hl).ordinary⟩
    exact parted (by decide +kernel) (always _ _ hr ordinary)

end PluginHost
