import PluginHost.Proofs.Host.Spellings
import PluginHost.Proofs.Host.Tasks

/-!
Installs of what is already there. Such an install gives the name the slot that the key of the
module leads to, which is the slot of the module itself unless another module has taken over the key.
-/
namespace PluginHost

/-- Whether a built-in module goes by the short form of another one that is none of its own. -/
def Builtins.Crosses (b : Builtins) (kind : ModuleKind) (key : String) : Prop :=
  PackageName.short kind key ≠ key ∧ (∃ v, (key, v) ∈ b.ofKind kind) ∧
    ∃ m ∈ b.ofKind kind, PackageName.short kind m.1 = key

namespace Inventory

variable {c i : Inventory} {kind k : ModuleKind} {key name n : String} {v : Value} {m : Installed}
  {canonical : Option String} {builtin : Bool} {b : Builtins}

/-- The module that a name leads to: the key of its slot, and its value. -/
def leads? (c : Inventory) (kind : ModuleKind) (name : String) : Option (String × Value) :=
  (c.find? kind name).map fun f => (f.1, f.2.value)

theorem leads?_eq (c : Inventory) (kind : ModuleKind) (name : String) :
    c.leads? kind name = (c.key? kind name).bind fun key =>
      (c.slotValue (kind, key)).map fun v => (key, v) := by
  unfold leads? find? slotValue
  cases c.key? kind name with
  | none => rfl
  | some k => cases hm : c.slots.get? (kind, k) <;> simp [hm]

theorem exists_find? (h : (c.find? kind name).map (·.1) = some key) :
    ∃ m, c.find? kind name = some (key, m) := by
  obtain ⟨⟨j, m⟩, found, rfl⟩ := Option.map_eq_some_iff.1 h
  exact ⟨m, found⟩

theorem key?_bind (c : Inventory) (k : ModuleKind) (key name : String) (kind : ModuleKind)
    (n : String) : (c.bind k key name).key? kind n =
      if k = kind ∧ (n = name ∨ c.aliases.get? (kind, n) = none ∧ PackageName.short kind n = name)
      then some key else c.key? kind n := by
  simp only [key?, bind, Table.get?_insert, Prod.mk.injEq]
  cases c.aliases.get? (kind, n) <;> grind

/-- The key of a slot that is taken leads to the slot itself. -/
def Straight (c : Inventory) (kind : ModuleKind) (key : String) : Prop :=
  (c.slotValue (kind, key)).isSome = true → c.aliases.get? (kind, key) = some key

/-- Of the names that a registration under one name binds, only that name is not the key. -/
theorem named_of_bound (answers : key ∈ bound k name none) (other : key ≠ slotKey k name none) :
    key = name := by
  have either : key = name ∨ key = PackageName.short k name := by
    simpa [bound, slotKey, given] using answers
  exact either.resolve_right (by simpa [slotKey, given] using other)

namespace Straight

theorem leads? (hc : c.Straight kind key) (found : c.find? kind name = some (key, m)) :
    c.leads? kind key = some (key, m.value) := by
  have slot := (find?_eq_some.1 found).2
  have own : c.aliases.get? (kind, key) = some key := hc (by simp [slotValue, slot])
  simp [leads?_eq, key?, own, slotValue, slot]

theorem addAlias (hc : c.Straight kind key) (found : c.find? k name = some (n, m))
    (spelt : c.addAlias k name n = .ok i) : i.Straight kind key := by
  obtain ⟨j, m', led, rfl⟩ := addAlias_eq_ok spelt
  intro slot
  rw [slotValue_bind] at slot
  have own := hc slot
  by_cases same : k = kind ∧ name = key
  · obtain ⟨rfl, rfl⟩ := same
    have named : c.key? k name = some name := by simp [key?, own]
    obtain rfl := Option.some.inj ((find?_eq_some.1 found).1.symm.trans named)
    obtain rfl := Option.some.inj ((find?_eq_some.1 led).1.symm.trans named)
    simp [bind]
  · simp [bind, same, own]

theorem register (hc : c.Straight kind key)
    (keeps : k = kind → key ∈ bound k name canonical → key ≠ slotKey k name canonical →
      (c.slotValue (kind, key)).isSome = false) :
    (c.register k name v canonical builtin).Straight kind key := by
  intro slot
  rw [slotValue_register] at slot
  rw [aliases_register]
  split at slot
  · rename_i same
    obtain ⟨rfl, rfl⟩ := Prod.mk.inj same
    simp [bound]
  · rename_i other
    split
    · rename_i answers
      obtain ⟨rfl, answers⟩ := answers
      have free := keeps rfl answers fun same => other (by rw [same])
      cases free.symm.trans slot
    · exact hc slot

/-- A further name that was free is the key of no slot. -/
theorem bind_free (hc : c.Straight kind key) (sound : c.Sound) (free : c.contains k name = false) :
    (c.bind k n name).Straight kind key := by
  intro slot
  rw [slotValue_bind] at slot
  have own := hc slot
  have apart : ¬ (k = kind ∧ name = key) := by
    rintro ⟨rfl, rfl⟩
    cases free.symm.trans (sound.contains (.inl (by rw [own]; rfl)))
  simp [bind, apart, own]

/-- A registration under a name that nothing was found under takes no key over. -/
theorem register_none (hc : c.Straight kind key) (sound : c.Sound)
    (new : c.contains k name = false) : (c.register k name v none builtin).Straight kind key := by
  refine hc.register fun hk answers other => ?_
  subst hk
  obtain rfl := named_of_bound answers other
  refine Bool.eq_false_iff.2 fun slot => ?_
  cases new.symm.trans (sound.contains (.inl (by rw [hc slot]; rfl)))

/-- Built-in modules have slots of their own unless one goes by the short form of another. -/
theorem seeded (hb : ¬ b.Crosses kind key) (generation : Nat) :
    (seeded b generation).Straight kind key := by
  let Own (c : Inventory) : Prop := c.Sound ∧ c.Straight kind key ∧
    ((c.slotValue (kind, key)).isSome = true →
      ∃ m ∈ b.ofKind kind, PackageName.short kind m.1 = key)
  have registered {c : Inventory} {k : ModuleKind} {m : String × Value} (hm : m ∈ b.ofKind k)
      (hc : Own c) : Own (c.register k m.1 m.2 none true) := by
    obtain ⟨sound, straight, origin⟩ := hc
    refine ⟨sound.register .., straight.register fun hk answers other => ?_, fun slot => ?_⟩
    · subst hk
      obtain rfl := named_of_bound answers other
      refine Bool.eq_false_iff.2 fun slot => hb ⟨?_, ⟨m.2, hm⟩, origin slot⟩
      exact fun same => other same.symm
    · rw [slotValue_register] at slot
      split at slot
      · rename_i same
        obtain ⟨rfl, rfl⟩ := Prod.mk.inj same
        exact ⟨m, hm, rfl⟩
      · exact origin slot
  have own : Own (Inventory.seeded b generation) :=
    seeded_induction
      ⟨⟨fun ha => by cases ha⟩, fun slot => (by cases slot), fun slot => by cases slot⟩
      (fun c m hm hc => registered (k := .plugin) hm hc)
      (fun c m hm hc => registered (k := .preset) hm hc)
      fun c name target j m free led ⟨sound, straight, origin⟩ =>
        ⟨sound.bind (by simp [slotValue, (find?_eq_some.1 led).2]) name,
          straight.bind_free sound free, fun slot => origin (slotValue_bind .. ▸ slot)⟩
  exact own.2.1

end Straight

/-- A further name leads to what the name that it is given for leads to, and so does every unbound
name of which it is the short form. -/
theorem leads?_addAlias {target : String} (spelt : c.addAlias k name target = .ok i) :
    ∃ f, c.leads? k target = some f ∧ ∀ kind n, i.leads? kind n =
      if k = kind ∧ (n = name ∨ c.aliases.get? (kind, n) = none ∧ PackageName.short kind n = name)
      then some f else c.leads? kind n := by
  obtain ⟨j, m, led, rfl⟩ := addAlias_eq_ok spelt
  refine ⟨(j, m.value), by rw [leads?, led]; rfl, fun kind n => ?_⟩
  simp only [leads?_eq, key?_bind, slotValue_bind]
  split
  · rename_i answers
    obtain ⟨rfl, -⟩ := answers
    simp [slotValue, (find?_eq_some.1 led).2]
  · rfl

/-- Which names lead elsewhere once a module answers to a further name: none but that name and those
of which it is the short form, and they only if the key of the module leads to another one, or they
led nowhere and the name is not short itself. -/
theorem leads?_respelt {f : String × Value} (found : c.find? k name = some (key, m))
    (moved : ∀ kind n, i.leads? kind n =
      if k = kind ∧ (n = name ∨ c.aliases.get? (kind, n) = none ∧ PackageName.short kind n = name)
      then some f else c.leads? kind n) (kind : ModuleKind) (n : String) :
    i.leads? kind n = c.leads? kind n ∨
      kind = k ∧ i.leads? kind n = some f ∧ (n = name ∨ PackageName.short kind n = name) ∧
        (f ≠ (key, m.value) ∨ c.leads? kind n = none ∧ PackageName.short kind name ≠ name) := by
  have led : c.leads? k name = some (key, m.value) := by rw [leads?, found]; rfl
  rw [moved]
  split
  · rename_i answers
    obtain ⟨rfl, answers⟩ := answers
    by_cases same : f = (key, m.value)
    · subst same
      obtain rfl | ⟨free, spelt⟩ := answers
      · exact .inl led.symm
      · cases bound : c.aliases.get? (k, name) with
        | some j =>
          have alike : c.key? k n = c.key? k name := by simp [key?, free, spelt, bound]
          rw [leads?_eq, alike, ← leads?_eq]
          exact .inl led.symm
        | none =>
          have nowhere : c.key? k n = none := by simp [key?, free, spelt, bound]
          have unled : c.leads? k n = none := by rw [leads?_eq, nowhere]; rfl
          refine .inr ⟨rfl, rfl, .inr spelt, .inr ⟨unled, fun short => ?_⟩⟩
          have missing : c.key? k name = none := by simp [key?, bound, short]
          cases missing.symm.trans (find?_eq_some.1 found).1
    · exact .inr ⟨rfl, rfl, answers.imp_right And.right, .inl same⟩
  · exact .inl rfl

end Inventory

variable {u : Setup} {h k : Host} {l : Host.Label} {ls : List Host.Label} {t : TaskId}
  {kind : ModuleKind} {key : String} {w : Wanted} {m : Installed} {ss : List Stage}

namespace Host

/-- Whether the task that has the turn takes the key of a slot over: it installs something that
answers to the key in another slot. -/
def Usurps (kind : ModuleKind) (key : String) (h : Host) : Prop :=
  (h.workspace.inventory.slotValue (kind, key)).isSome = true ∧
    ∃ w package v, h.Installs w package v ∧ w.kind = kind ∧
      key ∈ Inventory.bound kind w.name (some package) ∧
      key ≠ Inventory.slotKey kind w.name (some package)

theorem Shifts.straight {i : Inventory} (hu : ¬ u.builtins.Crosses kind key) (hs : Shifts u h i)
    (sound : h.workspace.inventory.Sound) (straight : h.workspace.inventory.Straight kind key)
    (hp : ¬ h.Usurps kind key) : i.Straight kind key := by
  cases hs with
  | same => exact straight
  | reset => exact .seeded hu _
  | spell found spelt wants => exact straight.addAlias found spelt
  | @bundle names =>
    have both := Workspace.addBundled_induction (c := h.workspace)
      (P := fun i => i.Sound ∧ i.Straight kind key) names
      (fun i name path v _ _ new hi => ⟨hi.1.register .., hi.2.register_none hi.1 new⟩)
      ⟨sound, straight⟩
    exact both.2
  | @install w package v installs =>
    refine straight.register fun hk answers other => Bool.eq_false_iff.2 fun slot => ?_
    subst hk
    exact hp ⟨slot, w, package, v, installs, rfl, answers, other⟩

theorem straight_of_runs (hu : ¬ u.builtins.Crosses kind key) (hr : u.Runs ls h)
    (ho : ∀ l ∈ ls, l.Ordinary) :
    h.workspace.inventory.Straight kind key ∨ u.Lately ls h (Usurps kind key) := by
  refine Steps.forward (P := fun ls k => (∀ l ∈ ls, l.Ordinary) →
    k.workspace.inventory.Straight kind key ∨ u.Lately ls k (Usurps kind key)) ?_ ?_ hr ho
  · exact fun _ => .inl (.seeded hu 0)
  · intro ls k m l hk hi hs ho
    have shifts := hs.effect.shifts (from_of_runs hk) (ho l (by simp))
    obtain straight | lately := hi fun l hl => ho l (by simp [hl])
    · by_cases hp : k.Usurps kind key
      · exact .inr (.now hk hs hp)
      · exact .inl (shifts.straight hu (sound_of_runs hk) straight hp)
    · obtain same | reset := shifts.generation
      · exact .inr (lately.snoc hs same)
      · exact .inl (reset ▸ .seeded hu _)

/-- A task that finishes a job makes the only step that there is. -/
theorem step_iff_of_finish {q : Cue} {o : Outcome} (turn : h.turn = some t)
    (cue : h.cue? t = some (q, ss)) (finishes : (h.next q).2 = .finish o) :
    Step h l k ↔ l = .moved t ∧ k = (h.follow t ss (h.next q)).1 := by
  have free := query?_of_cue? cue
  have goes := advance_of_finish cue finishes
  refine ⟨fun hs => ?_, fun ⟨label, same⟩ => label ▸ same ▸ .move turn free goes⟩
  have own {i : TaskId} (hi : h.turn = some i) : i = t := Option.some.inj (hi.symm.trans turn)
  cases hs with
  | move hi _ next =>
    obtain rfl := own hi
    exact ⟨rfl, (congrArg Prod.fst (goes.symm.trans next)).symm⟩
  | stop hi _ next =>
    obtain rfl := own hi
    cases congrArg Prod.snd (goes.symm.trans next)
  | ask hi _ next =>
    obtain rfl := own hi
    cases congrArg Prod.snd (goes.symm.trans next)
  | answer hi asked => cases (own hi ▸ free).symm.trans asked
  | keep hi asked => cases (own hi ▸ free).symm.trans asked
  | take idle => cases idle.symm.trans turn
  | release idle => cases idle.symm.trans turn
  | start idle => cases idle.symm.trans turn
  | change idle => cases idle.symm.trans turn

/-- What becomes of an install of a name that leads to a module: it returns the value of the module,
and the name leads to the module thereafter, unless a built-in module or an installation has taken
over the key of the module. Another name leads elsewhere only if the name is its short form, and
then only to where the name itself leads. -/
structure Hits (u : Setup) (ls : List Label) (h k : Host) (t : TaskId) (w : Wanted)
    (ss : List Stage) (key : String) (v : Value) (f : String × Value) : Prop where
  only : ∀ l g, Step h l g ↔ l = .moved t ∧ g = k
  returns : k.tasks[t]? = some ⟨.resume (.ok (.value v)), ss⟩
  named : k.workspace.inventory.leads? w.kind w.name = some f
  same : f = (key, v) ∨ u.builtins.Crosses w.kind key ∨ u.Lately ls h (Usurps w.kind key)
  others : ∀ kind n,
    k.workspace.inventory.leads? kind n = h.workspace.inventory.leads? kind n ∨
      kind = w.kind ∧ k.workspace.inventory.leads? kind n = some f ∧
        (n = w.name ∨ PackageName.short kind n = w.name) ∧
        (f ≠ (key, v) ∨ h.workspace.inventory.leads? kind n = none ∧
          PackageName.short kind w.name ≠ w.name)

/-- An install of a name that leads to a module can always respell it, and finishes. -/
theorem next_of_found (hr : u.Runs ls h)
    (found : h.workspace.inventory.find? w.kind w.name = some (key, m)) :
    ∃ i, h.workspace.inventory.addAlias w.kind w.name key = .ok i ∧
      h.next (.begin (.install w)) =
        ({ h.workspace with inventory := i }, .finish (.ok (.value m.value))) := by
  obtain ⟨i, spelt⟩ := (keyed_of_runs hr).spells (sound_of_runs hr) found
  exact ⟨i, spelt, next_of_begins (.installThere found spelt)⟩

theorem install_hit (hr : u.Runs ls h) (ho : ∀ l ∈ ls, l.Ordinary) (turn : h.turn = some t)
    (cue : h.cue? t = some (.begin (.install w), ss))
    (found : h.workspace.inventory.find? w.kind w.name = some (key, m)) :
    ∃ k f, Hits u ls h k t w ss key m.value f := by
  obtain ⟨i, spelt, goes⟩ := next_of_found hr found
  obtain ⟨f, led, moved⟩ := Inventory.leads?_addAlias spelt
  have finishes := congrArg Prod.snd goes
  refine ⟨_, f, fun l g => step_iff_of_finish turn cue finishes, ?_, ?_, ?_, ?_⟩
  · rw [goes]
    exact List.getElem?_set_self (lt_of_cue? cue)
  · rw [goes]
    exact (moved ..).trans (if_pos ⟨rfl, .inl rfl⟩)
  · by_cases hu : u.builtins.Crosses w.kind key
    · exact .inr (.inl hu)
    · obtain straight | lately := straight_of_runs hu hr ho
      · exact .inl (Option.some.inj (led.symm.trans (straight.leads? found)))
      · exact .inr (.inr lately)
  · rw [goes]
    exact Inventory.leads?_respelt found moved

/-- A host on which an install is started, and has its turn. -/
def beginning (h : Host) (w : Wanted) : Host := (h.start [.install w]).take h.tasks.length

theorem cue?_beginning (h : Host) (w : Wanted) :
    (h.beginning w).cue? h.tasks.length = some (.begin (.install w), []) :=
  cue?_eq_begin.2 (by simp [beginning, take, start])

end Host

/-- An install that is started between turns can have the next one. -/
theorem Setup.Runs.beginning (hr : u.Runs ls h) (idle : h.turn = none) (w : Wanted) :
    u.Runs (ls ++ [.started [.install w], .took h.tasks.length]) (h.beginning w) := by
  have ready : h.tasks.length ∈ (h.start [.install w]).ready :=
    List.mem_append_right _ (List.mem_singleton_self _)
  exact hr.trans (.cons (.start idle) (.cons (.take (h := h.start _) idle ready) .refl))

/-- The first install on an untouched host has its turn. -/
theorem Setup.runs_beginning (u : Setup) (w : Wanted) :
    u.Runs [.started [.install w], .took 0] (u.host.beginning w) := by
  have untouched : u.Runs [] u.host := .refl
  exact untouched.beginning rfl w

theorem Host.ordinary_beginning (w : Wanted) :
    ∀ l ∈ [Label.started [.install w], .took 0], l.Ordinary := by
  simp [Label.Ordinary]

/-- The install of a plugin by the longer one of its names. -/
def Wanted.longer : Wanted := ⟨.plugin, "babel-plugin-x", 7, .null⟩

/-- The install of a built-in plugin by the longer one of its names. -/
theorem install_hit_builtin :
    ∃ ls h t w ss k m f, Setup.onePlugin.Runs ls h ∧ (∀ l ∈ ls, l.Ordinary) ∧ h.turn = some t ∧
      h.cue? t = some (.begin (.install w), ss) ∧
      h.workspace.inventory.find? w.kind w.name = some ("x", m) ∧
      Host.Hits Setup.onePlugin ls h k t w ss "x" m.value f := by
  have hr := Setup.onePlugin.runs_beginning .longer
  have ordinary := Host.ordinary_beginning .longer
  have cue := Setup.onePlugin.host.cue?_beginning .longer
  have led : (Setup.onePlugin.workspace.inventory.find? .plugin "babel-plugin-x").map (·.1) =
      some "x" := by decide +kernel
  obtain ⟨m, found⟩ := Inventory.exists_find? led
  obtain ⟨k, f, hits⟩ := Host.install_hit hr ordinary rfl cue found
  exact ⟨_, _, _, _, _, k, m, f, hr, ordinary, rfl, cue, found, hits⟩

/-- An engine with a plugin that has two starts to its name, and one that takes its key over. -/
def Setup.usurped : Setup where
  settings := .short
  plugins := [("babel-plugin-babel-plugin-x", .int 1), ("babel-plugin-x", .int 2)]

/-- An install of a name that leads to a module can leave the name leading to another one, or make a
name lead to the module that led nowhere. -/
theorem install_hit_can_redirect :
    (¬ ∀ u ls h t w ss key m l k, Setup.Runs u ls h → (∀ l ∈ ls, l.Ordinary) → h.turn = some t →
        h.cue? t = some (.begin (.install w), ss) →
        h.workspace.inventory.find? w.kind w.name = some (key, m) → Host.Step h l k →
          k.workspace.inventory.leads? w.kind w.name = some (key, m.value)) ∧
      ¬ ∀ u ls h t w ss key m l k, Setup.Runs u ls h → (∀ l ∈ ls, l.Ordinary) → h.turn = some t →
        h.cue? t = some (.begin (.install w), ss) →
        h.workspace.inventory.find? w.kind w.name = some (key, m) → Host.Step h l k →
          ∀ name, name ≠ w.name →
            k.workspace.inventory.leads? w.kind name =
              h.workspace.inventory.leads? w.kind name := by
  -- The only step of the install is the one that is computed.
  have computed (u : Setup) (w : Wanted) (key : String)
      (found : (u.workspace.inventory.find? w.kind w.name).map (·.1) = some key) :
      ∃ m l k, u.workspace.inventory.find? w.kind w.name = some (key, m) ∧
        Host.Step (u.host.beginning w) l k ∧
        k.workspace.inventory = ((u.host.beginning w).next (.begin (.install w))).1.inventory := by
    obtain ⟨m, found⟩ := Inventory.exists_find? found
    obtain ⟨i, -, goes⟩ := Host.next_of_found (u.runs_beginning w) found
    have hs := (Host.step_iff_of_finish rfl (u.host.cue?_beginning w) (congrArg Prod.snd goes)).2
      ⟨rfl, rfl⟩
    exact ⟨m, _, _, found, hs, by rw [(hs.went rfl (u.host.cue?_beginning w)).2.1]⟩
  refine ⟨fun always => ?_, fun always => ?_⟩
  · obtain ⟨m, l, k, found, hs, inventory⟩ :=
      computed .usurped .twice "babel-plugin-x" (by decide +kernel)
    have named := always _ _ _ _ _ _ _ m l k (Setup.usurped.runs_beginning .twice)
      (Host.ordinary_beginning .twice) rfl (Host.cue?_beginning ..) found hs
    have redirected : (((Setup.usurped.host.beginning .twice).next
        (.begin (.install .twice))).1.inventory.leads? .plugin "babel-plugin-babel-plugin-x").map
          Prod.fst ≠ some "babel-plugin-x" := by decide +kernel
    exact redirected (congrArg (Option.map Prod.fst) (inventory ▸ named))
  · obtain ⟨m, l, k, found, hs, inventory⟩ :=
      computed .onePlugin .longer "x" (by decide +kernel)
    have kept := always _ _ _ _ _ _ _ m l k (Setup.onePlugin.runs_beginning .longer)
      (Host.ordinary_beginning .longer) rfl (Host.cue?_beginning ..) found hs
      "babel-plugin-babel-plugin-x" (by decide)
    have led : (((Setup.onePlugin.host.beginning .longer).next
        (.begin (.install .longer))).1.inventory.leads? .plugin "babel-plugin-babel-plugin-x").map
          Prod.fst ≠ (Setup.onePlugin.workspace.inventory.leads? .plugin
            "babel-plugin-babel-plugin-x").map Prod.fst := by decide +kernel
    exact led (congrArg (Option.map Prod.fst) (inventory ▸ kept))

end PluginHost
