import PluginHost.Proofs.Host.Turns

/-! Runs that can be computed, with collaborators that do not change and a small engine. -/
namespace PluginHost

/-- Whether the task that has the turn is about to call the engine. -/
def Host.transforms (h : Host) (t : TaskId) : Bool :=
  h.turn = some t && (h.query? t).isNone &&
    match (h.advance t).2 with
    | .asking (.transform ..) => true
    | _ => false

theorem Host.step_transform {h : Host} {t : TaskId} (ht : h.transforms t = true) :
    ∃ code config registry,
      Step h (.asked t (.transform code config registry)) (h.advance t).1 := by
  unfold transforms at ht
  rw [Bool.and_eq_true, Bool.and_eq_true] at ht
  obtain ⟨⟨turn, free⟩, asks⟩ := ht
  split at asks
  · rename_i code config registry hp
    exact ⟨code, config, registry, .ask (by simpa using turn) (by simpa using free)
      (Prod.ext rfl hp)⟩
  · cases asks

/-- Collaborators that give the same answer to the same query every time. -/
def World.steady (answer : Query → Option Outcome) : World Unit := ⟨fun _ _ q _ => (answer q, ())⟩

theorem World.steady_admits {answer : Query → Option Outcome}
    (ha : ∀ q o, answer q = some o → q.Admits o) : (steady answer).Admits := by
  intro h t q s o r hm
  exact ha q o (Prod.mk.inj hm).1

namespace Host

variable {σ : Type} {h k m : Host} {l : Label} {ls : List Label}

/-- Nobody interferes with a host that is being run. -/
theorem internal_labels (w : World σ) (n : Nat) (h : Host) (s : σ) :
    ∀ l ∈ labels w n h s, l.Internal := by
  induction n generalizing h s with
  | zero => exact fun _ hl => by cases hl
  | succ n ih =>
    have cons {l : Label} (hl : l.Internal) (k : Host) (r : σ) :
        ∀ i ∈ l :: labels w n k r, i.Internal := List.forall_mem_cons.2 ⟨hl, ih k r⟩
    unfold labels
    split
    · split
      · exact fun _ hl => by cases hl
      · exact cons (by exact trivial) _ _
    · split
      · exact cons (by exact trivial) _ _
      · exact cons (by exact trivial) _ _
      · refine List.forall_mem_append.2 ⟨?_, ?_⟩
        · split
          · exact fun _ hl => by cases hl
          · exact List.forall_mem_singleton.2 trivial
        · split <;> exact cons (by exact trivial) _ _

/-- Every answer in a run is one that the collaborators give. -/
theorem meets_of_labels {w : World σ} {n : Nat} {h : Host} {s : σ} {t : TaskId} {q : Query}
    {o : Outcome} (hl : .answered t q o ∈ labels w n h s) :
    ∃ k r r', w.meet k t q r = (some o, r') := by
  induction n generalizing h s with
  | zero => cases hl
  | succ n ih =>
    unfold labels at hl
    split at hl
    · split at hl
      · cases hl
      · exact ih (List.mem_of_ne_of_mem (by simp) hl)
    · split at hl
      · exact ih (List.mem_of_ne_of_mem (by simp) hl)
      · exact ih (List.mem_of_ne_of_mem (by simp) hl)
      · rcases List.mem_append.1 hl with asks | answers
        · split at asks <;> simp at asks
        · split at answers
          · rename_i meets
            rcases List.mem_cons.1 answers with now | later
            · cases now
              exact ⟨_, _, _, meets⟩
            · exact ih later
          · exact ih (List.mem_of_ne_of_mem (by simp) answers)

/-- What a host becomes by a step. -/
def after (h : Host) : Label → Host
  | .took t => h.take t
  | .moved t =>
    match h.advance t with
    | (k, .running) => k
    | (k, _) => k.pause
  | .asked t _ => (h.advance t).1
  | .answered t _ o => h.answer t o
  | .kept _ => h.pause
  | .released t => h.wake [t]
  | .started js => h.start js
  | .changed c => h.changed c

theorem Step.eq_after (hs : Step h l k) : k = h.after l := by
  cases hs with
  | move turn free next => simp [after, next]
  | stop turn free next => simp [after, next]
  | ask turn free next => simp [after, next]
  | _ => rfl

/-- Whether `p` holds of a host, or of one that it becomes by some of the steps that are to come. -/
def passes (p : Host → Bool) (h : Host) : List Label → Bool
  | [] => p h
  | l :: ls => p h || passes p (h.after l) ls

theorem Steps.passes {p : Host → Bool} (hs : Steps h ls m) (hp : p m = true) (rest : List Label) :
    passes p h (ls ++ rest) = true := by
  induction hs with
  | refl => cases rest <;> simp [Host.passes, hp]
  | cons first _ ih => simp [Host.passes, ← first.eq_after, ih hp]

end Host

/-- The labels of a run in which jobs are started on an untouched host. -/
def Setup.labels {σ : Type} (u : Setup) (w : World σ) (js : List Job) (moves : Nat) (s : σ) :
    List Host.Label :=
  .started js :: Host.labels w moves (u.host.start js) s

/-- Starting jobs on an untouched host and running it is a run. -/
theorem Setup.runs_run {σ : Type} {w : World σ} (hw : w.Admits) (u : Setup) (js : List Job)
    (moves : Nat) (s : σ) : u.Runs (u.labels w js moves s) ((u.host.start js).run w moves s).1 :=
  .cons (.start rfl) (Host.steps_run hw moves (u.host.start js) s)

/-- A run goes on after callers have changed the workspace and started jobs between turns. -/
theorem Setup.Runs.resume {σ : Type} {w : World σ} {u : Setup} {ls : List Host.Label} {h : Host}
    (hr : u.Runs ls h) (idle : h.turn = none) (c : Change) (js : List Job) (hw : w.Admits)
    (moves : Nat) (s : σ) :
    u.Runs (ls ++ .changed c :: .started js :: Host.labels w moves ((h.changed c).start js) s)
      (((h.changed c).start js).run w moves s).1 :=
  hr.trans (.cons (.change idle) (.cons (.start idle) (Host.steps_run hw ..)))

/-- A task to which an answer is owed goes on when the collaborators give it. -/
theorem Host.steps_released {σ : Type} {w : World σ} {h : Host} {t : TaskId} (hw : w.Admits)
    (idle : h.turn = none) (asked : (h.query? t).isSome = true) (apart : t ∉ h.ready)
    (moves : Nat) (s : σ) :
    Host.Steps h (.released t :: Host.labels w moves (h.wake [t]) s)
      ((h.wake [t]).run w moves s).1 := by
  obtain ⟨q, hq⟩ := Option.isSome_iff_exists.1 asked
  exact .cons (.release idle hq apart) (Host.steps_run hw ..)

/-- A host on which jobs were started and to which nothing was answered. -/
def Setup.held (u : Setup) (js : List Job) (moves : Nat) : Host :=
  ((u.host.start js).run (.steady fun _ => none) moves ()).1

theorem Setup.runs_held (u : Setup) (js : List Job) (moves : Nat) :
    u.Runs (u.labels (.steady fun _ => none) js moves ()) (u.held js moves) :=
  u.runs_run (World.steady_admits (by simp)) js moves ()

/-- Whether a question is put. -/
def Host.Label.asks : Host.Label → Bool
  | .asked .. => true
  | _ => false

/-- How a task has ended in a host in which tasks were started for some jobs. -/
def Setup.outcome? (u : Setup) (answer : Query → Option Outcome) (js : List Job) (moves : Nat)
    (t : TaskId) : Option Outcome :=
  ((u.host.start js).run (.steady answer) moves ()).1.outcome? t

theorem World.answer_of_labels {answer : Query → Option Outcome} {n : Nat} {h : Host} {t : TaskId}
    {q : Query} {o : Outcome} (hl : .answered t q o ∈ Host.labels (.steady answer) n h ()) :
    answer q = some o := by
  obtain ⟨k, r, r', meets⟩ := Host.meets_of_labels hl
  exact (Prod.mk.inj meets).1

/-- Settings under which paths are short. -/
def Settings.short : Settings := { Settings.default with packagesRoot := "/n" }

/-- An engine that has the plugin that every configuration gets, and one preset. -/
def Setup.envOnly : Setup where
  settings := .default
  plugins := [("babel-plugin-detective", .int 1)]
  presets := [("env", .int 2)]

def CompileRequest.env : CompileRequest where
  code := "a"
  path := "/a.js"
  config := { presets := some [.text "env"] }
  loader := { disableBuiltin := true }

/-- A host without an engine or a project. -/
def Setup.bare : Setup where
  settings := .short

/-- A remote that has one package, with metadata. -/
def Query.package : Query → Option Outcome
  | .download "/n/p" _ => some (.ok (.files (.ofList [("/n/p/index.json", "1".toUTF8.toList)])))
  | .download "/n/p/package.json" _ =>
    some (.ok (.files (.ofList [("/n/p/package.json", "2".toUTF8.toList)])))
  | .download path _ => some (.error (Fault.unfetchable path none))
  | _ => none

theorem World.package_admits : (World.steady Query.package).Admits := by
  refine steady_admits fun q o h => ?_
  unfold Query.package at h
  split at h <;> cases h <;> exact trivial

end PluginHost
