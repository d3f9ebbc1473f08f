import Mathlib.Data.List.Nodup
import Mathlib.Data.List.Perm.Subperm
import PluginHost.Proofs.Host.Numbers
import PluginHost.Proofs.Host.Renumbering

/-!
Hosts that differ in the numbers of tasks. What one of them does the other one can do as well, by
the task that has the other number.
-/
namespace PluginHost

variable {σ τ : TaskId → TaskId} {ps : List String} {v w : Task} {t u : TaskId} {o : Outcome}
  {N : Nat}

inductive Focus.Mirrors (σ : TaskId → TaskId) (ps : List String) : Focus → Focus → Prop where
  | begin {j : Job} : Mirrors σ ps (.begin j) (.begin (j.renumbered ps))
  | resume {o : Outcome} : Mirrors σ ps (.resume o) (.resume o)
  | awaiting {u : TaskId} : Mirrors σ ps (.awaiting u) (.awaiting (σ u))
  | gathering {us ws : List TaskId} (same : ws.Perm (us.map σ)) :
      Mirrors σ ps (.gathering us) (.gathering ws)
  | asking {q : Query} : Mirrors σ ps (.asking q) (.asking q)

/-- A task that is at the same under another number. -/
structure Task.Mirrors (σ : TaskId → TaskId) (ps : List String) (v w : Task) : Prop where
  focus : v.focus.Mirrors σ ps w.focus
  stages : w.stages = v.stages.map (Stage.renumbered σ ps)

namespace Task.Mirrors

theorem outcome? (hv : v.Mirrors σ ps w) : w.outcome? = v.outcome? := by
  obtain ⟨f, ss⟩ := v
  obtain ⟨g, rs⟩ := w
  obtain ⟨focus, rfl⟩ := hv
  cases focus <;> cases ss <;> rfl

theorem query? (hv : v.Mirrors σ ps w) : w.query? = v.query? := by
  obtain ⟨f, ss⟩ := v
  obtain ⟨g, rs⟩ := w
  obtain ⟨focus, rfl⟩ := hv
  cases focus <;> rfl

/-- Whoever hears of the end of a task goes on in the same way. -/
theorem afterEnd? (hv : v.Mirrors σ ps w) (inj : Function.Injective σ) (u : TaskId) (o : Outcome) :
    w.afterEnd? (σ u) o = v.afterEnd? u o := by
  obtain ⟨f, ss⟩ := v
  obtain ⟨g, rs⟩ := w
  obtain ⟨focus, rfl⟩ := hv
  cases focus with
  | awaiting => simp [Task.afterEnd?, inj.eq_iff]
  | @gathering us ws same =>
    have member : σ u ∈ ws ↔ u ∈ us := by
      rw [same.mem_iff, List.mem_map_of_injective inj]
    have all : ws.all (· = σ u) = us.all (· = u) := by
      rw [same.all_eq, List.all_map]
      simp [Function.comp_def, inj.eq_iff]
    simp only [Task.afterEnd?, member, all]
  | _ => rfl

theorem hear (hv : v.Mirrors σ ps w) (inj : Function.Injective σ) (u : TaskId) (o : Outcome) :
    (v.hear u o).Mirrors σ ps (w.hear (σ u) o) := by
  unfold Task.hear
  rw [hv.afterEnd? inj u o]
  cases goes : v.afterEnd? u o with
  | some f =>
    obtain ⟨p, rfl⟩ := Task.resume_of_afterEnd? goes
    exact ⟨.resume, hv.stages⟩
  | none =>
    obtain ⟨f, ss⟩ := v
    obtain ⟨g, rs⟩ := w
    obtain ⟨focus, stages⟩ := hv
    cases focus with
    | @gathering us ws same =>
      refine ⟨.gathering ((same.filter _).trans (.of_eq ?_)), stages⟩
      rw [List.filter_map]
      simp [Function.comp_def, inj.eq_iff]
    | begin => exact ⟨.begin, stages⟩
    | resume => exact ⟨.resume, stages⟩
    | awaiting => exact ⟨.awaiting, stages⟩
    | asking => exact ⟨.asking, stages⟩

/-- Of other numbers only those count that a task knows. -/
theorem congr (hv : v.Mirrors σ ps w) (below : v.Below N) (same : ∀ t < N, τ t = σ t) :
    v.Mirrors τ ps w := by
  obtain ⟨f, ss⟩ := v
  obtain ⟨g, rs⟩ := w
  obtain ⟨focus, stages⟩ := hv
  refine ⟨?_, stages.trans (List.map_congr_left fun st hst => ?_)⟩
  · cases focus with
    | begin => exact .begin
    | resume => exact .resume
    | @awaiting u =>
      dsimp only
      rw [← same u (below.awaiting u rfl)]
      exact .awaiting
    | @gathering us ws perm =>
      refine .gathering (perm.trans (.of_eq (List.map_congr_left fun u hu => ?_)))
      exact (same u (below.gathering us rfl u hu)).symm
    | asking => exact .asking
  · cases st with
    | storeAwaited u => rw [Stage.renumbered, Stage.renumbered, same u (below.stages u hst)]
    | _ => rfl

end Task.Mirrors

/-- Numbers that are exchanged for one another are the same altogether. -/
theorem perm_map_range' {len : Nat} (inj : Function.Injective σ)
    (bounds : ∀ i < len, ∃ x < len, σ (N + i) = N + x) :
    ((List.range' N len).map σ).Perm (List.range' N len) := by
  have sub : (List.range' N len).map σ ⊆ List.range' N len := by
    intro y hy
    obtain ⟨t, ht, rfl⟩ := List.mem_map.1 hy
    obtain ⟨lo, hi⟩ := List.mem_range'_1.1 ht
    obtain ⟨i, rfl⟩ := Nat.exists_eq_add_of_le lo
    obtain ⟨x, hx, he⟩ := bounds i (Nat.lt_of_add_lt_add_left hi)
    rw [he]
    exact List.mem_range'_1.2 ⟨Nat.le_add_right .., Nat.add_lt_add_left hx _⟩
  have nodup : ((List.range' N len).map σ).Nodup := List.Nodup.map inj List.nodup_range'
  exact (List.subperm_of_subset nodup sub).perm_of_length_le (by simp)

/-- The same cue under other numbers. -/
def Cue.renumbered (σ : TaskId → TaskId) (ps : List String) : Cue → Cue
  | .begin j => .begin (j.renumbered ps)
  | .told st o => .told (st.renumbered σ ps) o

namespace Host

variable {h k : Host} {ss : List Stage} {q : Cue} {m m' : Move} {js ks : List Job}

/-- A host on which every task is at the same under another number. -/
structure Mirrors (σ : TaskId → TaskId) (ps : List String) (h k : Host) : Prop where
  injective : Function.Injective σ
  bounds : ∀ t < h.tasks.length, σ t < h.tasks.length
  length : k.tasks.length = h.tasks.length
  tasks : ∀ {t : TaskId} {v : Task}, h.tasks[t]? = some v →
    ∃ w, k.tasks[σ t]? = some w ∧ v.Mirrors σ ps w
  workspace : ∃ i, h.workspace.inventory.Alike i ∧ k.workspace = h.workspace.renumbered σ i
  ready : k.ready.Perm (h.ready.map σ)
  turn : k.turn = h.turn.map σ

namespace Mirrors

/-- Every task is mirrored by one. -/
theorem onto (hm : h.Mirrors σ ps k) (ht : t < h.tasks.length) :
    ∃ u < h.tasks.length, σ u = t := by
  have all : ((List.range' 0 h.tasks.length).map σ).Perm (List.range' 0 h.tasks.length) :=
    perm_map_range' hm.injective fun u hu => by
      simpa using hm.bounds u hu
  obtain ⟨u, hu, he⟩ := List.mem_map.1 (all.mem_iff.2 (show t ∈ _ by simpa using ht))
  exact ⟨u, by simpa using hu, he⟩

theorem outcome? (hm : h.Mirrors σ ps k) (hv : h.tasks[t]? = some v) :
    k.outcome? (σ t) = h.outcome? t := by
  obtain ⟨w, hw, same⟩ := hm.tasks hv
  rw [outcome?_eq hw, outcome?_eq hv, same.outcome?]

theorem query? (hm : h.Mirrors σ ps k) (fresh : ∀ u, h.tasks.length ≤ u → σ u = u)
    (t : TaskId) : k.query? (σ t) = h.query? t := by
  cases hv : h.tasks[t]? with
  | some v =>
    obtain ⟨w, hw, same⟩ := hm.tasks hv
    simp only [Host.query?, hv, hw, Option.bind_some, same.query?]
  | none =>
    have unused := List.getElem?_eq_none_iff.1 hv
    have hw : k.tasks[t]? = none := List.getElem?_eq_none (hm.length ▸ unused)
    simp only [Host.query?, fresh t unused, hv, hw]

theorem cue? (hm : h.Mirrors σ ps k) (hc : h.cue? t = some (q, ss)) :
    k.cue? (σ t) = some (q.renumbered σ ps, ss.map (Stage.renumbered σ ps)) := by
  cases q with
  | begin j =>
    obtain ⟨⟨g, rs⟩, hw, focus, stages⟩ := hm.tasks (cue?_eq_begin.1 hc)
    dsimp only at stages
    subst stages
    cases focus with
    | begin => exact cue?_eq_begin.2 hw
  | told st o =>
    obtain ⟨⟨g, rs⟩, hw, focus, stages⟩ := hm.tasks (cue?_eq_told.1 hc)
    dsimp only at stages
    subst stages
    cases focus with
    | resume => exact cue?_eq_told.2 hw

/-- A task takes the place of one that it mirrors. -/
theorem setTask (hm : h.Mirrors σ ps k) (ht : t < h.tasks.length) (hv : v.Mirrors σ ps w) :
    (h.setTask t v).Mirrors σ ps (k.setTask (σ t) w) := by
  refine ⟨hm.injective, ?_, ?_, fun {i x} hx => ?_, hm.workspace, hm.ready, hm.turn⟩
  · simpa [Host.setTask] using hm.bounds
  · simpa [Host.setTask] using hm.length
  · simp only [Host.setTask, List.getElem?_set] at hx ⊢
    by_cases he : t = i
    · subst he
      rw [if_pos rfl, if_pos ht] at hx
      obtain rfl := Option.some.inj hx
      exact ⟨w, by rw [if_pos rfl, if_pos (hm.length ▸ hm.bounds t ht)], hv⟩
    · rw [if_neg he] at hx
      obtain ⟨y, hy, same⟩ := hm.tasks hx
      exact ⟨y, by rw [if_neg (hm.injective.ne he), hy], same⟩

theorem pause (hm : h.Mirrors σ ps k) : h.pause.Mirrors σ ps k.pause :=
  ⟨hm.injective, hm.bounds, hm.length, hm.tasks, hm.workspace, hm.ready, rfl⟩

theorem take (hm : h.Mirrors σ ps k) (t : TaskId) : (h.take t).Mirrors σ ps (k.take (σ t)) where
  injective := hm.injective
  bounds := hm.bounds
  length := hm.length
  tasks := hm.tasks
  workspace := hm.workspace
  ready := by
    rw [Host.take, Host.take, List.map_erase hm.injective]
    exact hm.ready.erase _
  turn := rfl

theorem wake (hm : h.Mirrors σ ps k) (t : TaskId) : (h.wake [t]).Mirrors σ ps (k.wake [σ t]) where
  injective := hm.injective
  bounds := hm.bounds
  length := hm.length
  tasks := hm.tasks
  workspace := hm.workspace
  ready := by
    rw [Host.wake, Host.wake, List.map_append]
    exact hm.ready.append_right _
  turn := hm.turn

theorem perm_heirs (hm : h.Mirrors σ ps k) : (heirs k (σ t) o).Perm ((heirs h t o).map σ) := by
  refine (List.perm_ext_iff_of_nodup nodup_heirs (nodup_heirs.map hm.injective)).2 fun x => ?_
  rw [mem_heirs, List.mem_map]
  constructor
  · rintro ⟨w, hw, goes⟩
    obtain ⟨i, hi, rfl⟩ := hm.onto (hm.length ▸ (List.getElem?_eq_some_iff.1 hw).1)
    obtain ⟨y, hy, same⟩ := hm.tasks (List.getElem?_eq_getElem hi)
    obtain rfl := Option.some.inj (hw.symm.trans hy)
    exact ⟨i, mem_heirs.2 ⟨_, List.getElem?_eq_getElem hi,
      same.afterEnd? hm.injective t o ▸ goes⟩, rfl⟩
  · rintro ⟨i, hi, rfl⟩
    obtain ⟨v, hv, goes⟩ := mem_heirs.1 hi
    obtain ⟨w, hw, same⟩ := hm.tasks hv
    exact ⟨w, hw, (same.afterEnd? hm.injective t o).symm ▸ goes⟩

theorem announce (hm : h.Mirrors σ ps k) (t : TaskId) (o : Outcome) :
    (h.announce t o).Mirrors σ ps (k.announce (σ t) o) where
  injective := hm.injective
  bounds := by simpa [Host.announce] using hm.bounds
  length := by simpa [Host.announce] using hm.length
  tasks {i x} hx := by
    simp only [Host.announce, List.getElem?_map] at hx ⊢
    obtain ⟨v, hv, rfl⟩ := Option.map_eq_some_iff.1 hx
    obtain ⟨w, hw, same⟩ := hm.tasks hv
    exact ⟨w.hear (σ t) o, by rw [hw]; rfl, same.hear hm.injective t o⟩
  workspace := hm.workspace
  ready := by
    show (k.ready ++ heirs k (σ t) o).Perm ((h.ready ++ heirs h t o).map σ)
    rw [List.map_append]
    exact hm.ready.append hm.perm_heirs
  turn := hm.turn

/-- Numbers of tasks that are still to be started may be exchanged. -/
theorem congr {roots : List Job} (hm : h.Mirrors σ ps k)
    (below : ∀ {t : TaskId} {v : Task}, h.tasks[t]? = some v → v.Below h.tasks.length)
    (able : h.Able)
    (knows : h.workspace.Knows roots) (length : h.tasks.length = roots.length)
    (inj : Function.Injective τ) (same : ∀ t < h.tasks.length, τ t = σ t) :
    h.Mirrors τ ps k where
  injective := inj
  bounds t ht := same t ht ▸ hm.bounds t ht
  length := hm.length
  tasks {t v} hv := by
    obtain ⟨w, hw, mirrors⟩ := hm.tasks hv
    rw [← same t (List.getElem?_eq_some_iff.1 hv).1] at hw
    exact ⟨w, hw, mirrors.congr (below hv) same⟩
  workspace := by
    obtain ⟨i, alike, hw⟩ := hm.workspace
    exact ⟨i, alike, hw.trans (Workspace.renumbered_congr knows (length ▸ same)).symm⟩
  ready := hm.ready.trans <| .of_eq <|
    List.map_congr_left fun t ht => (same t (able t (.inl ht))).symm
  turn := by
    rw [hm.turn]
    cases turn : h.turn with
    | none => rfl
    | some t => exact congrArg some (same t (able t (.inr turn))).symm

/-- Tasks are started under numbers that mirror each other. -/
theorem start (hm : h.Mirrors σ ps k) (length : ks.length = js.length)
    (placed : ∀ (i : Nat) (j : Job), js[i]? = some j → ∃ x, σ (h.tasks.length + i) =
      h.tasks.length + x ∧ ks[x]? = some (j.renumbered ps)) :
    (h.start js).Mirrors σ ps (k.start ks) := by
  have new (i : Nat) (hi : i < js.length) :
      ∃ x < js.length, σ (h.tasks.length + i) = h.tasks.length + x := by
    obtain ⟨x, hx, job⟩ := placed i _ (List.getElem?_eq_getElem hi)
    exact ⟨x, length ▸ (List.getElem?_eq_some_iff.1 job).1, hx⟩
  refine ⟨hm.injective, fun t ht => ?_, ?_, fun {t v} hv => ?_, hm.workspace, ?_, hm.turn⟩
  · simp only [Host.start, List.length_append, List.length_map] at ht ⊢
    rcases Nat.lt_or_ge t h.tasks.length with lt | ge
    · exact Nat.lt_add_right _ (hm.bounds t lt)
    · obtain ⟨i, rfl⟩ := Nat.exists_eq_add_of_le ge
      obtain ⟨x, hx, he⟩ := new i (Nat.lt_of_add_lt_add_left ht)
      rw [he]
      exact Nat.add_lt_add_left hx _
  · simp [Host.start, hm.length, length]
  · simp only [Host.start] at hv ⊢
    rcases Nat.lt_or_ge t h.tasks.length with lt | ge
    · rw [List.getElem?_append_left lt] at hv
      obtain ⟨w, hw, same⟩ := hm.tasks hv
      exact ⟨w, by rw [List.getElem?_append_left (hm.length ▸ hm.bounds t lt), hw], same⟩
    · obtain ⟨i, rfl⟩ := Nat.exists_eq_add_of_le ge
      rw [List.getElem?_append_right ge, Nat.add_sub_cancel_left, List.getElem?_map] at hv
      obtain ⟨j, hj, rfl⟩ := Option.map_eq_some_iff.1 hv
      obtain ⟨x, hx, job⟩ := placed i j hj
      refine ⟨⟨.begin (j.renumbered ps), []⟩, ?_, .begin, rfl⟩
      rw [hx, List.getElem?_append_right (by rw [hm.length]; exact Nat.le_add_right ..), hm.length,
        Nat.add_sub_cancel_left, List.getElem?_map, job]
      rfl
  · simp only [Host.start, List.map_append]
    refine hm.ready.append ?_
    rw [hm.length, length]
    exact (perm_map_range' hm.injective new).symm

end Mirrors

/-- The numbers from a bound on are exchanged for one another. -/
def exchanged (σ : TaskId → TaskId) (N : Nat) (π : Nat → Nat) : TaskId → TaskId := fun t =>
  if t < N then σ t else N + π (t - N)

theorem exchanged_of_lt {π : Nat → Nat} (ht : t < N) : exchanged σ N π t = σ t := if_pos ht

theorem exchanged_add (σ : TaskId → TaskId) (N : Nat) (π : Nat → Nat) (i : Nat) :
    exchanged σ N π (N + i) = N + π i := by
  rw [exchanged, if_neg (Nat.not_lt.2 (Nat.le_add_right N i)), Nat.add_sub_cancel_left]

theorem injective_exchanged {π : Nat → Nat} (inj : Function.Injective σ)
    (bounds : ∀ t < N, σ t < N) (hπ : Function.Injective π) :
    Function.Injective (exchanged σ N π) := by
  have apart {t : TaskId} (ht : t < N) (x : Nat) : σ t ≠ N + x :=
    Nat.ne_of_lt (Nat.lt_add_right x (bounds t ht))
  intro t u he
  unfold exchanged at he
  split at he <;> split at he
  · exact inj he
  · exact (apart ‹_› _ he).elim
  · exact (apart ‹_› _ he.symm).elim
  · rename_i ht hu
    have rest : t - N = u - N := hπ (Nat.add_left_cancel he)
    rw [← Nat.add_sub_of_le (Nat.not_lt.1 ht), rest, Nat.add_sub_of_le (Nat.not_lt.1 hu)]

/-- Positions behind a first one that stays. -/
def shifted (π : Nat → Nat) (i : Nat) : Nat := if i = 0 then 0 else π (i - 1) + 1

/-- The first two positions change places. -/
def swapped (i : Nat) : Nat := if i = 0 then 1 else if i = 1 then 0 else i

/-- One list is read in the order of another one. -/
theorem exists_reading {α : Type} {xs ys : List α} (hp : xs.Perm ys) :
    ∃ π : Nat → Nat, Function.Injective π ∧ (∀ i, ys[π i]? = xs[i]?) ∧
      ∀ i, xs.length ≤ i → π i = i := by
  induction hp with
  | nil => exact ⟨id, Function.injective_id, fun _ => rfl, fun _ _ => rfl⟩
  | @cons x xs ys _ ih =>
    obtain ⟨π, inj, reads, rest⟩ := ih
    refine ⟨shifted π, ?_, ?_, ?_⟩
    · rintro (_ | i) (_ | l) he
      · rfl
      · cases he
      · cases he
      · exact congrArg Nat.succ (inj (Nat.succ.inj he))
    · rintro (_ | i)
      · rfl
      · simpa [shifted] using reads i
    · rintro (_ | i) hi
      · simp at hi
      · simpa [shifted] using rest i (by simpa using hi)
  | swap x y xs =>
    refine ⟨swapped, ?_, ?_, ?_⟩
    · rintro (_ | _ | i) (_ | _ | l) he <;> simp_all [swapped]
    · rintro (_ | _ | i) <;> rfl
    · rintro (_ | _ | i) hi <;> simp_all [swapped]
  | trans first _ ih₁ ih₂ =>
    obtain ⟨π, inj₁, reads₁, rest₁⟩ := ih₁
    obtain ⟨ρ, inj₂, reads₂, rest₂⟩ := ih₂
    refine ⟨ρ ∘ π, inj₂.comp inj₁, fun i => (reads₂ _).trans (reads₁ i), fun i hi => ?_⟩
    rw [Function.comp, rest₁ i hi, rest₂ i (first.length_eq ▸ hi)]

/-- How a numbering goes on when tasks are started: tasks that are there keep their numbers, and
numbers that are not in use yet stand for themselves. -/
structure Extends (σ τ : TaskId → TaskId) (N M : Nat) : Prop where
  keeps : ∀ t < N, τ t = σ t
  fresh : ∀ t, M ≤ t → τ t = t

namespace Mirrors

/-- Tasks may be started in another order, with their numbers exchanged. -/
theorem start_perm (hm : h.Mirrors σ ps k) (perm : ks.Perm (js.map (Job.renumbered ps)))
    (renumbers : ∀ τ, Function.Injective τ → (∀ u < h.tasks.length, τ u = σ u) →
      h.Mirrors τ ps k) :
    ∃ τ, Function.Injective τ ∧ Extends σ τ h.tasks.length (h.start js).tasks.length ∧
      (h.start js).Mirrors τ ps (k.start ks) ∧
      ((List.range' h.tasks.length js.length).map τ).Perm
        (List.range' h.tasks.length js.length) := by
  have length : ks.length = js.length := by simpa using perm.length_eq
  obtain ⟨π, inj, reads, rest⟩ := exists_reading perm.symm
  have keeps {u : TaskId} (hu : u < h.tasks.length) :
      exchanged σ h.tasks.length π u = σ u := exchanged_of_lt hu
  have injective := injective_exchanged hm.injective hm.bounds inj
  have reading {x : Nat} {j : Job} (hx : js[x]? = some j) :
      ks[π x]? = some (j.renumbered ps) := by
    rw [reads, List.getElem?_map, hx]
    rfl
  refine ⟨exchanged σ h.tasks.length π, injective, ⟨fun u => keeps, fun u hu => ?_⟩, ?_, ?_⟩
  · have hu : h.tasks.length + js.length ≤ u := by simpa [Host.start] using hu
    obtain ⟨x, rfl⟩ := Nat.exists_eq_add_of_le (Nat.le_of_add_right_le hu)
    rw [exchanged_add, rest x (by simpa using hu)]
  · exact (renumbers _ injective fun u => keeps).start length fun x j hx =>
      ⟨π x, exchanged_add .., reading hx⟩
  · refine perm_map_range' injective fun x hx => ⟨π x, ?_, exchanged_add ..⟩
    exact length ▸ (List.getElem?_eq_some_iff.1 (reading (List.getElem?_eq_getElem hx))).1

/-- What a move does is mirrored, with the numbers of the tasks that it gathers exchanged. -/
theorem move (hm : h.Mirrors σ ps k) (ss : List Stage) (fresh : ∀ u, h.tasks.length ≤ u → σ u = u)
    (ht : t < h.tasks.length) (mm : m.Mirrors σ ps m')
    (known : ∀ st u, m = .await st u → u < h.tasks.length)
    (gathers : ∀ st js, m = .gather st js → ∀ τ, Function.Injective τ →
      (∀ u < h.tasks.length, τ u = σ u) → h.Mirrors τ ps k ∧
        (st :: ss).map (Stage.renumbered τ ps) = (st :: ss).map (Stage.renumbered σ ps)) :
    ∃ τ, Extends σ τ h.tasks.length (h.move t ss m).1.tasks.length ∧
      (h.move t ss m).1.Mirrors τ ps (k.move (σ t) (ss.map (Stage.renumbered σ ps)) m').1 ∧
      (k.move (σ t) (ss.map (Stage.renumbered σ ps)) m').2 = (h.move t ss m).2 := by
  have same {v : Task} : Extends σ σ h.tasks.length (h.setTask t v).tasks.length :=
    ⟨fun _ _ => rfl, fun u hu => fresh u (by simpa [Host.setTask] using hu)⟩
  cases mm with
  | finish => exact ⟨σ, same, hm.setTask ht ⟨.resume, rfl⟩, rfl⟩
  | call => exact ⟨σ, same, hm.setTask ht ⟨.begin, rfl⟩, rfl⟩
  | ask => exact ⟨σ, same, hm.setTask ht ⟨.asking, rfl⟩, rfl⟩
  | @await st u =>
    have told := hm.outcome? (List.getElem?_eq_getElem (known st u rfl))
    cases ho : h.outcome? u with
    | some o =>
      simp only [Host.move, told, ho]
      exact ⟨σ, same, hm.setTask ht ⟨.resume, rfl⟩, trivial⟩
    | none =>
      simp only [Host.move, told, ho]
      exact ⟨σ, same, hm.setTask ht ⟨.awaiting, rfl⟩, trivial⟩
  | @launch st j =>
    have next : σ h.tasks.length = h.tasks.length := fresh _ (Nat.le_refl _)
    have started : (h.start [j]).Mirrors σ ps (k.start [j.renumbered ps]) :=
      hm.start rfl fun i j hj => by
        obtain ⟨rfl, rfl⟩ : i = 0 ∧ _ = j := by simpa [List.getElem?_eq_some_iff] using hj
        exact ⟨0, next, rfl⟩
    refine ⟨σ, ⟨fun _ _ => rfl, fun u hu => fresh u ?_⟩, started.setTask ?_ ⟨?_, rfl⟩, rfl⟩
    · have : h.tasks.length + 1 ≤ u := by simpa [Host.move, Host.setTask, Host.start] using hu
      omega
    · simpa [Host.start] using Nat.lt_succ_of_lt ht
    · have waits : (Focus.awaiting h.tasks.length).Mirrors σ ps (.awaiting (σ h.tasks.length)) :=
        .awaiting
      rw [next] at waits
      rw [hm.length]
      exact waits
  | @gather st js ks perm =>
    have length : ks.length = js.length := by simpa using perm.length_eq
    cases js with
    | nil =>
      obtain rfl : ks = [] := List.eq_nil_of_length_eq_zero length
      exact ⟨σ, same, hm.setTask ht ⟨.resume, rfl⟩, rfl⟩
    | cons j js =>
      cases ks with
      | nil => cases length
      | cons i ks =>
        have renumbers := gathers st (j :: js) rfl
        obtain ⟨τ, inj, numbers, started, numbered⟩ :=
          hm.start_perm perm fun τ inj keeps => (renumbers τ inj keeps).1
        have stages := (renumbers τ inj numbers.keeps).2
        refine ⟨τ, ⟨numbers.keeps, fun u hu => numbers.fresh u ?_⟩, ?_, rfl⟩
        · simpa [Host.move, Host.setTask] using hu
        · rw [← numbers.keeps t ht]
          refine started.setTask ?_ ⟨.gathering ?_, stages.symm⟩
          · simpa [Host.start] using Nat.lt_add_right _ ht
          · rw [hm.length, length]
            exact numbered.symm

/-- That a task goes on is mirrored. -/
structure Advances (σ τ : TaskId → TaskId) (ps : List String) (t : TaskId) (h k : Host) : Prop where
  numbers : Extends σ τ h.tasks.length (h.advance t).1.tasks.length
  mirrors : (h.advance t).1.Mirrors τ ps (k.advance (σ t)).1
  progress : (k.advance (σ t)).2 = (h.advance t).2

/-- The next move of a task is mirrored if it is mirrored on its own. -/
theorem advance (hm : h.Mirrors σ ps k) (fresh : ∀ u, h.tasks.length ≤ u → σ u = u)
    (cue : h.cue? t = some (q, ss))
    (mirrored : Mirrored σ ps (h.next q) (k.next (q.renumbered σ ps)))
    (known : ∀ st u, (h.next q).2 = .await st u → u < h.tasks.length)
    (gathers : ∀ st js, (h.next q).2 = .gather st js → ∀ τ, Function.Injective τ →
      (∀ u < h.tasks.length, τ u = σ u) → h.Mirrors τ ps k ∧
        (h.next q).1.renumbered τ = (h.next q).1.renumbered σ ∧
        (st :: ss).map (Stage.renumbered τ ps) = (st :: ss).map (Stage.renumbered σ ps)) :
    ∃ τ, Advances σ τ ps t h k := by
  obtain ⟨i, alike, same⟩ := mirrored.workspace
  let g : Host := { h with workspace := (h.next q).1 }
  let g' : Host := { k with workspace := (k.next (q.renumbered σ ps)).1 }
  have worked {τ : TaskId → TaskId} (hm : h.Mirrors τ ps k)
      (same : g'.workspace = g.workspace.renumbered τ i) : g.Mirrors τ ps g' :=
    ⟨hm.injective, hm.bounds, hm.length, hm.tasks, ⟨i, alike, same⟩, hm.ready, hm.turn⟩
  obtain ⟨τ, numbers, mirrors, progress⟩ := (worked hm same).move ss fresh
    (lt_of_cue? cue) mirrored.move known fun st js gather τ inj keeps => by
      obtain ⟨regarded, workspace, stages⟩ := gathers st js gather τ inj keeps
      exact ⟨worked regarded (same.trans (congrFun workspace i).symm), stages⟩
  have left : h.advance t = g.move t ss (h.next q).2 := advance_of_cue? cue
  have right : k.advance (σ t) = g'.move (σ t) (ss.map (Stage.renumbered σ ps))
      (k.next (q.renumbered σ ps)).2 := advance_of_cue? (hm.cue? cue)
  refine ⟨τ, ?_, ?_, ?_⟩
  · rw [left]
    exact numbers
  · rw [left, right]
    exact mirrors
  · rw [left, right]
    exact progress

/-- A task that makes no move upon a cue does the same under its other number. -/
theorem advance_idle (hm : h.Mirrors σ ps k) (fresh : ∀ u, h.tasks.length ≤ u → σ u = u)
    (idle : h.cue? t = none) : Advances σ σ ps t h k := by
  have stays (r r' : Host × Progress) (left : h.advance t = r) (right : k.advance (σ t) = r')
      (length : r.1.tasks.length = h.tasks.length) (mirrors : r.1.Mirrors σ ps r'.1)
      (progress : r'.2 = r.2) : Advances σ σ ps t h k := by
    subst left right
    exact ⟨⟨fun _ _ => rfl, fun u hu => fresh u (length ▸ hu)⟩, mirrors, progress⟩
  cases hv : h.tasks[t]? with
  | none =>
    have unused := List.getElem?_eq_none_iff.1 hv
    have hw : k.tasks[σ t]? = none := by
      rw [fresh t unused, List.getElem?_eq_none_iff, hm.length]
      exact unused
    exact stays (h, .paused) (k, .paused) (by simp [Host.advance, hv])
      (by simp [Host.advance, hw]) rfl hm rfl
  | some v =>
    obtain ⟨f, ss⟩ := v
    obtain ⟨⟨g, rs⟩, hw, focus, stages⟩ := hm.tasks hv
    dsimp only at stages
    subst stages
    cases focus with
    | begin => simp [Host.cue?, hv] at idle
    | @resume o =>
      cases ss with
      | nil =>
        exact stays (h.announce t o, .paused) (k.announce (σ t) o, .paused)
          (by simp [Host.advance, hv]) (by simp [Host.advance, hw]) (by simp [Host.announce])
          (hm.announce t o) rfl
      | cons st ss => simp [Host.cue?, hv] at idle
    | awaiting =>
      exact stays (h, .paused) (k, .paused) (by simp [Host.advance, hv])
        (by simp [Host.advance, hw]) rfl hm rfl
    | gathering =>
      exact stays (h, .paused) (k, .paused) (by simp [Host.advance, hv])
        (by simp [Host.advance, hw]) rfl hm rfl
    | @asking q =>
      exact stays (h, .asking q) (k, .asking q) (by simp [Host.advance, hv])
        (by simp [Host.advance, hw]) rfl hm rfl

end Mirrors

/-- The same label under other numbers. -/
def Label.renumbered (σ : TaskId → TaskId) : Label → Label
  | .took t => .took (σ t)
  | .moved t => .moved (σ t)
  | .asked t q => .asked (σ t) q
  | .answered t q o => .answered (σ t) q o
  | .kept t => .kept (σ t)
  | .released t => .released (σ t)
  | .started js => .started js
  | .changed c => .changed c

namespace Mirrors

variable {h' : Host} {l : Label}

/-- What happens on a host can happen on one that mirrors it, if moves upon cues are mirrored. -/
theorem step (hm : h.Mirrors σ ps k) (fresh : ∀ u, h.tasks.length ≤ u → σ u = u)
    (hs : Step h l h') (internal : l.Internal)
    (goes : ∀ t q ss, h.turn = some t → h.cue? t = some (q, ss) → ∃ τ, Advances σ τ ps t h k) :
    ∃ τ k', Extends σ τ h.tasks.length h'.tasks.length ∧ Step k (l.renumbered σ) k' ∧
      h'.Mirrors τ ps k' := by
  have advanced (t : TaskId) (turn : h.turn = some t) : ∃ τ, Advances σ τ ps t h k := by
    cases cue : h.cue? t with
    | some r => exact goes t r.1 r.2 turn cue
    | none => exact ⟨σ, hm.advance_idle fresh cue⟩
  have same : Extends σ σ h.tasks.length h.tasks.length := ⟨fun _ _ => rfl, fresh⟩
  have turn {t : TaskId} (ht : h.turn = some t) : k.turn = some (σ t) := by
    rw [hm.turn, ht]
    rfl
  have idle (ht : h.turn = none) : k.turn = none := by
    rw [hm.turn, ht]
    rfl
  have query (t : TaskId) := hm.query? fresh t
  cases hs with
  | @take t free ready =>
    refine ⟨σ, k.take (σ t), same, .take (idle free) ?_, hm.take t⟩
    exact hm.ready.mem_iff.2 (List.mem_map_of_mem ready)
  | @move _ t now free next =>
    obtain ⟨τ, numbers, mirrors, progress⟩ := advanced t now
    rw [next] at numbers mirrors progress
    exact ⟨τ, _, numbers, .move (turn now) ((query t).trans free) (Prod.ext rfl progress), mirrors⟩
  | @stop _ t now free next =>
    obtain ⟨τ, numbers, mirrors, progress⟩ := advanced t now
    rw [next] at numbers mirrors progress
    exact ⟨τ, _, numbers, .stop (turn now) ((query t).trans free) (Prod.ext rfl progress),
      mirrors.pause⟩
  | @ask _ t q now free next =>
    obtain ⟨τ, numbers, mirrors, progress⟩ := advanced t now
    rw [next] at numbers mirrors progress
    exact ⟨τ, _, numbers, .ask (turn now) ((query t).trans free) (Prod.ext rfl progress), mirrors⟩
  | @answer t q o now asked admits =>
    obtain ⟨⟨f, ss⟩, hv, hq⟩ := Option.bind_eq_some_iff.1 asked
    obtain ⟨⟨g, rs⟩, hw, focus, stages⟩ := hm.tasks hv
    dsimp only at stages
    subst stages
    cases focus with
    | asking =>
      have left : h.answer t o = h.setTask t ⟨.resume o, ss⟩ := by rw [Host.answer, hv]
      have right : k.answer (σ t) o =
          k.setTask (σ t) ⟨.resume o, ss.map (Stage.renumbered σ ps)⟩ := by rw [Host.answer, hw]
      refine ⟨σ, k.answer (σ t) o, ⟨fun _ _ => rfl, fun u hu => fresh u ?_⟩,
        .answer (turn now) ((query t).trans asked) admits, ?_⟩
      · simpa [left, Host.setTask] using hu
      · rw [left, right]
        exact hm.setTask (List.getElem?_eq_some_iff.1 hv).1 ⟨.resume, rfl⟩
    | _ => simp [Task.query?] at hq
  | @keep t q now asked =>
    exact ⟨σ, k.pause, same, .keep (turn now) ((query t).trans asked), hm.pause⟩
  | @release t q free asked apart =>
    refine ⟨σ, k.wake [σ t], same, .release (idle free) ((query t).trans asked) ?_, hm.wake t⟩
    rw [hm.ready.mem_iff, List.mem_map_of_injective hm.injective]
    exact apart
  | start => exact internal.elim
  | change => exact internal.elim

end Mirrors

end Host

end PluginHost
