import Mathlib.Data.List.Nodup
import PluginHost.Proofs.Host.Waiting
import PluginHost.Proofs.Store.Copies

/-!
The numbers of tasks. Along a run every number that is in use belongs to a task that was started.
-/
namespace PluginHost

variable {v : Task} {ss : List Stage} {o : Outcome}

/-- The numbers of all tasks that a task knows of are below a bound. -/
structure Task.Below (N : Nat) (v : Task) : Prop where
  awaiting : ∀ u, v.focus = .awaiting u → u < N
  gathering : ∀ us, v.focus = .gathering us → ∀ u ∈ us, u < N
  stages : ∀ u, .storeAwaited u ∈ v.stages → u < N

/-- Nothing waits beneath a stage that waits for the store. -/
theorem Job.Frames.storeAwaited_not_mem {s : Settings} {root owner : Job}
    (hf : root.Frames s owner ss) (u : TaskId) : Stage.storeAwaited u ∉ ss := by
  induction hf with
  | root => exact List.not_mem_nil
  | under outer awaits ih =>
    rw [List.mem_cons]
    rintro (rfl | hm)
    · cases awaits
    · exact ih hm

namespace Host

variable {u : Setup} {h k : Host} {t i : TaskId} {l : Label} {ls : List Label}

/-- The tasks that go on upon the end of a task. -/
def heirs (h : Host) (t : TaskId) (o : Outcome) : List TaskId :=
  (h.tasks.zipIdx.filter fun v => (v.1.afterEnd? t o).isSome).map Prod.snd

theorem mem_heirs :
    i ∈ heirs h t o ↔ ∃ v, h.tasks[i]? = some v ∧ (v.afterEnd? t o).isSome = true := by
  unfold heirs
  constructor
  · intro hi
    obtain ⟨⟨v, j⟩, hm, rfl⟩ := List.mem_map.1 hi
    obtain ⟨hm, goes⟩ := List.mem_filter.1 hm
    exact ⟨v, List.mem_zipIdx_iff_getElem?.1 hm, goes⟩
  · rintro ⟨v, hv, goes⟩
    exact List.mem_map.2 ⟨(v, i), List.mem_filter.2 ⟨List.mem_zipIdx_iff_getElem?.2 hv, goes⟩, rfl⟩

theorem nodup_heirs : (heirs h t o).Nodup := by
  have indices : (h.tasks.zipIdx.map Prod.snd).Nodup := by
    rw [List.zipIdx_map_snd]
    exact List.nodup_range'
  exact indices.sublist (List.filter_sublist.map _)

/-- Only tasks that were started can go on. -/
def Able (h : Host) : Prop := ∀ t, t ∈ h.ready ∨ h.turn = some t → t < h.tasks.length

namespace Able

theorem move (ha : h.Able) (t : TaskId) (ss : List Stage) (m : Move) :
    (h.move t ss m).1.Able := by
  intro i hi
  rw [ready_of_move, turn_move, List.mem_append, List.mem_range'_1] at hi
  rw [tasks_of_move, List.length_set, List.length_append, List.length_map]
  obtain (old | new) | now := hi
  · exact Nat.lt_add_right _ (ha i (.inl old))
  · exact new.2
  · exact Nat.lt_add_right _ (ha i (.inr now))

theorem advance (ha : h.Able) (t : TaskId) : (h.advance t).1.Able := by
  cases cue : h.cue? t with
  | some r =>
    rw [advance_of_cue? cue]
    exact move (h := { h with workspace := (h.next r.1).1 }) ha t r.2 (h.next r.1).2
  | none =>
    obtain ⟨o, -, he⟩ | ⟨q, asked⟩ | he := advance_of_cue?_eq_none cue
    · rw [he]
      intro i hi
      rw [show (h.announce t o).tasks.length = h.tasks.length by simp [Host.announce]]
      obtain hi | now := hi
      · obtain old | heir := List.mem_append.1 hi
        · exact ha i (.inl old)
        · obtain ⟨v, hv, -⟩ := mem_heirs.1 heir
          exact (List.getElem?_eq_some_iff.1 hv).1
      · exact ha i (.inr now)
    · rw [advance_of_query? asked]
      exact ha
    · rw [he]
      exact ha

theorem pause (ha : h.Able) : h.pause.Able := fun i hi =>
  ha i (.inl (hi.resolve_right (by simp [Host.pause])))

theorem step (hs : Step h l k) (ha : h.Able) : k.Able := by
  have advanced {t : TaskId} {k : Host} {p : Progress} (next : h.advance t = (k, p)) : k.Able := by
    have := ha.advance t
    rwa [next] at this
  cases hs with
  | @take t idle ready =>
    rintro i (hi | now)
    · exact ha i (.inl (List.mem_of_mem_erase hi))
    · cases now
      exact ha t (.inl ready)
  | move turn free next => exact advanced next
  | stop turn free next => exact (advanced next).pause
  | ask turn free next => exact advanced next
  | @answer t q o turn asked admits =>
    intro i hi
    obtain ⟨⟨f, ss⟩, ht, hq⟩ := Option.bind_eq_some_iff.1 asked
    cases f with
    | asking =>
      simp only [Host.answer, ht, setTask, List.length_set] at hi ⊢
      exact ha i hi
    | _ => simp [Task.query?] at hq
  | keep turn asked => exact ha.pause
  | @release t q idle asked apart =>
    rintro i (hi | now)
    · obtain old | new := List.mem_append.1 hi
      · exact ha i (.inl old)
      · obtain rfl := List.mem_singleton.1 new
        obtain ⟨v, ht, -⟩ := Option.bind_eq_some_iff.1 asked
        exact (List.getElem?_eq_some_iff.1 ht).1
    · exact ha i (.inr now)
  | @start js idle =>
    intro i hi
    simp only [Host.start, List.mem_append, List.mem_range'_1, List.length_append,
      List.length_map] at hi ⊢
    obtain (old | new) | now := hi
    · exact Nat.lt_add_right _ (ha i (.inl old))
    · exact new.2
    · exact Nat.lt_add_right _ (ha i (.inr now))
  | change idle => exact ha

end Able

theorem able_of_runs (hr : u.Runs ls h) : h.Able :=
  Steps.forward (P := fun _ h => h.Able) (fun i hi => by simp [Setup.host] at hi)
    (fun _ ha hs => ha.step hs) hr

/-- A task knows of no tasks that are still to be started. -/
theorem below_of_runs (hr : u.Runs ls h) (hv : h.tasks[i]? = some v) : v.Below h.tasks.length := by
  obtain ⟨roots, hf⟩ := fits_of_runs hr
  have known {t : TaskId} {j : Job} (ht : roots[t]? = some j) : t < h.tasks.length :=
    hf.length ▸ (List.getElem?_eq_some_iff.1 ht).1
  obtain ⟨root, -, fits⟩ := hf.tasks hv
  have awaiting (u : TaskId) (focus : v.focus = .awaiting u) : u < h.tasks.length := by
    cases fits <;> cases focus
    exact known ‹_›
  refine ⟨awaiting, fun us focus u hu => ?_, fun u hu => ?_⟩
  · cases fits <;> cases focus
    rename_i jobs
    obtain ⟨j, -, hj⟩ := jobs u hu
    exact known hj
  · have head {f : Focus} {st : Stage} {ss : List Stage} (task : v = ⟨f, st :: ss⟩)
        (rest : Stage.storeAwaited u ∉ ss) : u < h.tasks.length := by
      subst task
      obtain rfl | hu := List.mem_cons.1 hu
      · obtain rfl | ⟨o, -, ended⟩ := heeds_of_runs hr hv
        · exact awaiting u rfl
        · exact lt_of_outcome? ended
      · exact (rest hu).elim
    cases fits with
    | begin frames => exact (frames.storeAwaited_not_mem u hu).elim
    | ended => cases hu
    | told frames => exact head rfl (frames.storeAwaited_not_mem u)
    | awaiting frames => exact head rfl (frames.storeAwaited_not_mem u)
    | gathering frames => exact head rfl (frames.storeAwaited_not_mem u)
    | asking frames => exact head rfl (frames.storeAwaited_not_mem u)

end Host
end PluginHost
