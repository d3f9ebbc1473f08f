import Mathlib.Data.List.Nodup
import PluginHost.Proofs.Host.Errands
import PluginHost.Proofs.Host.Listings
import PluginHost.Proofs.Host.Replay

/-!
The list of the compiles in progress. At every moment it has one entry for each compile that has
begun and not ended, in the order in which they began, and each step changes at most the entry of
the one compile that moves.
-/
namespace PluginHost

namespace Table

variable {κ α : Type} [DecidableEq κ] {t : Table κ α} {k : κ} {v w : α} {xs ys : List (κ × α)}

theorem entries_insert_of_not_mem (hk : k ∉ t.keys) :
    (t.insert k v).entries = t.entries ++ [(k, v)] := by
  have put (es : List (κ × α)) (hk : k ∉ es.map Prod.fst) : putEntry k v es = es ++ [(k, v)] := by
    induction es with
    | nil => rfl
    | cons e es ih =>
      rw [List.map_cons, List.mem_cons, not_or] at hk
      rw [putEntry, if_neg (Ne.symm hk.1), ih hk.2, List.cons_append]
  exact put t.entries hk

theorem entries_erase_of_not_mem (hk : k ∉ t.keys) : (t.erase k).entries = t.entries := by
  refine List.filter_eq_self.2 fun e he => ?_
  have apart : e.1 ≠ k := by
    rintro rfl
    exact hk (List.mem_map_of_mem he)
  simpa using apart

omit [DecidableEq κ] in
/-- The other entries have other keys. -/
theorem apart_of_entries (he : t.entries = xs ++ (k, v) :: ys) :
    (∀ e ∈ xs, e.1 ≠ k) ∧ ∀ e ∈ ys, e.1 ≠ k := by
  have distinct := t.distinct
  rw [he, List.map_append, List.map_cons, List.nodup_middle, List.nodup_cons, ← List.map_append]
    at distinct
  have apart {e : κ × α} (member : e ∈ xs ++ ys) : e.1 ≠ k := by
    rintro rfl
    exact distinct.1 (List.mem_map.2 ⟨e, member, rfl⟩)
  exact ⟨fun e h => apart (List.mem_append_left _ h), fun e h => apart (List.mem_append_right _ h)⟩

theorem entries_insert (he : t.entries = xs ++ (k, v) :: ys) :
    (t.insert k w).entries = xs ++ (k, w) :: ys := by
  have put (xs : List (κ × α)) (hx : ∀ e ∈ xs, e.1 ≠ k) :
      putEntry k w (xs ++ (k, v) :: ys) = xs ++ (k, w) :: ys := by
    induction xs with
    | nil => simp [putEntry]
    | cons e xs ih =>
      rw [List.forall_mem_cons] at hx
      rw [List.cons_append, putEntry, if_neg hx.1, ih hx.2, List.cons_append]
  calc (t.insert k w).entries = putEntry k w (xs ++ (k, v) :: ys) := congrArg (putEntry k w) he
    _ = xs ++ (k, w) :: ys := put xs (apart_of_entries he).1

theorem entries_erase (he : t.entries = xs ++ (k, v) :: ys) : (t.erase k).entries = xs ++ ys := by
  obtain ⟨before, after⟩ := apart_of_entries he
  have keeps (es : List (κ × α)) (hes : ∀ e ∈ es, e.1 ≠ k) :
      es.filter (fun e => e.1 ≠ k) = es :=
    List.filter_eq_self.2 fun e h => by simpa using hes e h
  calc (t.erase k).entries
      = (xs ++ (k, v) :: ys).filter (fun e => e.1 ≠ k) := congrArg (List.filter _) he
    _ = xs ++ ys := by
      rw [List.filter_append, keeps xs before, List.filter_cons_of_neg (by simp), keeps ys after]

theorem get?_of_entries (he : t.entries = xs ++ (k, v) :: ys) : t.get? k = some v := by
  have find (xs : List (κ × α)) (hx : ∀ e ∈ xs, e.1 ≠ k) :
      lookup? k (xs ++ (k, v) :: ys) = some v := by
    induction xs with
    | nil => simp [lookup?]
    | cons e xs ih =>
      rw [List.forall_mem_cons] at hx
      rw [List.cons_append, lookup?, if_neg hx.1, ih hx.2]
  rw [get?, he]
  exact find xs (apart_of_entries he).1

end Table

variable {s s' : CompileState} {a : Nat} {c d : Compiles} {ss : List Stage}
  {p xs ys : List (Nat × CompileState)} {old new : Option (Nat × CompileState)}

/-- What is listed of the compiles that a task runs. -/
def Task.progress (v : Task) : List (Nat × CompileState) := v.stages.filterMap Stage.progress?

/-- What is listed of all compiles that have begun and not ended. -/
def Host.progress (h : Host) : List (Nat × CompileState) := h.tasks.flatMap Task.progress

/-- The list has the compiles in progress, in the order in which they began. -/
structure Compiles.Tally (c : Compiles) (p : List (Nat × CompileState)) : Prop where
  perm : c.running.entries.Perm p
  ordered : c.running.keys.Pairwise (· < ·)
  started : ∀ a ∈ c.running.keys, a < c.started

/-- How the list changes when a compile that has come to `old` makes a move after which it has come
to `new`. One that is about to begin, or has ended, has come to nothing. -/
inductive Compiles.Changes (c d : Compiles) :
    Option (Nat × CompileState) → Option (Nat × CompileState) → Prop where
  | stays (same : d = c) : Changes c d none none
  | begins (running : d.running.entries = c.running.entries ++ [(c.started, .installing)])
      (started : d.started = c.started + 1) : Changes c d none (some (c.started, .installing))
  /-- A compile that ends as it begins is counted. -/
  | passes (running : d.running.entries = c.running.entries) (started : d.started = c.started + 1) :
      Changes c d none none
  | proceeds {a : Nat} {s s' : CompileState} {xs ys : List (Nat × CompileState)}
      (precedes : s.Precedes s') (before : c.running.entries = xs ++ (a, s) :: ys)
      (after : d.running.entries = xs ++ (a, s') :: ys) (started : d.started = c.started) :
      Changes c d (some (a, s)) (some (a, s'))
  | ends {a : Nat} {s : CompileState} {xs ys : List (Nat × CompileState)}
      (before : c.running.entries = xs ++ (a, s) :: ys) (after : d.running.entries = xs ++ ys)
      (started : d.started = c.started) : Changes c d (some (a, s)) none

namespace Compiles

theorem Tally.fresh (ht : c.Tally p) : c.started ∉ c.running.keys :=
  fun h => Nat.lt_irrefl _ (ht.started _ h)

theorem keys_eq (he : c.running.entries = xs ++ (a, s) :: ys) :
    c.running.keys = xs.map Prod.fst ++ a :: ys.map Prod.fst := by
  rw [Table.keys, he, List.map_append, List.map_cons]

/-- The compiles in progress stay on the list while one of them makes a move. -/
theorem Changes.tally (hc : c.Changes d old new) (ht : c.Tally (old.toList ++ p)) :
    d.Tally (new.toList ++ p) := by
  cases hc with
  | stays same => exact same ▸ ht
  | begins running started =>
    have keys : d.running.keys = c.running.keys ++ [c.started] := by
      rw [Table.keys, running, List.map_append]
      rfl
    refine ⟨?_, ?_, ?_⟩
    · rw [running]
      exact (List.perm_append_singleton ..).trans (ht.perm.cons _)
    · rw [keys, List.pairwise_append]
      exact ⟨ht.ordered, List.pairwise_singleton .., fun a ha b hb =>
        List.mem_singleton.1 hb ▸ ht.started a ha⟩
    · intro a ha
      rw [started]
      rw [keys, List.mem_append, List.mem_singleton] at ha
      rcases ha with before | rfl
      · exact Nat.lt_succ_of_lt (ht.started a before)
      · exact Nat.lt_succ_self _
  | passes running started =>
    have keys : d.running.keys = c.running.keys := congrArg (List.map Prod.fst) running
    exact ⟨running ▸ ht.perm, keys ▸ ht.ordered, fun a ha =>
      started ▸ Nat.lt_succ_of_lt (ht.started a (keys ▸ ha))⟩
  | proceeds precedes before after started =>
    have keys : d.running.keys = c.running.keys := (keys_eq after).trans (keys_eq before).symm
    refine ⟨?_, keys ▸ ht.ordered, fun a ha => started ▸ ht.started a (keys ▸ ha)⟩
    have rest := (before ▸ ht.perm).symm.trans List.perm_middle
    rw [after]
    exact List.perm_middle.trans ((List.Perm.cons_inv rest).symm.cons _)
  | @ends a s xs ys before after started =>
    have sub : d.running.keys.Sublist c.running.keys := by
      rw [Table.keys, Table.keys, after, before]
      exact ((List.sublist_cons_self ..).append_left xs).map _
    refine ⟨?_, ht.ordered.sublist sub, fun a ha => started ▸ ht.started a (sub.subset ha)⟩
    have rest := (before ▸ ht.perm).symm.trans List.perm_middle
    rw [after]
    exact (List.Perm.cons_inv rest).symm

end Compiles

theorem Stage.progress?_of_unlisted {st : Stage} (hs : st.listed = false) : st.progress? = none := by
  cases st <;> first | rfl | cases hs

theorem Cue.compiles_of_unlisted {q : Cue} (hq : q.listed = false) : q.compiles = false := by
  cases q with
  | begin j => exact hq
  | told st o => cases st <;> first | exact hq | cases hq

theorem Cue.compiles_of_progress? {q : Cue} {x : Nat × CompileState}
    (hq : q.progress? = some x) : q.compiles = true := by
  cases q with
  | begin j => cases hq
  | told st o => exact Option.isSome_iff_exists.2 ⟨x, hq⟩

theorem Cue.progress?_of_unlisted {q : Cue} (hq : q.listed = false) : q.progress? = none := by
  cases progress : q.progress? with
  | none => rfl
  | some x => cases (compiles_of_progress? progress).symm.trans (compiles_of_unlisted hq)

theorem Move.Unlisted.progress? {m : Move} (hm : m.Unlisted) : m.progress? = none := by
  rw [Move.progress?]
  cases hst : m.stage? with
  | none => rfl
  | some st => exact Stage.progress?_of_unlisted (hm.stage st hst)

/-- A move changes the list by the compile that makes it, if the engine's answers have their form. -/
theorem Cue.Lists.changes {fresh : TaskId} {c : Workspace} {q : Cue} {r : Workspace × Move}
    (hr : q.Lists fresh c r) (ht : c.compiles.Tally (q.progress?.toList ++ p))
    (formed : ∀ comp r, q = .told (.transformed comp) (.ok r) → ∃ t, r = .transformed t) :
    c.compiles.Changes r.1.compiles q.progress? r.2.progress? := by
  have listed {a : Nat} {s : CompileState} (cue : q.progress? = some (a, s)) :
      ∃ xs ys, c.compiles.running.entries = xs ++ (a, s) :: ys := by
    apply List.append_of_mem
    apply ht.perm.mem_iff.2
    rw [cue]
    exact List.mem_cons_self ..
  cases hr with
  | aside level cue move =>
    rw [Cue.progress?_of_unlisted cue, move.progress?]
    exact .stays level.compiles
  | launches => exact .stays rfl
  | settles => exact .stays rfl
  | @starts r comp d attempt installing compiles =>
    have listed : (c.compiles.running.insert c.compiles.started .resolvingConfig).entries = _ :=
      Table.entries_insert_of_not_mem ht.fresh
    have come : (Move.call (.needsInstalled comp) (.installAll comp.needs)).progress? =
        some (c.compiles.started, .installing) := by
      rw [← attempt]
      rfl
    rw [come]
    refine .begins ?_ ?_
    · rw [compiles]
      exact Table.entries_insert listed
    · rw [compiles]
      rfl
  | refuses installing compiles =>
    refine .passes ?_ ?_
    · rw [compiles]
      exact (congrArg Table.entries (Table.erase_insert ..)).trans
        (Table.entries_erase_of_not_mem ht.fresh)
    · rw [compiles]
      rfl
  | proceeds cue move precedes jobs installing compiles =>
    obtain ⟨xs, ys, before⟩ := listed cue
    rw [cue, move]
    exact .proceeds precedes before (compiles ▸ Table.entries_insert before) (compiles ▸ rfl)
  | concludes cue installing compiles =>
    obtain ⟨xs, ys, before⟩ := listed cue
    rw [cue]
    exact .ends before (compiles ▸ Table.entries_erase before) (compiles ▸ rfl)
  | misled odd =>
    obtain ⟨t, rfl⟩ := formed _ _ rfl
    exact (odd t rfl).elim

namespace Cue.Lists

variable {fresh : TaskId} {c : Workspace} {q : Cue} {r : Workspace × Move}

/-- Compiles are counted as they begin, and not otherwise. -/
theorem counted (hr : q.Lists fresh c r) :
    r.1.compiles.started = c.compiles.started + 1 ↔ ∃ request, q = .begin (.compile request) := by
  have neither {started : Nat} (same : started = c.compiles.started)
      (other : ∀ request, q ≠ .begin (.compile request)) :
      started = c.compiles.started + 1 ↔ ∃ request, q = .begin (.compile request) := by
    refine ⟨fun next => (Nat.succ_ne_self _ (next.symm.trans same)).elim, ?_⟩
    rintro ⟨request, rfl⟩
    exact (other request rfl).elim
  cases hr with
  | aside level cue =>
    refine neither (congrArg Compiles.started level.compiles) ?_
    rintro request rfl
    cases cue
  | launches => exact neither rfl (by simp)
  | settles => exact neither rfl (by simp)
  | @starts request comp d attempt installing compiles =>
    exact ⟨fun _ => ⟨request, rfl⟩, fun _ => (congrArg Compiles.started compiles).trans rfl⟩
  | @refuses request o d installing compiles =>
    exact ⟨fun _ => ⟨request, rfl⟩, fun _ => (congrArg Compiles.started compiles).trans rfl⟩
  | proceeds cue move precedes jobs installing compiles =>
    refine neither ((congrArg Compiles.started compiles).trans rfl) ?_
    rintro request rfl
    cases cue
  | concludes cue installing compiles =>
    refine neither ((congrArg Compiles.started compiles).trans rfl) ?_
    rintro request rfl
    cases cue
  | misled => exact neither rfl (by simp)

/-- A compile is on the list after each of its moves but the one by which it returns. -/
theorem leaves_iff (hr : q.Lists fresh c r) (compiles : q.compiles = true) :
    r.2.progress? = none ↔ ∃ o, r.2 = .finish o := by
  cases hr with
  | aside level cue => cases (Cue.compiles_of_unlisted cue).symm.trans compiles
  | launches => cases compiles
  | settles => cases compiles
  | starts => simp [Move.progress?, Move.stage?, Stage.progress?]
  | refuses => exact ⟨fun _ => ⟨_, rfl⟩, fun _ => rfl⟩
  | proceeds cue move =>
    constructor
    · intro none
      cases none.symm.trans move
    · rintro ⟨o, finishes⟩
      cases (congrArg Move.progress? finishes).symm.trans move
  | concludes => exact ⟨fun _ => ⟨_, rfl⟩, fun _ => rfl⟩
  | misled => exact ⟨fun _ => ⟨_, rfl⟩, fun _ => rfl⟩

end Cue.Lists

namespace Host

variable {u : Setup} {h k : Host} {t : TaskId} {l : Label} {ls rs : List Label}

/-- A task returns from its job by finishing it. -/
theorem moved_eq_resume {m : Move} :
    (∃ o, h.moved ss m = ⟨.resume o, ss⟩) ↔ ∃ o, m = .finish o := by
  constructor
  · rintro ⟨o, returns⟩
    cases stage : m.stage? with
    | none =>
      cases m with
      | finish o => exact ⟨o, rfl⟩
      | _ => cases stage
    | some st =>
      have waits : (h.moved ss m).stages = st :: ss := stages_moved stage
      rw [returns] at waits
      exact (List.cons_ne_self _ _ waits.symm).elim
  · rintro ⟨o, rfl⟩
    exact ⟨o, rfl⟩

theorem progress_of_stages (same : k.tasks.map Task.stages = h.tasks.map Task.stages) :
    k.progress = h.progress := by
  have by_stages (h : Host) : h.progress =
      (h.tasks.map Task.stages).flatMap (List.filterMap Stage.progress?) := by
    rw [List.flatMap_map]
    rfl
  rw [by_stages, by_stages, same]

theorem progress_of_cue {q : Cue} {v : Task} (hv : h.tasks[t]? = some v)
    (cue : h.cue? t = some (q, ss)) :
    v.progress = q.progress?.toList ++ ss.filterMap Stage.progress? := by
  cases q with
  | begin j =>
    obtain rfl := Option.some.inj (hv.symm.trans (cue?_eq_begin.1 cue))
    rfl
  | told st o =>
    obtain rfl := Option.some.inj (hv.symm.trans (cue?_eq_told.1 cue))
    rw [Task.progress, List.filterMap_cons, Cue.progress?]
    cases st.progress? <;> rfl

theorem progress_moved (h : Host) (ss : List Stage) (m : Move) :
    (h.moved ss m).progress = m.progress?.toList ++ ss.filterMap Stage.progress? := by
  rw [Task.progress, Move.progress?]
  cases hst : m.stage? with
  | none =>
    cases m with
    | finish o => rfl
    | _ => cases hst
  | some st =>
    rw [stages_moved hst, List.filterMap_cons, Option.bind_some]
    cases st.progress? <;> rfl

/-- A move leaves alone what is listed of all compiles but the one that makes it. -/
theorem progress_of_move {q : Cue} {m : Move} (cue : h.cue? t = some (q, ss)) :
    ∃ p, h.progress.Perm (q.progress?.toList ++ p) ∧
      ∀ k : Host, k.tasks = (h.move t ss m).1.tasks → k.progress.Perm (m.progress?.toList ++ p) := by
  have lt := lt_of_cue? cue
  obtain ⟨before, after, split, -, replaced⟩ := @List.exists_of_set _ t (h.moved ss m) h.tasks lt
  have here := progress_of_cue (List.getElem?_eq_getElem lt) cue
  -- The stages beneath and the other tasks are apart from the move.
  refine ⟨ss.filterMap Stage.progress? ++
    (before.flatMap Task.progress ++ after.flatMap Task.progress), ?_, fun k tasks => ?_⟩
  · rw [progress, split, List.flatMap_append, List.flatMap_cons, here]
    exact (List.perm_append_comm_assoc ..).trans (.of_eq (List.append_assoc ..))
  · have idle : (m.jobs.map fun j => (⟨.begin j, []⟩ : Task)).flatMap Task.progress = [] := by
      simp [Task.progress]
    rw [progress, tasks, tasks_of_move, List.set_append_left _ _ lt, replaced,
      List.flatMap_append, idle, List.append_nil, List.flatMap_append, List.flatMap_cons,
      progress_moved]
    exact (List.perm_append_comm_assoc ..).trans (.of_eq (List.append_assoc ..))

/-- An answer of the engine has the form of one. -/
theorem transformed_of_told (hr : u.Runs ls h) {comp : Compilation} {r : Reply}
    (cue : h.cue? t = some (.told (.transformed comp) (.ok r), ss)) : ∃ x, r = .transformed x := by
  obtain ⟨roots, hf⟩ := fits_of_runs hr
  obtain ⟨root, owner, -, -, hq⟩ := hf.cue cue
  cases hq with
  | told awaits gives =>
    have returns := gives.returns (Expectation.wellFormed_met u).toFormed
    cases awaits
    cases r with
    | transformed x => exact ⟨x, rfl⟩
    | _ => exact returns.elim

/-- A task runs a compile of which this is listed. -/
def Compiling (h : Host) (t : TaskId) (x : Nat × CompileState) : Prop :=
  ∃ v, h.tasks[t]? = some v ∧ x ∈ v.progress

/-- From one host to the next the list of the compiles changes by at most the entry of one compile,
which the task with the turn runs. -/
structure Advances (h k : Host) (old new : Option (Nat × CompileState)) : Prop where
  changes : h.workspace.compiles.Changes k.workspace.compiles old new
  before : ∀ x, old = some x → ∃ t, h.turn = some t ∧ h.Compiling t x
  after : ∀ x, new = some x → ∃ t, h.turn = some t ∧ k.Compiling t x
  /-- A compile is counted when it begins. -/
  counted : k.workspace.compiles.started = h.workspace.compiles.started + 1 ↔
    ∃ t request ss, h.turn = some t ∧ h.cue? t = some (.begin (.compile request), ss)
  /-- And it is on the list until it returns. -/
  leaves : ∀ t q ss, h.turn = some t → h.cue? t = some (q, ss) → q.compiles = true →
    (new = none ↔ ∃ o, k.tasks[t]? = some ⟨.resume o, ss⟩)

/-- While nobody makes a move, the list stays as it is. -/
theorem Advances.of_still (workspace : k.workspace.compiles = h.workspace.compiles)
    (still : ∀ t, h.turn = some t → h.cue? t = none) : h.Advances k none none := by
  refine ⟨.stays workspace, fun _ hx => (by cases hx), fun _ hx => (by cases hx), ⟨?_, ?_⟩, ?_⟩
  · intro next
    rw [workspace] at next
    exact (Nat.succ_ne_self _ next.symm).elim
  · rintro ⟨t, request, ss, turn, cue⟩
    cases (still t turn).symm.trans cue
  · intro t q ss turn cue
    cases (still t turn).symm.trans cue

theorem Advances.of_move {q : Cue} (turn : h.turn = some t) (cue : h.cue? t = some (q, ss))
    (workspace : k.workspace = (h.next q).1)
    (tasks : k.tasks = (h.move t ss (h.next q).2).1.tasks)
    (changes : h.workspace.compiles.Changes (h.next q).1.compiles q.progress?
      (h.next q).2.progress?) :
    h.Advances k q.progress? (h.next q).2.progress? := by
  have lists := q.lists h.tasks.length h.workspace
  have lt := lt_of_cue? cue
  have moved := getElem?_moved lt tasks
  refine ⟨workspace ▸ changes, fun x hx => ?_, fun x hx => ?_, ?_,
    fun t' q' ss' turn' cue' compiles => ?_⟩
  · refine ⟨t, turn, _, List.getElem?_eq_getElem lt, ?_⟩
    rw [progress_of_cue (List.getElem?_eq_getElem lt) cue, hx]
    exact List.mem_cons_self ..
  · refine ⟨t, turn, _, moved, ?_⟩
    rw [progress_moved, hx]
    exact List.mem_cons_self ..
  · rw [workspace]
    refine lists.counted.trans ⟨?_, ?_⟩
    · rintro ⟨request, rfl⟩
      exact ⟨t, request, ss, turn, cue⟩
    · rintro ⟨t', request, ss', turn', cue'⟩
      obtain rfl := Option.some.inj (turn.symm.trans turn')
      exact ⟨request, (cue?_inj cue cue').1⟩
  · obtain rfl := Option.some.inj (turn.symm.trans turn')
    obtain ⟨rfl, rfl⟩ := cue?_inj cue cue'
    rw [moved]
    simp only [Option.some.injEq]
    exact (lists.leaves_iff compiles).trans moved_eq_resume.symm

/-- The list stays that of the compiles in progress, and changes by the one that makes a move. -/
theorem Step.advances (hr : u.Runs ls h) (hs : Step h l k)
    (ht : h.workspace.compiles.Tally h.progress) :
    k.workspace.compiles.Tally k.progress ∧ ∃ old new, h.Advances k old new := by
  have unmoved (workspace : k.workspace.compiles = h.workspace.compiles)
      (progress : k.progress = h.progress) (still : ∀ t, h.turn = some t → h.cue? t = none) :
      k.workspace.compiles.Tally k.progress ∧ ∃ old new, h.Advances k old new := by
    refine ⟨?_, none, none, .of_still workspace still⟩
    rw [workspace, progress]
    exact ht
  cases hs.effect with
  | quiet still label workspace tasks =>
    exact unmoved (congrArg Workspace.compiles workspace) (progress_of_stages (congrArg _ tasks))
      still
  | @move t q ss k turn cue workspace tasks =>
    obtain ⟨p, before, after⟩ := progress_of_move (m := (h.next q).2) cue
    have tally : h.workspace.compiles.Tally (q.progress?.toList ++ p) :=
      ⟨ht.perm.trans before, ht.ordered, ht.started⟩
    have changes : h.workspace.compiles.Changes (h.next q).1.compiles q.progress?
        (h.next q).2.progress? :=
      (q.lists _ _).changes tally fun comp r told => transformed_of_told hr (told ▸ cue)
    have tallied := changes.tally tally
    refine ⟨?_, _, _, .of_move turn cue workspace tasks changes⟩
    rw [workspace]
    exact ⟨tallied.perm.trans (after k tasks).symm, tallied.ordered, tallied.started⟩
  | @announce t o k turn ended workspace tasks =>
    refine unmoved (congrArg Workspace.compiles workspace) (progress_of_stages ?_)
      (still_of_turn turn (cue?_eq_none_of_ended ended))
    rw [tasks, List.map_map]
    exact List.map_congr_left fun v _ => v.stages_hear t o
  | @answer t q o ss k turn asked admits workspace tasks =>
    refine unmoved (congrArg Workspace.compiles workspace) (progress_of_stages ?_)
      (still_of_turn turn (cue?_eq_none_of_query? (query?_eq asked)))
    refine List.ext_getElem? fun i => ?_
    rw [tasks, List.map_set]
    by_cases here : t = i
    · subst here
      have lt : t < (h.tasks.map Task.stages).length := by
        rw [List.length_map]
        exact (List.getElem?_eq_some_iff.1 asked).1
      rw [List.getElem?_set_self lt, List.getElem?_map, asked, Option.map_some]
    · rw [List.getElem?_set_ne here]
  | @start js k idle workspace tasks =>
    refine unmoved (congrArg Workspace.compiles workspace) ?_ (still_of_idle idle)
    rw [progress, tasks, List.flatMap_append]
    simp [progress, Task.progress]
  | change idle workspace tasks =>
    refine unmoved ?_ (progress_of_stages (congrArg _ tasks)) (still_of_idle idle)
    rw [workspace]
    exact (h.workspace.level_after _).compiles

theorem tally_of_runs (hr : u.Runs ls h) : h.workspace.compiles.Tally h.progress := by
  refine Steps.forward (P := fun _ h => h.workspace.compiles.Tally h.progress) ?_ ?_ hr
  · exact ⟨.refl _, .nil, fun _ ha => (List.not_mem_nil ha).elim⟩
  · exact fun hg ih hs => (hs.advances hg ih).1

theorem Compiling.mem (hx : h.Compiling t (a, s)) : (a, s) ∈ h.progress := by
  obtain ⟨v, hv, member⟩ := hx
  exact List.mem_flatMap.2 ⟨v, List.mem_of_getElem? hv, member⟩

theorem ne_done_of_mem_progress (hx : (a, s) ∈ h.progress) : s ≠ .done := by
  obtain ⟨v, -, member⟩ := List.mem_flatMap.1 hx
  obtain ⟨st, -, listed⟩ := List.mem_filterMap.1 member
  rintro rfl
  cases st <;> cases listed

/-- Whoever waits for the engine is the only one to call it for its compile. -/
theorem compiling_of_transform (hr : u.Runs ls h) {code : String} {config : EngineConfig}
    {registry : Registry} (asks : h.query? t = some (.transform code config registry)) :
    ∃ comp : Compilation, comp.request.code = code ∧ comp.config = config ∧
      h.Compiling t (comp.attempt, .transforming) := by
  obtain ⟨roots, hf⟩ := fits_of_runs hr
  obtain ⟨ss, ht⟩ := tasks_of_query? asks
  obtain ⟨root, -, fits⟩ := hf.tasks ht
  cases fits with
  | asking frames awaits =>
    cases awaits with
    | @transformed comp => exact ⟨comp, rfl, rfl, _, ht, List.mem_cons_self ..⟩

end Host

namespace Compiles

theorem Tally.listed (ht : c.Tally p) (hx : (a, s) ∈ p) : c.running.get? a = some s := by
  obtain ⟨xs, ys, entries⟩ := List.append_of_mem (ht.perm.mem_iff.2 hx)
  exact Table.get?_of_entries entries

/-- The state is that of the compile that began last. -/
theorem Tally.state (ht : c.Tally p) :
    p = [] ∧ c.state = .done ∨
      ∃ a s, (a, s) ∈ p ∧ (∀ x ∈ p, x.1 ≤ a) ∧ c.state = s := by
  rcases List.eq_nil_or_concat c.running.entries with none | ⟨xs, ⟨a, s⟩, entries⟩
  · left
    refine ⟨List.nil_perm.1 (none ▸ ht.perm), ?_⟩
    simp [Compiles.state, states, Table.values, none]
  · right
    rw [List.concat_eq_append] at entries
    refine ⟨a, s, ht.perm.mem_iff.1 (by simp [entries]), fun x hx => ?_, ?_⟩
    · have ordered := ht.ordered
      rw [keys_eq entries, List.pairwise_append] at ordered
      rcases List.mem_append.1 (entries ▸ ht.perm.mem_iff.2 hx) with before | last
      · exact Nat.le_of_lt (ordered.2.2 _ (List.mem_map_of_mem before) a (List.mem_cons_self ..))
      · exact List.mem_singleton.1 last ▸ Nat.le_refl a
    · simp [Compiles.state, states, Table.values, entries]

end Compiles

namespace Host

variable {u : Setup} {h : Host} {ls : List Label}

/-- However compiles and everything else that tasks and callers do follow one another: at every
moment the list has one entry for each compile that has begun and not ended, in the order in which
they began, and none of them is done. The state is that of the last of them, or done if there is
none. Whoever waits for the engine is listed as transforming. And a step changes at most one entry,
which belongs to the compile that makes a move: one that begins comes in at the end as installing, one
that is there goes on to what may come next, and it goes off the list exactly when it returns. -/
theorem compiles_listed (hr : u.Runs ls h) :
    h.workspace.compiles.Tally h.progress ∧
    .done ∉ h.workspace.compiles.states ∧
    (h.progress = [] ∧ h.workspace.compiles.state = .done ∨
      ∃ a s, (a, s) ∈ h.progress ∧ (∀ x ∈ h.progress, x.1 ≤ a) ∧
        h.workspace.compiles.state = s) ∧
    (∀ t code config registry, h.query? t = some (.transform code config registry) →
      ∃ comp : Compilation, comp.request.code = code ∧ comp.config = config ∧
        h.Compiling t (comp.attempt, .transforming) ∧
          h.workspace.compiles.running.get? comp.attempt = some .transforming) ∧
    ∀ l k, Step h l k → ∃ old new, h.Advances k old new := by
  have tally := tally_of_runs hr
  refine ⟨tally, ?_, tally.state, ?_, fun l k hs => (hs.advances hr tally).2⟩
  · intro done
    obtain ⟨⟨a, s⟩, listed, rfl⟩ := List.mem_map.1 done
    exact ne_done_of_mem_progress (tally.perm.mem_iff.1 listed) rfl
  · intro t code config registry asks
    obtain ⟨comp, same, same', compiling⟩ := compiling_of_transform hr asks
    exact ⟨comp, same, same', compiling, tally.listed compiling.mem⟩

end Host

/-- Two compiles, of which the first calls the engine while the second waits for what it needs. -/
theorem compiles_listed_overlapping :
    ∃ ls h k t code config registry, Setup.envOnly.Runs ls h ∧
      Host.Step h (.asked t (.transform code config registry)) k ∧
      (∃ old new, h.Advances k old new) ∧ k.workspace.compiles.Tally k.progress ∧
      h.progress = [(0, .installing), (1, .installing)] ∧
      k.progress = [(0, .transforming), (1, .installing)] ∧
      (∃ comp : Compilation, comp.request.code = code ∧
        k.Compiling t (comp.attempt, .transforming)) ∧
      ∃ a s, (a, s) ∈ k.progress ∧ (∀ x ∈ k.progress, x.1 ≤ a) ∧
        k.workspace.compiles.state = s := by
  let js : List Job := [.compile .env, .compile .env]
  let h : Host := Setup.envOnly.held js 32
  have hr : Setup.envOnly.Runs (Setup.envOnly.labels (.steady fun _ => none) js 32 ()) h :=
    Setup.envOnly.runs_held js 32
  have installing : h.progress = [(0, .installing), (1, .installing)] := by decide +kernel
  have transforming : (h.advance 0).1.progress = [(0, .transforming), (1, .installing)] := by
    decide +kernel
  have about : h.transforms 0 = true := by decide +kernel
  obtain ⟨code, config, registry, calls⟩ := Host.step_transform about
  obtain ⟨tally, -, state, asks, -⟩ := Host.compiles_listed (hr.snoc calls)
  have steps := (Host.compiles_listed hr).2.2.2.2
  obtain ⟨_, _, _, -, -, -, asking⟩ := calls.asked
  obtain ⟨comp, same, -, compiling, -⟩ := asks 0 code config registry (Host.query?_eq asking)
  refine ⟨_, h, _, 0, code, config, registry, hr, calls, steps _ _ calls, tally, installing,
    transforming, ⟨comp, same, compiling⟩, state.resolve_left fun none => ?_⟩
  cases none.1.symm.trans transforming

end PluginHost
