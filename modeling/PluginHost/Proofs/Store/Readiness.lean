import Mathlib.Tactic.ByContra
import PluginHost.Proofs.Host.Endings
import PluginHost.Proofs.Store.Filling

/-!
When the store is ready. While nobody empties it, it stays ready and keeps what was copied and
fetched into it, and whoever was told that it is open finds it ready from then on.
-/
namespace PluginHost

variable {s : Settings} {owner : Job} {st : Stage} {src : Source} {c : Workspace} {fresh : TaskId}
  {o : Outcome}

/-- Whether a stage waits for the store. -/
def Stage.opens : Stage → Bool
  | .storeAwaited _ | .storeReady _ | .macrosReady _ | .storeOpened _ => true
  | _ => false

/-- A stage that waits for the store waits for a copy, or has the store opened in its place. -/
theorem Stage.Awaits.of_opens (ha : st.Awaits s owner src) (ho : st.opens = true) :
    (∃ w a b, st = .storeAwaited w ∧ owner = .openStore a ∧ src = .joined (.copyProject b)) ∨
      ∃ a, src = .called (.openStore a) := by
  cases ha with
  | storeAwaited => exact .inl ⟨_, _, _, rfl, rfl, rfl⟩
  | storeReady => exact .inr ⟨_, rfl⟩
  | macrosReady => exact .inr ⟨_, rfl⟩
  | storeOpened => exact .inr ⟨_, rfl⟩
  | _ => cases ho

/-- A call that opens the store ends well if the store is ready, or a copy was made. -/
theorem Cue.For.opened {q : Cue} {E : Expectation} {a : Json} {r : Reply}
    (hq : q.For s E (.openStore a)) (hm : (q.move fresh c).2 = .finish (.ok r)) :
    c.store.ready = true ∨ ∃ w p, q = .told (.storeAwaited w) (.ok p) := by
  have goes := q.goes fresh c
  generalize q.move fresh c = x at goes hm
  cases hq with
  | begin =>
    cases goes with
    | storeOpen ready => exact .inl ready
    | storeJoined | storeLaunched => cases hm
  | told awaits gives =>
    cases awaits
    cases goes with
    | storeOpen => exact .inr ⟨_, _, rfl⟩
    | storeAbandoned | storeLost => cases hm

namespace Host

variable {u : Setup} {h k m : Host} {t : TaskId} {l : Label} {ls rs : List Label} {d : Workspace}

theorem Tends.ready_of_ready (ht : h.Tends l d) (spares : l.empties = false)
    (ready : h.workspace.store.ready = true) : d.store.ready = true := by
  cases ht with
  | aside beside => rw [beside.store, ready]
  | move turn cue next handles =>
    cases handles with
    | aside beside => rw [beside.store, ready]
    | copies => rfl
    | _ => exact ready
  | write => exact ready
  | place => exact ready
  | empty empties => cases spares.symm.trans empties

theorem Tends.contains {path : String} (ht : h.Tends l d) (spares : l.empties = false)
    (there : h.workspace.store.remote.contains path = true) :
    d.store.remote.contains path = true := by
  cases ht with
  | aside beside => rw [beside.store, there]
  | move turn cue next handles =>
    cases handles with
    | aside beside => rw [beside.store, there]
    | copies => exact Layer.contains_writeAll.2 (.inl there)
    | places => exact Layer.contains_writeAll.2 (.inl there)
    | _ => exact there
  | write => exact there
  | @place p x =>
    simp only [Layer.contains, Store.place, Layer.read?_write] at there ⊢
    split
    · rfl
    · exact there
  | empty empties => cases spares.symm.trans empties

/-- While nobody empties the store, it takes the project's files in, or it stays as ready as it was,
and only fetched files and those of callers are added to its lower layer. -/
theorem Tends.copies_or_keeps (ht : h.Tends l d) (spares : l.empties = false) :
    (∃ t fs ss, h.cue? t = some (.told .projectCopied (.ok (.files fs)), ss) ∧
      d.store = h.workspace.store.copyProject fs) ∨
    d.store.ready = h.workspace.store.ready ∧
      (d.store.remote = h.workspace.store.remote ∨ (∃ p x, l = .changed (.place p x)) ∨
        ∃ t p a fs ss, h.cue? t = some (.told (.downloaded p a) (.ok (.files fs)), ss)) := by
  cases ht with
  | aside beside => exact .inr ⟨by rw [beside.store], .inl (by rw [beside.store])⟩
  | move turn cue next handles =>
    cases handles with
    | aside beside => exact .inr ⟨by rw [beside.store], .inl (by rw [beside.store])⟩
    | copies => exact .inl ⟨_, _, _, cue, rfl⟩
    | places => exact .inr ⟨rfl, .inr (.inr ⟨_, _, _, _, _, cue⟩)⟩
    | _ => exact .inr ⟨rfl, .inl rfl⟩
  | write => exact .inr ⟨rfl, .inl rfl⟩
  | place => exact .inr ⟨rfl, .inr (.inl ⟨_, _, rfl⟩)⟩
  | empty empties => cases spares.symm.trans empties

theorem Steps.ready (hk : Steps h rs k) (spares : ∀ l ∈ rs, l.empties = false)
    (ready : h.workspace.store.ready = true) : k.workspace.store.ready = true := by
  induction hk with
  | refl => exact ready
  | cons first _ ih =>
    rw [List.forall_mem_cons] at spares
    exact ih spares.2 (first.tends.ready_of_ready spares.1 ready)

/-- A task was told that the store is open. -/
def Opened (h : Host) (t : TaskId) : Prop :=
  ∃ r st ss, h.tasks[t]? = some ⟨.resume (.ok r), st :: ss⟩ ∧ st.opens = true

/-- Nobody minds a copy that was made in vain. -/
theorem Copies.ready {roots : List Job} {w : TaskId} {b : Json} {r : Reply} (hc : h.Copies roots)
    (minded : h.Minded w) (job : roots[w]? = some (.copyProject b))
    (ended : h.outcome? w = some (.ok r)) : h.workspace.store.ready = true := by
  by_contra unready
  exact hc (by simpa using unready) w b r minded job ended

/-- Who hears that the store is open finds it ready. -/
theorem Copies.ready_of_hear {roots : List Job} {E : Expectation} {w : TaskId} {v : Task}
    {st : Stage} {ss : List Stage} {r : Reply} (hc : h.Copies roots)
    (hf : h.Fits u.settings E roots) (hv : h.tasks[t]? = some v) (goes : v.waits = true)
    (ended : h.tasks[w]? = some ⟨.resume o, []⟩) (hears : v.hear w o = ⟨.resume (.ok r), st :: ss⟩)
    (opens : st.opens = true) : h.workspace.store.ready = true := by
  obtain ⟨root, -, fits⟩ := hf.tasks hv
  rcases resume_of_hear hears with rfl | ⟨w', rfl⟩ | ⟨ws, rfl⟩
  · cases goes
  · cases fits with
    | awaiting frames awaits job =>
      obtain ⟨_, a, b, rfl, rfl, source⟩ | ⟨a, source⟩ := awaits.of_opens opens
      · cases source
        by_cases he : w' = w
        · subst he
          have told : o = .ok r := by
            simpa [Task.hear, Task.afterEnd?] using congrArg Task.focus hears
          exact hc.ready (.inr ⟨t, _, hv⟩) job (told ▸ outcome?_eq ended)
        · simp [Task.hear, Task.afterEnd?, he] at hears
      · cases source
  · cases fits with
    | gathering frames awaits jobs =>
      obtain ⟨_, a, b, -, -, source⟩ | ⟨a, source⟩ := awaits.of_opens opens <;> cases source

/-- Who comes to wait for a copy finds it on record. -/
theorem opening_of_await {q : Cue} {w v : TaskId}
    (hm : (h.next q).2 = .await (.storeAwaited w) v) : h.workspace.store.opening = some v := by
  have handles := q.handles h.tasks.length h.workspace
  generalize hr : q.move h.tasks.length h.workspace = x at handles
  rw [next, hr] at hm
  cases handles with
  | aside beside plain => cases plain.stage _ (congrArg Move.stage? hm)
  | waits unready opening =>
    cases hm
    exact opening
  | places goes => obtain rfl | ⟨q, rfl⟩ := goes <;> cases hm
  | _ => cases hm

/-- A task that goes on by its move because the store is open was told so before, or finds it
ready. -/
theorem Copies.opened_of_moved {roots : List Job} {q : Cue} {st : Stage} {ss rest : List Stage}
    {r : Reply} (hc : h.Copies roots) (hf : h.Fits u.settings (.wellFormed u) roots)
    (hw : h.workspace.From u) (cue : h.cue? t = some (q, ss))
    (moves : h.moved ss (h.next q).2 = ⟨.resume (.ok r), st :: rest⟩) (opens : st.opens = true) :
    h.Opened t ∨ h.workspace.store.ready = true := by
  obtain ⟨root, owner, -, frames, hq⟩ := hf.cue cue
  have suits := hf.suits (Expectation.wellFormed_met u).toFormed hw hq
  cases hm : (h.next q).2 with
  | finish o =>
    rw [hm] at moves
    cases moves
    cases frames with
    | under outer awaits =>
      obtain ⟨_, a, b, -, -, source⟩ | ⟨a, source⟩ := awaits.of_opens opens
      · cases source
      · cases source
        rcases hq.opened hm with ready | ⟨w, p, rfl⟩
        · exact .inr ready
        · exact .inl ⟨p, _, _, cue?_eq_told.1 cue, rfl⟩
  | await st' w =>
    rw [hm] at suits
    obtain ⟨j, job, awaits⟩ := suits
    rw [hm] at moves
    simp only [moved] at moves
    split at moves
    · rename_i o ended
      cases moves
      obtain ⟨w', a, b, rfl, rfl, source⟩ | ⟨a, source⟩ := awaits.of_opens opens
      · cases source
        exact .inr (hc.ready (.inl (opening_of_await hm)) job ended)
      · cases source
    · cases moves
  | gather st' js =>
    rw [hm] at suits
    rw [hm] at moves
    cases js with
    | nil =>
      cases moves
      obtain ⟨_, a, b, -, -, source⟩ | ⟨a, source⟩ := Stage.Awaits.of_opens suits opens <;>
        cases source
    | cons j js => cases moves
  | _ =>
    rw [hm] at moves
    cases moves

/-- A task that is told that the store is open was told so before, or the store is ready. -/
theorem Step.opened (hr : u.Runs ls h) (hs : Step h l k) (ho : k.Opened t) :
    h.Opened t ∨ h.workspace.store.ready = true := by
  obtain ⟨roots, hf, copies⟩ := copies_of_runs hr
  obtain ⟨r, st, ss, hx, opens⟩ := ho
  obtain ⟨v, hv, becomes⟩ | ⟨j, begun, -⟩ := hs.came hx
  · cases becomes with
    | kept => exact .inl ⟨r, st, ss, hv, opens⟩
    | heard turn ended hears =>
      cases goes : v.waits with
      | false =>
        rw [Task.hear_of_waits goes] at hears
        exact .inl ⟨r, st, ss, hears ▸ hv, opens⟩
      | true => exact .inr (copies.ready_of_hear hf hv goes ended hears opens)
    | told turn label =>
      obtain ⟨root, -, fits⟩ := hf.tasks hv
      cases fits with
      | asking frames awaits =>
        obtain ⟨_, a, b, -, -, source⟩ | ⟨a, source⟩ := awaits.of_opens opens <;> cases source
    | went turn cue label workspace moves =>
      exact copies.opened_of_moved hf (from_of_runs hr) cue moves opens
  · cases begun

/-- While nobody empties the store, it is ready once a task was told that it is open, unless the
task was told so at first. -/
theorem Steps.opened (hm : u.Runs ls m) (hk : Steps m rs h) (spares : ∀ l ∈ rs, l.empties = false)
    (ho : h.Opened t) : m.Opened t ∨ h.workspace.store.ready = true := by
  revert spares ho
  refine Steps.forward (P := fun rs h => (∀ l ∈ rs, l.empties = false) → h.Opened t →
    m.Opened t ∨ h.workspace.store.ready = true) (fun _ ho => .inl ho) ?_ hk
  intro rs g k l hg ih hs spares ho
  rw [List.forall_mem_append] at spares
  have keeps := hs.tends.ready_of_ready (spares.2 l (by simp))
  rcases hs.opened (hm.trans hg) ho with told | ready
  · exact (ih spares.1 told).imp_right keeps
  · exact .inr (keeps ready)

end Host

end PluginHost
