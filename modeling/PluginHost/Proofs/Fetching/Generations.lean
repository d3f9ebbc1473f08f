import PluginHost.Proofs.Host.Replay
import PluginHost.Proofs.Store.Filling

/-!
Fetched files and resets. A download goes on when the store is reset, and its files are placed
whenever they come. So what the lower layer holds after a reset has come after the reset, but it may
have been asked for before.
-/
namespace PluginHost

namespace Host

variable {u : Setup} {h k m : Host} {l : Label} {ls rs : List Label}

/-- Every file that the lower layer holds after a reset was placed by a caller after the reset, or
it came as an answer after the reset, to a question that was put after it or was waiting at it. -/
theorem remote_since_reset (hm : u.Runs ls m) (hs : Step m l k) (empties : l.empties = true)
    (hk : Steps k rs h) {path : String} {x : Content}
    (hx : h.workspace.store.remote.read? path = some x) : m.Supplied rs path x := by
  obtain ⟨-, store, tasks, idle⟩ := hs.emptied empties
  rcases hk.supplied (hm.snoc hs) idle hx with old | supplied
  · rw [store] at old
    cases old
  · cases supplied with
    | given label same => exact .given label same
    | brought labels asked file same content =>
      refine .brought labels (asked.imp_right ?_) file same content
      intro waits
      rwa [query?, ← tasks]

end Host

/-- A host that was reset while a download was owed. -/
def Setup.downloadOwed : Host :=
  (Setup.bare.held [.fetch "/n/p/package.json" .null] 10).changed .resetStore

/-- The files come. -/
theorem Setup.steps_downloadOwed :
    Host.Steps downloadOwed
      (.released 1 :: Host.labels (.steady Query.package) 20 (downloadOwed.wake [1]) ())
      ((downloadOwed.wake [1]).run (.steady Query.package) 20 ()).1 :=
  Host.steps_released World.package_admits (by decide +kernel) (by decide +kernel)
    (by decide +kernel) 20 ()

theorem Setup.downloadOwed_remote :
    ((downloadOwed.wake [1]).run (.steady Query.package) 20 ()).1.workspace.store.remote.read?
      "/n/p/package.json" = some "2".toUTF8.toList := by
  decide +kernel

/-- A file that was asked for before a reset and comes after it. -/
theorem remote_since_reset_late :
    ∃ ls m rs h, Setup.bare.Runs ls m ∧
      Host.Step m (.changed .resetStore) Setup.downloadOwed ∧
      Host.Steps Setup.downloadOwed rs h ∧
      h.workspace.store.remote.read? "/n/p/package.json" = some "2".toUTF8.toList ∧
      m.Supplied rs "/n/p/package.json" "2".toUTF8.toList := by
  have hm := Setup.bare.runs_held [.fetch "/n/p/package.json" .null] 10
  have hs : Host.Step (Setup.bare.held [.fetch "/n/p/package.json" .null] 10)
      (.changed .resetStore) Setup.downloadOwed := .change (by decide +kernel)
  exact ⟨_, _, _, _, hm, hs, Setup.steps_downloadOwed, Setup.downloadOwed_remote,
    Host.remote_since_reset hm hs rfl Setup.steps_downloadOwed Setup.downloadOwed_remote⟩

/-- A store can hold a file after a reset that nobody asks for after it. -/
theorem remote_unasked :
    ¬ ∀ u ls m l k rs h path x, Setup.Runs u ls m → Host.Step m l k → l.empties = true →
      Host.Steps k rs h → u.hasProject = false → (∀ p y, .changed (.place p y) ∉ rs) →
        h.workspace.store.remote.read? path = some x →
          ∃ before t p a fs after f,
            rs = before ++ .answered t (.download p a) (.ok (.files fs)) :: after ∧
              .asked t (.download p a) ∈ before ∧ f ∈ fs.entries ∧
                Path.normalize f.1 = Path.normalize path ∧ f.2 = x := by
  intro always
  have silent : (.released 1 :: Host.labels (.steady Query.package) 20
      (Setup.downloadOwed.wake [1]) ()).any Host.Label.asks = false := by decide +kernel
  have unplaced (p : String) (y : Content) : .changed (.place p y) ∉ .released 1 ::
      Host.labels (.steady Query.package) 20 (Setup.downloadOwed.wake [1]) () := by
    intro placed
    exact Host.internal_labels _ _ _ _ _ (List.mem_of_ne_of_mem (by simp) placed)
  obtain ⟨before, t, p, a, fs, after, f, labels, asked, -⟩ := always _ _ _ _ _ _ _ _ _
    (Setup.bare.runs_held [.fetch "/n/p/package.json" .null] 10) (.change (by decide +kernel)) rfl
    Setup.steps_downloadOwed rfl unplaced Setup.downloadOwed_remote
  rw [labels] at silent
  exact List.any_eq_false.1 silent _ (List.mem_append_left _ asked) rfl

end PluginHost
