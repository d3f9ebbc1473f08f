import PluginHost.Proofs.Host.Waiting
import PluginHost.Proofs.Module.Alike

/-!
Tasks under other numbers. Jobs that install single modules do the same whatever the numbers of
tasks are, so their moves are renumbered when the workspace is.
-/
namespace PluginHost

namespace Table

variable {κ α β : Type} [DecidableEq κ] {f g : α → β}

/-- The table with other values under the same keys. -/
def map (f : α → β) (t : Table κ α) : Table κ β :=
  ⟨t.entries.map fun e => (e.1, f e.2), by rw [List.map_map]; exact t.distinct⟩

omit [DecidableEq κ] in
theorem eq_of_entries {t r : Table κ α} (h : t.entries = r.entries) : t = r := by
  cases t
  cases r
  cases h
  rfl

theorem get?_map (f : α → β) (t : Table κ α) (k : κ) : (t.map f).get? k = (t.get? k).map f := by
  show lookup? k (t.entries.map _) = (lookup? k t.entries).map f
  induction t.entries with
  | nil => rfl
  | cons e es ih =>
    rw [List.map_cons, lookup?, lookup?]
    split
    · rfl
    · exact ih

theorem map_insert (f : α → β) (t : Table κ α) (k : κ) (v : α) :
    (t.insert k v).map f = (t.map f).insert k (f v) := by
  refine eq_of_entries ?_
  show (putEntry k v t.entries).map _ = putEntry k (f v) (t.entries.map _)
  induction t.entries with
  | nil => rfl
  | cons e es ih =>
    rw [List.map_cons, putEntry, putEntry]
    split
    · rfl
    · rw [List.map_cons, ih]

theorem map_erase (f : α → β) (t : Table κ α) (k : κ) : (t.erase k).map f = (t.map f).erase k := by
  refine eq_of_entries ?_
  show (t.entries.filter _).map _ = (t.entries.map _).filter _
  rw [List.filter_map]
  rfl

omit [DecidableEq κ] in
theorem map_id (t : Table κ α) : t.map id = t := eq_of_entries (List.map_id _)

theorem map_congr {t : Table κ α} (h : ∀ k v, t.get? k = some v → f v = g v) :
    t.map f = t.map g := by
  refine eq_of_entries ?_
  obtain ⟨es, distinct⟩ := t
  show es.map _ = es.map _
  replace h : ∀ k v, lookup? k es = some v → f v = g v := h
  induction es with
  | nil => rfl
  | cons e es ih =>
    rw [List.map_cons, List.nodup_cons] at distinct
    rw [List.map_cons, List.map_cons, h e.1 e.2 (by simp [lookup?]), ih distinct.2]
    intro k v hv
    refine h k v ?_
    rw [lookup?, if_neg, hv]
    rintro rfl
    cases (lookup?_eq_none.2 distinct.1).symm.trans hv

end Table

variable {σ τ : TaskId → TaskId} {ps : List String} {c : Workspace} {i : Inventory}
  {fresh : TaskId} {w : Wanted} {n : Needs} {o : Outcome} {a : Json} {s : Settings}

def Downloads.renumbered (σ : TaskId → TaskId) (d : Downloads) : Downloads :=
  { d with pending := d.pending.map σ }

/-- A workspace whose tasks have other numbers, with an inventory of its own. -/
def Workspace.renumbered (σ : TaskId → TaskId) (i : Inventory) (c : Workspace) : Workspace :=
  { c with
    store := { c.store with opening := c.store.opening.map σ }
    inventory := i
    downloads := c.downloads.renumbered σ
    installing := c.installing.map σ }

/-- Needs that list other plugins. -/
def Needs.listing (ps : List String) (n : Needs) : Needs := { n with plugins := ps }

def Job.renumbered (ps : List String) : Job → Job
  | .installAll n => .installAll (n.listing ps)
  | j => j

def Stage.renumbered (σ : TaskId → TaskId) (ps : List String) : Stage → Stage
  | .storeAwaited t => .storeAwaited (σ t)
  | .macrosReady n => .macrosReady (n.listing ps)
  | .pluginsInstalled n round => .pluginsInstalled (n.listing ps) round
  | .presetsInstalled n round => .presetsInstalled (n.listing ps) round
  | st => st

/-- The same move under other numbers. Tasks may be gathered in another order. -/
inductive Move.Mirrors (σ : TaskId → TaskId) (ps : List String) : Move → Move → Prop where
  | finish {o : Outcome} : Mirrors σ ps (.finish o) (.finish o)
  | call {st : Stage} {j : Job} :
      Mirrors σ ps (.call st j) (.call (st.renumbered σ ps) (j.renumbered ps))
  | await {st : Stage} {u : TaskId} :
      Mirrors σ ps (.await st u) (.await (st.renumbered σ ps) (σ u))
  | launch {st : Stage} {j : Job} :
      Mirrors σ ps (.launch st j) (.launch (st.renumbered σ ps) (j.renumbered ps))
  | gather {st : Stage} {js ks : List Job} (same : ks.Perm (js.map (Job.renumbered ps))) :
      Mirrors σ ps (.gather st js) (.gather (st.renumbered σ ps) ks)
  | ask {st : Stage} {q : Query} : Mirrors σ ps (.ask st q) (.ask (st.renumbered σ ps) q)

/-- What jobs do by their moves in workspaces that differ in the numbers of tasks. -/
structure Mirrored (σ : TaskId → TaskId) (ps : List String) (r r' : Workspace × Move) : Prop where
  workspace : ∃ i, r.1.inventory.Alike i ∧ r'.1 = r.1.renumbered σ i
  move : r.2.Mirrors σ ps r'.2

namespace Mirrored

variable {m k : Move}

/-- A move that leaves the workspace alone. -/
theorem plain (hi : c.inventory.Alike i) (hm : m.Mirrors σ ps k) :
    Mirrored σ ps (c, m) (c.renumbered σ i, k) :=
  ⟨⟨i, hi, rfl⟩, hm⟩

theorem fail {f : Failure} (hi : c.inventory.Alike i) :
    Mirrored σ ps (c, .fail f) (c.renumbered σ i, .fail f) := plain hi .finish

end Mirrored

namespace Downloads

variable (d : Downloads)

theorem sync_renumbered (st : Store) :
    (d.renumbered σ).sync st = (d.sync st).renumbered σ := by
  unfold sync
  by_cases h : d.generation = st.generation
  · rw [if_pos h, if_pos (show (d.renumbered σ).generation = _ from h)]
  · rw [if_neg h, if_neg (show ¬ (d.renumbered σ).generation = _ from h)]
    rfl

theorem record_renumbered (path : String) :
    (d.renumbered σ).record path = (d.record path).renumbered σ := by
  unfold record
  by_cases h : path ∈ d.fetched
  · rw [if_pos h, if_pos (show path ∈ (d.renumbered σ).fetched from h)]
  · rw [if_neg h, if_neg (show ¬ path ∈ (d.renumbered σ).fetched from h)]
    rfl

theorem started_renumbered (path : String) (t : TaskId) :
    (d.renumbered σ).started path (σ t) = (d.started path t).renumbered σ := by
  simp [started, renumbered, Table.map_insert]

theorem ended_renumbered (path : String) :
    (d.renumbered σ).ended path = (d.ended path).renumbered σ := by
  simp [ended, renumbered, Table.map_erase]

end Downloads

namespace Workspace

theorem evaluate_renumbered (hi : c.inventory.Alike i) (path : String) :
    (c.renumbered σ i).evaluate path =
      ((c.evaluate path).1, (c.evaluate path).2.renumbered σ i) := by
  have reach : c.reach.Alike (c.renumbered σ i).reach :=
    ⟨rfl, fun _ => rfl, rfl, hi.registry, rfl⟩
  unfold evaluate
  rw [reach.evaluate]
  rfl

theorem renumbered_id (c : Workspace) : c.renumbered id c.inventory = c := by
  unfold renumbered Downloads.renumbered
  rw [Option.map_id_apply, Table.map_id, Table.map_id]

/-- Of other numbers only those count that are on record. -/
theorem renumbered_congr {roots : List Job} (hk : c.Knows roots)
    (same : ∀ t < roots.length, τ t = σ t) : c.renumbered τ i = c.renumbered σ i := by
  have known {t : TaskId} {j : Job} (ht : roots[t]? = some j) : τ t = σ t :=
    same t (List.getElem?_eq_some_iff.1 ht).1
  have opening : c.store.opening.map τ = c.store.opening.map σ := by
    cases ho : c.store.opening with
    | none => rfl
    | some t =>
      obtain ⟨a, ht⟩ := hk.opening t ho
      simp [known ht]
  have pending : c.downloads.pending.map τ = c.downloads.pending.map σ :=
    Table.map_congr fun p t hp => by
      obtain ⟨a, ht⟩ := hk.pending p t hp
      exact known ht
  have installing : c.installing.map τ = c.installing.map σ :=
    Table.map_congr fun key t ht => by
      obtain ⟨w, ht, -⟩ := hk.installing key t ht
      exact known ht
  unfold renumbered Downloads.renumbered
  rw [opening, pending, installing]

end Workspace

namespace Work

theorem mirrored_openStore (hi : c.inventory.Alike i) (hf : σ fresh = fresh) :
    Mirrored σ ps (openStore fresh a c) (openStore fresh a (c.renumbered σ i)) := by
  have ready : (c.renumbered σ i).store.ready = c.store.ready := rfl
  have opening : (c.renumbered σ i).store.opening = c.store.opening.map σ := rfl
  unfold openStore
  rw [ready, opening]
  split
  · exact .plain hi .finish
  · cases ho : c.store.opening with
    | some u => exact .plain hi .await
    | none =>
      refine ⟨⟨i, hi, ?_⟩, ?_⟩
      · simp [Workspace.renumbered, hf]
      · have launched : Move.Mirrors σ ps (.launch (.storeAwaited fresh) (.copyProject a))
            (.launch (.storeAwaited (σ fresh)) (.copyProject a)) := .launch
        rwa [hf] at launched

theorem mirrored_storeAwaited {t : TaskId} (hi : c.inventory.Alike i)
    (inj : Function.Injective σ) :
    Mirrored σ ps (storeAwaited t o c) (storeAwaited (σ t) o (c.renumbered σ i)) := by
  have opening : (c.renumbered σ i).store.opening = c.store.opening.map σ := rfl
  unfold storeAwaited
  split
  · exact .plain hi .finish
  · have same : c.store.opening.map σ = some (σ t) ↔ c.store.opening = some t := by
      cases c.store.opening <;> simp [inj.eq_iff]
    rw [opening]
    simp only [same]
    split
    · exact ⟨⟨i, hi, rfl⟩, .finish⟩
    · exact .fail hi

theorem mirrored_copyProject (hi : c.inventory.Alike i) :
    Mirrored σ ps (copyProject a c) (copyProject a (c.renumbered σ i)) := by
  have project : (c.renumbered σ i).store.hasProject = c.store.hasProject := rfl
  unfold copyProject
  rw [project]
  split
  · exact .plain hi .ask
  · exact .fail hi

theorem mirrored_projectCopied (hi : c.inventory.Alike i) :
    Mirrored σ ps (projectCopied o c) (projectCopied o (c.renumbered σ i)) := by
  unfold projectCopied
  split
  · exact ⟨⟨i, hi, rfl⟩, .finish⟩
  · exact .fail hi
  · exact .fail hi

theorem mirrored_fetch {path : String} (hi : c.inventory.Alike i) (hf : σ fresh = fresh) :
    Mirrored σ ps (fetch fresh path a c) (fetch fresh path a (c.renumbered σ i)) := by
  have sync : (c.renumbered σ i).downloads.sync (c.renumbered σ i).store =
      (c.downloads.sync c.store).renumbered σ := Downloads.sync_renumbered ..
  have contains (p : String) : (c.renumbered σ i).store.contains p = c.store.contains p := rfl
  have fetched (d : Downloads) : (d.renumbered σ).fetched = d.fetched := rfl
  have pending (d : Downloads) (p : String) :
      (d.renumbered σ).pending.get? p = (d.pending.get? p).map σ := Table.get?_map ..
  unfold fetch
  dsimp only
  rw [sync, fetched, contains, pending]
  generalize c.downloads.sync c.store = d
  split
  · exact ⟨⟨i, hi, rfl⟩, .finish⟩
  · split
    · rw [Downloads.record_renumbered]
      exact ⟨⟨i, hi, rfl⟩, .finish⟩
    · cases d.pending.get? (Path.normalize path) with
      | some u => exact ⟨⟨i, hi, rfl⟩, .await⟩
      | none =>
        have started := d.started_renumbered (σ := σ) (Path.normalize path) fresh
        rw [hf] at started
        dsimp only [Option.map]
        rw [started]
        exact ⟨⟨i, hi, rfl⟩, .launch⟩

theorem mirrored_downloadOwned {path : String} (hi : c.inventory.Alike i) :
    Mirrored σ ps (downloadOwned path o c) (downloadOwned path o (c.renumbered σ i)) := by
  refine ⟨⟨i, hi, ?_⟩, .finish⟩
  have ended : (c.renumbered σ i).downloads.ended path =
      (c.downloads.ended path).renumbered σ := Downloads.ended_renumbered ..
  simp [downloadOwned, ended]
  rfl

theorem mirrored_downloaded {path : String} (hi : c.inventory.Alike i) :
    Mirrored σ ps (downloaded path a o c) (downloaded path a o (c.renumbered σ i)) := by
  unfold downloaded
  split
  · rename_i fs
    have same : placed path fs (c.renumbered σ i) = (placed path fs c).renumbered σ i := by
      unfold placed
      rw [show (c.renumbered σ i).downloads.counted = c.downloads.counted.renumbered σ from rfl,
        Downloads.record_renumbered]
      rfl
    have root : ((placed path fs c).renumbered σ i).root = (placed path fs c).root := rfl
    have contains : ((placed path fs c).renumbered σ i).store.contains =
        (placed path fs c).store.contains := rfl
    have hp : (placed path fs c).inventory.Alike i := hi
    dsimp only
    rw [same, root, contains]
    split
    · split
      · exact .plain hp .finish
      · exact .plain hp .call
    · exact .plain hp .finish
  · exact .fail hi
  · exact .fail hi

theorem mirrored_metadataTried (hi : c.inventory.Alike i) :
    Mirrored σ ps (metadataTried o c) (metadataTried o (c.renumbered σ i)) := by
  unfold metadataTried
  split
  · exact .plain hi .finish
  · split <;> exact .plain hi .finish

theorem mirrored_recover {f : Failure} (hi : c.inventory.Alike i) :
    Mirrored σ ps (recover f a c) (recover f a (c.renumbered σ i)) := by
  have root : (c.renumbered σ i).root = c.root := rfl
  unfold recover
  rw [root]
  split
  · exact .plain hi .call
  · exact .fail hi

theorem mirrored_recovered {path : String} (hi : c.inventory.Alike i) :
    Mirrored σ ps (recovered path o c) (recovered path o (c.renumbered σ i)) := by
  unfold recovered
  split <;> exact .plain hi .finish

theorem mirrored_literalTried (hi : c.inventory.Alike i) :
    Mirrored σ ps (literalTried w o c) (literalTried w o (c.renumbered σ i)) := by
  unfold literalTried
  split
  · exact .plain hi .finish
  · split
    · exact .plain hi .call
    · exact .fail hi

theorem mirrored_prefixedTried {candidate : String} (hi : c.inventory.Alike i) :
    Mirrored σ ps (prefixedTried w candidate o c)
      (prefixedTried w candidate o (c.renumbered σ i)) := by
  unfold prefixedTried
  split
  · exact .plain hi .finish
  · split <;> exact .plain hi .finish

theorem mirrored_install (hi : c.inventory.Alike i) (hf : σ fresh = fresh) :
    Mirrored σ ps (install fresh w c) (install fresh w (c.renumbered σ i)) := by
  have inventory : (c.renumbered σ i).inventory = i := rfl
  have installing : (c.renumbered σ i).installing.get? w.key =
      (c.installing.get? w.key).map σ := Table.get?_map ..
  unfold install
  rw [inventory, hi.find?, installing]
  cases c.inventory.find? w.kind w.name with
  | some found =>
    obtain ⟨key, m⟩ := found
    unfold reinstall
    dsimp only
    rw [inventory]
    unfold Inventory.addAlias
    rw [hi.find?]
    cases c.inventory.find? w.kind key with
    | none => exact .fail hi
    | some found => exact ⟨⟨_, hi.bind .., rfl⟩, .finish⟩
  | none =>
    cases c.installing.get? w.key with
    | some u => exact .plain hi .await
    | none =>
      refine ⟨⟨i, hi, ?_⟩, .launch⟩
      simp [Workspace.renumbered, Table.map_insert, hf]

theorem mirrored_installOwned {key : ModuleName} (hi : c.inventory.Alike i) :
    Mirrored σ ps (installOwned key o c) (installOwned key o (c.renumbered σ i)) := by
  refine ⟨⟨i, hi, ?_⟩, .finish⟩
  simp [installOwned, Workspace.renumbered, Table.map_erase]

theorem mirrored_storeReady {t : Installation} (hi : c.inventory.Alike i) :
    Mirrored σ ps (storeReady t o c) (storeReady t o (c.renumbered σ i)) := by
  unfold storeReady
  split
  · exact .plain hi .call
  · exact .fail hi

theorem mirrored_named {t : Installation} (hi : c.inventory.Alike i) :
    Mirrored σ ps (named t o c) (named t o (c.renumbered σ i)) := by
  unfold named
  split
  · exact .plain hi .call
  · exact .fail hi
  · exact .fail hi

theorem mirrored_registered {canonical : String} {v : Value} (hi : c.inventory.Alike i) :
    Mirrored σ ps (registered w canonical v c) (registered w canonical v (c.renumbered σ i)) := by
  unfold registered
  split
  · exact .fail hi
  · exact ⟨⟨_, hi.register .., rfl⟩, .finish⟩

theorem mirrored_mend {t : Installation} {f : Failure} (hi : c.inventory.Alike i) :
    Mirrored σ ps (mend t f c) (mend t f (c.renumbered σ i)) := by
  have settings : (c.renumbered σ i).settings = c.settings := rfl
  unfold mend
  rw [settings]
  split
  · exact .fail hi
  · exact .plain hi .call

theorem mirrored_fetched {t : Installation} {canonical : String} (hi : c.inventory.Alike i) :
    Mirrored σ ps (fetched t canonical o c) (fetched t canonical o (c.renumbered σ i)) := by
  have path : modulePath (c.renumbered σ i) canonical = modulePath c canonical := rfl
  unfold fetched
  split
  · rw [path, Workspace.evaluate_renumbered hi]
    have evaluated : (c.evaluate (modulePath c canonical)).2.inventory.Alike i := hi
    split
    · rename_i v d he
      rw [he] at evaluated ⊢
      exact mirrored_registered evaluated
    · rename_i f d he
      rw [he] at evaluated ⊢
      exact mirrored_mend evaluated
  · exact .fail hi

theorem mirrored_evaluationMended {t : Installation} (hi : c.inventory.Alike i) :
    Mirrored σ ps (evaluationMended t o c) (evaluationMended t o (c.renumbered σ i)) := by
  unfold evaluationMended
  split
  · have forgotten : (c.renumbered σ i).forgetModules =
        c.forgetModules.renumbered σ c.inventory.reset := by
      unfold Workspace.forgetModules
      rw [show (c.renumbered σ i).inventory = i from rfl, hi.reset]
      rfl
    unfold attempt
    rw [forgotten]
    exact .plain (.refl _) .call
  · exact .fail hi

theorem mirrored_oneTried (hi : c.inventory.Alike i) :
    Mirrored σ ps (oneTried w o c) (oneTried w o (c.renumbered σ i)) := by
  unfold oneTried
  split <;> exact .plain hi .finish

end Work

variable {j owner : Job} {st : Stage} {src : Source}

/-- Jobs that rank below the installation of everything that a configuration needs do the same under
other numbers. -/
theorem Job.mirrored_begin (hj : j.rank s ≤ 12) (hi : c.inventory.Alike i) (hf : σ fresh = fresh) :
    Mirrored σ ps (j.begin fresh c) (j.begin fresh (c.renumbered σ i)) := by
  cases j with
  | openStore a => exact Work.mirrored_openStore hi hf
  | copyProject a => exact Work.mirrored_copyProject hi
  | fetch path a => exact Work.mirrored_fetch hi hf
  | download path a => exact .plain hi .ask
  | recover f a => exact Work.mirrored_recover hi
  | resolve w => exact .plain hi .call
  | install w => exact Work.mirrored_install hi hf
  | installFresh w => exact .plain hi .call
  | installOne w => exact .plain hi .call
  | _ => simp [Job.rank] at hj

theorem Stage.mirrored_resume (ha : st.Awaits s owner src) (hj : owner.rank s ≤ 12)
    (hi : c.inventory.Alike i) (inj : Function.Injective σ) :
    Mirrored σ ps (st.resume o c) ((st.renumbered σ ps).resume o (c.renumbered σ i)) := by
  cases ha with
  | storeAwaited => exact Work.mirrored_storeAwaited hi inj
  | projectCopied => exact Work.mirrored_projectCopied hi
  | downloadJoined => exact .plain hi .finish
  | downloadOwned => exact Work.mirrored_downloadOwned hi
  | downloaded =>
    simp only [Stage.resume, Stage.renumbered]
    exact Work.mirrored_downloaded hi
  | metadataTried => exact Work.mirrored_metadataTried hi
  | recovered => exact Work.mirrored_recovered hi
  | literalTried => exact Work.mirrored_literalTried hi
  | prefixedTried => exact Work.mirrored_prefixedTried hi
  | installJoined => exact .plain hi .finish
  | installOwned => exact Work.mirrored_installOwned hi
  | storeReady => exact Work.mirrored_storeReady hi
  | named => exact Work.mirrored_named hi
  | fetched => exact Work.mirrored_fetched hi
  | evaluationMended => exact Work.mirrored_evaluationMended hi
  | oneTried => exact Work.mirrored_oneTried hi
  | _ => simp [Job.rank] at hj

end PluginHost
