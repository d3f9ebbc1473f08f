import Mathlib.Data.Nat.Find
import Mathlib.Order.Nat
import PluginHost.Proofs.Module.Requests
import PluginHost.Proofs.Module.Resemblance

/-!
What comes of the files of a store, found round by round. In each round those files are evaluated
whose requires are all answered by files of earlier rounds, so a file whose requires run into a
cycle is evaluated in none. A run of a file in a round is followed by its run in any evaluator where
modules resemble those of the round.
-/
namespace PluginHost

/-- The paths of all files. -/
def Store.paths (s : Store) : List String := s.writable.paths ++ s.remote.paths

theorem Finder.Stored.mem_paths {store : Store} {file : ModuleFile}
    (h : Finder.Stored store file) : file.path ∈ store.paths := by
  have layer {l : Layer} {c : Content} (read : l.read? file.path = some c) :
      file.path ∈ l.paths := by
    rw [Layer.read?, h.normal] at read
    refine (Table.contains_iff_mem_keys ..).1 ?_
    rw [Table.contains, read]
    rfl
  refine List.mem_append.2 ?_
  rcases Option.or_eq_some_iff.1 h.read with writable | ⟨-, remote⟩
  · exact .inl (layer writable)
  · exact .inr (layer remote)

namespace Evaluator

open Value

/-- What each file binds, or why it cannot be evaluated; nothing for the files of which neither is
known. -/
abbrev Outcomes := String → Option (Except Failure Bindings)

section

variable (reach : Reach) (old : List EvaluatedModule)

/-- Where a file stands in a round, behind the modules that are there already. -/
def place (path : String) : Nat := old.length + reach.store.paths.idxOf path

/-- Where the file stands that is evaluated. -/
def last : Nat := old.length + reach.store.paths.length

def knownModule (known : Outcomes) (path : String) : EvaluatedModule :=
  match known path with
  | some (.ok bs) => ⟨path, bs⟩
  | _ => ⟨path, []⟩

/-- An evaluator with all that is known, and a file with what it has bound so far. -/
def stage (known : Outcomes) (path : String) (bs : Bindings) : Evaluator :=
  { modules := old ++ reach.store.paths.map (knownModule known) ++ [⟨path, bs⟩] }

def unanswered : Failure := Fault.general "required before it is known"

def isUnanswered (f : Failure) : Bool :=
  match f.fault with
  | .general said => said = "required before it is known"
  | _ => false

/-- The export of a file as far as it is known. -/
def knownExport (known : Outcomes) (file : ModuleFile) : Run Value :=
  match known file.path with
  | some (.ok bs) =>
    return (lookup? "default" bs).getD (.module (.file (place reach old file.path)))
  | some (.error f) => throw f
  | none => throw unanswered

/-- What a file has at hand in a round. -/
def stageScope (known : Outcomes) (path : String) : Scope :=
  ⟨last reach old, reach, require reach (knownExport reach old known) path⟩

/-- What comes of a file by the end of its run, if all that it requires is known. -/
def conclusion (own : Nat) : Except Failure Unit × Evaluator → Option (Except Failure Bindings)
  | (.ok _, t) => some (.ok (t.bindings own))
  | (.error f, _) => if isUnanswered f then none else some (.error f)

def outcomeFrom (known : Outcomes) (file : ModuleFile) : Option (Except Failure Bindings) :=
  conclusion (last reach old) ((fill (stageScope reach old known file.path) file).run.run
    (stage reach old known file.path []))

/-- What comes of each file in a number of rounds. -/
def outcome : Nat → Outcomes
  | 0, _ => none
  | n + 1, path =>
    (outcome n path).or <|
      if path ∈ reach.store.paths then
        (reach.store.read? path).bind fun source => outcomeFrom reach old (outcome n) ⟨path, source⟩
      else none

/-- Whether the requires of a file come to an end: it is evaluated in some round. -/
def Settles (path : String) : Prop := ∃ n, (outcome reach old n path).isSome = true

end

variable {reach : Reach} {old : List EvaluatedModule} {n m : Nat} {p q : String}
  {o : Except Failure Bindings}

theorem outcome_succ (h : outcome reach old n p = some o) :
    outcome reach old (n + 1) p = some o := by
  rw [outcome, h, Option.some_or]

theorem outcome_le (hm : n ≤ m) (h : outcome reach old n p = some o) :
    outcome reach old m p = some o := by
  induction m, hm using Nat.le_induction with
  | base => exact h
  | succ m _ ih => exact outcome_succ ih

theorem mem_paths_of_outcome (h : outcome reach old n p = some o) : p ∈ reach.store.paths := by
  induction n with
  | zero => cases h
  | succ n ih =>
    rcases Option.or_eq_some_iff.1 h with before | ⟨-, now⟩
    · exact ih before
    · by_contra absent
      rw [if_neg absent] at now
      cases now

/-- A file that settles is first evaluated in some round, from what was known before. -/
theorem Settles.first (h : Settles reach old p) : ∃ n source o,
    (∀ m r, outcome reach old m p = some r → n < m ∧ r = o) ∧
      reach.store.read? p = some source ∧
      outcomeFrom reach old (outcome reach old n) ⟨p, source⟩ = some o := by
  classical
  obtain ⟨n, hn⟩ : ∃ n, Nat.find h = n + 1 := by
    cases find : Nat.find h with
    | zero =>
      have none := Nat.find_spec h
      rw [find] at none
      cases none
    | succ n => exact ⟨n, rfl⟩
  have least : outcome reach old n p = none := by
    simpa using Nat.find_min h (hn ▸ Nat.lt_succ_self n)
  obtain ⟨o, ho⟩ := Option.isSome_iff_exists.1 (hn ▸ Nat.find_spec h)
  have now := ho
  rw [outcome, least, Option.none_or] at now
  split at now
  · obtain ⟨source, read, result⟩ := Option.bind_eq_some_iff.1 now
    refine ⟨n, source, o, fun m r hr => ?_, read, result⟩
    have later : n < m := by
      by_contra early
      cases least.symm.trans (outcome_le (Nat.le_of_not_lt early) hr)
    exact ⟨later, Option.some.inj (hr.symm.trans (outcome_le later ho))⟩
  · cases now

end Evaluator

end PluginHost
