import PluginHost.Cdn
import PluginHost.Proofs.Module.Reports
import PluginHost.Proofs.Module.Requests
import PluginHost.Proofs.Path.Climbing

/-!
Where bare requests lead. A request that names a package means the packages root or a path below it,
whoever issues it, unless it climbs out of the root behind its first name. The file that answers it
lies there too, but for files next to the root and for entries that metadata has elsewhere.
-/
namespace PluginHost

namespace Finder

open PluginHost.Path

variable {p : Finder} {store : Store} {file : ModuleFile} {path root c i : String}

/-- A path behind an extension that holds a slash. -/
inductive Slashed (p : Finder) : String → Prop where
  | of {q e : String} (member : e ∈ p.extensions) (slash : '/' ∈ e.toList) :
      Slashed p (normalize (q ++ e))

/-- How a file outside the root can answer a request for a path: the path itself is outside; it is
the root, and the file stands next to the root; an extension leads elsewhere; or the metadata of the
path has an entry that is not below the root. -/
inductive Astray (p : Finder) (store : Store) (root path : String) (file : ModuleFile) : Prop where
  | path (out : ¬ Within root path)
  | beside {e : String} (top : path = normalize root) (member : e ∈ p.extensions)
      (place : file.path = normalize (path ++ e))
  | extension (slashed : p.Slashed file.path)
  | entry {m : Content} {name : String}
      (metadata : store.read? (join path ["package.json"]) = some m)
      (main : mainEntry m = .ok (some name))
      (out : below? (normalize root) (join path [name]) = none)

/-- What is looked for on account of a path below the root is within the root. -/
theorem within_of_candidate (normal : normalize path = path)
    (below : below? (normalize root) path = some i) (member : c ∈ p.candidates path) :
    Within root (normalize c) ∨ p.Slashed (normalize c) := by
  rcases inner_of_below? (normal.symm ▸ below) with inner | ⟨-, -, top⟩
  · rcases mem_candidates.1 member with rfl | ⟨e, extension, rfl⟩
    · exact .inl (normal.symm ▸ .inr (by simp [below]))
    · by_cases slash : '/' ∈ e.toList
      · exact .inr (.of extension slash)
      · have behind :
            below? (normalize root) (under (normalize root) ++ (i ++ e)) = some (i ++ e) :=
          below?_eq_some_iff.2 rfl
        rw [below?_eq_some_iff.1 below, String.append_assoc, (inner.extend slash).normalize_under]
        exact .inl (.inr (by rw [behind]; rfl))
  · exact .inl (within_top top c)

theorem within_of_file? (normal : normalize path = path)
    (below : (below? (normalize root) path).isSome = true)
    (found : p.file? store path = some file) :
    Within root file.path ∨ p.Slashed file.path := by
  obtain ⟨i, below⟩ := Option.isSome_iff_exists.1 below
  obtain ⟨c, member, -, place⟩ := candidate_of_file? found
  exact place ▸ within_of_candidate normal below member

theorem within_of_index (inside : Within root path) (normal : normalize path = path)
    (found : p.file? store (join path ["index"]) = some file) :
    Within root file.path ∨ p.Slashed file.path := by
  rw [← normal] at inside
  exact within_of_file? (normalize_join ..) (isSome_below?_join proper_index inside) found

/-- A file that answers a request for a path is within the root, unless it is led astray. -/
theorem within_of_resolvePath (normal : normalize path = path)
    (h : p.resolvePath store path = .ok (some file)) :
    Within root file.path ∨ p.Astray store root path file := by
  by_cases inside : Within root path
  · cases finds_of_resolvePath h with
    | file found =>
      rcases inside with top | below
      · obtain ⟨c, member, -, place⟩ := candidate_of_file? found
        rcases mem_candidates.1 member with rfl | ⟨e, member', rfl⟩
        · exact .inl (place ▸ normal.symm ▸ .inl top)
        · exact .inr (.beside top member' place)
      · exact (within_of_file? normal below found).imp_right .extension
    | @entry m name metadata main found =>
      by_cases below : (below? (normalize root) (join path [name])).isSome = true
      · exact (within_of_file? (normalize_join ..) below found).imp_right .extension
      · exact .inr (.entry metadata main (by simpa using below))
    | @entryIndex m name metadata main found =>
      by_cases below : (below? (normalize root) (join path [name])).isSome = true
      · exact (within_of_index (.inr below) (normalize_join ..) found).imp_right .extension
      · exact .inr (.entry metadata main (by simpa using below))
    | index found => exact (within_of_index inside normal found).imp_right .extension
  · exact .inr (.path inside)

end Finder

namespace ModuleRequest

open PluginHost.Path

variable {root request : String}

theorem head_of_bare (bare : isBare request = true) : request.toList.head? ≠ some '/' := by
  intro slash
  obtain ⟨q, hq⟩ := List.head?_eq_some_iff.1 slash
  have absolute : isAbsolute request = true := by
    simp [isAbsolute, Text.startsWith, Text.after?, Text.rest?, hq]
  simp [isBare, absolute] at bare

theorem path_of_bare (bare : isBare request = true) (importer : Option String) (root : String) :
    path ⟨request, importer⟩ root = join root [request] := by
  rw [isBare, Bool.and_eq_true, Bool.not_eq_true', Bool.not_eq_true'] at bare
  rw [path, bare.1, bare.2]
  rfl

theorem locate_of_bare (bare : isBare request = true) (importer : Option String)
    (extensions : List String) :
    (Finder.ofRoot root extensions).locate ⟨request, importer⟩ = join root [request] := by
  rw [Finder.locate, path_of_bare bare, Finder.ofRoot, join_normalize]

end ModuleRequest

namespace Evaluator

open PluginHost.Path

variable {root request : String} {extensions : List String} {reach : Reach}

/-- What a running file gets for a request that means a path. An installed module comes first, then
what the file exports that is found for the path; that file lies within the root or is led astray.
If there is none then the failure reports the path as missing, so that it is what is fetched, unless
the metadata of the path is no text. -/
inductive Obtains (reach : Reach) (load : ModuleFile → Run Value) (s : Evaluator)
    (root request path : String) : Except Failure Value × Evaluator → Prop where
  | installed {v : Value} (registered : installed? reach.registry request = some v) :
      Obtains reach load s root request path (.ok v, s)
  | loaded {file : ModuleFile} (other : installed? reach.registry request = none)
      (found : reach.finder.Finds reach.store path file)
      (place : Within root file.path ∨ reach.finder.Astray reach.store root path file) :
      Obtains reach load s root request path ((load file).run.run s)
  | absent {f : Failure} (other : installed? reach.registry request = none)
      (nothing : reach.finder.resolvePath reach.store path = .ok none)
      (reports : f.missingPath? (normalize root) = some path) :
      Obtains reach load s root request path (.error f, s)
  | misread {f : Failure} (other : installed? reach.registry request = none)
      (misreads : reach.finder.Misreads reach.store path f) :
      Obtains reach load s root request path (.error f, s)

theorem obtains_of_bare (bare : ModuleRequest.isBare request = true)
    (finder : reach.finder = .ofRoot root extensions) (load : ModuleFile → Run Value)
    (importer : String) (s : Evaluator) :
    Obtains reach load s root request (join root [request])
      ((require reach load importer (.text request)).run.run s) := by
  have place : reach.finder.locate ⟨request, some importer⟩ = join root [request] := by
    rw [finder, ModuleRequest.locate_of_bare bare]
  unfold require
  dsimp only
  rw [if_pos bare]
  cases other : installed? reach.registry request with
  | some v => exact .installed other
  | none =>
    dsimp only
    rw [exportFor]
    cases found : reach.finder.resolve reach.store ⟨request, some importer⟩ with
    | error f =>
      rw [Finder.resolve, place] at found
      exact .misread other (Finder.resolvePath_eq_error_iff.1 found)
    | ok answer =>
      rw [Finder.resolve, place] at found
      cases answer with
      | some file =>
        exact .loaded other (Finder.finds_of_resolvePath found)
          (Finder.within_of_resolvePath (normalize_join ..) found)
      | none =>
        refine .absent other found ?_
        rw [missingPath?_absent, place]

end Evaluator

/-- A network is not asked for what is outside its root. -/
theorem Cdn.download_outside {cdn : Cdn} {path : String}
    (out : Path.below? cdn.root (Path.normalize path) = none) (asked : List String) :
    (cdn.download path).run.run asked =
      (.error (Fault.unfetchable (Path.normalize path) (some s!"not under {cdn.root}")),
        asked) := by
  unfold download
  dsimp only
  rw [out]
  rfl

namespace ModuleRequest

open PluginHost.Path

variable {root request : String}

/-- Where a request leads, if it leads from the packages root. -/
structure Leads (root request : String) : Prop where
  /-- It means the same path whoever issues it. -/
  shared (i j : Option String) : path ⟨request, i⟩ root = path ⟨request, j⟩ root
  /-- The path is that of the root or of something below it, unless the request escapes. -/
  within_iff (i : Option String) :
    Within root (path ⟨request, i⟩ root) ↔ ¬ Escapes root.toList request.toList
  /-- A file that requires it gets what is installed or what lies at that path. -/
  obtains {reach : Evaluator.Reach} {extensions : List String}
    (finder : reach.finder = .ofRoot root extensions) (load : ModuleFile → Evaluator.Run Value)
    (importer : String) (s : Evaluator) :
    Evaluator.Obtains reach load s root request (path ⟨request, some importer⟩ root)
      ((Evaluator.require reach load importer (.text request)).run.run s)
  /-- If it escapes then its path is not fetched from any network. -/
  refused (out : Escapes root.toList request.toList) (i : Option String) (url : String)
    (extensions : List String) (answer : String → Cdn.Answer) (asked : List String) :
    ((Cdn.below url root extensions answer).download (path ⟨request, i⟩ root)).run.run asked =
      (.error (Fault.unfetchable (path ⟨request, i⟩ root) (some s!"not under {normalize root}")),
        asked)

/-- Every bare request leads from the packages root. Whoever issues it, it means the root or a path
below it exactly unless it climbs out of the root and comes back by other names, and all that it is
answered with is looked for from that path. -/
theorem bare_request_leads (root : String) (bare : isBare request = true) : Leads root request := by
  have within : Within root (join root [request]) ↔ ¬ Escapes root.toList request.toList :=
    within_join (head_of_bare bare)
  constructor
  · intro i j
    rw [path_of_bare bare, path_of_bare bare]
  · intro i
    rwa [path_of_bare bare]
  · intro reach extensions finder load importer s
    rw [path_of_bare bare]
    exact Evaluator.obtains_of_bare bare finder load importer s
  · intro escapes i url extensions answer asked
    have normal := normalize_join root request
    have out : below? (normalize root) (normalize (join root [request])) = none := by
      rw [normal, Option.eq_none_iff_forall_ne_some]
      intro inside below
      exact within.1 (.inr (by simp [below])) escapes
    have refused := (Cdn.below url root extensions answer).download_outside out asked
    rwa [normal, ← path_of_bare bare i root] at refused

/-- A request that climbs out of the root and comes back. -/
theorem bare_request_leads_back :
    isBare "x/../../b/./c" = true ∧ Leads "/a/b" "x/../../b/./c" ∧
      Climbs "x/../../b/./c".toList ∧
      path ⟨"x/../../b/./c", some "/src/i.py"⟩ "/a/b" = "/a/b/c" ∧
      Within "/a/b" "/a/b/c" := by
  have bare : isBare "x/../../b/./c" = true := by decide
  have leads := bare_request_leads "/a/b" bare
  have place : path ⟨"x/../../b/./c", some "/src/i.py"⟩ "/a/b" = "/a/b/c" := by decide
  refine ⟨bare, leads, by decide, place, ?_⟩
  rw [← place, leads.within_iff]
  decide

/-- A store with one file of the project. -/
def withProject : Store :=
  ({} : Store).copyProject (Table.ofList [("/src/a.py", "default = 1".toUTF8.toList)])

/-- A request that starts with a name can lead to a file outside the root. -/
theorem bare_request_can_escape :
    isBare "x/../../src/a" = true ∧
      path ⟨"x/../../src/a", some "/node_modules/p/index.py"⟩ "/node_modules" = "/src/a" ∧
      ¬ Within "/node_modules" "/src/a" ∧
      ∃ file, (Finder.ofRoot "/node_modules").resolve withProject
          ⟨"x/../../src/a", some "/node_modules/p/index.py"⟩ = .ok (some file) ∧
        file.path = "/src/a.py" ∧ ¬ Within "/node_modules" file.path := by
  refine ⟨by decide, by decide, by decide, ⟨"/src/a.py", "default = 1".toUTF8.toList⟩, ?_⟩
  exact ⟨by rfl, rfl, by decide⟩

end ModuleRequest

end PluginHost
