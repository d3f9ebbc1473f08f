import PluginHost.Module.Evaluator
import PluginHost.Proofs.Path.Normal

/-!
Reports of missing modules. What a failing `require` says of its request and of the file that issued
it can be read back from the midst of other text, so the path that is missing follows from the words
alone just as from what the failure carries.
-/
namespace PluginHost

theorem Text.infix_of_cut?_ne_none {p a b : List Char} : cut? p (a ++ p ++ b) ≠ none := by
  induction a with
  | nil =>
    cases p with
    | nil => cases b <;> simp [cut?, rest?]
    | cons c p =>
      have start : rest? (c :: p) (c :: (p ++ b)) = some b := rest?_eq_some_iff.2 rfl
      simp [cut?, start]
  | cons c a ih =>
    simp only [List.cons_append, cut?]
    split
    · simp
    · simpa using ih

/-- A text that does not hold a pattern is not made of other text around it. -/
theorem Text.not_infix_of_holds {s p : String} (h : holds s p = false) :
    ¬ p.toList <:+: s.toList := by
  rintro ⟨a, b, whole⟩
  rw [holds, ← whole, Option.isSome_eq_false_iff, Option.isNone_iff_eq_none] at h
  exact infix_of_cut?_ne_none h

namespace ModuleRequest

/-- What every report of a missing module begins with. -/
def phrase : List Char := "Cannot find module".toList

theorem opening_eq : "Cannot find module '".toList = phrase ++ " '".toList := by decide

variable {quoted rest before s x t : List Char} {r : ModuleRequest} {request importer : String}

/-- The phrase does not overlap with itself, since no other letter of it is its first one. -/
theorem starts_of_phrase (hx : x ≠ []) (h : x ++ (phrase ++ s) = phrase ++ t) : phrase <+: x := by
  obtain ⟨d, x, rfl⟩ := List.exists_cons_of_ne_nil hx
  obtain ⟨y, whole, ends⟩ | ⟨y, whole, -⟩ := List.append_eq_append_iff.1 h
  · cases y with
    | nil => exact ⟨[], by simpa using whole⟩
    | cons c y =>
      have first : c = 'C' := (List.cons.inj ends).1.symm
      have once : 'C' ∉ phrase.tail := by decide
      rw [whole, first] at once
      simp at once
  · exact ⟨y, whole.symm⟩

theorem quotedAfter?_of_quoted (opening : String) (hq : quoted ≠ []) (plain : '\'' ∉ quoted) :
    quotedAfter? opening (opening.toList ++ (quoted ++ '\'' :: rest)) = some (quoted, rest) := by
  have inside : ∀ c ∈ quoted, decide (c ≠ '\'') = true := by
    intro c hc
    simpa using fun quote : c = '\'' => plain (quote ▸ hc)
  have start : Text.rest? opening.toList (opening.toList ++ (quoted ++ '\'' :: rest)) =
      some (quoted ++ '\'' :: rest) := Text.rest?_eq_some_iff.2 rfl
  obtain ⟨c, cs, rfl⟩ := List.exists_cons_of_ne_nil hq
  rw [quotedAfter?, start]
  dsimp only
  rw [List.takeWhile_append_of_pos inside, List.dropWhile_append_of_pos inside]
  simp

theorem phrase_of_atStart? (h : atStart? s = some r) : phrase <+: s := by
  rw [atStart?, Option.map_eq_some_iff] at h
  obtain ⟨found, quoted, -⟩ := h
  unfold quotedAfter? at quoted
  split at quoted
  · cases quoted
  · rename_i t start
    rw [Text.rest?_eq_some_iff.1 start, opening_eq, List.append_assoc]
    exact List.prefix_append ..

/-- Nothing is found in a text without the phrase, nor across its end. -/
theorem find?_skip (h : ¬ phrase <:+: before) :
    find? (before ++ (phrase ++ s)) = find? (phrase ++ s) := by
  induction before with
  | nil => rfl
  | cons c before ih =>
    have here : atStart? (c :: before ++ (phrase ++ s)) = none := by
      rw [Option.eq_none_iff_forall_ne_some]
      intro r found
      obtain ⟨t, split⟩ := phrase_of_atStart? found
      exact h (starts_of_phrase (List.cons_ne_nil c before) split.symm).isInfix
    rw [List.cons_append, find?, ← List.cons_append, here, Option.none_or]
    exact ih fun within => h (within.trans (List.suffix_cons c before).isInfix)

/-- A request is read back from what is said of it, wherever the phrase stands first. -/
theorem find?_of_quoted (hr : request ≠ "") (plain : '\'' ∉ request.toList)
    (hb : ¬ phrase <:+: before) :
    find? (before ++ ("Cannot find module '".toList ++ (request.toList ++ '\'' :: rest))) =
      some ⟨request, (quotedAfter? " from '" rest).map fun (importer, _) =>
        String.ofList importer⟩ := by
  have opening : "Cannot find module '".toList ++ (request.toList ++ '\'' :: rest) =
      phrase ++ (" '".toList ++ (request.toList ++ '\'' :: rest)) := by
    rw [opening_eq, List.append_assoc]
  have start : atStart? ("Cannot find module '".toList ++ (request.toList ++ '\'' :: rest)) =
      some ⟨request, (quotedAfter? " from '" rest).map fun (importer, _) =>
        String.ofList importer⟩ := by
    rw [atStart?, quotedAfter?_of_quoted _ (by simpa using hr) plain, Option.map_some]
    simp only [String.ofList_toList]
  rw [opening, find?_skip hb, ← opening]
  generalize "Cannot find module '".toList ++ (request.toList ++ '\'' :: rest) = s at start
  cases s with
  | nil => cases start
  | cons c s => rw [find?, start, Option.some_or]

theorem toList_message (request importer : String) :
    (message ⟨request, some importer⟩).toList =
      "Cannot find module '".toList ++ (request.toList ++ '\'' ::
        (" from '".toList ++ (importer.toList ++ ['\'']))) := by
  have words : message ⟨request, some importer⟩ =
      "Cannot find module '" ++ request ++ "' from '" ++ importer ++ "'" := rfl
  have between : "' from '".toList = '\'' :: " from '".toList := by decide
  have final : "'".toList = ['\''] := by decide
  rw [words]
  simp only [String.toList_append, List.append_assoc, between, final, List.cons_append]

/-- A request and its importer are read back from what a file is told of them, whatever text stands
before and after it. -/
theorem ofMessage?_message {before : String} (after : String) (hr : request ≠ "")
    (hi : importer ≠ "") (plain : '\'' ∉ request.toList) (plain' : '\'' ∉ importer.toList)
    (hb : isReported before = false) :
    ofMessage? (before ++ message ⟨request, some importer⟩ ++ after) =
      some ⟨request, some importer⟩ := by
  have whole : (before ++ message ⟨request, some importer⟩ ++ after).toList =
      before.toList ++ ("Cannot find module '".toList ++ (request.toList ++ '\'' ::
        (" from '".toList ++ (importer.toList ++ '\'' :: after.toList)))) := by
    rw [String.toList_append, String.toList_append, toList_message]
    simp only [List.append_assoc, List.cons_append, List.nil_append]
  rw [ofMessage?, whole, find?_of_quoted hr plain (Text.not_infix_of_holds hb),
    quotedAfter?_of_quoted _ (by simpa using hi) plain', Option.map_some]
  simp only [String.ofList_toList]

/-- The path that a request means is normal. -/
theorem normalize_path (r : ModuleRequest) (root : String) :
    Path.normalize (r.path root) = r.path root := by
  unfold path
  split
  · exact Path.normalize_normalize _
  · split <;> exact Path.normalize_normalize _

theorem path_ne_empty (r : ModuleRequest) (root : String) : r.path root ≠ "" := by
  intro h
  have letters : Path.normalized (r.path root).toList = [] := by
    rw [← String.toList_ofList (l := Path.normalized _), ← Path.normalize, normalize_path, h]
    rfl
  rw [Path.normalized_eq] at letters
  cases letters

end ModuleRequest

namespace Evaluator

variable {reach : Reach} {request importer : String}

/-- A request that nothing answers: no installed module goes by it, and no file of the store is what
it means. -/
structure Reach.Lacks (reach : Reach) (importer request : String) : Prop where
  installed : ModuleRequest.isBare request = true → installed? reach.registry request = none
  file : reach.finder.resolve reach.store ⟨request, some importer⟩ = .ok none

theorem require_of_lacks (load : ModuleFile → Run Value)
    (lacks : reach.Lacks importer request) (s : Evaluator) :
    (require reach load importer (.text request)).run.run s =
      (.error (absent reach.finder ⟨request, some importer⟩), s) := by
  have other : (if ModuleRequest.isBare request then installed? reach.registry request
      else none) = none := by
    split
    · exact lacks.installed ‹_›
    · rfl
  unfold require
  dsimp only
  rw [other, exportFor, lacks.file]
  rfl

theorem missingPath?_absent (finder : Finder) (r : ModuleRequest) (root : String) :
    Failure.missingPath? (absent finder r) root = some (finder.locate r) := by
  have carries : Path.normalize (finder.locate r) = finder.locate r := r.normalize_path _
  have nonempty : finder.locate r ≠ "" := r.path_ne_empty _
  rw [Failure.missingPath?, absent]
  dsimp only
  rw [if_neg nonempty, carries, Option.some_or]

/-- A failure that carries no path is read for one. -/
theorem missingPath?_runtime (text : String) (causes : List Fault) (root : String) :
    Failure.missingPath? ⟨.runtime text, causes⟩ root =
      (ModuleRequest.ofMessage? text).map (·.path root) :=
  Option.none_or

/-- A report of a missing module leads to the same path in either form. The words of a failing
`require`, in the midst of text that does not speak of a missing module before them, lead to the
path that the request means; and so does the failure itself, which carries that path. -/
theorem missing_path_of_report (root : String) (extensions : List String) {before : String}
    (after : String) (causes : List Fault) (hr : request ≠ "") (hi : importer ≠ "")
    (plain : '\'' ∉ request.toList) (plain' : '\'' ∉ importer.toList)
    (hb : ModuleRequest.isReported before = false) :
    Failure.missingPath?
        ⟨.runtime (before ++ ModuleRequest.message ⟨request, some importer⟩ ++ after), causes⟩
        (Path.normalize root) =
      some ((Finder.ofRoot root extensions).locate ⟨request, some importer⟩) ∧
    ∀ reach load s, reach.finder = .ofRoot root extensions → reach.Lacks importer request →
      ∃ f, (require reach load importer (.text request)).run.run s = (.error f, s) ∧
        f.message = ModuleRequest.message ⟨request, some importer⟩ ∧
        f.missingPath? (Path.normalize root) =
          some ((Finder.ofRoot root extensions).locate ⟨request, some importer⟩) := by
  refine ⟨?_, fun reach load s finder lacks => ?_⟩
  · have read := ModuleRequest.ofMessage?_message after hr hi plain plain' hb
    rw [missingPath?_runtime, read, Option.map_some, Finder.locate, Finder.ofRoot]
  · refine ⟨_, require_of_lacks load lacks s, rfl, ?_⟩
    rw [missingPath?_absent, finder]

/-- Nothing at hand but a packages root. -/
def Reach.bare : Reach := ⟨.ofRoot "/n", {}, .empty, []⟩

/-- The path of a file beside the one that requires it, from a report within a longer text. -/
theorem missing_path_of_report_beside :
    (Failure.missingPath? ⟨.runtime ("[engine] " ++
        ModuleRequest.message ⟨"./util", some "/n/x/index.js"⟩ ++ "\nRequire stack: 'a'"), []⟩
        (Path.normalize "/n") =
      some ((Finder.ofRoot "/n").locate ⟨"./util", some "/n/x/index.js"⟩) ∧
    ∀ reach load s, reach.finder = .ofRoot "/n" → reach.Lacks "/n/x/index.js" "./util" →
      ∃ f, (require reach load "/n/x/index.js" (.text "./util")).run.run s = (.error f, s) ∧
        f.message = ModuleRequest.message ⟨"./util", some "/n/x/index.js"⟩ ∧
        f.missingPath? (Path.normalize "/n") =
          some ((Finder.ofRoot "/n").locate ⟨"./util", some "/n/x/index.js"⟩)) ∧
    Reach.bare.finder = .ofRoot "/n" ∧ Reach.bare.Lacks "/n/x/index.js" "./util" ∧
    (Finder.ofRoot "/n").locate ⟨"./util", some "/n/x/index.js"⟩ = "/n/x/util" := by
  have lacks : Reach.bare.Lacks "/n/x/index.js" "./util" := ⟨by decide, rfl⟩
  exact ⟨missing_path_of_report "/n" Finder.defaultExtensions _ [] (by decide) (by decide)
    (by decide) (by decide) (by decide), rfl, lacks, by decide⟩

end Evaluator

end PluginHost
