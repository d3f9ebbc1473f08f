import Mathlib.Data.List.Nodup
import PluginHost.Dependency

/-!
Dependencies of transformed code. Reported requests are listed under their types in order of first
occurrence. A modern engine's helpers follow, as direct ones, if nothing of that path was reported
under any type.
-/
namespace PluginHost

/-- Metadata that lists requests: those that the code states, and those from generated code. -/
def Json.Lists (metadata : Json) (stated generated : List String) : Prop :=
  ∃ fields found, metadata = .object fields ∧
    lookup? "dependencies" fields = some (.object found) ∧
    lookup? "strings" found = some (.array (stated.map .text)) ∧
    lookup? "dynamic" found = some (.array (generated.map .text))

theorem nodup_eraseDups : ∀ ss : List String, ss.eraseDups.Nodup
  | [] => List.nodup_nil
  | s :: ss => by
    rw [List.eraseDups_cons, List.nodup_cons]
    exact ⟨by simp [List.mem_eraseDups], nodup_eraseDups _⟩
termination_by ss => ss.length
decreasing_by exact Nat.lt_succ_of_le (List.length_filter_le ..)

theorem Json.partsOrNone_texts (ss : List String) :
    (Json.array (ss.map .text)).partsOrNone = .ok (ss.map .text) := by
  cases ss <;> rfl

namespace Dependency

variable {stated generated : List String} {metadata : Json} {d : Dependency}

/-- Requests under their types, each where it was listed first. -/
def listed (stated generated : List String) : List Dependency :=
  stated.eraseDups.map (⟨·, .direct⟩) ++ generated.eraseDups.map (⟨·, .dynamic⟩)

theorem mem_listed : d ∈ listed stated generated ↔
    d.type = .direct ∧ d.path ∈ stated ∨ d.type = .dynamic ∧ d.path ∈ generated := by
  obtain ⟨path, type⟩ := d
  cases type <;> simp [listed, List.mem_eraseDups]

theorem mem_paths_listed {path : String} :
    path ∈ (listed stated generated).map (·.path) ↔ path ∈ stated ∨ path ∈ generated := by
  simp [listed, List.mem_eraseDups]

theorem injective_mk (type : DependencyType) :
    Function.Injective fun path => Dependency.mk path type :=
  fun _ _ same => congrArg path same

theorem nodup_listed (stated generated : List String) : (listed stated generated).Nodup := by
  refine List.nodup_append.2 ⟨(nodup_eraseDups _).map (injective_mk _),
    (nodup_eraseDups _).map (injective_mk _), ?_⟩
  intro a ha b hb same
  obtain ⟨_, -, rfl⟩ := List.mem_map.1 ha
  obtain ⟨_, -, rfl⟩ := List.mem_map.1 hb
  cases same

/-- Of what was seen before nothing is collected, and of the rest every request once. -/
theorem collect_eq (type : DependencyType) (seen ss : List String) :
    collect type seen (ss.map .text) =
      .ok ((ss.filter (· ∉ seen)).eraseDups.map (⟨·, type⟩)) := by
  induction ss generalizing seen with
  | nil => rfl
  | cons s ss ih =>
    rw [List.map_cons, collect]
    split
    · rename_i old
      rw [ih, List.filter_cons_of_neg (by simpa using old)]
    · rename_i new
      have rest : (ss.filter (· ∉ seen)).filter (fun t => !t == s) =
          ss.filter (· ∉ s :: seen) := by
        rw [List.filter_filter]
        exact List.filter_congr fun t _ => by rw [Bool.eq_iff_iff]; simp
      rw [ih, List.filter_cons_of_pos (by simpa using new), List.eraseDups_cons, rest]
      rfl

theorem ofMetadata_eq (hm : metadata.Lists stated generated) :
    ofMetadata metadata = .ok (listed stated generated) := by
  obtain ⟨fields, found, rfl, report, strings, dynamic⟩ := hm
  have read : reported (.object fields) = .ok found := by
    simp only [reported, fieldsOf, report, bind, Except.bind, Option.getD_some, Json.isNothing]
    cases found <;> rfl
  simp [ofMetadata, read, strings, dynamic, Json.partsOrNone_texts, collect_eq, listed, bind,
    Except.bind, pure, Except.pure]

end Dependency

namespace Settings

variable {s : Settings} {engine : Int} {stated generated : List String} {metadata : Json}

/-- The helpers of whose paths nothing was reported. -/
def unreported (s : Settings) (stated generated : List String) : List String :=
  s.runtimeHelpers.filter fun h => h ∉ stated ∧ h ∉ generated

theorem mem_unreported {h : String} : h ∈ s.unreported stated generated ↔
    h ∈ s.runtimeHelpers ∧ h ∉ stated ∧ h ∉ generated := by
  simp [unreported]

theorem nodup_unreported
    (single : ∀ h, h ∉ stated → h ∉ generated → s.runtimeHelpers.count h ≤ 1) :
    (s.unreported stated generated).Nodup := by
  rw [List.nodup_iff_count_le_one]
  intro h
  by_cases hs : h ∉ stated ∧ h ∉ generated
  · rw [unreported, List.count_filter (by simpa using hs)]
    exact single h hs.1 hs.2
  · have absent : h ∉ s.unreported stated generated := fun hm => hs (mem_unreported.1 hm).2
    rw [List.count_eq_zero_of_not_mem absent]
    exact Nat.zero_le 1

/-- What is added to a report for an engine. -/
def addition (s : Settings) (engine : Int) (stated generated : List String) : List Dependency :=
  if s.isModern engine then (s.unreported stated generated).map (⟨·, .direct⟩) else []

theorem mem_addition {d : Dependency} : d ∈ s.addition engine stated generated ↔
    s.isModern engine = true ∧ d.type = .direct ∧ d.path ∈ s.runtimeHelpers ∧ d.path ∉ stated ∧
      d.path ∉ generated := by
  obtain ⟨path, type⟩ := d
  unfold addition
  split
  · rename_i modern
    cases type <;> simp [mem_unreported, modern]
  · rename_i legacy
    simp [legacy]

theorem dependencies_eq (s : Settings) (engine : Int) (hm : metadata.Lists stated generated) :
    s.dependencies engine metadata =
      .ok (Dependency.listed stated generated ++ s.addition engine stated generated) := by
  have helpers : (s.runtimeHelpers.filter fun h =>
      !((Dependency.listed stated generated).map (·.path)).contains h) =
        s.unreported stated generated :=
    List.filter_congr fun h _ => by
      simp only [Bool.not_eq_eq_eq_not, List.contains_eq_mem, Dependency.mem_paths_listed]
      simp
  simp only [dependencies, Dependency.ofMetadata_eq hm, bind, Except.bind, addition, helpers]
  split <;> simp [pure, Except.pure]

/-- Nothing that is added was reported, so only a helper could stand in a result twice. -/
theorem nodup_dependencies
    (single : s.isModern engine = true → ∀ h, h ∉ stated → h ∉ generated →
      s.runtimeHelpers.count h ≤ 1) :
    (Dependency.listed stated generated ++ s.addition engine stated generated).Nodup := by
  refine List.nodup_append.2 ⟨Dependency.nodup_listed _ _, ?_, ?_⟩
  · unfold addition
    split
    · rename_i modern
      exact (nodup_unreported (single modern)).map (Dependency.injective_mk _)
    · exact List.nodup_nil
  · rintro a ha b hb rfl
    obtain ⟨-, -, -, new, other⟩ := mem_addition.1 hb
    obtain ⟨-, old⟩ | ⟨-, old⟩ := Dependency.mem_listed.1 ha
    · exact new old
    · exact other old

/-- The dependencies of a result begin with the reported ones, the direct ones before the dynamic
ones, each in order of first occurrence. After them a modern engine has those of its helpers, as
direct ones, of which nothing was reported, and nothing else. So a helper is listed as direct unless
it was reported as dynamic alone, and if no helper is configured twice, no dependency is listed
twice. -/
theorem dependencies_listed (s : Settings) (engine : Int) (hm : metadata.Lists stated generated) :
    ∃ ds added, s.dependencies engine metadata = .ok ds ∧
      ds = stated.eraseDups.map (⟨·, .direct⟩) ++ generated.eraseDups.map (⟨·, .dynamic⟩) ++ added ∧
      (∀ d, d ∈ added ↔ s.isModern engine = true ∧ d.type = .direct ∧ d.path ∈ s.runtimeHelpers ∧
        d.path ∉ stated ∧ d.path ∉ generated) ∧
      (s.isModern engine = true → ∀ h ∈ s.runtimeHelpers,
        (⟨h, .direct⟩ ∈ ds ↔ h ∈ stated ∨ h ∉ generated)) ∧
      ((s.isModern engine = true → ∀ h, h ∉ stated → h ∉ generated →
        s.runtimeHelpers.count h ≤ 1) → ds.Nodup) := by
  refine ⟨_, _, dependencies_eq s engine hm, rfl, fun d => mem_addition,
    fun modern h helper => ?_, nodup_dependencies⟩
  simp only [List.mem_append, Dependency.mem_listed, mem_addition, modern, helper]
  by_cases h ∈ stated <;> simp [*]

end Settings

/-- Metadata of code that states a request twice and has it generated as well. -/
def Json.overlapping : Json :=
  .object [("dependencies", .object
    [("strings", .array [.text "react", .text "a", .text "react"]),
      ("dynamic", .array [.text "b", .text "react", .text "b"])])]

/-- Settings with a helper that is stated by code and one that is not. -/
def Settings.helped : Settings := { Settings.default with runtimeHelpers := ["h", "a"] }

/-- The dependencies of code that reports one of two helpers. -/
theorem Settings.dependencies_listed_overlapping :
    Json.overlapping.Lists ["react", "a", "react"] ["b", "react", "b"] ∧
      ∃ ds added, Settings.helped.dependencies 7 .overlapping = .ok ds ∧
        ds = ["react", "a", "react"].eraseDups.map (⟨·, .direct⟩) ++
          ["b", "react", "b"].eraseDups.map (⟨·, .dynamic⟩) ++ added ∧
        (∀ d, d ∈ added ↔ Settings.helped.isModern 7 = true ∧ d.type = .direct ∧
          d.path ∈ Settings.helped.runtimeHelpers ∧ d.path ∉ ["react", "a", "react"] ∧
            d.path ∉ ["b", "react", "b"]) ∧
        (Settings.helped.isModern 7 = true → ∀ h ∈ Settings.helped.runtimeHelpers,
          (⟨h, .direct⟩ ∈ ds ↔ h ∈ ["react", "a", "react"] ∨ h ∉ ["b", "react", "b"])) ∧
        ((Settings.helped.isModern 7 = true → ∀ h, h ∉ ["react", "a", "react"] →
          h ∉ ["b", "react", "b"] → Settings.helped.runtimeHelpers.count h ≤ 1) → ds.Nodup) := by
  have lists : Json.overlapping.Lists ["react", "a", "react"] ["b", "react", "b"] :=
    ⟨_, _, rfl, rfl, rfl, rfl⟩
  exact ⟨lists, Settings.dependencies_listed .helped 7 lists⟩

/-- Metadata of code of which one request is generated. -/
def Json.generated : Json :=
  .object [("dependencies", .object
    [("strings", .array []), ("dynamic", .array [.text "h"])])]

/-- A helper that was reported as dynamic is not listed as direct, and one that is configured twice
can be listed twice. -/
theorem Settings.dependencies_can_lack_helper :
    (¬ ∀ (s : Settings) engine metadata stated generated ds, Json.Lists metadata stated generated →
        s.dependencies engine metadata = .ok ds → s.isModern engine = true →
          ∀ h ∈ s.runtimeHelpers, ⟨h, .direct⟩ ∈ ds) ∧
      ¬ ∀ (s : Settings) engine metadata stated generated ds, Json.Lists metadata stated generated →
        s.dependencies engine metadata = .ok ds → ds.Nodup := by
  refine ⟨fun always => ?_, fun always => ?_⟩
  · have absent : Dependency.mk "h" .direct ∉ [Dependency.mk "h" .dynamic] := by decide
    exact absent (always { Settings.default with runtimeHelpers := ["h"] } 7 .generated [] ["h"] _
      ⟨_, _, rfl, rfl, rfl, rfl⟩ rfl (by decide) "h" (by simp))
  · have twice : ¬ [Dependency.mk "h" .direct, ⟨"h", .direct⟩].Nodup := by decide
    exact twice (always { Settings.default with runtimeHelpers := ["h", "h"] } 7
      (.object [("dependencies", .object [("strings", .array []), ("dynamic", .array [])])]) [] [] _
      ⟨_, _, rfl, rfl, rfl, rfl⟩ rfl)

end PluginHost
