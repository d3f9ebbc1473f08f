import PluginHost.PackageName
import PluginHost.Proofs.Path.Entries

/-!
Conventional names of packages. A name that has the form of the convention is left as it is, and so
is every name that the convention gives, but for one: the engine's own scope, without a name in it,
is given a name that is taken for a short one of a modern engine.
-/
namespace PluginHost

namespace PackageName

open Text

variable {kind : ModuleKind} {modern : Bool} {name scope rest : String}

/-- How a name is made up. -/
inductive Form : String → Prop where
  | unscoped {name : String} (plain : startsWith name "@" = false) : Form name
  | scope {name : String} (scope : startsWith name "@" = true) (alone : '/' ∉ name.toList) :
      Form name
  | inScope {scope : String} (rest : String) (start : startsWith scope "@" = true)
      (first : '/' ∉ scope.toList) : Form (scope ++ "/" ++ rest)

theorem startsWith_at_iff : startsWith name "@" = true ↔ name.toList.head? = some '@' := by
  rw [startsWith_iff]
  constructor
  · rintro ⟨r, rfl⟩
    simp
  · intro first
    obtain ⟨r, whole⟩ := List.head?_eq_some_iff.1 first
    exact ⟨String.ofList r, String.toList_injective (by simp [whole])⟩

theorem form (name : String) : Form name := by
  cases plain : startsWith name "@" with
  | false => exact .unscoped plain
  | true =>
    by_cases slash : '/' ∈ name.toList
    · obtain ⟨scope, rest, whole, first⟩ := List.eq_append_cons_of_mem slash
      have parts : name = String.ofList scope ++ "/" ++ String.ofList rest :=
        String.toList_injective (by simp [whole])
      have start : scope.head? = some '@' := by
        rw [startsWith_at_iff, whole, List.head?_append] at plain
        cases h : scope.head? with
        | none => simp [h] at plain
        | some c => simpa [h] using plain
      rw [parts]
      refine .inScope _ ?_ (by simpa using first)
      rwa [startsWith_at_iff, String.toList_ofList]
    · exact .scope plain slash

/-- What the names of packages of a kind begin with outside the engine's own scope. -/
def stem (kind : ModuleKind) : String := "babel-" ++ kind.word

/-- Names of the form that the convention gives. -/
inductive Conventional (kind : ModuleKind) (modern : Bool) : String → Prop where
  | unscoped {name : String} (plain : startsWith name "@" = false)
      (carried : carries name (stem kind) = true) : Conventional kind modern name
  | own (rest : String) (generation : modern = true) :
      Conventional kind modern ("@babel/" ++ kind.word ++ "-" ++ rest)
  | inScope {scope rest : String} (start : startsWith scope "@" = true)
      (first : '/' ∉ scope.toList) (other : ¬ (scope = "@babel" ∧ modern = true))
      (carried : carries rest (stem kind) = true) :
      Conventional kind modern (scope ++ "/" ++ rest)

theorem prefixed_unscoped (plain : startsWith name "@" = false) :
    prefixed name kind modern =
      if carries name (stem kind) then name
      else if modern then "@babel/" ++ kind.word ++ "-" ++ name
      else stem kind ++ "-" ++ name := by
  unfold prefixed
  simp only [plain]
  split <;> rfl

theorem prefixed_scope (start : startsWith name "@" = true) (alone : '/' ∉ name.toList) :
    prefixed name kind modern = name ++ "/" ++ stem kind := by
  unfold prefixed
  rw [cut?_of_not_mem alone]
  simp only [start]
  rfl

theorem prefixed_scoped (start : startsWith scope "@" = true) (first : '/' ∉ scope.toList) :
    prefixed (scope ++ "/" ++ rest) kind modern =
      if rest = "" then scope ++ "/" ++ stem kind
      else if scope = "@babel" ∧ modern = true then
        if startsWith rest (kind.word ++ "-") then scope ++ "/" ++ rest
        else "@babel/" ++ kind.word ++ "-" ++ rest
      else if carries rest (stem kind) then scope ++ "/" ++ rest
      else scope ++ "/" ++ stem kind ++ "-" ++ rest := by
  have parts : (scope ++ "/" ++ rest).toList = scope.toList ++ '/' :: rest.toList := by simp
  have whole := startsWith_append (startsWith_append start "/") rest
  unfold prefixed
  rw [parts, cut?_append first]
  simp only [whole, String.ofList_toList, Bool.and_eq_true, decide_eq_true_eq]
  rfl

/-- A name in the engine's own scope by its scope and the rest. -/
theorem own_eq (kind : ModuleKind) (rest : String) :
    "@babel/" ++ kind.word ++ "-" ++ rest = "@babel" ++ "/" ++ (kind.word ++ "-" ++ rest) :=
  String.toList_injective (by simp)

/-- A name in another scope by its scope and the rest. -/
theorem stem_eq (kind : ModuleKind) (scope rest : String) :
    scope ++ "/" ++ stem kind ++ "-" ++ rest = scope ++ "/" ++ (stem kind ++ "-" ++ rest) :=
  String.toList_injective (by simp)

theorem not_carries_empty (kind : ModuleKind) : carries "" (stem kind) = false := by
  cases kind <;> decide

theorem startsWith_stem (kind : ModuleKind) (rest : String) :
    startsWith (stem kind ++ rest) "@" = false := by
  rw [Bool.eq_false_iff]
  intro at_
  rw [startsWith_at_iff] at at_
  cases kind <;> simp [stem] at at_

theorem carries_stem (kind : ModuleKind) (rest : String) :
    carries (stem kind ++ "-" ++ rest) (stem kind) = true := by
  have start : startsWith (stem kind ++ "-" ++ rest) (stem kind ++ "-") = true :=
    startsWith_iff.2 ⟨rest, rfl⟩
  simp [carries, start]

namespace Conventional

theorem ne_empty (h : Conventional kind modern name) : name ≠ "" := by
  cases h with
  | unscoped plain carried =>
    rintro rfl
    simp [not_carries_empty] at carried
  | own rest => exact fun empty => by simpa using congrArg String.toList empty
  | inScope => exact fun empty => by simpa using congrArg String.toList empty

/-- The convention leaves its own names as they are. -/
theorem prefixed_eq (h : Conventional kind modern name) : prefixed name kind modern = name := by
  cases h with
  | unscoped plain carried => rw [prefixed_unscoped plain, if_pos carried]
  | own rest generation =>
    have some : kind.word ++ "-" ++ rest ≠ "" := fun empty => by
      simpa using congrArg String.toList empty
    have start : startsWith (kind.word ++ "-" ++ rest) (kind.word ++ "-") = true :=
      startsWith_iff.2 ⟨rest, rfl⟩
    rw [own_eq, prefixed_scoped (by decide) (by decide), if_neg some, if_pos ⟨rfl, generation⟩,
      if_pos start]
  | inScope start first other carried =>
    have some {rest : String} (carried : carries rest (stem kind) = true) : rest ≠ "" := by
      rintro rfl
      simp [not_carries_empty] at carried
    rw [prefixed_scoped start first, if_neg (some carried), if_neg other, if_pos carried]

end Conventional

/-- What the convention gives has its form, unless a modern engine is asked for nothing but its own
scope. -/
theorem conventional_prefixed (name : String) (kind : ModuleKind) (modern : Bool) :
    Conventional kind modern (prefixed name kind modern) ∨
      modern = true ∧ (name = "@babel" ∨ name = "@babel/") := by
  -- A scope alone is given the name of other scopes, whether or not it is the engine's own.
  have alone {scope : String} (start : startsWith scope "@" = true) (first : '/' ∉ scope.toList) :
      Conventional kind modern (scope ++ "/" ++ stem kind) ∨ scope = "@babel" ∧ modern = true := by
    by_cases own : scope = "@babel" ∧ modern = true
    · exact .inr own
    · exact .inl (.inScope start first own (by simp [carries]))
  cases form name with
  | unscoped plain =>
    refine .inl ?_
    rw [prefixed_unscoped plain]
    split
    · exact .unscoped plain ‹_›
    · split
      · exact .own name ‹_›
      · refine .unscoped ?_ (carries_stem kind name)
        rw [String.append_assoc]
        exact startsWith_stem kind _
  | scope start first =>
    rw [prefixed_scope start first]
    exact (alone start first).imp_right fun own => ⟨own.2, .inl own.1⟩
  | @inScope scope rest start first =>
    rw [prefixed_scoped start first]
    split
    · rename_i none
      exact (alone start first).imp_right fun own => ⟨own.2, .inr (by rw [own.1, none]; rfl)⟩
    · refine .inl ?_
      split
      · rename_i own
        split
        · rename_i given
          obtain ⟨r, rfl⟩ := startsWith_iff.1 given
          rw [own.1, ← own_eq]
          exact .own r own.2
        · exact .own rest own.2
      · rename_i other
        split
        · exact .inScope start first other ‹_›
        · rw [stem_eq]
          exact .inScope start first other (carries_stem kind rest)

theorem prefixed_ne_empty (name : String) (kind : ModuleKind) (modern : Bool) :
    prefixed name kind modern ≠ "" := by
  rcases conventional_prefixed name kind modern with conventional | ⟨rfl, rfl | rfl⟩
  · exact conventional.ne_empty
  · cases kind <;> decide
  · cases kind <;> decide

/-- Names of whole packages: one component, or two of which the first is a scope. -/
inductive Whole : String → Prop where
  | single {name : String} (alone : '/' ∉ name.toList) : Whole name
  | inScope {scope rest : String} (start : startsWith scope "@" = true)
      (first : '/' ∉ scope.toList) (second : '/' ∉ rest.toList) : Whole (scope ++ "/" ++ rest)

theorem split_of_alone (alone : '/' ∉ name.toList) : split name '/' = [name] := by
  rw [split, Path.pieces_of_noSlash alone, List.map_singleton, String.ofList_toList]

theorem split_scoped (first : '/' ∉ scope.toList) (rest : String) :
    split (scope ++ "/" ++ rest) '/' = scope :: split rest '/' := by
  have parts : (scope ++ "/" ++ rest).toList = scope.toList ++ '/' :: rest.toList := by simp
  rw [split, parts, Path.pieces_append, Path.pieces_of_noSlash first, List.singleton_append,
    List.map_cons, String.ofList_toList]
  rfl

theorem alone_of_mem_split {c : String} (h : c ∈ split name '/') : '/' ∉ c.toList := by
  obtain ⟨p, hp, rfl⟩ := List.mem_map.1 h
  rw [String.toList_ofList]
  exact Path.noSlash_of_mem_pieces hp

theorem exists_split (name : String) : ∃ c cs, split name '/' = c :: cs :=
  List.exists_cons_of_ne_nil fun none => pieces_ne_nil _ _ (List.map_eq_nil_iff.1 none)

/-- A request belongs to a whole package. -/
theorem whole_ofRequest (name : String) : Whole (ofRequest name) := by
  obtain ⟨c, cs, parts⟩ := exists_split name
  have alone : '/' ∉ c.toList := alone_of_mem_split (parts ▸ List.mem_cons_self ..)
  cases form name with
  | unscoped plain =>
    rw [ofRequest, parts]
    cases cs with
    | nil => exact .single alone
    | cons d ds => simpa [plain] using Whole.single alone
  | scope start first =>
    rw [ofRequest, split_of_alone first]
    exact .single first
  | @inScope scope rest start first =>
    obtain ⟨d, ds, inner⟩ := exists_split rest
    have second : '/' ∉ d.toList := alone_of_mem_split (inner ▸ List.mem_cons_self ..)
    have at_ := startsWith_append (startsWith_append start "/") rest
    rw [ofRequest, split_scoped first, inner]
    simp only [at_, if_true]
    exact .inScope start first second

namespace Whole

theorem ofRequest_eq (h : Whole name) : ofRequest name = name := by
  cases h with
  | single alone => rw [ofRequest, split_of_alone alone]
  | @inScope scope rest start first second =>
    have at_ := startsWith_append (startsWith_append start "/") rest
    rw [ofRequest, split_scoped first, split_of_alone second]
    simp only [at_, if_true]

/-- The conventional name of a package is the name of one. -/
theorem prefixed (h : Whole name) (kind : ModuleKind) (modern : Bool) :
    Whole (prefixed name kind modern) := by
  have stemmed : '/' ∉ (stem kind).toList := by cases kind <;> decide
  have word : '/' ∉ kind.word.toList := by cases kind <;> decide
  have own {rest : String} (second : '/' ∉ rest.toList) :
      Whole ("@babel/" ++ kind.word ++ "-" ++ rest) := by
    rw [own_eq]
    exact .inScope (by decide) (by decide) (by simp [word, second])
  cases h with
  | single alone =>
    cases start : startsWith name "@" with
    | false =>
      rw [prefixed_unscoped start]
      split
      · exact .single alone
      · split
        · exact own alone
        · exact .single (by simp [stemmed, alone])
    | true =>
      rw [prefixed_scope start alone]
      exact .inScope start alone stemmed
  | @inScope scope rest start first second =>
    rw [prefixed_scoped start first]
    split
    · exact .inScope start first stemmed
    · split
      · split
        · exact .inScope start first second
        · exact own second
      · split
        · exact .inScope start first second
        · rw [stem_eq]
          exact .inScope start first (by simp [stemmed, second])

end Whole

/-- The conventional name of a package is a conventional name itself, so that it is left as it is,
unless it is that of the engine's own scope alone for a modern engine; and the conventional name of
the package of a request belongs to no other package than its own. -/
theorem prefixed_settles (name : String) (kind : ModuleKind) (engine modern : Int) :
    (prefixed (prefixed name kind (isModern engine modern)) kind (isModern engine modern) =
        prefixed name kind (isModern engine modern) ↔
      ¬ (modern ≤ engine ∧ (name = "@babel" ∨ name = "@babel/"))) ∧
    ofRequest (prefixed (ofRequest name) kind (isModern engine modern)) =
      prefixed (ofRequest name) kind (isModern engine modern) := by
  refine ⟨⟨?_, fun other => ?_⟩, ((whole_ofRequest name).prefixed kind _).ofRequest_eq⟩
  · rintro same ⟨generation, scope⟩
    rw [isModern, decide_eq_true generation] at same
    rcases scope with rfl | rfl <;> cases kind <;> exact absurd same (by decide)
  · have generic : ¬ (isModern engine modern = true ∧ (name = "@babel" ∨ name = "@babel/")) := by
      rwa [isModern, decide_eq_true_eq]
    exact ((conventional_prefixed name kind _).resolve_right generic).prefixed_eq

/-- The engine's own scope is given a name that a modern engine does not leave as it is. -/
theorem prefixed_can_change :
    prefixed "@babel" .plugin (isModern 7 7) = "@babel/babel-plugin" ∧
      prefixed "@babel/babel-plugin" .plugin (isModern 7 7) = "@babel/plugin-babel-plugin" ∧
      ¬ ∀ name kind engine modern,
        prefixed (prefixed name kind (isModern engine modern)) kind (isModern engine modern) =
          prefixed name kind (isModern engine modern) :=
  ⟨by decide, by decide, fun always => absurd (always "@babel" .plugin 7 7) (by decide)⟩

/-- Names that the convention gives nothing but a start which their short form is without: those in
no scope, and for a modern engine those in its own. -/
inductive Foldable (modern : Bool) : String → Prop where
  | unscoped {name : String} (plain : startsWith name "@" = false) : Foldable modern name
  | own {rest : String} (generation : modern = true) (named : rest ≠ "") :
      Foldable modern ("@babel/" ++ rest)

theorem short_own (kind : ModuleKind) (rest : String) :
    short kind ("@babel/" ++ kind.word ++ "-" ++ rest) = rest := by
  have first : after? ("@babel/" ++ kind.word ++ "-" ++ rest) ("@babel/" ++ kind.word ++ "-") =
      some rest := after?_eq_some_iff.2 rfl
  simp [short, starts, first]

theorem short_scope (other : startsWith rest (kind.word ++ "-") = false) :
    short kind ("@babel/" ++ rest) = rest := by
  have first : after? ("@babel/" ++ rest) ("@babel/" ++ kind.word ++ "-") = none := by
    rw [Option.eq_none_iff_forall_ne_some]
    intro r found
    have start : rest = kind.word ++ "-" ++ r :=
      String.toList_injective (by simpa using congrArg String.toList (after?_eq_some_iff.1 found))
    rw [start, startsWith_iff.2 ⟨r, rfl⟩] at other
    cases other
  have second : after? ("@babel/" ++ rest) ("babel-" ++ kind.word ++ "-") = none := by
    rw [Option.eq_none_iff_forall_ne_some]
    intro r found
    simpa using congrArg String.toList (after?_eq_some_iff.1 found)
  have third : after? ("@babel/" ++ rest) "@babel/" = some rest := after?_eq_some_iff.2 rfl
  simp [short, starts, first, second, third]

/-- Outside all scopes there is one start to take off. -/
theorem short_unscoped (plain : startsWith name "@" = false) :
    short kind name = (after? name (stem kind ++ "-")).getD name := by
  have scopeless {p : String} : after? name ("@" ++ p) = none := by
    rw [Option.eq_none_iff_forall_ne_some]
    intro r found
    rw [after?_eq_some_iff.1 found, String.append_assoc, startsWith_iff.2 ⟨p ++ r, rfl⟩] at plain
    cases plain
  have own : "@babel/" ++ kind.word ++ "-" = "@" ++ ("babel/" ++ kind.word ++ "-") :=
    String.toList_injective (by simp)
  have scope : "@babel/" = "@" ++ "babel/" := by decide
  have other : "babel-" ++ kind.word ++ "-" = stem kind ++ "-" := rfl
  rw [short, starts, own, other, scope]
  simp only [List.findSome?_cons, scopeless]
  cases after? name (stem kind ++ "-") <;> rfl

theorem Foldable.short_prefixed (h : Foldable modern name) (kind : ModuleKind) :
    short kind (prefixed name kind modern) = short kind name := by
  cases h with
  | unscoped plain =>
    rw [prefixed_unscoped plain]
    split
    · rfl
    · rename_i carried
      have other : startsWith name (stem kind ++ "-") = false := by
        rw [Bool.not_eq_true, carries, Bool.or_eq_false_iff] at carried
        exact carried.2
      have same : short kind name = name := by
        rw [short_unscoped plain, after?_eq_none other, Option.getD_none]
      split
      · rw [short_own, same]
      · rw [same, String.append_assoc, short_unscoped (startsWith_stem kind _),
          ← String.append_assoc, after?_eq_some_iff.2 rfl, Option.getD_some]
  | @own rest generation named =>
    have parts : "@babel/" ++ rest = "@babel" ++ "/" ++ rest := String.toList_injective (by simp)
    rw [parts, prefixed_scoped (by decide) (by decide), if_neg named, if_pos ⟨rfl, generation⟩]
    split
    · rfl
    · rename_i other
      rw [short_own, ← parts, short_scope (Bool.eq_false_iff.2 other)]

end PackageName

end PluginHost
