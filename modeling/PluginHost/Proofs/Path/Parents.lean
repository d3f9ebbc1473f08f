import PluginHost.Proofs.Path.Entries

/-!
Normal paths by their spelling, and the directory that holds one. A normal path is the path of the
components that are left when those of any spelling are resolved one by one; its directory is that
of all but the last, and joining the last to it leads back.
-/
namespace PluginHost.Path

variable {c p : List Char} {cs : List (List Char)} {q : String}

/-- A slash alone, or a slash and names with one slash between them, none of which is empty, `.` or
`..`. -/
structure IsNormal (q : String) : Prop where
  absolute : Text.startsWith q "/" = true
  named : q ≠ "/" → ∀ c ∈ (Text.split q '/').tail, c ≠ "" ∧ c ≠ "." ∧ c ≠ ".."
  ended : Text.endsWith q "/" = true → q = "/"

theorem split_ofComponents (proper : ∀ c ∈ cs, Proper c) (some : cs ≠ []) :
    Text.split (String.ofList (ofComponents cs)) '/' = "" :: cs.map String.ofList := by
  rw [Text.split, String.toList_ofList, ofComponents, Text.pieces, if_pos rfl,
    pieces_joined (fun c hc => (proper c hc).noSlash) some, List.map_cons]

theorem endsWith_slash : Text.endsWith q "/" = true ↔ q.toList.getLast? = some '/' := by
  have one : "/".toList.reverse = ['/'] := rfl
  rw [Text.endsWith, one, ← List.head?_reverse]
  cases q.toList.reverse with
  | nil => simp [Text.rest?]
  | cons d ds =>
    by_cases hd : '/' = d
    · simp [Text.rest?, ← hd]
    · simp [Text.rest?, hd, Ne.symm hd]

theorem lastName_concat_slash (p : List Char) : lastName (p ++ ['/']) = [] := by
  simp [lastName]

theorem Proper.ofList_ne (hc : Proper c) :
    String.ofList c ≠ "" ∧ String.ofList c ≠ "." ∧ String.ofList c ≠ ".." := by
  have spelt {s : String} (h : String.ofList c = s) : c = s.toList := by
    rw [← h, String.toList_ofList]
  exact ⟨fun h => hc.nonempty (spelt h), fun h => hc.notDot (spelt h),
    fun h => hc.notDots (spelt h)⟩

theorem isNormal_ofComponents (proper : ∀ c ∈ cs, Proper c) :
    IsNormal (String.ofList (ofComponents cs)) := by
  by_cases top : cs = []
  · rw [top]
    exact ⟨rfl, fun below => (below rfl).elim, fun _ => rfl⟩
  refine ⟨?_, fun _ c hc => ?_, fun slash => ?_⟩
  · simp [Text.startsWith, Text.after?, Text.rest?, ofComponents]
  · rw [split_ofComponents proper top, List.tail_cons] at hc
    obtain ⟨d, hd, rfl⟩ := List.mem_map.1 hc
    exact (proper d hd).ofList_ne
  · rw [endsWith_slash, String.toList_ofList] at slash
    obtain ⟨before, split⟩ := List.getLast?_eq_some_iff.1 slash
    have last := proper _ (lastName_ofComponents proper top)
    rw [split, lastName_concat_slash] at last
    exact (last.nonempty rfl).elim

theorem normalize_eq (p : String) :
    normalize p = String.ofList (ofComponents (components p.toList)) := by
  rw [normalize, normalized_eq]

/-- The steps to a place are the path of it, but for the top. -/
theorem steps_eq_ofComponents (below : cs ≠ []) : steps cs = ofComponents cs := by
  rw [← List.dropLast_concat_getLast below, ofComponents_append (.inl (by simp))]
  simp [steps, joined]

/-- The directory of a path below the top is the path without its last component. -/
theorem head_concat (hc : Proper c) (proper : ∀ c ∈ cs, Proper c) :
    head (ofComponents (cs ++ [c])) = ofComponents cs := by
  have name : ∀ d ∈ c.reverse, decide (d ≠ '/') = true := by
    intro d hd
    simpa using fun slash : d = '/' => hc.noSlash (slash ▸ List.mem_reverse.1 hd)
  -- What is kept ends with the slash before the last component, and at the top is nothing else.
  have upTo : ((ofComponents (cs ++ [c])).reverse.dropWhile (· ≠ '/')).reverse =
      steps cs ++ ['/'] := by
    rw [ofComponents_append (.inl (by simp)), joined, List.reverse_append, List.reverse_cons,
      List.append_assoc, List.dropWhile_append_of_pos name]
    simp
  rw [head, upTo]
  by_cases top : cs = []
  · rw [top]
    rfl
  · have named : (steps cs ++ ['/']).all (· = '/') = false := by
      obtain ⟨d, ds, rfl⟩ := List.exists_cons_of_ne_nil top
      have proper := proper d (List.mem_cons_self ..)
      obtain ⟨e, es, rfl⟩ := List.exists_cons_of_ne_nil proper.nonempty
      have first : e ≠ '/' := fun slash => proper.noSlash (slash ▸ List.mem_cons_self ..)
      simp [steps, first]
    rw [named, steps_eq_ofComponents top, List.reverse_concat,
      List.dropWhile_cons_of_pos (by simp), trimmed_ofComponents proper,
      steps_eq_ofComponents top]
    rfl

theorem parent_eq (p : String) :
    parent p = String.ofList (ofComponents (components p.toList).dropLast) := by
  have proper := proper_of_mem_components (p := p.toList)
  rw [parent, normalized_eq]
  by_cases top : components p.toList = []
  · rw [top]
    rfl
  · rw [← List.dropLast_concat_getLast top, head_concat (proper _ (List.getLast_mem top))
      fun c hc => proper c ((List.dropLast_sublist _).mem hc), List.dropLast_concat]
    rfl

/-- Joining the last component of a path below the top to its directory leads back to it. -/
theorem join_parent {p : String} (below : components p.toList ≠ []) :
    join (parent p) [String.ofList ((components p.toList).getLast below)] = normalize p := by
  have proper := proper_of_mem_components (p := p.toList)
  have others : ∀ c ∈ (components p.toList).dropLast, Proper c := fun c hc =>
    proper c ((List.dropLast_sublist _).mem hc)
  have joined := components_join (proper _ (List.getLast_mem below)) (parent p)
  rw [parent_eq, String.toList_ofList, components_ofComponents others,
    List.dropLast_concat_getLast, ← parent_eq] at joined
  have again : normalize (join (parent p) [String.ofList ((components p.toList).getLast below)]) =
      normalize p := by
    rw [normalize_eq, joined, ← normalize_eq]
  rwa [join, normalize_normalize] at again

/-- Every path has one normal spelling: that of the components which are left when its own are
resolved one by one on a stack. Normalizing a path again changes nothing, and neither does
normalizing the first of two parts before they are joined; and a path below the top is its directory
joined with its last component. -/
theorem normalize_resolves (p a b : String) :
    IsNormal (normalize p) ∧ normalize (normalize p) = normalize p ∧
      normalize p = String.ofList (ofComponents (components p.toList)) ∧
      join a [b] = join (normalize a) [b] ∧
      (normalize p ≠ "/" → ∃ name, (Text.split (normalize p) '/').getLast? = some name ∧
        join (parent p) [name] = normalize p) := by
  have proper := proper_of_mem_components (p := p.toList)
  refine ⟨?_, normalize_normalize p, normalize_eq p, (join_normalize a b).symm, fun below => ?_⟩
  · rw [normalize_eq]
    exact isNormal_ofComponents proper
  · have some : components p.toList ≠ [] := by
      intro none
      rw [normalize_eq, none] at below
      exact below rfl
    refine ⟨_, ?_, join_parent some⟩
    rw [normalize_eq, split_ofComponents proper some, List.getLast?_cons, List.getLast?_map,
      List.getLast?_eq_some_getLast some]
    rfl

/-- A path that climbs above the top, with dots and slashes in between. -/
theorem normalize_resolves_climbing :
    normalize "x/../..//a/./b/" = "/a/b" ∧ join "//n/.." ["../p"] = "/p" ∧
      IsNormal (normalize "x/../..//a/./b/") ∧
      normalize (normalize "x/../..//a/./b/") = normalize "x/../..//a/./b/" ∧
      normalize "x/../..//a/./b/" =
        String.ofList (ofComponents (components "x/../..//a/./b/".toList)) ∧
      join "//n/.." ["../p"] = join (normalize "//n/..") ["../p"] ∧
      normalize "x/../..//a/./b/" ≠ "/" ∧
      ∃ name, (Text.split (normalize "x/../..//a/./b/") '/').getLast? = some name ∧
        join (parent "x/../..//a/./b/") [name] = normalize "x/../..//a/./b/" := by
  have below : normalize "x/../..//a/./b/" ≠ "/" := by decide
  obtain ⟨normal, again, resolved, first, back⟩ :=
    normalize_resolves "x/../..//a/./b/" "//n/.." "../p"
  exact ⟨by decide, by decide, normal, again, resolved, first, below, back below⟩

end PluginHost.Path
