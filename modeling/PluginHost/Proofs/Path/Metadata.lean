import PluginHost.Downloads
import PluginHost.Proofs.Path.Normal

/-!
Metadata paths. The metadata of a package may itself seem to belong to another package, but after
two turns the path stays as it is, so that fetches on account of other fetches come to an end.
-/
namespace PluginHost

namespace Path

variable {c p q : List Char} {cs ds rs : List (List Char)}

/-- A slash before each component. -/
def steps (cs : List (List Char)) : List Char := cs.flatMap ('/' :: ·)

theorem ofComponents_append (h : ds ≠ [] ∨ rs = []) :
    ofComponents (rs ++ ds) = steps rs ++ '/' :: joined ds := by
  induction rs with
  | nil => rfl
  | cons r rs ih =>
    have hd : ds ≠ [] := h.resolve_right (by simp)
    have rest := ih (.inl hd)
    cases hs : rs ++ ds with
    | nil => simp [hd] at hs
    | cons d es =>
      rw [hs, ofComponents] at rest
      rw [List.cons_append, hs, ofComponents, joined, rest]
      · simp [steps]
      · simp

theorem pieces_steps (hs : ∀ c ∈ cs, '/' ∉ c) (p : List Char) :
    Text.pieces '/' (steps cs ++ '/' :: p) = [] :: cs ++ Text.pieces '/' p := by
  induction cs with
  | nil => simp [steps, Text.pieces]
  | cons c cs ih =>
    obtain ⟨slash, others⟩ := List.forall_mem_cons.1 hs
    have rest := ih others
    have shape : ∃ q, steps cs ++ '/' :: p = '/' :: q := by
      cases cs with
      | nil => exact ⟨p, rfl⟩
      | cons d ds => exact ⟨d ++ (steps ds ++ '/' :: p), by simp [steps]⟩
    obtain ⟨q, hq⟩ := shape
    have single : Text.pieces '/' c = [c] := by
      rw [Text.pieces_eq_splitOn, List.splitOn_eq_singleton slash]
    have whole : steps (c :: cs) ++ '/' :: p = '/' :: (c ++ '/' :: q) := by
      rw [← hq]
      simp [steps]
    rw [hq, Text.pieces, if_pos rfl, List.cons_append] at rest
    rw [whole, Text.pieces, if_pos rfl, pieces_append, single, (List.cons.inj rest).2]
    simp

/-- What follows the steps to a place is the path from there. -/
theorem eq_append_of_ofComponents (hc : ∀ c ∈ cs, Proper c) (hr : ∀ r ∈ rs, Proper r)
    (h : ofComponents cs = steps rs ++ '/' :: p) :
    ∃ ds, cs = rs ++ ds ∧ p = joined ds ∧ (ds ≠ [] ∨ rs = []) := by
  have pieces := congrArg (Text.pieces '/') h
  rw [pieces_steps fun r h => (hr r h).noSlash, ofComponents, Text.pieces, if_pos rfl,
    List.cons_append] at pieces
  have rest := (List.cons.inj pieces).2
  cases cs with
  | nil =>
    rcases List.append_eq_singleton_iff.1 rest.symm with ⟨rfl, hp⟩ | ⟨-, hp⟩
    · exact ⟨[], rfl, by rw [← joined_pieces p, hp]; rfl, .inr rfl⟩
    · exact (Text.pieces_ne_nil _ _ hp).elim
  | cons c cs =>
    rw [pieces_joined (fun d hd => (hc d hd).noSlash) (List.cons_ne_nil c cs)] at rest
    exact ⟨_, rest, (joined_pieces p).symm, .inl (Text.pieces_ne_nil _ _)⟩

/-- Without a slash at its end the path of some components is the steps to their place. -/
theorem trimmed_ofComponents (hr : ∀ r ∈ rs, Proper r) :
    ((ofComponents rs).reverse.dropWhile (· = '/')).reverse = steps rs := by
  rcases List.eq_nil_or_concat rs with rfl | ⟨cs, c, hrs⟩
  · rfl
  · rw [List.concat_eq_append] at hrs
    subst hrs
    obtain ⟨d, ds, hd⟩ : ∃ d ds, c = ds ++ [d] := by
      rcases List.eq_nil_or_concat c with rfl | ⟨ds, d, hd⟩
      · exact ((hr [] (by simp)).nonempty rfl).elim
      · exact ⟨d, ds, hd.trans List.concat_eq_append⟩
    have slash : d ≠ '/' := by
      rintro rfl
      exact (hr c (by simp)).noSlash (by simp [hd])
    rw [ofComponents_append (.inl (by simp))]
    simp [steps, joined, hd, slash]

theorem under_ofComponents (hr : ∀ r ∈ rs, Proper r) :
    (under (String.ofList (ofComponents rs))).toList = steps rs ++ ['/'] := by
  simp [under, Text.trimEndChar, trimmed_ofComponents hr]

theorem components_appended_joined (p : List Char) (hc : ∀ c ∈ cs, Proper c) :
    components (appended p (joined cs)) = components p ++ cs := by
  rw [components_appended p (head_joined hc)]
  cases cs with
  | nil => simp [joined, Text.pieces, resolve]
  | cons c cs =>
    rw [pieces_joined (fun d hd => (hc d hd).noSlash) (List.cons_ne_nil c cs),
      foldl_resolve_of_proper hc]
    simp

end Path

namespace PackageName

variable {ds : List (List Char)}

/-- The components of the package that a path inside the packages root belongs to. -/
def packageOf : List (List Char) → List (List Char)
  | c :: d :: _ => if c.head? = some '@' then [c, d] else [c]
  | ds => ds

theorem mem_of_mem_packageOf {c : List Char} (h : c ∈ packageOf ds) : c ∈ ds := by
  unfold packageOf at h
  split at h
  · split at h
    · simp at h
      rcases h with rfl | rfl <;> simp
    · simp at h
      simp [h]
  · exact h

theorem startsWith_at {c s : List Char} (hc : c ≠ []) :
    Text.startsWith (String.ofList (c ++ s)) "@" = decide (c.head? = some '@') := by
  obtain ⟨d, ds, rfl⟩ := List.exists_cons_of_ne_nil hc
  by_cases hd : d = '@'
  · simp [Text.startsWith, Text.after?, Text.rest?, hd]
  · simp [Text.startsWith, Text.after?, Text.rest?, hd, Ne.symm hd]

theorem ofRequest_joined (hd : ∀ c ∈ ds, Path.Proper c) :
    (ofRequest (String.ofList (Path.joined ds))).toList = Path.joined (packageOf ds) := by
  cases ds with
  | nil => rfl
  | cons c cs =>
    have pieces := Path.pieces_joined (fun d hm => (hd d hm).noSlash) (List.cons_ne_nil c cs)
    cases cs with
    | nil =>
      unfold ofRequest
      simp only [Text.split, String.toList_ofList, pieces, List.map_cons, List.map_nil]
      rfl
    | cons d ds =>
      have nonempty := (hd c (by simp)).nonempty
      have at_ := startsWith_at (s := '/' :: Path.joined (d :: ds)) nonempty
      unfold ofRequest
      simp only [Text.split, String.toList_ofList, pieces, List.map_cons]
      rw [Path.joined, at_]
      · by_cases h : c.head? = some '@' <;> simp [packageOf, h, Path.joined]
      · simp

end PackageName

namespace Downloads

open PluginHost.Path PackageName

variable {ds rs : List (List Char)} {p q root : String}

/-- The components of the metadata of the package that a path inside the root belongs to. -/
def metadataOf (ds : List (List Char)) : List (List Char) := packageOf ds ++ ["package.json".toList]

/-- From the second turn on the path stays as it is. -/
theorem metadataOf_metadataOf (ds : List (List Char)) :
    metadataOf (metadataOf (metadataOf ds)) = metadataOf (metadataOf ds) := by
  cases ds with
  | nil => rfl
  | cons c cs =>
    by_cases h : c.head? = some '@'
    · cases cs <;> simp [metadataOf, packageOf, h]
    · cases cs <;> simp [metadataOf, packageOf, h]

theorem proper_of_mem_metadataOf (hd : ∀ c ∈ ds, Proper c) : ∀ c ∈ metadataOf ds, Proper c := by
  intro c hc
  rcases List.mem_append.1 hc with hc | hc
  · exact hd c (mem_of_mem_packageOf hc)
  · obtain rfl := List.mem_singleton.1 hc
    exact ⟨by decide, by decide, by decide, by decide⟩

theorem metadata?_ofComponents (hr : ∀ c ∈ rs, Proper c) (hd : ∀ c ∈ ds, Proper c)
    (h : ds ≠ [] ∨ rs = []) :
    metadata? (String.ofList (ofComponents rs)) (String.ofList (ofComponents (rs ++ ds))) =
      some (String.ofList (ofComponents (rs ++ metadataOf ds))) := by
  have inside : below? (String.ofList (ofComponents rs))
      (String.ofList (ofComponents (rs ++ ds))) = some (String.ofList (joined ds)) := by
    have rest : Text.rest? (steps rs ++ ['/']) (ofComponents (rs ++ ds)) = some (joined ds) := by
      rw [Text.rest?_eq_some_iff, ofComponents_append h]
      simp
    rw [below?, Text.after?, under_ofComponents hr, String.toList_ofList, rest, Option.map_some]
  have package : ∀ c ∈ packageOf ds, Proper c := fun c hc => hd c (mem_of_mem_packageOf hc)
  have none : ∀ c ∈ ([] : List (List Char)), Proper c := by simp
  have name : ∀ c ∈ ["package.json".toList], Proper c := proper_of_mem_metadataOf none
  have path : components (appended (appended (ofComponents rs) (joined (packageOf ds)))
      (joined ["package.json".toList])) = rs ++ metadataOf ds := by
    rw [components_appended_joined _ name, components_appended_joined _ package,
      components_ofComponents hr, metadataOf, List.append_assoc]
  rw [metadata?, inside, Option.map_some, Path.join, Path.normalize]
  simp only [List.foldl_cons, List.foldl_nil, append, String.toList_ofList, ofRequest_joined hd]
  rw [normalized_eq, ← path]
  rfl

theorem components_of_metadata? (hm : metadata? (Path.normalize root) (Path.normalize p) = some q) :
    ∃ ds, components p.toList = components root.toList ++ ds ∧
      (ds ≠ [] ∨ components root.toList = []) := by
  obtain ⟨inside, below, -⟩ := Option.map_eq_some_iff.1 hm
  rw [below?, Text.after?] at below
  obtain ⟨i, hi, -⟩ := Option.map_eq_some_iff.1 below
  rw [Text.rest?_eq_some_iff, Path.normalize, Path.normalize, normalized_eq, normalized_eq,
    under_ofComponents proper_of_mem_components, String.toList_ofList, List.append_assoc,
    List.singleton_append] at hi
  obtain ⟨ds, hds, -, h⟩ := eq_append_of_ofComponents proper_of_mem_components
    proper_of_mem_components hi
  exact ⟨ds, hds, h⟩

theorem normalize_metadata? (hm : metadata? root p = some q) : Path.normalize q = q := by
  obtain ⟨inside, -, rfl⟩ := Option.map_eq_some_iff.1 hm
  rw [join, normalize_normalize]

/-- From the second turn on the metadata path stays as it is. -/
theorem metadata?_settles (hp : Path.normalize p = p)
    (hm : metadata? (Path.normalize root) p = some q) :
    ∃ r, metadata? (Path.normalize root) q = some r ∧
      metadata? (Path.normalize root) r = some r := by
  rw [← hp] at hm
  obtain ⟨ds, hds, h⟩ := components_of_metadata? hm
  have hr : ∀ c ∈ components root.toList, Proper c := proper_of_mem_components
  have hd : ∀ c ∈ ds, Proper c := fun c hc =>
    proper_of_mem_components (p := p.toList) c (by simp [hds, hc])
  have next {es : List (List Char)} (he : ∀ c ∈ es, Proper c) :=
    metadata?_ofComponents hr (proper_of_mem_metadataOf he) (.inl (by simp [metadataOf]))
  have first := metadata?_ofComponents hr hd h
  rw [Path.normalize, Path.normalize, normalized_eq, normalized_eq, hds, first] at hm
  obtain rfl := Option.some.inj hm
  rw [Path.normalize, normalized_eq]
  refine ⟨_, next hd, ?_⟩
  rw [next (proper_of_mem_metadataOf hd), metadataOf_metadataOf]

/-- How many further paths are fetched on account of a path, up to a limit. -/
def turns (root : String) : Nat → String → Nat
  | 0, _ => 0
  | limit + 1, p =>
    match metadata? root p with
    | none => 0
    | some q => if q = p then 0 else turns root limit q + 1

theorem turns_le (root : String) (limit : Nat) (p : String) : turns root limit p ≤ limit := by
  induction limit generalizing p with
  | zero => exact Nat.le_refl _
  | succ limit ih =>
    unfold turns
    split
    · omega
    · rename_i q _
      have := ih q
      split <;> omega

theorem turns_of_settled (hm : metadata? root p = some p) (limit : Nat) :
    turns root limit p = 0 := by
  cases limit with
  | zero => rfl
  | succ limit => simp [turns, hm]

/-- After a normal path there are at most two turns. -/
theorem turns_add_two (hp : Path.normalize p = p) (limit : Nat) :
    turns (Path.normalize root) (limit + 2) p = turns (Path.normalize root) 2 p := by
  rw [turns, turns]
  cases hm : metadata? (Path.normalize root) p with
  | none => rfl
  | some q =>
    obtain ⟨r, hr, settled⟩ := metadata?_settles hp hm
    have next (limit : Nat) :
        turns (Path.normalize root) (limit + 1) q = if r = q then 0 else 1 := by
      simp only [turns, hr, turns_of_settled settled]
    dsimp only
    rw [next, next]

/-- A fetch on account of another path is followed by fewer of them. -/
theorem turns_lt (hm : metadata? (Path.normalize root) p = some q) (hne : q ≠ p) :
    turns (Path.normalize root) 3 (Path.normalize q) < turns (Path.normalize root) 3 p := by
  have normal := normalize_metadata? hm
  have before : turns (Path.normalize root) 3 p = turns (Path.normalize root) 2 q + 1 := by
    rw [turns, hm]
    exact if_neg hne
  rw [normal, before, turns_add_two normal 1]
  omega

end Downloads

end PluginHost
