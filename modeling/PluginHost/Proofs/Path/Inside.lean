import PluginHost.Proofs.Path.Metadata

/-!
Paths inside a directory. A relative path of proper components is its own shortest spelling, and the
directory followed by it is a normal path: nothing of it leads elsewhere.
-/
namespace PluginHost.Path

variable {c e p q : List Char} {cs ds kept base : List (List Char)} {i n root path : String}

/-- A relative path of one proper component or more. -/
inductive Inner : String → Prop where
  | of {cs : List (List Char)} (nonempty : cs ≠ []) (proper : ∀ c ∈ cs, Proper c) :
      Inner (String.ofList (joined cs))

instance (c : List Char) : Decidable (Proper c) :=
  decidable_of_iff (c ≠ [] ∧ c ≠ dot ∧ c ≠ dots ∧ '/' ∉ c)
    ⟨fun h => ⟨h.1, h.2.1, h.2.2.1, h.2.2.2⟩,
      fun h => ⟨h.nonempty, h.notDot, h.notDots, h.noSlash⟩⟩

theorem joined_cons (hc : cs ≠ []) (c : List Char) : joined (c :: cs) = c ++ '/' :: joined cs := by
  cases cs with
  | nil => exact (hc rfl).elim
  | cons d cs => simp [joined]

theorem joined_append (hc : cs ≠ []) (hd : ds ≠ []) :
    joined (cs ++ ds) = joined cs ++ '/' :: joined ds := by
  induction cs with
  | nil => exact (hc rfl).elim
  | cons c cs ih =>
    by_cases last : cs = []
    · rw [last, List.singleton_append, joined_cons hd, joined]
    · rw [List.cons_append, joined_cons (by simp [last]), ih last, joined_cons last]
      simp

theorem joined_inj (hc : ∀ c ∈ cs, '/' ∉ c) (hd : ∀ d ∈ ds, '/' ∉ d) (nonempty : cs ≠ [])
    (nonempty' : ds ≠ []) (h : joined cs = joined ds) : cs = ds := by
  rw [← pieces_joined hc nonempty, h, pieces_joined hd nonempty']

theorem joined_ne_dot (hc : ∀ c ∈ cs, Proper c) : joined cs ≠ dot := by
  intro same
  by_cases none : cs = []
  · simp [none, joined, dot] at same
  · have pieces := pieces_joined (fun c hm => (hc c hm).noSlash) none
    rw [same] at pieces
    exact (hc dot (by simp [← pieces, dot, Text.pieces])).notDot rfl

/-- What is put behind a path is put behind its last component. -/
theorem joined_concat_append (cs : List (List Char)) (c e : List Char) :
    joined (cs ++ [c]) ++ e = joined (cs ++ [c ++ e]) := by
  by_cases none : cs = []
  · rw [none]
    rfl
  · simp [joined_append none, joined]

theorem Proper.append (hc : Proper c) (he : '/' ∉ e) : Proper (c ++ e) where
  nonempty := by simp [hc.nonempty]
  notDot same := by
    rcases List.append_eq_singleton_iff.1 same with ⟨rfl, -⟩ | ⟨rfl, -⟩
    · exact hc.nonempty rfl
    · exact hc.notDot rfl
  notDots same := by
    rcases List.append_eq_cons_iff.1 same with ⟨rfl, -⟩ | ⟨c', rfl, rest⟩
    · exact hc.nonempty rfl
    · rcases List.append_eq_singleton_iff.1 rest.symm with ⟨rfl, -⟩ | ⟨rfl, -⟩
      · exact hc.notDot rfl
      · exact hc.notDots rfl
  noSlash := by simp [hc.noSlash, he]

theorem proper_index : Proper "index".toList := ⟨by decide, by decide, by decide, by decide⟩

theorem proper_metadata : Proper "package.json".toList :=
  ⟨by decide, by decide, by decide, by decide⟩

namespace Inner

theorem toList_eq (hi : Inner i) :
    ∃ cs, cs ≠ [] ∧ (∀ c ∈ cs, Proper c) ∧ i.toList = joined cs := by
  obtain ⟨nonempty, proper⟩ := hi
  exact ⟨_, nonempty, proper, String.toList_ofList⟩

theorem of_toList (nonempty : cs ≠ []) (proper : ∀ c ∈ cs, Proper c) (h : i.toList = joined cs) :
    Inner i := by
  rw [← String.ofList_toList (s := i), h]
  exact .of nonempty proper

theorem iff_pieces : Inner i ↔ ∀ c ∈ Text.pieces '/' i.toList, Proper c := by
  refine ⟨fun hi => ?_, fun proper => ?_⟩
  · obtain ⟨cs, nonempty, proper, path⟩ := hi.toList_eq
    rwa [path, pieces_joined (fun c hc => (proper c hc).noSlash) nonempty]
  · exact of_toList (Text.pieces_ne_nil _ _) proper (joined_pieces _).symm

instance (i : String) : Decidable (Inner i) := decidable_of_iff _ iff_pieces.symm

/-- A name with more characters at its end is a name, unless they hold a slash. -/
theorem extend (hi : Inner i) {e : String} (he : '/' ∉ e.toList) : Inner (i ++ e) := by
  obtain ⟨cs, nonempty, proper, hi⟩ := hi.toList_eq
  have split := (List.dropLast_concat_getLast nonempty).symm
  have others : ∀ c ∈ cs.dropLast, Proper c := fun c hc =>
    proper c ((List.dropLast_sublist cs).mem hc)
  have last : Proper (cs.getLast nonempty ++ e.toList) :=
    (proper _ (List.getLast_mem nonempty)).append he
  have some : cs.dropLast ++ [cs.getLast nonempty ++ e.toList] ≠ [] := by simp
  refine of_toList some ?_ ?_
  · exact List.forall_mem_append.2 ⟨others, List.forall_mem_singleton.2 last⟩
  · rw [String.toList_append, hi, ← joined_concat_append, ← split]

theorem child (hi : Inner i) (hc : Proper c) : Inner (i ++ String.ofList ('/' :: c)) := by
  obtain ⟨cs, nonempty, proper, hi⟩ := hi.toList_eq
  have some : cs ++ [c] ≠ [] := by simp
  refine of_toList some ?_ ?_
  · exact List.forall_mem_append.2 ⟨proper, List.forall_mem_singleton.2 hc⟩
  · rw [String.toList_append, hi, String.toList_ofList, joined_append nonempty (by simp), joined]

theorem index (hi : Inner i) : Inner (i ++ "/index") := hi.child proper_index

theorem metadata (hi : Inner i) : Inner (i ++ "/package.json") := hi.child proper_metadata

theorem head (hi : Inner i) : i.toList.head? ≠ some '/' := by
  obtain ⟨cs, -, proper, hi⟩ := hi.toList_eq
  exact hi ▸ head_joined proper

theorem nonempty (hi : Inner i) : i ≠ "" := by
  rintro rfl
  obtain ⟨cs, nonempty, proper, hi⟩ := hi.toList_eq
  have pieces := pieces_joined (fun c hc => (proper c hc).noSlash) nonempty
  rw [← hi] at pieces
  exact (proper [] (by simp [← pieces, Text.pieces])).nonempty rfl

end Inner

/-- The root and a path behind it, with exactly one slash in between. -/
theorem toList_under_append (root i : String) :
    (under (normalize root) ++ i).toList = steps (components root.toList) ++ '/' :: i.toList := by
  rw [String.toList_append, normalize, normalized_eq, under_ofComponents proper_of_mem_components]
  simp

/-- Joining a relative path to the root and normalizing what stands behind the root are the same. -/
theorem join_eq_normalize (hi : i.toList.head? ≠ some '/') :
    join (normalize root) [i] = normalize (under (normalize root) ++ i) := by
  have path : components (appended (normalized root.toList) i.toList) =
      components (steps (components root.toList) ++ '/' :: i.toList) := by
    rw [components_appended _ hi, normalized_eq, components_ofComponents proper_of_mem_components,
      components.eq_def (steps _ ++ _),
      pieces_steps fun c hc => (proper_of_mem_components c hc).noSlash, List.foldl_append,
      List.foldl_cons, foldl_resolve_of_proper proper_of_mem_components]
    simp [resolve]
  simp only [join, List.foldl_cons, List.foldl_nil, normalize, append, String.toList_ofList]
  rw [normalized_eq, path, ← normalized_eq, ← toList_under_append, normalize]

/-- Nothing changes in what is inside the root. -/
theorem Inner.normalize_under (hi : Inner i) :
    normalize (under (normalize root) ++ i) = under (normalize root) ++ i := by
  obtain ⟨cs, nonempty, proper, hi⟩ := hi.toList_eq
  have path : (under (normalize root) ++ i).toList =
      ofComponents (components root.toList ++ cs) := by
    rw [toList_under_append, hi, ofComponents_append (.inl nonempty)]
  rw [normalize, path, normalized_ofComponents, ← path, String.ofList_toList]
  exact List.forall_mem_append.2 ⟨proper_of_mem_components, proper⟩

theorem Inner.join_eq (hi : Inner i) : join (normalize root) [i] = under (normalize root) ++ i := by
  rw [join_eq_normalize hi.head, hi.normalize_under]

theorem below?_eq_some_iff : below? root path = some i ↔ path = under root ++ i :=
  Text.after?_eq_some_iff

/-- What is below the root is inside it, unless it is the top itself. -/
theorem inner_of_below? (h : below? (normalize root) (normalize path) = some i) :
    Inner i ∨ i = "" ∧ normalize path = "/" ∧ normalize root = "/" := by
  have whole : ofComponents (components path.toList) =
      steps (components root.toList) ++ '/' :: i.toList := by
    rw [← toList_under_append, ← below?_eq_some_iff.1 h, normalize, String.toList_ofList,
      normalized_eq]
  obtain ⟨ds, hds, hi, h⟩ := eq_append_of_ofComponents proper_of_mem_components
    proper_of_mem_components whole
  by_cases nonempty : ds = []
  · have top := h.resolve_left (by simp [nonempty])
    rw [top, nonempty] at hds
    refine .inr ⟨String.toList_injective (by simp [hi, nonempty, joined]), ?_, ?_⟩
    · rw [normalize, normalized_eq, hds]
      rfl
    · rw [normalize, normalized_eq, top]
      rfl
  · refine .inl (.of_toList nonempty (fun c hc => ?_) hi)
    exact proper_of_mem_components (p := path.toList) c (by simp [hds, hc])

/-- A `..` that a relative path starts with is never taken back. -/
theorem dots_mem_reduce (h : dots ∈ kept) (cs : List (List Char)) :
    dots ∈ reduce false kept cs := by
  induction cs generalizing kept with
  | nil => exact h
  | cons c cs ih =>
    rw [reduce.eq_def]
    dsimp only
    split
    · exact ih h
    · split
      · exact ih (List.mem_cons_of_mem _ h)
      · split
        · cases h
        · rename_i k ks
          split
          · exact ih (List.mem_cons_of_mem _ h)
          · rename_i hk
            exact ih ((List.mem_cons.1 h).resolve_left (Ne.symm hk))

/-- As long as a relative path does not lead out of a directory, it goes on inside it. -/
theorem foldl_resolve_append (h : dots ∉ reduce false kept cs) :
    cs.foldl resolve (kept ++ base) = reduce false kept cs ++ base := by
  induction cs generalizing kept with
  | nil => rfl
  | cons c cs ih =>
    have before : dots ∉ kept := fun hk => h (dots_mem_reduce hk _)
    rw [reduce.eq_def] at h ⊢
    dsimp only at h ⊢
    rw [List.foldl_cons, resolve]
    split at h
    · rename_i nothing
      rw [if_pos nothing, if_pos nothing]
      exact ih h
    · rename_i something
      rw [if_neg something, if_neg something]
      split at h
      · rename_i name
        rw [if_pos name, if_neg name]
        exact ih h
      · rename_i up
        rw [if_neg up, if_pos (Decidable.not_not.1 up)]
        split at h
        · exact (h (dots_mem_reduce (by simp [Decidable.not_not.1 up]) _)).elim
        · rename_i k ks
          have hk : k ≠ dots := fun hk => before (by simp [hk])
          rw [if_neg hk] at h ⊢
          exact ih h

theorem reduce_append_of_proper (hc : ∀ c ∈ cs, Proper c) (absolute : Bool) :
    reduce absolute kept (cs ++ ds) = reduce absolute (cs.reverse ++ kept) ds := by
  induction cs generalizing kept with
  | nil => rfl
  | cons c cs ih =>
    obtain ⟨proper, others⟩ := List.forall_mem_cons.1 hc
    rw [List.cons_append, reduce.eq_def]
    dsimp only
    rw [if_neg (by simp [proper.nonempty, proper.notDot]), if_pos proper.notDots, ih others]
    simp

theorem mem_of_mem_reduce (h : c ∈ reduce false kept cs) : c ∈ kept ∨ c ∈ cs := by
  induction cs generalizing kept with
  | nil => exact .inl h
  | cons d cs ih =>
    rw [reduce.eq_def] at h
    dsimp only at h
    split at h
    · exact (ih h).imp_right (List.mem_cons_of_mem _)
    · split at h
      · have := ih h
        grind
      · split at h
        · have := ih h
          grind
        · split at h
          · have := ih h
            grind
          · exact (ih h).imp (List.mem_cons_of_mem _) (List.mem_cons_of_mem _)

theorem collapsed_of_relative (h : p.head? ≠ some '/') :
    collapsed p =
      match joined (reduce false [] (Text.pieces '/' p)).reverse with
      | [] => dot
      | q => q := by
  have slashes : leading p = 0 := by
    unfold leading
    split <;> simp_all
  rw [collapsed, slashes]
  rfl

theorem head_collapsed (h : p.head? = some '/') : (collapsed p).head? = some '/' := by
  obtain ⟨n, hn⟩ : ∃ n, leading p = n + 1 := by
    unfold leading
    split
    · exact ⟨_, rfl⟩
    · exact ⟨_, rfl⟩
    · exact ⟨_, rfl⟩
    · rename_i others
      obtain ⟨q, rfl⟩ := List.head?_eq_some_iff.1 h
      exact (others q rfl).elim
  rw [collapsed, hn]
  rfl

namespace Inner

/-- A path inside a directory is as short as it can be. -/
theorem collapse_eq (hi : Inner i) : collapse i = i := by
  have relative := hi.head
  obtain ⟨cs, nonempty, proper, path⟩ := hi.toList_eq
  have pieces := pieces_joined (fun c hc => (proper c hc).noSlash) nonempty
  have whole : reduce false [] (cs ++ []) = reduce false (cs.reverse ++ []) [] :=
    reduce_append_of_proper proper false
  rw [List.append_nil, List.append_nil] at whole
  rw [collapse, collapsed_of_relative relative, path, pieces, whole, reduce, List.reverse_reverse,
    ← path]
  split
  · rename_i empty
    exact (hi.nonempty (String.toList_eq_nil_iff.1 empty)).elim
  · exact String.ofList_toList

theorem getLast (hi : Inner i) : i.toList.getLast? ≠ some '/' := by
  obtain ⟨cs, nonempty, proper, path⟩ := hi.toList_eq
  have last := proper _ (List.getLast_mem nonempty)
  intro slash
  rw [path, ← List.dropLast_concat_getLast nonempty, ← List.nil_append (cs.getLast nonempty),
    ← joined_concat_append, List.getLast?_append, Option.or_of_isSome (by simp [last.nonempty])]
    at slash
  exact last.noSlash (List.mem_of_getLast? slash)

theorem toList_ne_nil (hi : Inner i) : i.toList ≠ [] := fun empty =>
  hi.nonempty (String.toList_eq_nil_iff.1 empty)

theorem head_append (hi : Inner i) (p : List Char) : (i.toList ++ p).head? ≠ some '/' := by
  have relative := hi.head
  rwa [List.head?_append, Option.or_of_isSome (by simp [hi.toList_ne_nil])]

theorem appended_eq (hi : Inner i) (hn : n.toList.head? ≠ some '/') :
    appended i.toList n.toList = i.toList ++ '/' :: n.toList := by
  rw [appended_of_relative _ hn, if_neg (not_or.2 ⟨hi.toList_ne_nil, hi.getLast⟩)]

/-- Joining two parts one after the other and joining them at once are the same. -/
theorem join_pair (hi : Inner i) (hn : n.toList.head? ≠ some '/') :
    join root [i, n] = join root [i ++ String.ofList ('/' :: n.toList)] := by
  have whole : appended (appended root.toList i.toList) n.toList =
      appended root.toList (i.toList ++ '/' :: n.toList) := by
    rw [appended_of_relative _ hi.head, appended_of_relative _ (hi.head_append _),
      appended_of_relative _ hn, if_neg]
    · split <;> simp
    · rw [not_or]
      have last := hi.getLast
      cases hl : i.toList.getLast? with
      | none => exact (hi.toList_ne_nil (List.getLast?_eq_none_iff.1 hl)).elim
      | some c =>
        rw [hl] at last
        split <;> simp [List.getLast?_append, List.getLast?_cons, hl, last, hi.nonempty]
  simp only [join, List.foldl_cons, List.foldl_nil, append, String.toList_ofList,
    String.toList_append, whole]

/-- A path inside a directory and a relative one behind it, as short as they can be. -/
theorem collapse_append (hi : Inner i) (hn : n.toList.head? ≠ some '/') (h : i.toList = joined ds)
    (hd : ds ≠ []) (proper : ∀ c ∈ ds, Proper c) :
    collapse (append i n) =
      match joined (reduce false ds.reverse (Text.pieces '/' n.toList)).reverse with
      | [] => String.ofList dot
      | q => String.ofList q := by
  have pieces : Text.pieces '/' (i.toList ++ '/' :: n.toList) = ds ++ Text.pieces '/' n.toList := by
    rw [pieces_append, h, pieces_joined (fun c hc => (proper c hc).noSlash) hd]
  rw [collapse, append, hi.appended_eq hn, String.toList_ofList,
    collapsed_of_relative (hi.head_append _), pieces,
    reduce_append_of_proper proper, List.append_nil]
  split <;> rfl

theorem collapse_child (hi : Inner i) (hc : Proper c) :
    collapse (append i (String.ofList c)) = i ++ String.ofList ('/' :: c) := by
  have relative : (String.ofList c).toList.head? ≠ some '/' := by
    rw [String.toList_ofList]
    exact fun slash => hc.noSlash (List.mem_of_head? slash)
  have whole : append i (String.ofList c) = i ++ String.ofList ('/' :: c) := by
    rw [append, hi.appended_eq relative]
    exact String.toList_injective (by simp)
  rw [whole, (hi.child hc).collapse_eq]

/-- If the entry of a directory stays inside the root then the root followed by it is where the
entry lies. -/
theorem join_append (hi : Inner i) (hn : Inner (collapse (append i n))) :
    join (under (normalize root) ++ i) [n] = under (normalize root) ++ collapse (append i n) := by
  have relative : n.toList.head? ≠ some '/' := by
    intro slash
    obtain ⟨q, hq⟩ := List.head?_eq_some_iff.1 slash
    have alone : appended i.toList n.toList = n.toList := by
      rw [hq]
      rfl
    refine hn.head ?_
    rw [collapse, append, String.toList_ofList, String.toList_ofList, alone, head_collapsed slash]
  obtain ⟨ds, nonempty, proper, path⟩ := hi.toList_eq
  have entry := hi.collapse_append relative path nonempty proper
  obtain ⟨es, some, proper', path'⟩ := hn.toList_eq
  have left : (reduce false ds.reverse (Text.pieces '/' n.toList)).reverse = es := by
    generalize hl : (reduce false ds.reverse (Text.pieces '/' n.toList)).reverse = ls at entry
    have slash : ∀ c ∈ ls, '/' ∉ c := by
      rintro c hc
      rw [← hl, List.mem_reverse] at hc
      rcases mem_of_mem_reduce hc with before | after
      · exact (proper c (List.mem_reverse.1 before)).noSlash
      · exact noSlash_of_mem_pieces after
    split at entry
    · rw [entry, String.toList_ofList] at path'
      exact (joined_ne_dot proper' path'.symm).elim
    · rename_i some'
      rw [entry, String.toList_ofList] at path'
      exact joined_inj slash (fun c hc => (proper' c hc).noSlash) (by rintro rfl; exact some' rfl)
        some path'
  have inside : dots ∉ reduce false ds.reverse (Text.pieces '/' n.toList) := by
    rw [← List.mem_reverse, left]
    exact fun up => (proper' _ up).notDots rfl
  have before : components (under (normalize root) ++ i).toList =
      components root.toList ++ ds := by
    rw [toList_under_append, path, ← ofComponents_append (.inl nonempty), components_ofComponents]
    exact List.forall_mem_append.2 ⟨proper_of_mem_components, proper⟩
  have after : components (appended (under (normalize root) ++ i).toList n.toList) =
      components root.toList ++ es := by
    rw [components_appended _ relative, before, List.reverse_append, foldl_resolve_append inside,
      List.reverse_append, List.reverse_reverse, left]
  refine String.toList_injective ?_
  rw [toList_under_append, path', ← ofComponents_append (.inl some), ← after, ← normalized_eq]
  simp [join, normalize, append]

theorem collapse_index (hi : Inner i) : collapse (append i "index") = i ++ "/index" :=
  hi.collapse_child proper_index

theorem join_index (hi : Inner i) :
    join (under (normalize root) ++ i) ["index"] = under (normalize root) ++ (i ++ "/index") := by
  rw [hi.join_append (hi.collapse_index ▸ hi.index), hi.collapse_index]

theorem join_metadata (hi : Inner i) : join (under (normalize root) ++ i) ["package.json"] =
    under (normalize root) ++ (i ++ "/package.json") := by
  have alone : collapse (append i "package.json") = i ++ "/package.json" :=
    hi.collapse_child proper_metadata
  rw [hi.join_append (alone ▸ hi.metadata), alone]

end Inner

end PluginHost.Path
