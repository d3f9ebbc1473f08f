import PluginHost.Path

/-!
Normal paths. Normalizing leaves a slash followed by proper components, and a path of that form is
normal already.
-/
namespace PluginHost

theorem Text.pieces_eq_splitOn (c : Char) (s : List Char) : pieces c s = s.splitOn c := by
  induction s with
  | nil => rfl
  | cons d s ih =>
    rw [pieces, List.splitOn_cons_eq_if_modifyHead, ih]
    by_cases hd : d = c
    · simp [hd]
    · obtain ⟨p, ps, hp⟩ := List.exists_cons_of_ne_nil (List.splitOn_ne_nil c s)
      simp [hd, hp]

namespace Path

/-- A component that a normal path may have. -/
structure Proper (c : List Char) : Prop where
  nonempty : c ≠ []
  notDot : c ≠ dot
  notDots : c ≠ dots
  noSlash : '/' ∉ c

/-- One more component of a path from the root, the last one first: `..` takes back the component
before it and does nothing at the root. -/
def resolve (kept : List (List Char)) (c : List Char) : List (List Char) :=
  if c = [] ∨ c = dot then kept
  else if c = dots then kept.tail
  else c :: kept

/-- The components of a path from the root. -/
def components (p : List Char) : List (List Char) := ((Text.pieces '/' p).foldl resolve []).reverse

/-- The path of some components from the root. -/
def ofComponents (cs : List (List Char)) : List Char := '/' :: joined cs

variable {c p q : List Char} {cs ds kept : List (List Char)}

theorem joined_eq_intercalate (cs : List (List Char)) : joined cs = ['/'].intercalate cs := by
  induction cs with
  | nil => rfl
  | cons c cs ih =>
    cases cs with
    | nil => simp [joined]
    | cons d ds =>
      rw [joined, ih, List.intercalate_cons_cons]
      · simp
      · simp

theorem pieces_joined (hs : ∀ c ∈ cs, '/' ∉ c) (hne : cs ≠ []) :
    Text.pieces '/' (joined cs) = cs := by
  rw [Text.pieces_eq_splitOn, joined_eq_intercalate, List.splitOn_intercalate _ hs hne]

theorem joined_pieces (p : List Char) : joined (Text.pieces '/' p) = p := by
  rw [Text.pieces_eq_splitOn, joined_eq_intercalate, List.intercalate_splitOn]

theorem pieces_append (p q : List Char) :
    Text.pieces '/' (p ++ '/' :: q) = Text.pieces '/' p ++ Text.pieces '/' q := by
  simp only [Text.pieces_eq_splitOn, List.splitOn_append_cons_self]

theorem noSlash_of_mem_pieces (h : c ∈ Text.pieces '/' p) : '/' ∉ c := by
  induction p generalizing c with
  | nil =>
    obtain rfl := List.mem_singleton.1 h
    simp
  | cons d p ih =>
    rw [Text.pieces] at h
    split at h
    · rcases List.mem_cons.1 h with rfl | h
      · simp
      · exact ih h
    · rename_i hd
      split at h
      · obtain rfl := List.mem_singleton.1 h
        simp [Ne.symm hd]
      · rename_i b bs hb
        rcases List.mem_cons.1 h with rfl | h
        · have hb := ih (hb ▸ List.mem_cons_self ..)
          simp [hb, Ne.symm hd]
        · exact ih (hb ▸ List.mem_cons_of_mem _ h)

theorem resolve_of_proper (hc : Proper c) : resolve kept c = c :: kept := by
  rw [resolve, if_neg (by simp [hc.nonempty, hc.notDot]), if_neg hc.notDots]

theorem foldl_resolve_of_proper (hc : ∀ c ∈ cs, Proper c) :
    cs.foldl resolve kept = cs.reverse ++ kept := by
  induction cs generalizing kept with
  | nil => rfl
  | cons c cs ih =>
    obtain ⟨proper, others⟩ := List.forall_mem_cons.1 hc
    rw [List.foldl_cons, resolve_of_proper proper, ih others]
    simp

theorem proper_of_mem_resolve (hk : ∀ c ∈ kept, Proper c) (hc : '/' ∉ c) :
    ∀ d ∈ resolve kept c, Proper d := by
  unfold resolve
  split
  · exact hk
  · rename_i empty
    rw [not_or] at empty
    split
    · intro d hd
      exact hk d (List.mem_of_mem_tail hd)
    · rename_i up
      exact List.forall_mem_cons.2 ⟨⟨empty.1, empty.2, up, hc⟩, hk⟩

theorem proper_of_mem_foldl (hk : ∀ c ∈ kept, Proper c) (hs : ∀ c ∈ cs, '/' ∉ c) :
    ∀ c ∈ cs.foldl resolve kept, Proper c := by
  induction cs generalizing kept with
  | nil => exact hk
  | cons c cs ih =>
    obtain ⟨slash, others⟩ := List.forall_mem_cons.1 hs
    exact ih (proper_of_mem_resolve hk slash) others

theorem proper_of_mem_components : ∀ c ∈ components p, Proper c := by
  intro c hc
  rw [components, List.mem_reverse] at hc
  exact proper_of_mem_foldl (by simp) (fun _ => noSlash_of_mem_pieces) c hc

/-- Below the root nothing is left of a `..`. -/
theorem reduce_eq_foldl (hk : ∀ c ∈ kept, Proper c) (hs : ∀ c ∈ cs, '/' ∉ c) :
    reduce true kept cs = cs.foldl resolve kept := by
  induction cs generalizing kept with
  | nil => rfl
  | cons c cs ih =>
    obtain ⟨slash, others⟩ := List.forall_mem_cons.1 hs
    have step : reduce true kept (c :: cs) = reduce true (resolve kept c) cs := by
      rw [reduce.eq_def, resolve]
      dsimp only
      split
      · rfl
      · by_cases up : c = dots
        · rw [if_neg (not_not_intro up), if_pos up]
          cases kept with
          | nil => rfl
          | cons k ks => exact if_neg (hk k (List.mem_cons_self ..)).notDots
        · rw [if_pos up, if_neg up]
    rw [step, List.foldl_cons]
    exact ih (proper_of_mem_resolve hk slash) others

theorem components_rooted (p : List Char) : components (rooted p) = components p := by
  unfold rooted
  split
  · rfl
  · simp [components, Text.pieces, resolve]

theorem components_ofComponents (hc : ∀ c ∈ cs, Proper c) : components (ofComponents cs) = cs := by
  cases cs with
  | nil => rfl
  | cons c cs =>
    have slash := pieces_joined (fun d hd => (hc d hd).noSlash) (List.cons_ne_nil c cs)
    have root : resolve [] [] = [] := rfl
    rw [components, ofComponents, Text.pieces, if_pos rfl, slash, List.foldl_cons, root,
      foldl_resolve_of_proper hc]
    simp

theorem head_joined (hc : ∀ c ∈ cs, Proper c) : (joined cs).head? ≠ some '/' := by
  cases cs with
  | nil => simp [joined]
  | cons c cs =>
    obtain ⟨proper, -⟩ := List.forall_mem_cons.1 hc
    obtain ⟨d, ds, rfl⟩ := List.exists_cons_of_ne_nil proper.nonempty
    have hd : d ≠ '/' := by
      rintro rfl
      exact proper.noSlash (List.mem_cons_self ..)
    cases cs <;> simp [joined, hd]

theorem leading_rooted (p : List Char) : leading (rooted p) = 1 ∨ leading (rooted p) = 2 := by
  have rooted_cons : ∃ q, rooted p = '/' :: q := by
    unfold rooted
    split
    · exact ⟨_, rfl⟩
    · exact ⟨_, rfl⟩
  obtain ⟨q, hq⟩ := rooted_cons
  rw [hq]
  unfold leading
  split <;> simp_all

theorem normalized_eq (p : List Char) : normalized p = ofComponents (components p) := by
  have first := head_joined (proper_of_mem_components (p := p))
  have reduced : (reduce true [] (Text.pieces '/' (rooted p))).reverse = components p := by
    rw [reduce_eq_foldl (by simp) fun _ => noSlash_of_mem_pieces, ← components_rooted, components]
  have collapse : collapsed (rooted p) =
      List.replicate (leading (rooted p)) '/' ++ joined (components p) := by
    unfold collapsed
    rcases leading_rooted p with h | h <;> simp [h, reduced, List.replicate]
  rw [normalized, collapse, ofComponents]
  generalize joined (components p) = body at first
  rcases leading_rooted p with h | h
  · rw [h]
    cases body with
    | nil => rfl
    | cons d ds =>
      have hd : d ≠ '/' := by simpa using first
      unfold oneSlash
      split
      · rename_i he
        simp [List.replicate] at he
        exact (hd he.1).elim
      · rfl
  · rw [h]
    rfl

theorem normalized_ofComponents (hc : ∀ c ∈ cs, Proper c) :
    normalized (ofComponents cs) = ofComponents cs := by
  rw [normalized_eq, components_ofComponents hc]

/-- Normalizing again changes nothing. -/
theorem normalized_normalized (p : List Char) : normalized (normalized p) = normalized p := by
  rw [normalized_eq p, normalized_ofComponents proper_of_mem_components]

theorem normalize_normalize (p : String) : normalize (normalize p) = normalize p := by
  rw [normalize, normalize, String.toList_ofList, normalized_normalized]

theorem appended_of_relative (p : List Char) (hq : q.head? ≠ some '/') :
    appended p q = if p = [] ∨ p.getLast? = some '/' then p ++ q else p ++ '/' :: q := by
  unfold appended
  split
  · simp at hq
  · rfl

/-- A relative path goes on where the path before it ends. -/
theorem components_appended (p : List Char) (hq : q.head? ≠ some '/') :
    components (appended p q) =
      ((Text.pieces '/' q).foldl resolve (components p).reverse).reverse := by
  rw [appended_of_relative p hq]
  split
  · rename_i hp
    rcases hp with rfl | hp
    · simp [components, Text.pieces, resolve]
    · obtain ⟨r, rfl⟩ := List.getLast?_eq_some_iff.1 hp
      rw [List.append_assoc, List.singleton_append, components, pieces_append, List.foldl_append,
        components, pieces_append, List.foldl_append]
      simp [Text.pieces, resolve]
  · rw [components, pieces_append, List.foldl_append, components, List.reverse_reverse]

end Path

end PluginHost
