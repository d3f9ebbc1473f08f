import Mathlib.Data.List.TakeWhile
import PluginHost.Proofs.Path.Inside

/-!
Where a path lies that is joined to a directory. It may be collapsed before, and an extension may be
put behind it before or after, as long as its last name is a proper component: what stands behind
`..` is not behind the directory that it leads to.
-/
namespace PluginHost.Path

variable {c e p q r x y : List Char} {cs kept base : List (List Char)} {root name i : String}

/-- Where a path starts that is put behind another, the last component first: an absolute one starts
afresh. -/
def origin (p q : List Char) : List (List Char) :=
  if q.head? = some '/' then [] else (components p).reverse

theorem origin_of_components (h : components p = components q) (r : List Char) :
    origin p r = origin q r := by
  rw [origin, origin, h]

theorem proper_of_mem_origin : ∀ c ∈ origin p q, Proper c := by
  intro c hc
  unfold origin at hc
  split at hc
  · cases hc
  · exact proper_of_mem_components c (List.mem_reverse.1 hc)

theorem origin_append (hq : q ≠ []) (p e : List Char) : origin p (q ++ e) = origin p q := by
  obtain ⟨c, cs, rfl⟩ := List.exists_cons_of_ne_nil hq
  rfl

theorem components_appended_eq (p q : List Char) :
    components (appended p q) = ((Text.pieces '/' q).foldl resolve (origin p q)).reverse := by
  by_cases absolute : q.head? = some '/'
  · obtain ⟨r, rfl⟩ := List.head?_eq_some_iff.1 absolute
    rw [origin, if_pos absolute]
    rfl
  · rw [components_appended p absolute, origin, if_neg absolute]

theorem components_normalized (p : List Char) : components (normalized p) = components p := by
  rw [normalized_eq, components_ofComponents proper_of_mem_components]

/-- The last name of a path is its last piece, and what is put behind the path stands behind it. -/
theorem exists_pieces (p : List Char) : ∃ init, ∀ e,
    Text.pieces '/' (p ++ e) = init ++ Text.pieces '/' (lastName p ++ e) := by
  by_cases slash : '/' ∈ p
  · obtain ⟨after, before, split, none⟩ := List.eq_append_cons_of_mem (List.mem_reverse.2 slash)
    have whole : p = before.reverse ++ '/' :: after.reverse := by
      have back := congrArg List.reverse split
      simpa using back
    have last : lastName p = after.reverse := by
      have others : ∀ c ∈ after, decide (c ≠ '/') = true := fun c hc =>
        decide_eq_true fun same => none (same ▸ hc)
      rw [lastName, split, List.takeWhile_append_of_pos others,
        List.takeWhile_cons_of_neg (by simp), List.append_nil]
    refine ⟨Text.pieces '/' before.reverse, fun e => ?_⟩
    rw [last, whole, List.append_assoc, List.cons_append, pieces_append]
  · have others : ∀ c ∈ p.reverse, decide (c ≠ '/') = true := fun c hc =>
      decide_eq_true fun same => slash (same ▸ List.mem_reverse.1 hc)
    refine ⟨[], fun e => ?_⟩
    rw [lastName, List.takeWhile_eq_self_iff.2 others, List.reverse_reverse, List.nil_append]

theorem pieces_of_noSlash (h : '/' ∉ c) : Text.pieces '/' c = [c] := by
  rw [Text.pieces_eq_splitOn, List.splitOn_eq_singleton h]

theorem noSlash_lastName (p : List Char) : '/' ∉ lastName p := by
  intro slash
  rw [lastName, List.mem_reverse] at slash
  simpa using List.mem_takeWhile_imp slash

/-- The components of a directory followed by what stands behind its last one. -/
theorem components_behind (proper : ∀ c ∈ cs, Proper c) (c e : List Char) :
    components (ofComponents (cs ++ [c]) ++ e) =
      ((Text.pieces '/' (c ++ e)).foldl resolve cs.reverse).reverse := by
  have start : resolve [] [] = [] := rfl
  rw [ofComponents_append (.inl (by simp)), joined, List.append_assoc, List.cons_append, components,
    pieces_steps (fun c hc => (proper c hc).noSlash), List.foldl_append, List.foldl_cons, start,
    foldl_resolve_of_proper proper, List.append_nil]

/-- An extension may be put behind a path before it is joined, or after. -/
theorem components_extended (hq : q ≠ []) (last : Proper (lastName q)) (p e : List Char) :
    components (ofComponents (components (appended p q)) ++ e) =
      components (appended p (q ++ e)) := by
  obtain ⟨init, pieces⟩ := exists_pieces q
  have whole := pieces []
  have slash : ∀ c ∈ init, '/' ∉ c := fun c hc =>
    noSlash_of_mem_pieces (p := q ++ []) (whole ▸ List.mem_append_left _ hc)
  rw [List.append_nil, List.append_nil, pieces_of_noSlash (noSlash_lastName q)] at whole
  have before : components (appended p q) =
      (init.foldl resolve (origin p q)).reverse ++ [lastName q] := by
    rw [components_appended_eq, whole, List.foldl_append, List.foldl_cons, List.foldl_nil,
      resolve_of_proper last, List.reverse_cons]
  have proper : ∀ c ∈ (init.foldl resolve (origin p q)).reverse, Proper c := fun c hc =>
    proper_of_mem_foldl proper_of_mem_origin slash c (List.mem_reverse.1 hc)
  rw [before, components_behind proper, List.reverse_reverse, components_appended_eq, pieces,
    List.foldl_append, origin_append hq]

/-- A name may be put behind a path before it is joined, or after. -/
theorem components_child (hq : q ≠ []) (hc : Proper c) (p : List Char) :
    components (appended (normalized (appended p q)) c) =
      components (appended p (q ++ '/' :: c)) := by
  have relative : c.head? ≠ some '/' := fun slash => hc.noSlash (List.mem_of_head? slash)
  rw [components_appended _ relative, components_normalized, components_appended_eq,
    components_appended_eq, pieces_append, List.foldl_append, origin_append hq,
    List.reverse_reverse]

/-- Reducing a relative path does not change where it leads. -/
theorem foldl_resolve_reduce (hk : ∀ c ∈ kept, c ≠ [] ∧ c ≠ dot) :
    (reduce false kept cs).reverse.foldl resolve base =
      cs.foldl resolve (kept.reverse.foldl resolve base) := by
  induction cs generalizing kept with
  | nil => rfl
  | cons c cs ih =>
    have further (hc : c ≠ [] ∧ c ≠ dot) :
        (reduce false (c :: kept) cs).reverse.foldl resolve base =
          cs.foldl resolve (resolve (kept.reverse.foldl resolve base) c) := by
      rw [ih (List.forall_mem_cons.2 ⟨hc, hk⟩), List.reverse_cons, List.foldl_append]
      rfl
    rw [reduce.eq_def, List.foldl_cons]
    dsimp only
    split
    · rename_i nothing
      rw [ih hk, resolve, if_pos nothing]
    · rename_i something
      have hc := not_or.1 something
      split
      · exact further hc
      · rename_i up
        have up := Decidable.not_not.1 up
        cases kept with
        | nil => exact further hc
        | cons k ks =>
          obtain ⟨named, others⟩ := List.forall_mem_cons.1 hk
          dsimp only
          split
          · exact further hc
          · rename_i down
            have back (before : List (List Char)) : resolve (resolve before k) c = before := by
              rw [resolve, if_neg something, if_pos up, resolve, if_neg (not_or.2 named),
                if_neg down, List.tail_cons]
            rw [ih others, List.reverse_cons, List.foldl_append, List.foldl_cons, List.foldl_nil,
              back]

theorem collapsed_ne_nil (p : List Char) : collapsed p ≠ [] := by
  unfold collapsed
  dsimp only
  split
  · simp [dot]
  · rename_i some
    exact some

theorem noSlash_of_mem_reduce (h : c ∈ reduce false [] (Text.pieces '/' p)) : '/' ∉ c :=
  noSlash_of_mem_pieces ((mem_of_mem_reduce h).resolve_left (by simp))

/-- An absolute path is collapsed to its components, behind one slash or two. -/
theorem collapsed_of_absolute (h : p.head? = some '/') :
    collapsed p = ofComponents (components p) ∨
      collapsed p = '/' :: ofComponents (components p) := by
  obtain ⟨q, rfl⟩ := List.head?_eq_some_iff.1 h
  have reduced : (reduce true [] (Text.pieces '/' ('/' :: q))).reverse = components ('/' :: q) := by
    rw [reduce_eq_foldl (by simp) fun _ => noSlash_of_mem_pieces, components]
  have slashes : leading ('/' :: q) = 1 ∨ leading ('/' :: q) = 2 := leading_rooted ('/' :: q)
  unfold collapsed
  dsimp only
  rcases slashes with one | two
  · refine .inl ?_
    simp [one, reduced, ofComponents]
  · refine .inr ?_
    simp [two, reduced, ofComponents, List.replicate]

theorem components_cons_slash (p : List Char) : components ('/' :: p) = components p := by
  simp [components, Text.pieces, resolve]

theorem named_of_mem_reduce (hk : ∀ c ∈ kept, c ≠ [] ∧ c ≠ dot) (h : c ∈ reduce false kept cs) :
    c ≠ [] ∧ c ≠ dot := by
  induction cs generalizing kept with
  | nil => exact hk c h
  | cons d cs ih =>
    rw [reduce.eq_def] at h
    dsimp only at h
    split at h
    · exact ih hk h
    · rename_i named
      have more : ∀ c ∈ d :: kept, c ≠ [] ∧ c ≠ dot :=
        List.forall_mem_cons.2 ⟨not_or.1 named, hk⟩
      split at h
      · exact ih more h
      · split at h
        · exact ih more h
        · split at h
          · exact ih more h
          · exact ih (List.forall_mem_cons.1 hk).2 h

/-- A relative path is collapsed to one without empty pieces that leads to the same place. -/
theorem collapsed_relative (h : x.head? ≠ some '/') (base : List (List Char)) :
    (∀ c ∈ Text.pieces '/' (collapsed x), c ≠ []) ∧
      (Text.pieces '/' (collapsed x)).foldl resolve base =
        (Text.pieces '/' x).foldl resolve base := by
  have led : (reduce false [] (Text.pieces '/' x)).reverse.foldl resolve base =
      (Text.pieces '/' x).foldl resolve base := foldl_resolve_reduce (by simp)
  have named : ∀ c ∈ (reduce false [] (Text.pieces '/' x)).reverse, c ≠ [] ∧ '/' ∉ c := by
    intro c hc
    have member := List.mem_reverse.1 hc
    exact ⟨(named_of_mem_reduce (by simp) member).1, noSlash_of_mem_reduce member⟩
  rw [collapsed_of_relative h, ← led]
  generalize (reduce false [] (Text.pieces '/' x)).reverse = ls at named
  split
  · rename_i empty
    have none : ls = [] := by
      by_contra some
      have pieces := pieces_joined (fun c hc => (named c hc).2) some
      rw [empty] at pieces
      exact (named [] (by simp [← pieces, Text.pieces])).1 rfl
    rw [none]
    exact ⟨by decide, rfl⟩
  · rename_i some
    have pieces := pieces_joined (fun c hc => (named c hc).2) (by rintro rfl; exact some rfl)
    rw [pieces]
    exact ⟨fun c hc => (named c hc).1, rfl⟩

theorem relative_of_pieces (h : ∀ c ∈ Text.pieces '/' p, c ≠ []) : p.head? ≠ some '/' := by
  intro slash
  obtain ⟨q, rfl⟩ := List.head?_eq_some_iff.1 slash
  exact h [] (by simp [Text.pieces]) rfl

/-- Collapsing a path does not change where it leads. -/
theorem components_appended_collapsed (p x : List Char) :
    components (appended p (collapsed x)) = components (appended p x) := by
  by_cases absolute : x.head? = some '/'
  · have alone {y : List Char} (h : y.head? = some '/') : appended p y = y := by
      obtain ⟨z, rfl⟩ := List.head?_eq_some_iff.1 h
      rfl
    rw [alone absolute, alone (head_collapsed absolute)]
    rcases collapsed_of_absolute absolute with one | two
    · rw [one, components_ofComponents proper_of_mem_components]
    · rw [two, components_cons_slash, components_ofComponents proper_of_mem_components]
  · obtain ⟨named, led⟩ := collapsed_relative absolute (components p).reverse
    rw [components_appended p (relative_of_pieces named), components_appended p absolute, led]

theorem getLast_pieces (p : List Char) : (Text.pieces '/' p).getLast? = some (lastName p) := by
  obtain ⟨init, pieces⟩ := exists_pieces p
  have whole := pieces []
  rw [List.append_nil, List.append_nil, pieces_of_noSlash (noSlash_lastName p)] at whole
  rw [whole, List.getLast?_append]
  rfl

theorem lastName_cons_slash (p : List Char) : lastName ('/' :: p) = lastName p := by
  have last := getLast_pieces ('/' :: p)
  rw [Text.pieces, if_pos rfl, List.getLast?_cons, getLast_pieces] at last
  exact (Option.some.inj last).symm

theorem lastName_ofComponents (proper : ∀ c ∈ cs, Proper c) (some : cs ≠ []) :
    lastName (ofComponents cs) ∈ cs := by
  have pieces := pieces_joined (fun c hc => (proper c hc).noSlash) some
  rw [ofComponents, lastName_cons_slash]
  exact List.mem_of_getLast? ((congrArg List.getLast? pieces).symm.trans (getLast_pieces _))

/-- Only the top is collapsed to a path without a last name. -/
theorem collapsed_of_lastName (h : lastName (collapsed x) = []) :
    collapsed x = ['/'] ∨ collapsed x = ['/', '/'] := by
  by_cases absolute : x.head? = some '/'
  · have name : lastName (collapsed x) = lastName (ofComponents (components x)) := by
      rcases collapsed_of_absolute absolute with one | two
      · rw [one]
      · rw [two, lastName_cons_slash]
    have top : components x = [] := by
      by_contra some
      have member := lastName_ofComponents proper_of_mem_components some
      rw [← name, h] at member
      exact (proper_of_mem_components [] member).nonempty rfl
    have shape := collapsed_of_absolute absolute
    rwa [top] at shape
  · have last := getLast_pieces (collapsed x)
    rw [h] at last
    exact ((collapsed_relative absolute []).1 [] (List.mem_of_getLast? last) rfl).elim

theorem join_cons (p q : String) : join p [q] = String.ofList (ofComponents
    (components (appended p.toList q.toList))) := by
  simp only [join, List.foldl_cons, List.foldl_nil, normalize, append, String.toList_ofList,
    normalized_eq]

/-- What is joined to a path is joined to its normal form. -/
theorem join_normalize (p q : String) : join (normalize p) [q] = join p [q] := by
  have same := components_normalized p.toList
  rw [join_cons, join_cons, components_appended_eq, components_appended_eq, normalize,
    String.toList_ofList, origin_of_components same]

theorem join_join (p q r : String) : join (join p [q]) [r] = join p [q, r] := by
  have first : join p [q] = normalize (append p q) := by
    simp only [join, List.foldl_cons, List.foldl_nil]
  rw [first, join_normalize]
  simp only [join, List.foldl_cons, List.foldl_nil]

theorem join_collapse (p q : String) : join p [collapse q] = join p [q] := by
  rw [join_cons, join_cons, collapse, String.toList_ofList, components_appended_collapsed]

theorem normalize_join_append (p q e : String) : normalize (join p [q] ++ e) =
    String.ofList (ofComponents (components
      (ofComponents (components (appended p.toList q.toList)) ++ e.toList))) := by
  rw [join_cons, normalize, String.toList_append, String.toList_ofList, normalized_eq]

/-- An extension may be put behind a path before it is joined, or after, if its last name is a
proper one. -/
theorem join_extended {q : String} (hq : q ≠ "") (last : Proper (lastName q.toList))
    (p e : String) : normalize (join p [q] ++ e) = join p [q ++ e] := by
  have some : q.toList ≠ [] := fun empty => hq (String.toList_eq_nil_iff.1 empty)
  rw [normalize_join_append, join_cons, String.toList_append, components_extended some last]

/-- The same holds of every path as short as it can be that does not end in `.` or `..`. -/
theorem join_collapse_extended {q : String} (notDot : lastName (collapse q).toList ≠ dot)
    (notDots : lastName (collapse q).toList ≠ dots) (p e : String) :
    normalize (join p [q] ++ e) = join p [collapse q ++ e] := by
  have shape : (collapse q).toList = collapsed q.toList := by rw [collapse, String.toList_ofList]
  rw [shape] at notDot notDots
  by_cases nameless : lastName (collapsed q.toList) = []
  · rw [← join_collapse, normalize_join_append, join_cons, String.toList_append, shape]
    rcases collapsed_of_lastName nameless with one | two
    · rw [one]
      rfl
    · rw [two]
      exact congrArg (fun cs => String.ofList (ofComponents cs)) (components_cons_slash _).symm
  · have last : Proper (lastName (collapse q).toList) :=
      shape ▸ ⟨nameless, notDot, notDots, noSlash_lastName _⟩
    have some : collapse q ≠ "" := fun empty =>
      collapsed_ne_nil q.toList (shape ▸ congrArg String.toList empty)
    rw [← join_collapse, join_extended some last]

theorem join_child {q : String} (hq : q ≠ "") (hc : Proper c) (p : String) :
    join (join p [q]) [String.ofList c] = join p [q ++ String.ofList ('/' :: c)] := by
  have some : q.toList ≠ [] := fun empty => hq (String.toList_eq_nil_iff.1 empty)
  rw [join_cons, join_cons p (q ++ _), String.toList_append, String.toList_ofList,
    String.toList_ofList, ← components_child some hc, join_cons, String.toList_ofList,
    normalized_eq]

theorem toList_join (p q : String) :
    (join p [q]).toList = ofComponents (components (appended p.toList q.toList)) := by
  rw [join_cons, String.toList_ofList]

theorem components_join (hc : Proper c) (p : String) :
    components (join p [String.ofList c]).toList = components p.toList ++ [c] := by
  have relative : c.head? ≠ some '/' := fun slash => hc.noSlash (List.mem_of_head? slash)
  rw [toList_join, components_ofComponents proper_of_mem_components, String.toList_ofList,
    components_appended _ relative, pieces_of_noSlash hc.noSlash, List.foldl_cons, List.foldl_nil,
    resolve_of_proper hc, List.reverse_cons, List.reverse_reverse]

theorem components_join_append (hc : Proper c) (he : '/' ∉ e) (p : String) :
    components ((join p [String.ofList c]).toList ++ e) = components p.toList ++ [c ++ e] := by
  have relative : c.head? ≠ some '/' := fun slash => hc.noSlash (List.mem_of_head? slash)
  have slash : '/' ∉ c ++ e := by simp [hc.noSlash, he]
  rw [toList_join, String.toList_ofList, components_appended _ relative,
    pieces_of_noSlash hc.noSlash, List.foldl_cons, List.foldl_nil, resolve_of_proper hc,
    List.reverse_cons, List.reverse_reverse, components_behind proper_of_mem_components,
    pieces_of_noSlash slash, List.foldl_cons, List.foldl_nil, resolve_of_proper (hc.append he),
    List.reverse_cons, List.reverse_reverse]

/-- An extension that leads from a path to a name behind it is that name. -/
theorem eq_of_components_append (he : '/' ∉ e) (hc : c.head? ≠ some '.')
    (h : components (p ++ e) = components p ++ [c]) : e = c := by
  obtain ⟨init, pieces⟩ := exists_pieces p
  have whole := pieces []
  have slash : '/' ∉ lastName p ++ e := by simp [noSlash_lastName, he]
  rw [List.append_nil, List.append_nil, pieces_of_noSlash (noSlash_lastName p)] at whole
  rw [components, components, pieces, whole, pieces_of_noSlash slash, List.foldl_append,
    List.foldl_append, ← List.reverse_cons, List.reverse_inj] at h
  simp only [List.foldl_cons, List.foldl_nil] at h
  generalize init.foldl resolve [] = kept at h
  -- All but the last name is the same on both sides, so that name alone cannot lead anywhere.
  have fewer : kept.length ≤ (resolve kept (lastName p)).length + 1 := by
    unfold resolve
    split
    · omega
    · split
      · rw [List.length_tail]
        omega
      · rw [List.length_cons]
        omega
  have lengths := congrArg List.length h
  rw [List.length_cons] at lengths
  rw [resolve] at h lengths
  split at h
  · rename_i nothing
    have before : lastName p = [] ∨ lastName p = dot := by
      rcases nothing with empty | single
      · exact .inl (List.append_eq_nil_iff.1 empty).1
      · exact (List.append_eq_singleton_iff.1 single).imp And.left And.left
    rw [if_pos nothing, resolve, if_pos before] at lengths
    omega
  · rename_i something
    rw [if_neg something] at lengths
    split at h
    · rename_i up
      rw [if_pos up, List.length_tail] at lengths
      omega
    · obtain ⟨same, rest⟩ := List.cons.inj h
      have here : (lastName p).head? ≠ some '.' := by
        intro first
        obtain ⟨r, hr⟩ := List.head?_eq_some_iff.1 first
        exact hc (by rw [← same, hr]; rfl)
      have notDot : lastName p ≠ dot := fun dot => here (by rw [dot]; rfl)
      have notDots : lastName p ≠ dots := fun dots => here (by rw [dots]; rfl)
      by_cases empty : lastName p = []
      · rwa [empty, List.nil_append] at same
      · have lengths := congrArg List.length rest
        rw [resolve, if_neg (not_or.2 ⟨empty, notDot⟩), if_neg notDots, List.length_cons] at lengths
        omega

namespace Inner

theorem proper_lastName (hi : Inner i) : Proper (lastName i.toList) := by
  obtain ⟨cs, nonempty, proper, path⟩ := hi.toList_eq
  have pieces := pieces_joined (fun c hc => (proper c hc).noSlash) nonempty
  have last := getLast_pieces i.toList
  rw [path, pieces, ← path] at last
  exact proper _ (List.mem_of_getLast? last)

/-- Joining two parts one after the other and joining them as short as they can be are the same. -/
theorem join_pair_collapse (hi : Inner i) (n : String) :
    join root [i, n] = join root [collapse (append i n)] := by
  by_cases absolute : n.toList.head? = some '/'
  · obtain ⟨q, hq⟩ := List.head?_eq_some_iff.1 absolute
    have alone (r : List Char) : appended r n.toList = n.toList := by
      rw [hq]
      rfl
    rw [← join_join, join_collapse, join_cons, join_cons root (append i n), append,
      String.toList_ofList, alone, alone, alone]
  · rw [join_collapse, append, hi.appended_eq absolute, hi.join_pair absolute]
    refine congrArg (fun q => join root [q]) (String.toList_injective ?_)
    simp

end Inner

end PluginHost.Path
