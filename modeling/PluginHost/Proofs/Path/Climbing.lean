import PluginHost.Proofs.Path.Parents

/-!
Where a relative path leads from a directory. However it starts, it may climb above the directory on
its way. It then leads inside again just if it goes down by the very names that it climbed.
-/
namespace PluginHost.Path

variable {c p q : List Char} {cs : List (List Char)} {path root : String}

/-- A component that goes down one level. -/
def Named (c : List Char) : Prop := c ≠ [] ∧ c ≠ dot ∧ c ≠ dots

instance (c : List Char) : Decidable (Named c) := inferInstanceAs (Decidable (_ ∧ _ ∧ _))

/-- There are more `..` among some components than names for them to take back, where so many names
went before. -/
def Sinks (spare : Nat) (cs : List (List Char)) : Prop :=
  spare + cs.countP Named < cs.count dots

/-- A relative path comes above the directory that it starts in: up to some place it has more `..`
than names. -/
def Climbs (p : List Char) : Prop := ∃ before, before <+: Text.pieces '/' p ∧ Sinks 0 before

/-- A way from a directory: how many levels it climbed above its start, and the names that it went
down since, the last one first. -/
structure Way where
  up : Nat := 0
  down : List (List Char) := []

namespace Way

variable {w v : Way}

/-- One more component of a way: a `..` takes back a name, or climbs if none is left. -/
def step (w : Way) (c : List Char) : Way :=
  if c = [] ∨ c = dot then w
  else if c = dots then
    match w.down with
    | [] => { w with up := w.up + 1 }
    | _ :: ds => { w with down := ds }
  else { w with down := c :: w.down }

def along (w : Way) (cs : List (List Char)) : Way := cs.foldl step w

/-- The way of a relative path. -/
def of (p : List Char) : Way := along {} (Text.pieces '/' p)

/-- Where a way leads from a directory, both with the last component first. -/
def leads (w : Way) (base : List (List Char)) : List (List Char) := w.down ++ base.drop w.up

/-- What a component does to a way. -/
inductive Steps (w : Way) (c : List Char) : Way → Prop where
  | stays (nothing : c = [] ∨ c = dot) : Steps w c w
  | climbs (up : c = dots) (none : w.down = []) : Steps w c { w with up := w.up + 1 }
  | returns {d : List Char} {ds : List (List Char)} (up : c = dots) (some : w.down = d :: ds) :
      Steps w c { w with down := ds }
  | descends (named : Named c) : Steps w c { w with down := c :: w.down }

theorem steps (w : Way) (c : List Char) : w.Steps c (w.step c) := by
  unfold step
  split
  · exact .stays ‹_›
  · rename_i something
    split
    · split
      · exact .climbs ‹_› ‹_›
      · exact .returns ‹_› ‹_›
    · rename_i down
      exact .descends ⟨(not_or.1 something).1, (not_or.1 something).2, down⟩

theorem Steps.resolve_leads (h : w.Steps c v) (base : List (List Char)) :
    resolve (w.leads base) c = v.leads base := by
  rw [resolve]
  cases h with
  | stays nothing => rw [if_pos nothing]
  | climbs up none =>
    rw [up, if_neg (by decide), if_pos rfl]
    simp [leads, none]
  | returns up some =>
    rw [up, if_neg (by decide), if_pos rfl]
    simp [leads, some]
  | descends named =>
    rw [if_neg (not_or.2 ⟨named.1, named.2.1⟩), if_neg named.2.2]
    rfl

theorem foldl_resolve_leads (w : Way) (base cs : List (List Char)) :
    cs.foldl resolve (w.leads base) = (w.along cs).leads base := by
  induction cs generalizing w with
  | nil => rfl
  | cons c cs ih =>
    rw [List.foldl_cons, (w.steps c).resolve_leads, ih]
    rfl

theorem Steps.up_le (h : w.Steps c v) : w.up ≤ v.up := by
  cases h with
  | climbs => exact Nat.le_succ _
  | _ => exact Nat.le_refl _

theorem up_le_along (w : Way) (cs : List (List Char)) : w.up ≤ (w.along cs).up := by
  induction cs generalizing w with
  | nil => exact Nat.le_refl _
  | cons c cs ih => exact (w.steps c).up_le.trans (ih _)

theorem not_sinks_nil (spare : Nat) : ¬ Sinks spare [] := by
  simp [Sinks]

/-- A component that climbs sinks at once, any other changes how many names there are to take
back. -/
theorem Steps.sinks (h : w.Steps c v) : w.up < v.up ∧ Sinks w.down.length [c] ∨
    v.up = w.up ∧ ∀ cs, Sinks w.down.length (c :: cs) ↔ Sinks v.down.length cs := by
  cases h with
  | stays nothing =>
    have named : ¬ Named c := fun named => nothing.elim named.1 named.2.1
    have level : c ≠ dots := by
      rintro rfl
      exact absurd nothing (by decide)
    exact .inr ⟨rfl, fun cs => by simp [Sinks, named, level]⟩
  | climbs up none =>
    refine .inl ⟨Nat.lt_succ_self _, ?_⟩
    rw [up, none, Sinks]
    decide
  | returns up some =>
    subst up
    have named : ¬ Named dots := by decide
    refine .inr ⟨rfl, fun cs => ?_⟩
    have counts : (dots :: cs).countP Named = cs.countP Named :=
      List.countP_cons_of_neg (by simpa using named)
    rw [Sinks, Sinks, counts, List.count_cons_self, some, List.length_cons]
    dsimp only
    omega
  | descends named =>
    refine .inr ⟨rfl, fun cs => ?_⟩
    have counts : (c :: cs).countP Named = cs.countP Named + 1 :=
      List.countP_cons_of_pos (by simpa using named)
    rw [Sinks, Sinks, counts, List.count_cons_of_ne named.2.2, List.length_cons]
    omega

/-- A way climbs further just if some of its components from the first on sink. -/
theorem up_lt_along_iff (w : Way) (cs : List (List Char)) :
    w.up < (w.along cs).up ↔ ∃ before, before <+: cs ∧ Sinks w.down.length before := by
  induction cs generalizing w with
  | nil => simp [along, not_sinks_nil]
  | cons c cs ih =>
    have next : w.along (c :: cs) = (w.step c).along cs := rfl
    rw [next]
    -- A component that climbs sinks by itself. After any other it is up to the rest.
    rcases (w.steps c).sinks with ⟨climbed, sinks⟩ | ⟨level, sinks⟩
    · have start : [c] <+: c :: cs := List.prefix_append [c] cs
      exact ⟨fun _ => ⟨[c], start, sinks⟩, fun _ => climbed.trans_le (up_le_along _ cs)⟩
    · rw [← level, ih]
      constructor
      · rintro ⟨before, start, h⟩
        exact ⟨c :: before, List.cons_prefix_cons.2 ⟨rfl, start⟩, (sinks before).2 h⟩
      · rintro ⟨before, start, h⟩
        rcases List.prefix_cons_iff.1 start with rfl | ⟨rest, rfl, start'⟩
        · exact (not_sinks_nil _ h).elim
        · exact ⟨rest, start', (sinks rest).1 h⟩

end Way

theorem climbs_iff : Climbs p ↔ (Way.of p).up ≠ 0 := by
  rw [← Nat.pos_iff_ne_zero]
  exact (Way.up_lt_along_iff {} _).symm

instance (p : List Char) : Decidable (Climbs p) := decidable_of_iff _ climbs_iff.symm

/-- The path of a directory or of what is below it. -/
def Within (root path : String) : Prop :=
  path = normalize root ∨ (below? (normalize root) path).isSome = true

instance (root path : String) : Decidable (Within root path) := inferInstanceAs (Decidable (_ ∨ _))

/-- A path is below a directory just if it has more components, the first ones those of the
directory; all is below the top. -/
theorem isSome_below?_iff (proper : ∀ c ∈ cs, Proper c) :
    (below? (normalize root) (String.ofList (ofComponents cs))).isSome = true ↔
      ∃ ds, cs = components root.toList ++ ds ∧ (ds ≠ [] ∨ components root.toList = []) := by
  have behind {i : String} : String.ofList (ofComponents cs) = under (normalize root) ++ i ↔
      ofComponents cs = steps (components root.toList) ++ '/' :: i.toList := by
    rw [← toList_under_append, ← String.toList_inj, String.toList_ofList]
  rw [Option.isSome_iff_exists]
  simp only [below?_eq_some_iff, behind]
  constructor
  · rintro ⟨i, below⟩
    obtain ⟨ds, split, -, some⟩ := eq_append_of_ofComponents proper proper_of_mem_components below
    exact ⟨ds, split, some⟩
  · rintro ⟨ds, rfl, some⟩
    exact ⟨String.ofList (joined ds), by rw [ofComponents_append some, String.toList_ofList]⟩

theorem within_ofComponents (proper : ∀ c ∈ cs, Proper c) :
    Within root (String.ofList (ofComponents cs)) ↔ components root.toList <+: cs := by
  rw [Within, isSome_below?_iff proper]
  constructor
  · rintro (same | ⟨ds, rfl, -⟩)
    · have same := congrArg (fun s => components s.toList) same
      simp only [normalize_eq, String.toList_ofList, components_ofComponents proper,
        components_ofComponents proper_of_mem_components] at same
      exact same ▸ List.prefix_rfl
    · exact List.prefix_append ..
  · rintro ⟨ds, rfl⟩
    by_cases none : ds = []
    · left
      rw [none, List.append_nil, normalize_eq]
    · exact .inr ⟨ds, rfl, .inl none⟩

theorem normalize_join (path name : String) : normalize (join path [name]) = join path [name] :=
  normalize_normalize _

theorem within_top (top : normalize root = "/") (path : String) : Within root (normalize path) := by
  have below : normalize path = under "/" ++ String.ofList (joined (components path.toList)) := by
    rw [normalize_eq, ofComponents]
    exact String.toList_injective (by simp [under, Text.trimEndChar])
  rw [Within, top, below?_eq_some_iff.2 below]
  exact .inr rfl

/-- A name behind a path in the directory leads below the directory. -/
theorem isSome_below?_join (hc : Proper c) (h : Within root (normalize path)) :
    (below? (normalize root) (join path [String.ofList c])).isSome = true := by
  rw [normalize_eq, within_ofComponents proper_of_mem_components] at h
  obtain ⟨ds, split⟩ := h
  have whole : join path [String.ofList c] = String.ofList (ofComponents
      (components root.toList ++ (ds ++ [c]))) := by
    rw [← List.append_assoc, split, ← components_join hc, ← normalize_eq, normalize_join]
  have proper := proper_of_mem_components (p := (join path [String.ofList c]).toList)
  rw [components_join hc, ← split, List.append_assoc] at proper
  rw [whole, isSome_below?_iff proper]
  exact ⟨_, rfl, .inl (by simp)⟩

/-- The last names of a directory, as many as there are levels that a path climbs above it. -/
def climbed (root p : List Char) : List (List Char) :=
  (components root).drop ((components root).length - (Way.of p).up)

/-- Followed from a directory, the path climbs above it and does not go down again by the names that
it climbed. -/
structure Escapes (root p : List Char) : Prop where
  climbs : Climbs p
  lost : ¬ climbed root p <+: (Way.of p).down.reverse

theorem escapes_iff : Escapes p q ↔ ¬ climbed p q <+: (Way.of q).down.reverse := by
  refine ⟨Escapes.lost, fun lost => ⟨climbs_iff.2 fun level => lost ?_, lost⟩⟩
  simp [climbed, level]

instance (p q : List Char) : Decidable (Escapes p q) := decidable_of_iff _ escapes_iff.symm

theorem components_appended_way (p : List Char) (hq : q.head? ≠ some '/') :
    components (appended p q) = (components p).take ((components p).length - (Way.of q).up) ++
      (Way.of q).down.reverse := by
  have led := Way.foldl_resolve_leads {} (components p).reverse (Text.pieces '/' q)
  have start : Way.leads {} (components p).reverse = (components p).reverse := rfl
  rw [start] at led
  rw [components_appended p hq, led, ← Way.of, Way.leads, List.reverse_append, List.drop_reverse,
    List.reverse_reverse]

/-- A relative path leads into the directory that it is followed from, unless it escapes. -/
theorem within_join {q : String} (hq : q.toList.head? ≠ some '/') :
    Within root (join root [q]) ↔ ¬ Escapes root.toList q.toList := by
  rw [join_cons, within_ofComponents proper_of_mem_components, escapes_iff, not_not,
    components_appended_way _ hq, climbed]
  generalize (components root.toList).length - (Way.of q.toList).up = kept
  generalize components root.toList = rs
  -- What is not climbed is left in any case, so it depends on the climbed names alone.
  calc rs <+: rs.take kept ++ (Way.of q.toList).down.reverse ↔
        rs.take kept ++ rs.drop kept <+: rs.take kept ++ (Way.of q.toList).down.reverse := by
        rw [List.take_append_drop]
    _ ↔ rs.drop kept <+: (Way.of q.toList).down.reverse := List.prefix_append_right_inj _

end PluginHost.Path
