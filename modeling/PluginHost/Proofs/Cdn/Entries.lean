import PluginHost.Proofs.Cdn.Loading
import PluginHost.Proofs.Module.Requests
import PluginHost.Proofs.Path.Entries

/-!
What a downloaded package resolves to. The download and the finder go by the same metadata, so the
finder is led to the entry that was downloaded, unless metadata leads it to itself or the entry lies
where the finder does not look: next to the package, behind `..`, or in an index directory that
metadata does not name.
-/
namespace PluginHost

namespace Finder

variable {p : Finder} {store : Store} {path : String}

/-- Nothing answers a path: there is no file at any of the places that it may stand for. -/
structure Misses (p : Finder) (store : Store) (path : String) : Prop where
  file : p.file? store path = none
  entry : ∀ m name, store.read? (Path.join path ["package.json"]) = some m →
    mainEntry m = .ok (some name) → p.file? store (Path.join path [name]) = none ∧
      p.file? store (Path.join (Path.join path [name]) ["index"]) = none
  index : p.file? store (Path.join path ["index"]) = none

theorem misses_of_resolvePath (h : p.resolvePath store path = .ok none) : p.Misses store path := by
  unfold resolvePath at h
  split at h
  · cases h
  · rename_i file
    cases through : p.throughMetadata store path with
    | error why =>
      rw [through] at h
      cases h
    | ok found =>
      rw [through] at h
      obtain ⟨rfl, index⟩ := Option.or_eq_none_iff.1 (Except.ok.inj h)
      refine ⟨file, fun m name metadata main => ?_, index⟩
      rw [throughMetadata, metadata] at through
      dsimp only at through
      rw [main] at through
      exact Option.or_eq_none_iff.1 (Except.ok.inj through)

end Finder

namespace Cdn

open PluginHost.Path

variable {cdn : Cdn} {finder : Finder} {d e i p q c name : String} {m : Content} {fs : Files}
  {f : String × Content} {asked : List String}

/-- Download and finder read the entry from metadata alike, but for want of one the download goes by
the name `index`. -/
theorem mainEntry_of_entryName (h : entryName m = .ok name) :
    Finder.mainEntry m = .ok (some name) ∨ Finder.mainEntry m = .ok none ∧ name = "index" := by
  cases decoded : Json.decode m with
  | error why =>
    rw [entryName, decoded] at h
    cases h
  | ok cs =>
    cases parsed : Json.ofChars cs with
    | error why =>
      rw [entryName, decoded] at h
      dsimp only at h
      rw [parsed] at h
      exact .inr ⟨Finder.mainEntry_of_nameless (.garbled decoded parsed), (Except.ok.inj h).symm⟩
    | ok v =>
      rw [HasMain.mainEntry_eq ⟨cs, v, decoded, parsed, rfl⟩]
      rw [entryName, decoded] at h
      dsimp only at h
      rw [parsed] at h
      dsimp only at h
      split at h
      · rename_i s text
        rw [text]
        split at h
        · rename_i empty
          exact .inr ⟨by rw [empty]; rfl, (Except.ok.inj h).symm⟩
        · rename_i some
          obtain rfl := Except.ok.inj h
          exact .inl (by simp [Json.text?, Option.filter, some])
      · rename_i other
        split at h
        · refine .inr ⟨?_, (Except.ok.inj h).symm⟩
          cases main : (v.field? "main").getD .null with
          | text s => exact (other s main).elim
          | _ => rfl
        · cases h

/-- A path of a package, with a network and a finder that go by the same extensions. -/
structure Package (cdn : Cdn) (finder : Finder) (p d : String) : Prop where
  root : normalize cdn.root = cdn.root
  below : below? cdn.root (normalize p) = some d
  whole : PackageName.ofRequest d = d
  /-- The packages root itself is none. -/
  strict : d ≠ ""
  extensions : ∀ e, e ∈ finder.extensions ↔ e ∈ cdn.extensions

namespace Package

variable (k : Package cdn finder p d)

include k

theorem inner : Inner d := by
  have below := k.below
  rw [← k.root] at below
  exact (inner_of_below? below).resolve_right fun top => k.strict top.1

theorem join_eq : join cdn.root [d] = normalize p := by
  rw [below?_eq_some_iff.1 k.below, ← k.root, k.inner.join_eq]

theorem join_part (n : String) : join p [n] = join cdn.root [d, n] := by
  rw [← join_normalize, ← k.join_eq, join_join]

theorem join_entry (n : String) : join p [n] = join cdn.root [collapse (append d n)] := by
  rw [k.join_part, k.inner.join_pair_collapse]

theorem join_index : join p ["index"] = join cdn.root [d ++ "/index"] := by
  rw [k.join_entry, k.inner.collapse_index]

end Package

theorem proper_lastName_index (q : String) : Proper (lastName (q ++ "/index").toList) := by
  have name : lastName (q ++ "/index").toList = "index".toList := by
    simp [lastName]
  exact name ▸ proper_index

/-- An extension may be put behind an index before or after it is joined to the root. -/
theorem join_index_extended (root q e : String) :
    normalize (join root [q ++ "/index"] ++ e) = join root [q ++ "/index" ++ e] :=
  join_extended (by simp) (proper_lastName_index q) root e

/-- Whether the finder looks for a path at a place of the network. -/
def LooksFor (cdn : Cdn) (finder : Finder) (path q : String) : Prop :=
  ∃ c ∈ finder.candidates path, normalize c = join cdn.root [q]

namespace Package

variable (k : Package cdn finder p d)

theorem looksFor_self (same : normalize i = join cdn.root [q]) : cdn.LooksFor finder i q :=
  ⟨i, Finder.mem_candidates.2 (.inl rfl), same⟩

include k

theorem looksFor_extended (member : e ∈ cdn.extensions)
    (same : normalize (i ++ e) = join cdn.root [q]) : cdn.LooksFor finder i q :=
  ⟨i ++ e, Finder.mem_candidates.2 (.inr ⟨e, (k.extensions e).2 member, rfl⟩), same⟩

theorem looksFor_file (member : q ∈ cdn.filePaths d) :
    cdn.LooksFor finder p q ∨ normalize p ≠ p ∧ ∃ e ∈ cdn.extensions, q = d ++ e := by
  rcases List.mem_cons.1 member with rfl | further
  · exact .inl (looksFor_self k.join_eq.symm)
  · split at further
    · cases further
    · obtain ⟨e, he, rfl⟩ := List.mem_map.1 further
      by_cases spelled : normalize p = p
      · refine .inl (k.looksFor_extended he ?_)
        rw [← k.join_eq.trans spelled, join_extended k.strict k.inner.proper_lastName]
      · exact .inr ⟨spelled, e, he, rfl⟩

theorem looksFor_index (member : q = d ++ "/index" ∨ q ∈ cdn.indexes d) :
    cdn.LooksFor finder (join p ["index"]) q := by
  rcases member with rfl | extended
  · exact looksFor_self (by rw [k.join_index, join, normalize_normalize])
  · obtain ⟨e, he, rfl⟩ := List.mem_map.1 extended
    exact k.looksFor_extended he (by rw [k.join_index, join_index_extended])

theorem looksFor_entry (member : q ∈ cdn.entryPaths d name) :
    cdn.LooksFor finder (join p [name]) q ∨
      cdn.LooksFor finder (join (join p [name]) ["index"]) q ∨
      (lastName (collapse (append d name)).toList = dot ∨
        lastName (collapse (append d name)).toList = dots) ∧
        ∃ e ∈ cdn.extensions, q = collapse (append d name) ++ e := by
  rcases List.mem_cons.1 member with rfl | further
  · exact .inl (looksFor_self (by rw [k.join_entry, join, normalize_normalize]))
  · split at further
    · cases further
    · rcases List.mem_append.1 further with extended | indexed
      · obtain ⟨e, he, rfl⟩ := List.mem_map.1 extended
        by_cases up : lastName (collapse (append d name)).toList = dot ∨
            lastName (collapse (append d name)).toList = dots
        · exact .inr (.inr ⟨up, e, he, rfl⟩)
        · obtain ⟨notDot, notDots⟩ := not_or.1 up
          refine .inl (k.looksFor_extended he ?_)
          rw [k.join_entry, join_collapse, join_collapse_extended notDot notDots]
      · obtain ⟨e, he, rfl⟩ := List.mem_map.1 indexed
        have some : collapse (append d name) ≠ "" := fun empty =>
          collapsed_ne_nil (append d name).toList (String.ofList_eq_empty_iff.1 empty)
        have inner : join (join p [name]) ["index"] =
            join cdn.root [collapse (append d name) ++ "/index"] := by
          rw [k.join_entry]
          exact join_child some proper_index cdn.root
        refine .inr (.inl (k.looksFor_extended he ?_))
        rw [inner, join_index_extended]

theorem looksFor_unnamed (member : q ∈ cdn.entryPaths d "index") :
    cdn.LooksFor finder (join p ["index"]) q ∨
      ∃ e ∈ cdn.extensions, q = d ++ "/index/index" ++ e := by
  rw [entryPaths, k.inner.collapse_index] at member
  rcases List.mem_cons.1 member with rfl | further
  · exact .inl (k.looksFor_index (.inl rfl))
  · rw [hasExtension_index] at further
    rcases List.mem_append.1 further with extended | indexed
    · exact .inl (k.looksFor_index (.inr extended))
    · obtain ⟨e, he, rfl⟩ := List.mem_map.1 indexed
      have twice : d ++ "/index" ++ "/index" = d ++ "/index/index" := String.append_assoc ..
      exact .inr ⟨e, he, by rw [twice]⟩

end Package

/-- What a download of a package gives: one file, and the package's metadata if there is any. -/
inductive Gives (cdn : Cdn) (p d : String) (f : String × Content) : Files → Prop where
  | beside {q : String} (bare : cdn.Lacks (d ++ "/package.json")) (member : q ∈ cdn.filePaths d)
      (placed : cdn.Placed q f) : Gives cdn p d f (Table.ofList [f])
  | bare {q : String} (bare : cdn.Lacks (d ++ "/package.json")) (member : q ∈ cdn.indexes d)
      (placed : cdn.Placed q f) : Gives cdn p d f (Table.ofList [f])
  | named {m : Content} {name q : String} (metadata : cdn.Holds (d ++ "/package.json") m)
      (named : entryName m = .ok name) (member : q ∈ cdn.entryPaths d name)
      (placed : cdn.Placed q f) :
      Gives cdn p d f (Table.ofList [(join p ["package.json"], m), f])

theorem Lists.lacks (hl : cdn.Lists d (.ok fs) asked) (empty : fs.isEmpty = true) :
    cdn.Lacks (d ++ "/package.json") := by
  cases hl with
  | bare lacks index => exact lacks
  | @package _ _ m name found metadata named entry =>
    have member : join cdn.root [d, "package.json"] ∈
        (Table.ofList ((join cdn.root [d, "package.json"], m) :: found.toList)).keys :=
      Table.mem_keys_ofList.2 (by simp)
    cases empty.symm.trans (isEmpty_of_mem_keys member)

theorem Lists.gives (hl : cdn.Lists d (.ok fs) asked) (k : Package cdn finder p d)
    (hf : f ∈ fs.entries) (entry : f.1 ≠ join p ["package.json"]) : cdn.Gives p d f fs := by
  cases hl with
  | @bare _ _ found lacks index =>
    have same := Option.mem_toList.1 (Table.mem_of_mem_ofList hf)
    subst same
    obtain ⟨q, member, placed⟩ := index.placed
    exact .bare lacks member placed
  | @package _ _ m name found metadata named search =>
    rw [← k.join_part] at hf ⊢
    rcases List.mem_cons.1 (Table.mem_of_mem_ofList hf) with rfl | rest
    · exact (entry rfl).elim
    · have same := Option.mem_toList.1 rest
      subst same
      obtain ⟨q, member, placed⟩ := search.placed
      exact .named metadata named member placed

theorem Retrieves.gives (hr : cdn.Retrieves d (.ok fs) asked) (k : Package cdn finder p d)
    (hf : f ∈ fs.entries) (entry : f.1 ≠ join p ["package.json"]) : cdn.Gives p d f fs := by
  cases hr with
  | file bare search =>
    obtain ⟨_, _, listing, empty⟩ := bare k.whole
    obtain rfl := List.mem_singleton.1 (Table.mem_of_mem_ofList hf)
    obtain ⟨q, member, placed⟩ := search.placed
    exact .beside (listing.lacks empty) member placed
  | package whole listing sub some => exact listing.gives k hf entry
  | directory part search listing sub => exact (part k.whole).elim
  | nothing whole bare empty search => cases hf

namespace Gives

variable (g : cdn.Gives p d f fs)

include g

theorem placed : ∃ q, cdn.Placed q f := by
  cases g with
  | beside bare member placed => exact ⟨_, placed⟩
  | bare bare member placed => exact ⟨_, placed⟩
  | named metadata named member placed => exact ⟨_, placed⟩

theorem normal : normalize f.1 = f.1 := by
  obtain ⟨q, placed⟩ := g.placed
  rw [placed.key, join, normalize_normalize]

theorem mem_keys : f.1 ∈ fs.keys := by
  cases g <;> exact Table.mem_keys_ofList.2 (by simp)

/-- The file itself is in the store, under every spelling of its path. -/
theorem isSome_read? (same : normalize c = f.1) :
    ((({} : Store).placeAll fs).read? c).isSome = true := by
  rw [← Store.read?_normalize, same]
  exact isSome_read?_placeAll g.mem_keys

/-- Besides it there is at most the metadata. -/
theorem of_read? {s : Content} (read : (({} : Store).placeAll fs).read? c = some s) :
    normalize c = f.1 ∧ s = f.2 ∨
      normalize c = join p ["package.json"] ∧ cdn.Holds (d ++ "/package.json") s := by
  have written : (Layer.empty.writeAll fs).read? c = some s := by
    simpa [Store.read?, Store.placeAll] using read
  obtain ⟨h, member, same, rfl⟩ := (Layer.mem_of_read?_writeAll written).resolve_left (by simp)
  have normal := g.normal
  cases g with
  | beside bare member' placed =>
    obtain rfl := List.mem_singleton.1 (Table.mem_of_mem_ofList member)
    exact .inl ⟨same.symm.trans normal, rfl⟩
  | bare bare member' placed =>
    obtain rfl := List.mem_singleton.1 (Table.mem_of_mem_ofList member)
    exact .inl ⟨same.symm.trans normal, rfl⟩
  | named metadata named member' placed =>
    rcases List.mem_cons.1 (Table.mem_of_mem_ofList member) with rfl | rest
    · refine .inr ⟨?_, metadata⟩
      rw [← same, join, normalize_normalize]
    · obtain rfl := List.mem_singleton.1 rest
      exact .inl ⟨same.symm.trans normal, rfl⟩

end Gives

/-- What a package resolves to after a download gave an entry for it. -/
inductive Answers (cdn : Cdn) (finder : Finder) (p d : String) (f : String × Content) :
    Except Failure (Option ModuleFile) → Prop where
  | entry : Answers cdn finder p d f (.ok (some ⟨f.1, f.2⟩))
  /-- Its own metadata is taken for its entry, or for a file that stands behind the package. -/
  | metadata {m : Content} (metadata : cdn.Holds (d ++ "/package.json") m)
      (why : (∃ e ∈ cdn.extensions, '/' ∈ e.toList ∨ e = "package.json") ∨
        ∃ name, Finder.mainEntry m = .ok (some name) ∧
          ∃ c ∈ finder.candidates (join p [name]), normalize c = join p ["package.json"]) :
      Answers cdn finder p d f (.ok (some ⟨join p ["package.json"], m⟩))
  /-- The metadata names no entry, and the download came to the index of the index. -/
  | nested {m : Content} {e : String} (metadata : cdn.Holds (d ++ "/package.json") m)
      (unnamed : Finder.mainEntry m = .ok none) (member : e ∈ cdn.extensions)
      (place : f.1 = join cdn.root [d ++ "/index/index" ++ e]) :
      Answers cdn finder p d f (.ok none)
  /-- The entry leads to `.` or `..`, and the file stands right behind these dots. -/
  | upward {m : Content} {name e : String} (metadata : cdn.Holds (d ++ "/package.json") m)
      (main : Finder.mainEntry m = .ok (some name))
      (up : lastName (collapse (append d name)).toList = dot ∨
        lastName (collapse (append d name)).toList = dots)
      (member : e ∈ cdn.extensions)
      (place : f.1 = join cdn.root [collapse (append d name) ++ e]) :
      Answers cdn finder p d f (.ok none)
  /-- The file stands behind the name of the package, but the path is spelled in another way. -/
  | beside {e : String} (bare : cdn.Lacks (d ++ "/package.json")) (spelled : normalize p ≠ p)
      (member : e ∈ cdn.extensions) (place : f.1 = join cdn.root [d ++ e]) :
      Answers cdn finder p d f (.ok none)

/-- A path that means the metadata of a package does not end in an index. -/
theorem slash_of_index (h : c ∈ finder.candidates (join q ["index"]))
    (same : normalize c = join p ["package.json"]) : ∃ e ∈ finder.extensions, '/' ∈ e.toList := by
  have leads : components c.toList = components p.toList ++ ["package.json".toList] := by
    rw [← components_join proper_metadata, String.ofList_toList, ← same, Path.normalize,
      String.toList_ofList, components_normalized]
  have last {name : List Char}
      (ends : components c.toList = components q.toList ++ [name]) :
      name = "package.json".toList :=
    List.singleton_inj.1 (List.append_inj_right' (ends.symm.trans leads) rfl)
  rcases Finder.mem_candidates.1 h with rfl | ⟨e, member, rfl⟩
  · exact absurd (last (components_join proper_index q)) (by decide)
  · refine ⟨e, member, ?_⟩
    by_contra none
    have ends := last ((congrArg components String.toList_append).trans
      (components_join_append proper_index none q))
    exact absurd (congrArg List.head? ends) (by simp)

namespace Package

variable (k : Package cdn finder p d)

include k

/-- An extension that leads from a package to its metadata. -/
theorem odd_of_file (h : c ∈ finder.candidates p) (same : normalize c = join p ["package.json"]) :
    ∃ e ∈ cdn.extensions, '/' ∈ e.toList ∨ e = "package.json" := by
  have leads : components c.toList = components p.toList ++ ["package.json".toList] := by
    rw [← components_join proper_metadata, String.ofList_toList, ← same, Path.normalize,
      String.toList_ofList, components_normalized]
  rcases Finder.mem_candidates.1 h with rfl | ⟨e, member, rfl⟩
  · simp at leads
  · refine ⟨e, (k.extensions e).1 member, ?_⟩
    by_cases slash : '/' ∈ e.toList
    · exact .inl slash
    · rw [String.toList_append] at leads
      exact .inr (String.toList_injective (eq_of_components_append slash (by decide) leads))

/-- Where the finder can come upon the metadata of the package. -/
theorem answers_metadata {file : ModuleFile} {store : Store}
    (metadata : cdn.Holds (d ++ "/package.json") m)
    (stored : ∀ s, store.read? (join p ["package.json"]) = some s → s = m)
    (finds : finder.Finds store p file) (place : file.path = join p ["package.json"])
    (source : file.source = m) :
    cdn.Answers finder p d f (.ok (some file)) := by
  have same : file = ⟨join p ["package.json"], m⟩ := by rw [← place, ← source]
  have odd {q : String} (found : finder.file? store (join q ["index"]) = some file) :
      ∃ e ∈ cdn.extensions, '/' ∈ e.toList ∨ e = "package.json" := by
    obtain ⟨c, member, -, path⟩ := Finder.candidate_of_file? found
    obtain ⟨e, he, slash⟩ := slash_of_index member (path.symm.trans place)
    exact ⟨e, (k.extensions e).1 he, .inl slash⟩
  rw [same]
  refine .metadata metadata ?_
  cases finds with
  | file found =>
    obtain ⟨c, member, -, path⟩ := Finder.candidate_of_file? found
    exact .inl (k.odd_of_file member (path.symm.trans place))
  | @entry m' name read main found =>
    obtain ⟨c, member, -, path⟩ := Finder.candidate_of_file? found
    exact .inr ⟨name, stored m' read ▸ main, c, member, path.symm.trans place⟩
  | entryIndex read main found => exact .inl (odd found)
  | index found => exact .inl (odd found)

end Package

namespace Gives

variable (g : cdn.Gives p d f fs) (k : Package cdn finder p d)
  (entry : f.1 ≠ join p ["package.json"])

include g

theorem not_looksFor (placed : cdn.Placed q f)
    (none : finder.file? (({} : Store).placeAll fs) i = none) : ¬ cdn.LooksFor finder i q := by
  rintro ⟨c, member, same⟩
  have found := Finder.isSome_file? member (g.isSome_read? (same.trans placed.key.symm))
  rw [none] at found
  cases found

include entry

/-- The metadata that the finder comes upon is that of the network, and it can be read. -/
theorem of_metadata (read : (({} : Store).placeAll fs).read? (join p ["package.json"]) = some m) :
    cdn.Holds (d ++ "/package.json") m ∧ ∃ name, entryName m = .ok name := by
  have normal : normalize (join p ["package.json"]) = join p ["package.json"] := by
    rw [join, normalize_normalize]
  rcases g.of_read? read with ⟨same, -⟩ | ⟨-, metadata⟩
  · exact (entry (same.symm.trans normal)).elim
  · refine ⟨metadata, ?_⟩
    cases g with
    | beside bare member placed => exact (metadata.not_lacks bare).elim
    | bare bare member placed => exact (metadata.not_lacks bare).elim
    | named metadata' named member placed => exact ⟨_, metadata'.unique metadata ▸ named⟩

include k

/-- The finder passes by the entry only where it does not look. -/
theorem answers_none (misses : finder.Misses (({} : Store).placeAll fs) p) :
    cdn.Answers finder p d f (.ok none) := by
  have whole := g
  cases g with
  | beside bare member placed =>
    obtain looks | ⟨spelled, e, he, rfl⟩ := k.looksFor_file member
    · exact (whole.not_looksFor placed misses.file looks).elim
    · exact .beside bare spelled he placed.key
  | bare bare member placed =>
    exact (whole.not_looksFor placed misses.index (k.looksFor_index (.inr member))).elim
  | @named m name q metadata named member placed =>
    have key : join p ["package.json"] ∈
        (Table.ofList [(join p ["package.json"], m), f]).keys :=
      Table.mem_keys_ofList.2 (by simp)
    obtain ⟨m', read⟩ := Option.isSome_iff_exists.1 (isSome_read?_placeAll key)
    obtain rfl := metadata.unique (whole.of_metadata entry read).1
    rcases mainEntry_of_entryName named with main | ⟨unnamed, rfl⟩
    · obtain ⟨file, index⟩ := misses.entry m name read main
      obtain looks | looks | ⟨up, e, he, rfl⟩ := k.looksFor_entry member
      · exact (whole.not_looksFor placed file looks).elim
      · exact (whole.not_looksFor placed index looks).elim
      · exact .upward metadata main up he placed.key
    · obtain looks | ⟨e, he, rfl⟩ := k.looksFor_unnamed member
      · exact (whole.not_looksFor placed misses.index looks).elim
      · exact .nested metadata unnamed he placed.key

end Gives

/-- A package whose download gives an entry resolves to that entry, but for metadata that leads to
itself or to a place where only the download looks, and for an entry next to a package whose path is
not spelled as it should be. -/
theorem entry_resolves (k : Package cdn finder p d) {before after : List String}
    (run : (cdn.download p).run.run before = (.ok fs, after)) (hf : f ∈ fs.entries)
    (entry : f.1 ≠ join p ["package.json"]) :
    cdn.Answers finder p d f (finder.resolvePath (({} : Store).placeAll fs) p) := by
  obtain ⟨asked, fetches⟩ := fetches_of_run run
  have g : cdn.Gives p d f fs := by
    cases fetches with
    | files below retrieved some =>
      obtain rfl := Option.some.inj (k.below.symm.trans below)
      exact retrieved.gives k hf entry
  cases resolved : finder.resolvePath (({} : Store).placeAll fs) p with
  | error why =>
    obtain ⟨absent, read, undecoded⟩ := Finder.resolvePath_eq_error_iff.1 resolved
    obtain ⟨-, name, named⟩ := g.of_metadata entry read
    have fails := Finder.mainEntry_eq_error_iff.2 ⟨_, undecoded, rfl⟩
    rcases mainEntry_of_entryName named with main | ⟨unnamed, -⟩
    · cases main.symm.trans fails
    · cases unnamed.symm.trans fails
  | ok found =>
    cases found with
    | none => exact g.answers_none k entry (Finder.misses_of_resolvePath resolved)
    | some file =>
      have stored := Finder.stored_of_resolvePath resolved
      rcases g.of_read? stored.read with ⟨place, source⟩ | ⟨place, metadata⟩
      · have same : file = ⟨f.1, f.2⟩ := by rw [← place, ← source, stored.normal]
        exact same ▸ .entry
      · refine k.answers_metadata metadata (fun s read => ?_) (Finder.finds_of_resolvePath resolved)
          (stored.normal.symm.trans place) rfl
        exact (g.of_metadata entry read).1.unique metadata

/-- The default network, with one file in it. -/
def withFile (place : String) : Cdn :=
  below "https://unpkg.com" "/node_modules" defaultExtensions fun url =>
    if url = "https://unpkg.com/" ++ place then .content "1".toUTF8.toList else .status 404

/-- A package whose entry lies in a directory of it resolves to its entry. -/
theorem entry_resolves_in_directory :
    ∃ fs asked f, ((withEntry "lib/a" "p/lib/a.js").download "/node_modules/p").run.run [] =
        (.ok fs, asked) ∧ f ∈ fs.entries ∧ f.1 = "/node_modules/p/lib/a.js" ∧
      (withEntry "lib/a" "p/lib/a.js").Answers (Finder.ofRoot "/node_modules") "/node_modules/p" "p"
        f ((Finder.ofRoot "/node_modules").resolvePath (({} : Store).placeAll fs)
          "/node_modules/p") := by
  have keys : (((withEntry "lib/a" "p/lib/a.js").download "/node_modules/p").run.run
      []).1.toOption.map Table.keys =
        some ["/node_modules/p/package.json", "/node_modules/p/lib/a.js"] := by
    decide +kernel
  obtain ⟨fs, asked, run, keys⟩ := exists_run_of_keys keys
  have member : "/node_modules/p/lib/a.js" ∈ fs.keys := by simp [keys]
  obtain ⟨f, hf, key⟩ := List.mem_map.1 member
  have package : Package (withEntry "lib/a" "p/lib/a.js") (Finder.ofRoot "/node_modules")
      "/node_modules/p" "p" := by
    refine ⟨by decide, by decide, by decide, by decide, fun e => ?_⟩
    show e ∈ Finder.defaultExtensions ↔ e ∈ defaultExtensions
    simp [Finder.defaultExtensions, defaultExtensions, or_left_comm]
  have apart : f.1 ≠ join "/node_modules/p" ["package.json"] := by
    rw [key]
    decide
  exact ⟨fs, asked, f, run, hf, key, entry_resolves package run hf apart⟩

/-- Whether a package resolves to some path, or to nothing, though an entry was downloaded. -/
def Mistakes (cdn : Cdn) (finder : Finder) (p entry : String) (found : Option String) : Prop :=
  ∃ fs asked, (cdn.download p).run.run [] = (.ok fs, asked) ∧ entry ∈ fs.keys ∧
    (finder.resolvePath (({} : Store).placeAll fs) p).map (·.map ModuleFile.path) = .ok found

def mistakes? (cdn : Cdn) (finder : Finder) (p entry : String) (found : Option String) : Bool :=
  match ((cdn.download p).run.run []).1 with
  | .error _ => false
  | .ok fs =>
    decide (entry ∈ fs.keys) &&
      match finder.resolvePath (({} : Store).placeAll fs) p with
      | .error _ => false
      | .ok file => decide (file.map ModuleFile.path = found)

theorem mistakes_of_mistakes? {entry : String} {found : Option String}
    (h : cdn.mistakes? finder p entry found = true) : cdn.Mistakes finder p entry found := by
  unfold mistakes? at h
  rcases run : (cdn.download p).run.run [] with ⟨why | fs, asked⟩
  · rw [run] at h
    cases h
  · rw [run] at h
    dsimp only at h
    rw [Bool.and_eq_true, decide_eq_true_iff] at h
    obtain ⟨member, h⟩ := h
    refine ⟨fs, asked, run, member, ?_⟩
    split at h
    · cases h
    · rename_i file resolved
      rw [resolved]
      exact congrArg Except.ok (of_decide_eq_true h)

/-- An entry is downloaded, but the package resolves to nothing: the metadata names no entry and the
index of its index is there; the entry is `..` and there is a file behind these dots; the path ends
in a slash and the file is next to the package. It resolves to its own metadata if that is what the
entry means behind an earlier extension, or what the package means behind one with a slash. -/
theorem entry_can_be_mistaken :
    (withEntry "" "p/index/index.js").Mistakes (.ofRoot "/node_modules") "/node_modules/p"
        "/node_modules/p/index/index.js" none ∧
      (withEntry ".." "..js").Mistakes (.ofRoot "/node_modules") "/node_modules/p"
        "/node_modules/..js" none ∧
      (withFile "p.js").Mistakes (.ofRoot "/node_modules") "/node_modules/p/"
        "/node_modules/p.js" none ∧
      (withEntry "package" "p/package.js").Mistakes
        (.ofRoot "/node_modules" [".json", ".py", ".js"]) "/node_modules/p"
        "/node_modules/p/package.js" (some "/node_modules/p/package.json") ∧
      (below "https://unpkg.com" "/node_modules" ["/package.json"]
          (Answer.withEntry "a.js" "p/a.js")).Mistakes (.ofRoot "/node_modules" ["/package.json"])
        "/node_modules/p" "/node_modules/p/a.js" (some "/node_modules/p/package.json") :=
  ⟨mistakes_of_mistakes? (by decide +kernel), mistakes_of_mistakes? (by decide +kernel),
    mistakes_of_mistakes? (by decide +kernel), mistakes_of_mistakes? (by decide +kernel),
    mistakes_of_mistakes? (by decide +kernel)⟩

end Cdn

end PluginHost
