import PluginHost.Proofs.Cdn.Placement
import PluginHost.Proofs.Store.Filling

/-!
Loading what was downloaded. A download and the finder look for the file of a path each in its own
way. Where the download finds a file, the finder finds one among the files that it gives.
-/
namespace PluginHost.Cdn

open PluginHost.Path

variable {cdn : Cdn} {finder : Finder} {store : Store} {d e q p name : String} {m : Content}
  {fs : Files} {f : ModuleFile} {file : String × Content} {asked ps qs : List String}
  {r : Except Failure Files}

/-- Every answer is content or the absence of it. -/
def Plain (cdn : Cdn) : Prop := ∀ q, cdn.Lacks q ∨ ∃ c, cdn.Holds q c

/-- Whether a path resolves in an empty store after what a download of it gives was placed there. -/
def Recovers (cdn : Cdn) (finder : Finder) (p : String) : Prop :=
  ∃ fs asked f, (cdn.download p).run.run [] = (.ok fs, asked) ∧
    finder.resolvePath (({} : Store).placeAll fs) p = .ok (some f)

/-- Where a download looks for the file that a directory stands for. -/
inductive SeeksEntry (cdn : Cdn) (d : String) : String → Prop where
  | index {q : String} (bare : cdn.Lacks (d ++ "/package.json")) (member : q ∈ cdn.indexes d) :
      SeeksEntry cdn d q
  | named {q name : String} {m : Content} (metadata : cdn.Holds (d ++ "/package.json") m)
      (main : HasMain m (.text name)) (some : name ≠ "") (inside : Inner (collapse (append d name)))
      (member : q ∈ cdn.entryPaths d name) : SeeksEntry cdn d q
  | unnamed {q : String} {m : Content} {main : Json} (metadata : cdn.Holds (d ++ "/package.json") m)
      (has : HasMain m main) (nothing : main.isNothing = true)
      (member : q = d ++ "/index" ∨ q ∈ cdn.indexes d) : SeeksEntry cdn d q

/-- Where a download looks for the file that a path stands for. -/
inductive Seeks (cdn : Cdn) (d : String) : String → Prop where
  | file {q : String} (member : q ∈ cdn.filePaths d)
      (bare : PackageName.ofRequest d = d → cdn.Lacks (d ++ "/package.json")) : Seeks cdn d q
  | entry {q : String} (entry : cdn.SeeksEntry d q) : Seeks cdn d q

theorem Holds.unique {c c' : Content} (h : cdn.Holds q c) (h' : cdn.Holds q c') : c = c' :=
  Answer.content.inj (h.symm.trans h')

theorem Holds.not_lacks {c : Content} (h : cdn.Holds q c) : ¬ cdn.Lacks q := fun none => by
  rw [Holds, none] at h
  cases h

theorem Plain.not_refuses {why : Failure} (plain : cdn.Plain) : ¬ cdn.Refuses q why := by
  intro refuses
  cases refuses with
  | status answer other =>
    rcases plain q with lacks | ⟨c, holds⟩
    · rw [Lacks, answer] at lacks
      exact other (Answer.status.inj lacks)
    · rw [Holds, answer] at holds
      cases holds
  | unreachable answer =>
    rcases plain q with lacks | ⟨c, holds⟩
    · rw [Lacks, answer] at lacks
      cases lacks
    · rw [Holds, answer] at holds
      cases holds

theorem entryName_of_text (main : HasMain m (.text name)) (some : name ≠ "") :
    entryName m = .ok name := by
  obtain ⟨cs, v, decoded, parsed, main⟩ := main
  rw [entryName, decoded]
  dsimp only
  rw [parsed]
  dsimp only
  rw [main]
  simp [some]

theorem entryName_of_nothing {main : Json} (has : HasMain m main)
    (nothing : main.isNothing = true) : entryName m = .ok "index" := by
  obtain ⟨cs, v, decoded, parsed, main⟩ := has
  rw [entryName, decoded]
  dsimp only
  rw [parsed]
  dsimp only
  rw [main]
  split
  · exact congrArg Except.ok (if_pos (by simpa [Json.isNothing] using nothing))
  · exact if_pos nothing

/-- A search ends in its first part if anything is there. -/
theorem Searches.found_left {c : Content} (hs : cdn.Searches (ps ++ qs) (.ok (some file)) asked)
    (member : q ∈ ps) (holds : cdn.Holds q c) : ∃ q ∈ ps, cdn.Placed q file := by
  cases hs with
  | found split lacks placed =>
    rcases List.append_eq_append_iff.1 split with ⟨more, rfl, -⟩ | ⟨more, rfl, rest⟩
    · exact (holds.not_lacks (lacks q (List.mem_append_left _ member))).elim
    · cases more with
      | nil =>
        rw [List.append_nil] at member
        exact (holds.not_lacks (lacks q member)).elim
      | cons x more =>
        obtain ⟨rfl, -⟩ := List.cons.inj rest
        exact ⟨_, by simp, placed⟩

/-- Everything that was placed in an empty store is there. -/
theorem isSome_read?_placeAll {k : String} (hk : k ∈ fs.keys) :
    ((({} : Store).placeAll fs).read? k).isSome = true := by
  obtain ⟨f, hf, rfl⟩ := List.mem_map.1 hk
  have member : (Layer.empty.writeAll fs).contains f.1 = true :=
    Layer.contains_writeAll.2 (.inr ⟨f, hf, rfl⟩)
  simpa [Store.read?, Store.placeAll, Layer.contains] using member

/-- Nothing else is there. -/
theorem holds_of_read?_placeAll {c : Content}
    (all : ∀ f ∈ fs.entries, ∃ i, Inner i ∧ f.1 = under (normalize p) ++ i ∧ cdn.Holds i f.2)
    (hq : Inner q)
    (h : (({} : Store).placeAll fs).read? (under (normalize p) ++ q) = some c) : cdn.Holds q c := by
  have read : (Layer.empty.writeAll fs).read? (under (normalize p) ++ q) = some c := by
    simpa [Store.read?, Store.placeAll] using h
  obtain ⟨f, hf, same, rfl⟩ := (Layer.mem_of_read?_writeAll read).resolve_left (by simp)
  obtain ⟨i, inner, key, holds⟩ := all f hf
  rw [key, inner.normalize_under, hq.normalize_under] at same
  have here : i.toList = q.toList := by
    have lists := congrArg String.toList same
    rwa [String.toList_append, String.toList_append, List.append_cancel_left_eq] at lists
  exact String.toList_injective here ▸ holds

theorem isEmpty_of_mem_keys {k : String} (hk : k ∈ fs.keys) : fs.isEmpty = false := by
  rw [Table.isEmpty, List.isEmpty_eq_false_iff]
  rintro empty
  simp [Table.keys, empty] at hk

theorem hasExtension_index (i : String) : hasExtension (i ++ "/index") = false := by
  have name : lastName (i ++ "/index").toList = "index".toList := by
    simp [lastName]
  rw [hasExtension, name]
  decide

/-- A path inside the root, with a network and a finder that go by the same extensions. -/
structure Lookup (cdn : Cdn) (finder : Finder) (d p : String) : Prop where
  root : normalize cdn.root = cdn.root
  path : p = under cdn.root ++ d
  inner : Inner d
  extensions : ∀ e, e ∈ finder.extensions ↔ e ∈ cdn.extensions
  noSlash : ∀ e ∈ cdn.extensions, '/' ∉ e.toList

namespace Lookup

variable {i : String}

theorem join_inner (l : Lookup cdn finder d p) (hi : Inner i) :
    join cdn.root [i] = under cdn.root ++ i := by
  rw [← l.root, hi.join_eq]

theorem join_index (l : Lookup cdn finder d p) (hi : Inner i) :
    join (under cdn.root ++ i) ["index"] = under cdn.root ++ (i ++ "/index") := by
  rw [← l.root, hi.join_index]

theorem join_metadata (l : Lookup cdn finder d p) :
    join p ["package.json"] = under cdn.root ++ (d ++ "/package.json") := by
  rw [l.path, ← l.root, l.inner.join_metadata]

theorem join_entry (l : Lookup cdn finder d p) (inside : Inner (collapse (append d name))) :
    join p [name] = under cdn.root ++ collapse (append d name) := by
  rw [l.path, ← l.root, l.inner.join_append inside]

theorem mem_candidates (l : Lookup cdn finder d p) {c : String} :
    c ∈ finder.candidates (under cdn.root ++ i) ↔
      ∃ q ∈ i :: cdn.extended i, c = under cdn.root ++ q := by
  rw [Finder.mem_candidates]
  simp only [List.mem_cons, extended, List.mem_map, l.extensions]
  constructor
  · rintro (rfl | ⟨e, member, rfl⟩)
    · exact ⟨i, .inl rfl, rfl⟩
    · exact ⟨i ++ e, .inr ⟨e, member, rfl⟩, String.append_assoc ..⟩
  · rintro ⟨q, rfl | ⟨e, member, rfl⟩, rfl⟩
    · exact .inl rfl
    · exact .inr ⟨e, member, (String.append_assoc ..).symm⟩

theorem inner_of_mem (l : Lookup cdn finder d p) (hi : Inner i) (hq : q ∈ i :: cdn.extended i) :
    Inner q := by
  rcases List.mem_cons.1 hq with rfl | behind
  · exact hi
  · rcases inner_extended hi behind with inner | ⟨member, slash⟩
    · exact inner
    · exact (l.noSlash _ member slash).elim

/-- The finder finds what was placed. -/
theorem isSome_file? (l : Lookup cdn finder d p) (hi : Inner i) (hq : q ∈ i :: cdn.extended i)
    (hk : join cdn.root [q] ∈ fs.keys) :
    (finder.file? (({} : Store).placeAll fs) (under cdn.root ++ i)).isSome = true := by
  refine Finder.isSome_file? (l.mem_candidates.2 ⟨q, hq, rfl⟩) ?_
  rw [← l.join_inner (l.inner_of_mem hi hq)]
  exact isSome_read?_placeAll hk

/-- The files of a listing, with the network's content at paths inside the root. -/
theorem read?_metadata (l : Lookup cdn finder d p) (metadata : cdn.Holds (d ++ "/package.json") m)
    (hq : Inner q) (placed : cdn.Placed q file)
    (hfs : fs = Table.ofList [(join cdn.root [d, "package.json"], m), file]) :
    (({} : Store).placeAll fs).read? (join p ["package.json"]) = some m := by
  have key : join cdn.root [d, "package.json"] = under cdn.root ++ (d ++ "/package.json") := by
    rw [l.inner.join_pair (n := "package.json") (by decide)]
    exact l.join_inner l.inner.metadata
  have all : ∀ f ∈ fs.entries, ∃ i, Inner i ∧ f.1 = under (normalize cdn.root) ++ i ∧
      cdn.Holds i f.2 := by
    intro f hf
    rw [hfs] at hf
    rw [l.root]
    rcases List.mem_cons.1 (Table.mem_of_mem_ofList hf) with rfl | only
    · exact ⟨_, l.inner.metadata, key, metadata⟩
    · obtain rfl := List.mem_singleton.1 only
      exact ⟨q, hq, placed.key.trans (l.join_inner hq), placed.holds⟩
  have member : under cdn.root ++ (d ++ "/package.json") ∈ fs.keys := by
    rw [hfs, Table.mem_keys_ofList, ← key]
    simp
  obtain ⟨c, read⟩ := Option.isSome_iff_exists.1 (isSome_read?_placeAll member)
  have inside := read
  rw [← l.root] at inside
  rw [l.join_metadata, read, (holds_of_read?_placeAll all l.inner.metadata inside).unique metadata]

/-- An index that was downloaded without metadata is found. -/
theorem recovers_bare (l : Lookup cdn finder d p) (lacks : cdn.Lacks (d ++ "/package.json"))
    (index : cdn.Searches (cdn.indexes d) (.ok (some file)) asked) :
    ∃ f, finder.resolvePath (({} : Store).placeAll (Table.ofList [file])) p = .ok (some f) := by
  obtain ⟨q, member, placed⟩ := index.placed
  have hq : q ∈ (d ++ "/index") :: cdn.extended (d ++ "/index") := List.mem_cons_of_mem _ member
  have inner := l.inner_of_mem l.inner.index hq
  refine Finder.resolvePath_of_index (fun m read => ?_) ?_
  · rw [l.join_metadata, ← l.root] at read
    refine ((holds_of_read?_placeAll (fun f hf => ?_) l.inner.metadata read).not_lacks lacks).elim
    obtain rfl := List.mem_singleton.1 (Table.mem_of_mem_ofList hf)
    exact ⟨q, inner, by rw [placed.key, l.root, l.join_inner inner], placed.holds⟩
  · rw [l.path, l.join_index l.inner]
    exact l.isSome_file? l.inner.index hq (Table.mem_keys_ofList.2 (by simp [placed.key]))

/-- The entry that metadata names is found. -/
theorem recovers_named (l : Lookup cdn finder d p) (metadata : cdn.Holds (d ++ "/package.json") m)
    (main : HasMain m (.text name)) (some : name ≠ "") (inside : Inner (collapse (append d name)))
    (entry : cdn.Searches (cdn.entryPaths d name) (.ok (.some file)) asked) :
    ∃ f, finder.resolvePath (({} : Store).placeAll
      (Table.ofList [(join cdn.root [d, "package.json"], m), file])) p = .ok (.some f) := by
  obtain ⟨q, member, placed⟩ := entry.placed
  have hk : join cdn.root [q] ∈
      (Table.ofList [(join cdn.root [d, "package.json"], m), file]).keys :=
    Table.mem_keys_ofList.2 (by simp [placed.key])
  have place : q ∈ collapse (append d name) :: cdn.extended (collapse (append d name)) ∨
      q ∈ cdn.indexes (collapse (append d name)) := by
    rcases List.mem_cons.1 member with rfl | behind
    · exact .inl (List.mem_cons_self ..)
    · split at behind
      · cases behind
      · exact (List.mem_append.1 behind).imp_left (List.mem_cons_of_mem _)
  rcases place with file | index
  · refine Finder.resolvePath_of_entry
      (l.read?_metadata metadata (l.inner_of_mem inside file) placed rfl) main some (.inl ?_)
    rw [l.join_entry inside]
    exact l.isSome_file? inside file hk
  · have hq := List.mem_cons_of_mem (collapse (append d name) ++ "/index") index
    refine Finder.resolvePath_of_entry
      (l.read?_metadata metadata (l.inner_of_mem inside.index hq) placed rfl) main some (.inr ?_)
    rw [l.join_entry inside, l.join_index inside]
    exact l.isSome_file? inside.index hq hk

/-- If metadata names no entry then the index is found. -/
theorem recovers_unnamed (l : Lookup cdn finder d p) {main : Json}
    (metadata : cdn.Holds (d ++ "/package.json") m) (has : HasMain m main)
    (hq : q ∈ (d ++ "/index") :: cdn.extended (d ++ "/index")) (placed : cdn.Placed q file) :
    ∃ f, finder.resolvePath (({} : Store).placeAll
      (Table.ofList [(join cdn.root [d, "package.json"], m), file])) p = .ok (some f) := by
  have read := l.read?_metadata metadata (l.inner_of_mem l.inner.index hq) placed rfl
  refine Finder.resolvePath_of_index (fun m' read' => ?_) ?_
  · obtain rfl := Option.some.inj (read.symm.trans read')
    exact ⟨main, has⟩
  · rw [l.path, l.join_index l.inner]
    exact l.isSome_file? l.inner.index hq (Table.mem_keys_ofList.2 (by simp [placed.key]))

end Lookup

/-- What is sought for a directory and is there is listed so that the finder finds a file. -/
theorem Lists.recovers {c : Content} (hl : cdn.Lists d r asked) (l : Lookup cdn finder d p)
    (plain : cdn.Plain) (seeks : cdn.SeeksEntry d q) (holds : cdn.Holds q c) :
    ∃ fs, r = .ok fs ∧ fs.isEmpty = false ∧
      ∃ f, finder.resolvePath (({} : Store).placeAll fs) p = .ok (some f) := by
  have listed {es : List (String × Content)} {e : String × Content} :
      (Table.ofList (e :: es)).isEmpty = false :=
    isEmpty_of_mem_keys (k := e.1) (Table.mem_keys_ofList.2 (by simp))
  cases hl with
  | @bare _ _ found lacks index =>
    cases seeks with
    | index bare member =>
      cases found with
      | none =>
        cases index with
        | missed lacks => exact (holds.not_lacks (lacks q member)).elim
      | some file => exact ⟨_, rfl, listed, l.recovers_bare lacks index⟩
    | named metadata main some inside member => exact (metadata.not_lacks lacks).elim
    | unnamed metadata has nothing member => exact (metadata.not_lacks lacks).elim
  | @package _ _ m name found metadata named entry =>
    refine ⟨_, rfl, listed, ?_⟩
    cases seeks with
    | index bare member => exact (metadata.not_lacks bare).elim
    | named metadata' main some inside member =>
      obtain rfl := metadata.unique metadata'
      obtain rfl := Except.ok.inj (named.symm.trans (entryName_of_text main some))
      cases found with
      | none =>
        cases entry with
        | missed lacks => exact (holds.not_lacks (lacks q member)).elim
      | some file => exact l.recovers_named metadata main some inside entry
    | unnamed metadata' has nothing member =>
      obtain rfl := metadata.unique metadata'
      obtain rfl := Except.ok.inj (named.symm.trans (entryName_of_nothing has nothing))
      have paths : cdn.entryPaths d "index" =
          ((d ++ "/index") :: cdn.extended (d ++ "/index")) ++ cdn.indexes (d ++ "/index") := by
        rw [entryPaths, l.inner.collapse_index, hasExtension_index]
        rfl
      have member : q ∈ (d ++ "/index") :: cdn.extended (d ++ "/index") := List.mem_cons.2 member
      rw [paths] at entry
      cases found with
      | none =>
        cases entry with
        | missed lacks => exact (holds.not_lacks (lacks q (List.mem_append_left _ member))).elim
      | some file =>
        obtain ⟨q', hq', placed⟩ := entry.found_left member holds
        exact l.recovers_unnamed metadata has hq' placed
  | @unnamed _ m why metadata wrong =>
    cases seeks with
    | index bare member => exact (metadata.not_lacks bare).elim
    | named metadata' main some inside member =>
      obtain rfl := metadata.unique metadata'
      rw [entryName_of_text main some] at wrong
      cases wrong
    | unnamed metadata' has nothing member =>
      obtain rfl := metadata.unique metadata'
      rw [entryName_of_nothing has nothing] at wrong
      cases wrong
  | refused asks refuses => exact (plain.not_refuses refuses).elim

theorem Retrieves.recovers {c : Content} (hr : cdn.Retrieves d r asked) (l : Lookup cdn finder d p)
    (plain : cdn.Plain) (seeks : cdn.Seeks d q) (holds : cdn.Holds q c) :
    ∃ fs, r = .ok fs ∧ fs.isEmpty = false ∧
      ∃ f, finder.resolvePath (({} : Store).placeAll fs) p = .ok (some f) := by
  have single {e : String × Content} : e.1 ∈ (Table.ofList [e]).keys :=
    Table.mem_keys_ofList.2 (by simp)
  have missed {file : String} {asked : List String} (member : file ∈ cdn.filePaths d)
      (search : cdn.Searches (cdn.filePaths d) (.ok none) asked) : cdn.Lacks file := by
    cases search with
    | missed lacks => exact lacks file member
  cases hr with
  | @file _ _ file bare search =>
    obtain ⟨q', member, placed⟩ := search.placed
    have hq : q' ∈ d :: cdn.extended d := by
      rcases List.mem_cons.1 member with rfl | behind
      · exact List.mem_cons_self ..
      · split at behind
        · cases behind
        · exact List.mem_cons_of_mem _ behind
    refine ⟨_, rfl, isEmpty_of_mem_keys single, Finder.resolvePath_of_file ?_⟩
    rw [l.path]
    exact l.isSome_file? l.inner hq (placed.key ▸ single)
  | package whole listing sub some =>
    cases seeks with
    | entry entry => exact listing.recovers l plain entry holds
    | file member bare =>
      have lacks := bare whole
      cases listing with
      | @bare _ _ found _ index =>
        cases found with
        | none => cases some _ rfl
        | some file => exact ⟨_, rfl, isEmpty_of_mem_keys single, l.recovers_bare lacks index⟩
      | package metadata named entry => exact (metadata.not_lacks lacks).elim
      | unnamed metadata why => exact (metadata.not_lacks lacks).elim
      | refused asks refuses => exact (plain.not_refuses refuses).elim
  | directory part search listing sub =>
    cases seeks with
    | entry entry => exact listing.recovers l plain entry holds
    | file member bare => exact (holds.not_lacks (missed member search)).elim
  | nothing whole bare empty search =>
    cases seeks with
    | entry entry =>
      obtain ⟨fs, same, some, -⟩ := bare.recovers l plain entry holds
      cases same
      rw [empty] at some
      cases some
    | file member bare => exact (holds.not_lacks (missed member search)).elim
  | refused search sub =>
    cases search with
    | refused member asks refuses => exact (plain.not_refuses refuses).elim

/-- If anything that a download looks for is there then the path is recovered. -/
theorem recovers_of_seeks {c : Content} (l : Lookup cdn finder d p) (plain : cdn.Plain)
    (seeks : cdn.Seeks d q) (holds : cdn.Holds q c) : cdn.Recovers finder p := by
  have inside : below? cdn.root (normalize p) = some d := by
    rw [below?_eq_some_iff, l.path, ← l.root, l.inner.normalize_under]
  obtain ⟨r, asked, run, fetches⟩ := download_meets cdn p
  have found {i : String} {r : Except Failure Files} {asked : List String}
      (below : below? cdn.root (normalize p) = some i) (hr : cdn.Retrieves i r asked) :
      ∃ fs, r = .ok fs ∧ fs.isEmpty = false ∧
        ∃ f, finder.resolvePath (({} : Store).placeAll fs) p = .ok (some f) := by
    obtain rfl := Option.some.inj (inside.symm.trans below)
    exact hr.recovers l plain seeks holds
  cases fetches with
  | outside out =>
    rw [inside] at out
    cases out
  | files below retrieved some =>
    obtain ⟨fs, same, -, f, resolved⟩ := found below retrieved
    cases same
    exact ⟨_, asked, f, run [], resolved⟩
  | nothing below retrieved empty =>
    obtain ⟨fs, same, some, -⟩ := found below retrieved
    cases same
    rw [empty] at some
    cases some
  | failed below retrieved =>
    obtain ⟨fs, same, -⟩ := found below retrieved
    cases same

end PluginHost.Cdn
