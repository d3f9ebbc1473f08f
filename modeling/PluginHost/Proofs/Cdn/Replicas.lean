import PluginHost.Proofs.Cdn.Loading

/-!
Loading from a store that has everything that the network has, and from an empty one that only has
what a download gives. What the one finds the other one finds as well, unless only the finder looks
at the file's path.
-/
namespace PluginHost.Cdn

open PluginHost.Path

variable {cdn : Cdn} {finder : Finder} {store : Store} {d q p name : String} {m : Content}
  {f : ModuleFile}

/-- Below the root the store has what the network has at the paths inside it. -/
def Mirrors (cdn : Cdn) (store : Store) : Prop :=
  ∀ p i, i ≠ "" → below? cdn.root (normalize p) = some i →
    ∀ c, store.read? p = some c ↔ cdn.Holds i c

/-- Store paths at which only the finder looks for the file of a path: behind an extension if a name
has one already, a package with metadata as a file, an index without extension, an entry that leads
out of the root, and the index of a package whose metadata names some other entry. -/
inductive OnlyFinder (cdn : Cdn) (finder : Finder) (d p : String) : String → Prop where
  | extended {e : String} (dotted : hasExtension d = true) (member : e ∈ finder.extensions) :
      OnlyFinder cdn finder d p (p ++ e)
  | package {c : String} {m : Content} (whole : PackageName.ofRequest d = d)
      (metadata : cdn.Holds (d ++ "/package.json") m) (member : c ∈ finder.candidates p) :
      OnlyFinder cdn finder d p c
  | index (bare : cdn.Lacks (d ++ "/package.json")) : OnlyFinder cdn finder d p (join p ["index"])
  | astray {c name : String} {m : Content} (metadata : cdn.Holds (d ++ "/package.json") m)
      (main : HasMain m (.text name)) (some : name ≠ "") (out : ¬ Inner (collapse (append d name)))
      (member : c ∈ finder.candidates (join p [name]) ∨
        c ∈ finder.candidates (join (join p [name]) ["index"])) : OnlyFinder cdn finder d p c
  | extendedEntry {c name : String} {m : Content} (metadata : cdn.Holds (d ++ "/package.json") m)
      (main : HasMain m (.text name)) (some : name ≠ "")
      (dotted : hasExtension (collapse (append d name)) = true)
      (member : c ∈ finder.candidates (join p [name]) ∨
        c ∈ finder.candidates (join (join p [name]) ["index"])) : OnlyFinder cdn finder d p c
  | entryIndex {name : String} {m : Content} (metadata : cdn.Holds (d ++ "/package.json") m)
      (main : HasMain m (.text name)) (some : name ≠ "") :
      OnlyFinder cdn finder d p (join (join p [name]) ["index"])
  | fallback {c : String} {m : Content} {main : Json}
      (metadata : cdn.Holds (d ++ "/package.json") m) (has : HasMain m main)
      (something : main.isNothing = false)
      (member : c ∈ finder.candidates (join p ["index"])) : OnlyFinder cdn finder d p c

/-- A network without failures, with metadata in JSON, and a store that has what it has. -/
structure Copy (cdn : Cdn) (store : Store) : Prop where
  root : normalize cdn.root = cdn.root
  plain : cdn.Plain
  json : ∀ q m, cdn.Holds (q ++ "/package.json") m → ∃ main, HasMain m main
  mirrors : cdn.Mirrors store

/-- A store that has what a network has, a finder that goes by the same extensions, and a path below
the root. -/
structure Replica (cdn : Cdn) (finder : Finder) (store : Store) (d p : String) : Prop
    extends Copy cdn store where
  extensions : ∀ e, e ∈ finder.extensions ↔ e ∈ cdn.extensions
  below : below? cdn.root (normalize p) = some d
  strict : d ≠ ""

namespace Replica

variable {i : String} {c : Content}

theorem lookup (h : Replica cdn finder store d p) (normal : normalize p = p)
    (noSlash : ∀ e ∈ cdn.extensions, '/' ∉ e.toList) : Lookup cdn finder d p := by
  have below := h.below
  refine ⟨h.root, ?_, ?_, h.extensions, noSlash⟩
  · rw [normal] at below
    exact below?_eq_some_iff.1 below
  · rw [← h.root] at below
    exact (inner_of_below? below).resolve_right fun top => h.strict top.1

theorem holds (h : Replica cdn finder store d p) (hi : Inner i)
    (read : store.read? (under cdn.root ++ i) = some c) : cdn.Holds i c := by
  refine (h.mirrors (under cdn.root ++ i) i hi.nonempty ?_ c).1 read
  rw [below?_eq_some_iff, ← h.root, hi.normalize_under]

/-- A file that the finder finds at some path, or behind an extension, is there on the network. -/
theorem holds_of_file? (h : Replica cdn finder store d p) (l : Lookup cdn finder d p) (hi : Inner i)
    (found : finder.file? store (under cdn.root ++ i) = some f) :
    ∃ q ∈ i :: cdn.extended i, cdn.Holds q f.source ∧ f.path = normalize (under cdn.root ++ q) ∧
      under cdn.root ++ q ∈ finder.candidates (under cdn.root ++ i) := by
  obtain ⟨c, member, read, path⟩ := Finder.candidate_of_file? found
  obtain ⟨q, hq, rfl⟩ := l.mem_candidates.1 member
  exact ⟨q, hq, h.holds (l.inner_of_mem hi hq) read, path, member⟩

/-- The entry that the finder reads off metadata is the one that the network's metadata names. -/
theorem main_of_mainEntry (h : Replica cdn finder store d p) (l : Lookup cdn finder d p)
    (read : store.read? (join p ["package.json"]) = some m)
    (main : Finder.mainEntry m = .ok (some name)) :
    cdn.Holds (d ++ "/package.json") m ∧ HasMain m (.text name) ∧ name ≠ "" := by
  rw [l.join_metadata] at read
  have metadata := h.holds l.inner.metadata read
  obtain ⟨entry, has⟩ := h.json d m metadata
  rw [has.mainEntry_eq] at main
  obtain ⟨text, some⟩ := Option.filter_eq_some_iff.1 (Except.ok.inj main)
  cases entry with
  | text s =>
    cases text
    exact ⟨metadata, has, by simpa using some⟩
  | _ => cases text

theorem sought_file (h : Replica cdn finder store d p) (l : Lookup cdn finder d p)
    (found : finder.file? store p = some f) :
    (∃ q c, cdn.Seeks d q ∧ cdn.Holds q c) ∨
      ∃ c, f.path = normalize c ∧ cdn.OnlyFinder finder d p c := by
  rw [l.path] at found
  obtain ⟨q, hq, holds, path, member⟩ := h.holds_of_file? l l.inner found
  rw [← l.path] at member
  by_cases package : PackageName.ofRequest d = d ∧ ∃ m, cdn.Holds (d ++ "/package.json") m
  · obtain ⟨whole, m, metadata⟩ := package
    exact .inr ⟨_, path, .package whole metadata member⟩
  · have bare (whole : PackageName.ofRequest d = d) : cdn.Lacks (d ++ "/package.json") :=
      (h.plain _).resolve_right fun metadata => package ⟨whole, metadata⟩
    rcases List.mem_cons.1 hq with rfl | behind
    · exact .inl ⟨q, _, .file (List.mem_cons_self ..) bare, holds⟩
    · by_cases dotted : hasExtension d = true
      · obtain ⟨e, extension, rfl⟩ := List.mem_map.1 behind
        refine .inr ⟨p ++ e, ?_, .extended dotted ((l.extensions e).2 extension)⟩
        rw [path, l.path, String.append_assoc]
      · refine .inl ⟨q, _, .file (List.mem_cons_of_mem _ ?_) bare, holds⟩
        rwa [if_neg dotted]

/-- A file that is found at or behind a place of the entry lies at the place itself, is sought by a
download, or lies behind an extension that is added to a name with a dot. -/
theorem sought_named {base : String} (h : Replica cdn finder store d p)
    (l : Lookup cdn finder d p) (metadata : cdn.Holds (d ++ "/package.json") m)
    (main : HasMain m (.text name)) (some : name ≠ "") (inside : Inner (collapse (append d name)))
    (hi : Inner i) (place : base = under cdn.root ++ i)
    (paths : hasExtension (collapse (append d name)) = false →
      cdn.extended i ⊆ cdn.entryPaths d name)
    (found : finder.file? store base = .some f) :
    (∃ c, f.path = normalize base ∧ cdn.Holds i c) ∨ (∃ q c, cdn.Seeks d q ∧ cdn.Holds q c) ∨
      ∃ c ∈ finder.candidates base, f.path = normalize c ∧
        hasExtension (collapse (append d name)) = true := by
  subst place
  obtain ⟨q, hq, holds, path, member⟩ := h.holds_of_file? l hi found
  rcases List.mem_cons.1 hq with rfl | behind
  · exact .inl ⟨_, path, holds⟩
  · cases dotted : hasExtension (collapse (append d name)) with
    | true => exact .inr (.inr ⟨_, member, path, rfl⟩)
    | false =>
      have sought := paths dotted behind
      exact .inr (.inl ⟨q, _, .entry (.named metadata main some inside sought), holds⟩)

theorem sought_entry (h : Replica cdn finder store d p) (l : Lookup cdn finder d p)
    (metadata : cdn.Holds (d ++ "/package.json") m) (main : HasMain m (.text name))
    (some : name ≠ "") (found : finder.file? store (join p [name]) = .some f) :
    (∃ q c, cdn.Seeks d q ∧ cdn.Holds q c) ∨
      ∃ c, f.path = normalize c ∧ cdn.OnlyFinder finder d p c := by
  by_cases inside : Inner (collapse (append d name))
  · have paths (dotted : hasExtension (collapse (append d name)) = false) :
        cdn.extended (collapse (append d name)) ⊆ cdn.entryPaths d name := by
      simp [entryPaths, dotted]
    rcases h.sought_named l metadata main some inside inside (l.join_entry inside) paths found with
      ⟨c, -, holds⟩ | sought | ⟨c, member, path, dotted⟩
    · exact .inl ⟨_, _, .entry (.named metadata main some inside (List.mem_cons_self ..)), holds⟩
    · exact .inl sought
    · exact .inr ⟨c, path, .extendedEntry metadata main some dotted (.inl member)⟩
  · obtain ⟨c, member, -, path⟩ := Finder.candidate_of_file? found
    exact .inr ⟨c, path, .astray metadata main some inside (.inl member)⟩

theorem sought_entryIndex (h : Replica cdn finder store d p) (l : Lookup cdn finder d p)
    (metadata : cdn.Holds (d ++ "/package.json") m) (main : HasMain m (.text name))
    (some : name ≠ "")
    (found : finder.file? store (join (join p [name]) ["index"]) = .some f) :
    (∃ q c, cdn.Seeks d q ∧ cdn.Holds q c) ∨
      ∃ c, f.path = normalize c ∧ cdn.OnlyFinder finder d p c := by
  by_cases inside : Inner (collapse (append d name))
  · have place : join (join p [name]) ["index"] =
        under cdn.root ++ (collapse (append d name) ++ "/index") := by
      rw [l.join_entry inside, l.join_index inside]
    have paths (dotted : hasExtension (collapse (append d name)) = false) :
        cdn.extended (collapse (append d name) ++ "/index") ⊆ cdn.entryPaths d name := by
      simp [entryPaths, dotted, indexes]
    rcases h.sought_named l metadata main some inside inside.index place paths found with
      ⟨c, path, -⟩ | sought | ⟨c, member, path, dotted⟩
    · exact .inr ⟨_, path, .entryIndex metadata main some⟩
    · exact .inl sought
    · exact .inr ⟨c, path, .extendedEntry metadata main some dotted (.inr member)⟩
  · obtain ⟨c, member, -, path⟩ := Finder.candidate_of_file? found
    exact .inr ⟨c, path, .astray metadata main some inside (.inr member)⟩

theorem sought_index (h : Replica cdn finder store d p) (l : Lookup cdn finder d p)
    (found : finder.file? store (join p ["index"]) = some f) :
    (∃ q c, cdn.Seeks d q ∧ cdn.Holds q c) ∨
      ∃ c, f.path = normalize c ∧ cdn.OnlyFinder finder d p c := by
  have place : join p ["index"] = under cdn.root ++ (d ++ "/index") := by
    rw [l.path, l.join_index l.inner]
  rw [place] at found
  obtain ⟨q, hq, holds, path, member⟩ := h.holds_of_file? l l.inner.index found
  rw [← place] at member
  rcases h.plain (d ++ "/package.json") with bare | ⟨m, metadata⟩
  · rcases List.mem_cons.1 hq with rfl | behind
    · rw [← place] at path
      exact .inr ⟨_, path, .index bare⟩
    · exact .inl ⟨q, _, .entry (.index bare behind), holds⟩
  · obtain ⟨main, has⟩ := h.json d m metadata
    cases nothing : main.isNothing with
    | true =>
      exact .inl ⟨q, _, .entry (.unnamed metadata has nothing (List.mem_cons.1 hq)), holds⟩
    | false => exact .inr ⟨_, path, .fallback metadata has nothing member⟩

/-- Whatever the finder finds is sought by a download, unless only the finder looks there. -/
theorem sought (h : Replica cdn finder store d p) (l : Lookup cdn finder d p)
    (found : finder.resolvePath store p = .ok (some f)) :
    (∃ q c, cdn.Seeks d q ∧ cdn.Holds q c) ∨
      ∃ c, f.path = normalize c ∧ cdn.OnlyFinder finder d p c := by
  cases Finder.finds_of_resolvePath found with
  | file found => exact h.sought_file l found
  | entry read main found =>
    obtain ⟨metadata, main, some⟩ := h.main_of_mainEntry l read main
    exact h.sought_entry l metadata main some found
  | entryIndex read main found =>
    obtain ⟨metadata, main, some⟩ := h.main_of_mainEntry l read main
    exact h.sought_entryIndex l metadata main some found
  | index found => exact h.sought_index l found

end Replica

/-- What is loaded from a store that has everything can be loaded after a download, unless nothing
is at the paths where a download looks and only the finder looks where the file is. -/
theorem download_recovers (h : Replica cdn finder store d p) (normal : normalize p = p)
    (noSlash : ∀ e ∈ cdn.extensions, '/' ∉ e.toList)
    (found : finder.resolvePath store p = .ok (some f)) :
    cdn.Recovers finder p ∨
      (∀ q, cdn.Seeks d q → cdn.Lacks q) ∧
        ∃ c, f.path = normalize c ∧ cdn.OnlyFinder finder d p c := by
  have l := h.lookup normal noSlash
  by_cases seeks : ∃ q c, cdn.Seeks d q ∧ cdn.Holds q c
  · obtain ⟨q, c, seeks, holds⟩ := seeks
    exact .inl (recovers_of_seeks l h.plain seeks holds)
  · refine .inr ⟨fun q seek => ?_, (h.sought l found).resolve_left seeks⟩
    exact (h.plain q).resolve_right fun ⟨c, holds⟩ => seeks ⟨q, c, seek, holds⟩

/-- A network with one more file. -/
def serving (cdn : Cdn) (q : String) (c : Content) : Cdn :=
  { cdn with answer := fun url => if url = cdn.address q then .content c else cdn.answer url }

theorem address_inj {i : String} : cdn.address i = cdn.address q ↔ i = q := by
  refine ⟨fun same => String.toList_injective ?_, congrArg _⟩
  have lists := congrArg String.toList same
  simpa [address] using lists

theorem answer_serving (cdn : Cdn) (q i : String) (c : Content) :
    (cdn.serving q c).answer ((cdn.serving q c).address i) =
      if i = q then .content c else cdn.answer (cdn.address i) := by
  have here : (cdn.serving q c).address i = cdn.address i := rfl
  rw [here, serving]
  by_cases same : i = q
  · simp [same]
  · simp [same, address_inj]

theorem holds_serving {i : String} {c c' : Content} :
    (cdn.serving q c).Holds i c' ↔ if i = q then c' = c else cdn.Holds i c' := by
  rw [Holds, answer_serving]
  by_cases same : i = q
  · simp [same, eq_comm]
  · simp [same, Holds]

theorem Plain.serving {c : Content} (plain : cdn.Plain) : (cdn.serving q c).Plain := by
  intro i
  simp only [Lacks, Holds, answer_serving]
  by_cases same : i = q
  · exact .inr ⟨c, if_pos same⟩
  · have before := plain i
    simpa only [Lacks, Holds, same, if_false] using before

/-- One more file on the network and in the store. -/
theorem Copy.serving {c : Content} (copy : Copy cdn store) (hq : Inner q)
    (json : q.toList.getLast? = some 'n' → ∃ main, HasMain c main) :
    Copy (cdn.serving q c) (store.write (under cdn.root ++ q) c) where
  root := copy.root
  plain := copy.plain.serving
  json i m holds := by
    rw [holds_serving] at holds
    split at holds
    · rename_i same
      subst holds
      exact json (by simp [← same, List.getLast?_append])
    · exact copy.json i m holds
  mirrors := by
    intro p i some below c'
    have path : normalize p = under cdn.root ++ i := below?_eq_some_iff.1 below
    have place : normalize (under cdn.root ++ q) = under cdn.root ++ q := by
      rw [← copy.root, hq.normalize_under]
    have same : under cdn.root ++ q = under cdn.root ++ i ↔ i = q := by
      refine ⟨fun same => String.toList_injective ?_, fun same => by rw [same]⟩
      have lists := congrArg String.toList same
      simpa [eq_comm] using lists
    rw [Store.read?_write, place, path, holds_serving]
    simp only [same]
    by_cases here : i = q
    · simp [here, eq_comm]
    · simpa [here] using copy.mirrors p i some below c'

/-- A network without files. -/
def bare (extensions : List String) : Cdn :=
  below "https://unpkg.com" "/n" extensions fun _ => .status 404

theorem copy_bare (extensions : List String) : Copy (bare extensions) {} where
  root := normalize_normalize "/n"
  plain _ := .inl rfl
  json _ _ holds := by cases holds
  mirrors p i some below c := by
    constructor
    · intro read
      cases read
    · intro holds
      cases holds

/-- A network and a store with the same files. -/
def publish (files : List (String × Content)) (s : Cdn × Store) : Cdn × Store :=
  files.foldl (fun s f => (s.1.serving f.1 f.2, s.2.write (under s.1.root ++ f.1) f.2)) s

theorem Copy.publish {files : List (String × Content)} {s : Cdn × Store} (copy : Copy s.1 s.2)
    (h : ∀ f ∈ files, Inner f.1 ∧ (f.1.toList.getLast? = some 'n' → ∃ main, HasMain f.2 main)) :
    Copy (Cdn.publish files s).1 (Cdn.publish files s).2 := by
  induction files generalizing s with
  | nil => exact copy
  | cons f files ih =>
    obtain ⟨⟨inner, json⟩, others⟩ := List.forall_mem_cons.1 h
    exact ih (copy.serving inner json) others

/-- Whether a path resolves after a download of it. -/
def recovers? (cdn : Cdn) (finder : Finder) (p : String) : Bool :=
  match ((cdn.download p).run.run []).1 with
  | .ok fs =>
    match finder.resolvePath (({} : Store).placeAll fs) p with
    | .ok (some _) => true
    | _ => false
  | .error _ => false

theorem recovers_iff : cdn.Recovers finder p ↔ cdn.recovers? finder p = true := by
  unfold Recovers recovers?
  constructor
  · rintro ⟨fs, asked, f, run, resolved⟩
    rw [run]
    dsimp only
    rw [resolved]
  · rcases (cdn.download p).run.run [] with ⟨why | fs, asked⟩
    · exact fun h => by cases h
    · dsimp only
      split
      · rename_i f resolved
        exact fun _ => ⟨fs, asked, f, rfl, resolved⟩
      · exact fun h => by cases h

theorem exists_resolved
    (h : ((finder.resolvePath store p).toOption.bind id).isSome = true) :
    ∃ f, finder.resolvePath store p = .ok (some f) := by
  cases resolved : finder.resolvePath store p with
  | error why =>
    rw [resolved] at h
    cases h
  | ok found =>
    rw [resolved] at h
    obtain ⟨f, rfl⟩ := Option.isSome_iff_exists.1 h
    exact ⟨f, rfl⟩

theorem defaults_agree (e : String) :
    e ∈ (Finder.ofRoot "/n").extensions ↔ e ∈ defaultExtensions := by
  simp [Finder.ofRoot, Finder.defaultExtensions, defaultExtensions, or_left_comm]

/-- A package whose metadata names a directory, on the network and in the store. -/
def directoryEntry : Cdn × Store :=
  publish [("p/package.json", "\x7b\"main\": \"lib\"\x7d".toUTF8.toList),
    ("p/lib/index.js", "1".toUTF8.toList)] (bare defaultExtensions, {})

theorem replica_directoryEntry :
    Replica directoryEntry.1 (Finder.ofRoot "/n") directoryEntry.2 "p" "/n/p" where
  toCopy := (copy_bare defaultExtensions).publish (s := (bare defaultExtensions, {})) (by
    simp only [List.forall_mem_cons, List.not_mem_nil, false_imp_iff, implies_true, and_true]
    exact ⟨⟨by decide, fun _ => exists_hasMain (by decide +kernel)⟩, by decide,
      fun last => absurd last (by decide)⟩)
  extensions := defaults_agree
  below := by decide
  strict := by decide

/-- The entry of a package is found in a directory, also after a download of the package. -/
theorem download_recovers_entry :
    ∃ f, (Finder.ofRoot "/n").resolvePath directoryEntry.2 "/n/p" = .ok (some f) ∧
      (directoryEntry.1.Recovers (Finder.ofRoot "/n") "/n/p" ∨
        (∀ q, directoryEntry.1.Seeks "p" q → directoryEntry.1.Lacks q) ∧
          ∃ c, f.path = normalize c ∧
            directoryEntry.1.OnlyFinder (Finder.ofRoot "/n") "p" "/n/p" c) ∧
      directoryEntry.1.Recovers (Finder.ofRoot "/n") "/n/p" := by
  have resolved : (((Finder.ofRoot "/n").resolvePath directoryEntry.2 "/n/p").toOption.bind
      id).isSome = true := by
    decide +kernel
  obtain ⟨f, found⟩ := exists_resolved resolved
  exact ⟨f, found, download_recovers replica_directoryEntry (by decide) (by decide) found,
    recovers_iff.2 (by decide +kernel)⟩

/-- Whether a path that resolves in a store with everything does not after a download of it. -/
def Loses (cdn : Cdn) (finder : Finder) (store : Store) (d p : String) : Prop :=
  Replica cdn finder store d p ∧ (∃ f, finder.resolvePath store p = .ok (some f)) ∧
    ¬ cdn.Recovers finder p

/-- A network and a store with files that are no metadata. -/
def plainFiles (extensions : List String) (files : List String) : Cdn × Store :=
  publish (files.map fun q => (q, "1".toUTF8.toList)) (bare extensions, {})

theorem copy_plainFiles {extensions files : List String} (inner : ∀ q ∈ files, Inner q)
    (last : ∀ q ∈ files, q.toList.getLast? ≠ some 'n') :
    Copy (plainFiles extensions files).1 (plainFiles extensions files).2 := by
  refine (copy_bare extensions).publish (s := (bare extensions, {})) fun f hf => ?_
  obtain ⟨q, hq, rfl⟩ := List.mem_map.1 hf
  exact ⟨inner q hq, fun metadata => (last q hq metadata).elim⟩

theorem loses_of_computed {extensions files : List String} (inner : ∀ q ∈ files, Inner q)
    (last : ∀ q ∈ files, q.toList.getLast? ≠ some 'n')
    (same : ∀ e, e ∈ finder.extensions ↔ e ∈ (plainFiles extensions files).1.extensions)
    (below : below? (plainFiles extensions files).1.root (normalize p) = some d) (strict : d ≠ "")
    (found : ((finder.resolvePath (plainFiles extensions files).2 p).toOption.bind
      id).isSome = true)
    (lost : (plainFiles extensions files).1.recovers? finder p = false) :
    Loses (plainFiles extensions files).1 finder (plainFiles extensions files).2 d p := by
  refine ⟨⟨copy_plainFiles inner last, same, below, strict⟩, exists_resolved found, ?_⟩
  rw [recovers_iff, lost]
  simp

/-- A name with a dot is not extended, an extension with a slash is taken for what it leads to by
the finder alone, and of a path with a slash at its end a download asks for the file first. -/
theorem download_can_lose :
    Loses (plainFiles defaultExtensions ["p/a.b.js"]).1 (Finder.ofRoot "/n")
        (plainFiles defaultExtensions ["p/a.b.js"]).2 "p/a.b" "/n/p/a.b" ∧
      Loses (plainFiles ["/../b.js"] ["p/b.js"]).1 (Finder.ofRoot "/n" ["/../b.js"])
        (plainFiles ["/../b.js"] ["p/b.js"]).2 "p/a" "/n/p/a" ∧
      Loses (plainFiles defaultExtensions ["p/a.js", "p/a/index.js"]).1 (Finder.ofRoot "/n")
        (plainFiles defaultExtensions ["p/a.js", "p/a/index.js"]).2 "p/a" "/n/p/a/" := by
  refine ⟨loses_of_computed (by decide) (by decide) defaults_agree (by decide) (by decide)
      (by decide +kernel) (by decide +kernel),
    loses_of_computed (by decide) (by decide) (fun _ => Iff.rfl) (by decide) (by decide)
      (by decide +kernel) (by decide +kernel),
    loses_of_computed (by decide) (by decide) defaults_agree (by decide) (by decide)
      (by decide +kernel) (by decide +kernel)⟩

end PluginHost.Cdn
