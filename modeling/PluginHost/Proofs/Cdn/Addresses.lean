import PluginHost.Proofs.Cdn.Garbled
import PluginHost.Proofs.Cdn.Replicas

/-!
Which addresses a download of a package asks for. After the metadata these are the places of the
entry that it names, up to the first one with content. The network may answer the address of the
package itself with the package's main file, so that address should stay out of it: it is asked for
only where the entry leads back to the package.
-/
namespace PluginHost.Cdn

open PluginHost.Path

variable {cdn : Cdn} {d p q : String} {ps : List String} {m : Content} {fs : Files}

/-- Two things that are known about how browsing ends hold of the same end. -/
theorem Browse.Meets.and {α : Type} {b : Browse α}
    {post post' : Except Failure α → List String → Prop} (h : b.Meets post) (h' : b.Meets post') :
    b.Meets fun r asked => post r asked ∧ post' r asked := by
  obtain ⟨r, asked, run, holds⟩ := h
  obtain ⟨r', asked', run', holds'⟩ := h'
  have same := (run []).symm.trans (run' [])
  rw [List.nil_append, List.nil_append] at same
  obtain ⟨rfl, rfl⟩ := Prod.mk.inj same
  exact ⟨r, asked, run, holds, holds'⟩

/-- A search comes to a path: there is nothing at the paths before it. -/
def Reaches (cdn : Cdn) (ps : List String) (q : String) : Prop :=
  ∃ before after, ps = before ++ q :: after ∧ ∀ i ∈ before, cdn.Lacks i

theorem Reaches.mem (h : cdn.Reaches ps q) : q ∈ ps := by
  obtain ⟨before, after, rfl, -⟩ := h
  exact List.mem_append_right _ (List.mem_cons_self ..)

theorem not_reaches_nil : ¬ cdn.Reaches [] q := fun h => by
  cases h.mem

theorem reaches_cons : cdn.Reaches (p :: ps) q ↔ q = p ∨ cdn.Lacks p ∧ cdn.Reaches ps q := by
  constructor
  · rintro ⟨before, after, split, lacks⟩
    cases before with
    | nil => exact .inl (List.cons.inj split).1.symm
    | cons i before =>
      obtain ⟨rfl, rfl⟩ := List.cons.inj split
      obtain ⟨first, others⟩ := List.forall_mem_cons.1 lacks
      exact .inr ⟨first, before, after, rfl, others⟩
  · rintro (rfl | ⟨first, before, after, rfl, others⟩)
    · exact ⟨[], ps, rfl, by simp⟩
    · exact ⟨p :: before, after, rfl, List.forall_mem_cons.2 ⟨first, others⟩⟩

/-- Of two paths with content a search comes to one only. -/
theorem Reaches.unique {i : String} {c c' : Content} (hq : cdn.Reaches ps q) (hi : cdn.Reaches ps i)
    (holds : cdn.Holds q c) (holds' : cdn.Holds i c') : q = i := by
  induction ps with
  | nil => exact (not_reaches_nil hq).elim
  | cons p ps ih =>
    rcases reaches_cons.1 hq with rfl | ⟨lacks, hq⟩
    · rcases reaches_cons.1 hi with rfl | ⟨lacks, -⟩
      · rfl
      · exact (holds.not_lacks lacks).elim
    · rcases reaches_cons.1 hi with rfl | ⟨-, hi⟩
      · exact (holds'.not_lacks lacks).elim
      · exact ih hq hi

/-- A search asks for the paths that it comes to. -/
theorem firstFound_asks (cdn : Cdn) (ps : List String) :
    (cdn.firstFound ps).Meets fun _ asked => ∀ q, cdn.address q ∈ asked ↔ cdn.Reaches ps q := by
  induction ps with
  | nil => exact .pure fun q => by simp [not_reaches_nil]
  | cons p ps ih =>
    have stops (some : ¬ cdn.Lacks p) (q : String) :
        cdn.address q ∈ [cdn.address p] ↔ cdn.Reaches (p :: ps) q := by
      simp [reaches_cons, some, address_inj]
    refine .bind (get_meets cdn p) (fun f asked gets => ?_) (fun a asked gets => ?_)
    · cases gets with
      | refused refuses => exact stops refuses.not_lacks
    · cases gets with
      | content holds => exact .pure fun q => by simpa using stops holds.not_lacks q
      | absent lacks =>
        refine ih.mono fun r more asks q => ?_
        simp [reaches_cons, lacks, address_inj, asks]

/-- What a search finds is at a path that it comes to. -/
theorem Searches.reaches {found : Option (String × Content)} {asked : List String}
    (hs : cdn.Searches ps (.ok found) asked) {file : String × Content} :
    found = some file ↔ ∃ q, cdn.Reaches ps q ∧ cdn.Placed q file := by
  cases hs with
  | @found before after _ i found split lacks placed =>
    have reaches : cdn.Reaches ps i := ⟨before, after, split, lacks⟩
    constructor
    · rintro ⟨⟩
      exact ⟨i, reaches, placed⟩
    · rintro ⟨q, hq, placed'⟩
      obtain rfl := reaches.unique hq placed.holds placed'.holds
      have content := placed.holds.unique placed'.holds
      exact congrArg some (Prod.ext (placed.key.trans placed'.key.symm) content)
  | missed lacks =>
    constructor
    · exact fun h => by cases h
    · rintro ⟨q, hq, placed⟩
      exact (placed.holds.not_lacks (lacks q hq.mem)).elim

/-- Where a download of a package looks behind its metadata. -/
def LooksAt (cdn : Cdn) (d : String) (m : Content) (q : String) : Prop :=
  ∃ name, entryName m = .ok name ∧ cdn.Reaches (cdn.entryPaths d name) q

section

variable (metadata : cdn.Holds (d ++ "/package.json") m)

include metadata

/-- Behind its metadata the places of the entry are asked for. -/
theorem directory_asks : (cdn.directory d).Meets fun _ asked =>
    ∀ q, cdn.address q ∈ asked ↔ q = d ++ "/package.json" ∨ cdn.LooksAt d m q := by
  refine .bind (get_meets ..) (fun f asked gets => ?_) (fun a asked gets => ?_)
  · cases gets with
    | refused refuses => exact (refuses.not_holds metadata).elim
  · cases gets with
    | absent lacks => exact (metadata.not_lacks lacks).elim
    | content holds =>
      cases holds.symm.trans metadata
      refine .bind .lift (fun f more why q => ?_) fun name more named => ?_
      · simp [why.2, address_inj, LooksAt, ← why.1]
      · have asks (q : String) : cdn.LooksAt d m q ↔ cdn.Reaches (cdn.entryPaths d name) q := by
          simp [LooksAt, ← named.1]
        refine .bind (firstFound_asks ..) (fun f later asked q => ?_) fun found later asked => ?_
        · simp [named.2, address_inj, asks, asked]
        · exact .pure fun q => by simp [named.2, address_inj, asks, asked]

/-- Besides the metadata the first place of the entry with content is listed. -/
theorem Lists.mem_keys {asked : List String} (hl : cdn.Lists d (.ok fs) asked) {k : String} :
    k ∈ fs.keys ↔ k = join cdn.root [d, "package.json"] ∨
      ∃ q c, cdn.LooksAt d m q ∧ cdn.Holds q c ∧ k = join cdn.root [q] := by
  cases hl with
  | bare lacks index => exact (metadata.not_lacks lacks).elim
  | @package _ _ m' name found holds named entry =>
    obtain rfl := metadata.unique holds
    have looks (q : String) : cdn.LooksAt d m q ↔ cdn.Reaches (cdn.entryPaths d name) q := by
      simp [LooksAt, named]
    rw [Table.mem_keys_ofList, List.map_cons, List.mem_cons]
    refine or_congr_right ?_
    simp only [List.mem_map, Option.mem_toList, entry.reaches, looks]
    constructor
    · rintro ⟨file, ⟨q, reaches, placed⟩, rfl⟩
      exact ⟨q, file.2, reaches, placed.holds, placed.key⟩
    · rintro ⟨q, c, reaches, holds, rfl⟩
      exact ⟨(join cdn.root [q], c), ⟨q, reaches, rfl, holds⟩, rfl⟩

/-- How a download of a package asks for paths, and what it gives. -/
structure Consults (cdn : Cdn) (d : String) (m : Content) (r : Except Failure Files)
    (asked : List String) : Prop where
  asks : ∀ q, cdn.address q ∈ asked ↔ q = d ++ "/package.json" ∨ cdn.LooksAt d m q
  keys : ∀ fs, r = .ok fs → ∀ k, k ∈ fs.keys ↔ k = join cdn.root [d, "package.json"] ∨
    ∃ q c, cdn.LooksAt d m q ∧ cdn.Holds q c ∧ k = join cdn.root [q]

theorem directory_consults : (cdn.directory d).Meets (cdn.Consults d m) := by
  refine ((directory_meets ..).and (directory_asks metadata)).mono fun r asked ends => ?_
  refine ⟨ends.2, fun fs given k => ?_⟩
  subst given
  exact ends.1.mem_keys metadata

variable (whole : PackageName.ofRequest d = d)

include whole

theorem artifact_consults : (cdn.artifact d).Meets (cdn.Consults d m) := by
  unfold artifact
  dsimp only
  rw [if_pos whole]
  refine .bind (directory_consults metadata) ?_ fun fs asked consults => ?_
  · exact fun f asked consults => ⟨consults.asks, fun fs given => by cases given⟩
  · have listed : fs.isEmpty = false := isEmpty_of_mem_keys ((consults.keys fs rfl _).2 (.inl rfl))
    simp only [listed]
    exact .pure (by rwa [List.append_nil])

theorem download_consults (below : below? cdn.root (normalize p) = some d) :
    (cdn.download p).Meets (cdn.Consults d m) := by
  unfold download
  dsimp only
  rw [below]
  refine .bind (artifact_consults metadata whole) ?_ fun fs asked consults => ?_
  · exact fun f asked consults => ⟨consults.asks, fun fs given => by cases given⟩
  · have listed : fs.isEmpty = false := isEmpty_of_mem_keys ((consults.keys fs rfl _).2 (.inl rfl))
    simp only [listed]
    exact .pure (by rwa [List.append_nil])

end

/-- How a download of a package with metadata deals with the address of the package itself and the
path that stands for it. -/
structure SparesItself (cdn : Cdn) (p d : String) (m : Content) (r : Except Failure Files)
    (asked : List String) : Prop where
  /-- The address is asked for if the search for the entry comes to it, and else it is not. -/
  address : cdn.address d ∈ asked ↔ cdn.LooksAt d m d
  /-- A file is placed at the path if the first place of the entry with content stands for it. -/
  key : ∀ fs, r = .ok fs → (normalize p ∈ fs.keys ↔
    ∃ q c, cdn.LooksAt d m q ∧ cdn.Holds q c ∧ normalize p = join cdn.root [q])
  /-- An entry inside the package leads to neither of both, if no extension leads out of it. -/
  inside : ∀ name i, entryName m = .ok name → collapse (append d name) = d ++ "/" ++ i →
    Inner (d ++ "/" ++ i) → cdn.address d ∉ asked ∧ ((∀ e ∈ cdn.extensions, '/' ∉ e.toList) →
      ∀ fs, r = .ok fs → normalize p ∉ fs.keys)

theorem ne_below (d i : String) : d ≠ d ++ "/" ++ i := by
  intro same
  have lengths := congrArg String.length same
  have slash : "/".length = 1 := rfl
  rw [String.length_append, String.length_append, slash] at lengths
  omega

/-- The places of an entry inside a package lie inside the package as well. -/
theorem inside_of_mem_entryPaths {name i : String}
    (entry : collapse (append d name) = d ++ "/" ++ i) (hq : q ∈ cdn.entryPaths d name) :
    ∃ j, q = d ++ "/" ++ i ++ j ∧
      (Inner (d ++ "/" ++ i) → (∀ e ∈ cdn.extensions, '/' ∉ e.toList) → Inner q) := by
  have behind {k : String} (hq : q ∈ cdn.extended k) :
      ∃ e, q = k ++ e ∧ (Inner k → (∀ e ∈ cdn.extensions, '/' ∉ e.toList) → Inner q) := by
    obtain ⟨e, member, rfl⟩ := List.mem_map.1 hq
    exact ⟨e, rfl, fun hk noSlash => hk.extend (noSlash e member)⟩
  rw [entryPaths, entry] at hq
  rcases List.mem_cons.1 hq with rfl | further
  · exact ⟨"", by simp, fun hi _ => hi⟩
  · split at further
    · cases further
    · rcases List.mem_append.1 further with file | index
      · exact behind file
      · obtain ⟨e, rfl, inner⟩ := behind index
        exact ⟨"/index" ++ e, by simp [String.append_assoc], fun hi => inner hi.index⟩

/-- A package is read through its metadata. Its own address is asked for, and a file is placed at
its own path, just where the entry that the metadata names leads back to the package. -/
theorem package_read_through_metadata (root : normalize cdn.root = cdn.root)
    (below : below? cdn.root (normalize p) = some d) (whole : PackageName.ofRequest d = d)
    (metadata : cdn.Holds (d ++ "/package.json") m) (before : List String) :
    ∃ r asked, (cdn.download p).run.run before = (r, before ++ asked) ∧
      cdn.SparesItself p d m r asked := by
  obtain ⟨asked, run, consults⟩ := (download_consults metadata whole below).result before
  have place : normalize p = under cdn.root ++ d := below?_eq_some_iff.1 below
  have inner : Inner d ∨ d = "" ∧ cdn.root = "/" := by
    rw [← root] at below
    exact (inner_of_below? below).imp_right fun top => ⟨top.1, root.symm.trans top.2.2⟩
  have apart : normalize p ≠ join cdn.root [d, "package.json"] := by
    rcases inner with hd | ⟨rfl, top⟩
    · have key : join (normalize cdn.root) [d, "package.json"] =
          under (normalize cdn.root) ++ (d ++ "/package.json") :=
        (hd.join_pair (by decide)).trans hd.metadata.join_eq
      rw [place, ← root, key]
      intro same
      have lengths := congrArg String.length same
      simp at lengths
    · rw [place, top]
      decide
  have address : cdn.address d ∈ asked ↔ cdn.LooksAt d m d := by
    rw [consults.asks]
    refine or_iff_right fun same => ?_
    have lengths := congrArg String.length same
    simp at lengths
  refine ⟨_, asked, run, address, fun fs given => ?_, fun name i named entry hi => ?_⟩
  · rw [consults.keys fs given]
    exact or_iff_right apart
  · have stays {q : String} (hq : cdn.LooksAt d m q) :
        ∃ j, q = d ++ "/" ++ i ++ j ∧
          (Inner (d ++ "/" ++ i) → (∀ e ∈ cdn.extensions, '/' ∉ e.toList) → Inner q) := by
      obtain ⟨name', named', reaches⟩ := hq
      obtain rfl := Except.ok.inj (named.symm.trans named')
      exact inside_of_mem_entryPaths entry reaches.mem
    constructor
    · intro asks
      obtain ⟨j, same, -⟩ := stays (address.1 asks)
      rw [String.append_assoc] at same
      exact ne_below d _ same
    · intro noSlash fs given member
      obtain same | ⟨q, c, looks, -, same⟩ := (consults.keys fs given _).1 member
      · exact apart same
      · obtain ⟨j, hq, inner⟩ := stays looks
        rw [place, ← root, (inner hi noSlash).join_eq, hq, String.append_assoc,
          String.append_right_inj] at same
        exact ne_below d _ same

/-- Metadata with nothing in it but the entry. -/
def naming (main : String) : Content := ("\x7b\"main\": \"" ++ main ++ "\"\x7d").toUTF8.toList

theorem holds_withEntry (main place : String) :
    (withEntry main place).Holds "p/package.json" (naming main) := by
  have address : (withEntry main place).address "p/package.json" =
      "https://unpkg.com/p/package.json" := by
    show (withEntry "" "").address "p/package.json" = _
    decide
  rw [Holds, address]
  show Answer.withEntry main place "https://unpkg.com/p/package.json" = _
  rw [Answer.withEntry, if_pos rfl, naming]

theorem hasMain_of_text {name : String}
    (h : ((Json.decode m).toOption.bind fun cs => (Json.ofChars cs).toOption.bind fun v =>
      (v.field? "main").bind Json.text?) = some name) : HasMain m (.text name) := by
  cases decoded : Json.decode m with
  | error why =>
    rw [decoded] at h
    cases h
  | ok cs =>
    rw [decoded, Except.toOption, Option.bind_some] at h
    cases parsed : Json.ofChars cs with
    | error why =>
      rw [parsed] at h
      cases h
    | ok v =>
      rw [parsed, Except.toOption, Option.bind_some] at h
      obtain ⟨main, field, text⟩ := Option.bind_eq_some_iff.1 h
      refine ⟨cs, v, decoded, parsed, ?_⟩
      rw [field, Option.getD_some]
      cases main <;> cases text
      rfl

/-- A package whose entry lies in a directory of it is read through its metadata. -/
theorem package_read_through_metadata_entry :
    ∃ r asked, ((withEntry "lib/a" "p/lib/a.js").download "/node_modules/p").run.run [] =
        (r, [] ++ asked) ∧
      (withEntry "lib/a" "p/lib/a.js").SparesItself "/node_modules/p" "p" (naming "lib/a") r
        asked :=
  package_read_through_metadata (by decide) (by decide) (by decide) (holds_withEntry ..) []

/-- The entry `.` leads back to the package, so its own address is asked for and what is there is
placed at its own path. -/
theorem package_can_be_asked_for :
    below? (withEntry "." "p").root "/node_modules/p" = some "p" ∧
      PackageName.ofRequest "p" = "p" ∧ HasMain (naming ".") (.text ".") ∧
      (withEntry "." "p").Holds "p/package.json" (naming ".") ∧
      ∃ fs asked, ((withEntry "." "p").download "/node_modules/p").run.run [] = (.ok fs, asked) ∧
        (withEntry "." "p").address "p" ∈ asked ∧ "/node_modules/p" ∈ fs.keys := by
  have keys : (((withEntry "." "p").download "/node_modules/p").run.run
      []).1.toOption.map Table.keys =
        some ["/node_modules/p/package.json", "/node_modules/p"] := by
    decide +kernel
  have asks : (withEntry "." "p").address "p" ∈
      (((withEntry "." "p").download "/node_modules/p").run.run []).2 := by
    decide +kernel
  obtain ⟨fs, asked, run, keys⟩ := exists_run_of_keys keys
  rw [run] at asks
  exact ⟨by decide, by decide, hasMain_of_text (by decide +kernel), holds_withEntry .., fs, asked,
    run, asks, by simp [keys]⟩

end PluginHost.Cdn
