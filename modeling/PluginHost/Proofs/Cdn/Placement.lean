import PluginHost.Proofs.Cdn.Browsing
import PluginHost.Proofs.Module.Finding
import PluginHost.Proofs.Path.Inside

/-!
Where downloaded files are placed. A file lies inside the root at the path at which the network has
it, unless the metadata of its package names an entry that leads out of the root.
-/
namespace PluginHost

namespace Table

variable {κ α : Type} [DecidableEq κ] {e : κ × α} {es : List (κ × α)}

theorem mem_of_mem_putEntry {k : κ} {v : α} (h : e ∈ putEntry k v es) : e = (k, v) ∨ e ∈ es := by
  induction es with
  | nil => exact .inl (List.mem_singleton.1 h)
  | cons d es ih =>
    rw [putEntry] at h
    split at h
    · exact (List.mem_cons.1 h).imp_right (List.mem_cons_of_mem _)
    · rcases List.mem_cons.1 h with rfl | later
      · exact .inr (List.mem_cons_self ..)
      · exact (ih later).imp_right (List.mem_cons_of_mem _)

theorem mem_of_mem_ofList (h : e ∈ (ofList es).entries) : e ∈ es := by
  have grown (es : List (κ × α)) (t : Table κ α) :
      e ∈ (es.foldl (fun t e => t.insert e.1 e.2) t).entries → e ∈ t.entries ∨ e ∈ es := by
    induction es generalizing t with
    | nil => exact .inl
    | cons d es ih =>
      intro he
      rcases ih _ he with before | after
      · rcases mem_of_mem_putEntry before with rfl | old
        · exact .inr (List.mem_cons_self ..)
        · exact .inl old
      · exact .inr (List.mem_cons_of_mem _ after)
  exact (grown es _ h).resolve_left (by simp [empty])

theorem mem_keys_ofList {k : κ} : k ∈ (ofList es).keys ↔ k ∈ es.map Prod.fst := by
  have grown (es : List (κ × α)) (t : Table κ α) :
      (es.foldl (fun t e => t.insert e.1 e.2) t).contains k = true ↔
        t.contains k = true ∨ k ∈ es.map Prod.fst := by
    induction es generalizing t with
    | nil => simp
    | cons d es ih =>
      rw [List.foldl_cons, ih, contains, get?_insert, List.map_cons, List.mem_cons]
      by_cases same : d.1 = k
      · simp [same]
      · simp [same, Ne.symm same, contains]
  rw [← contains_iff_mem_keys, ofList, grown]
  simp [contains]

end Table

namespace Cdn

open PluginHost.Path

variable {cdn : Cdn} {d i m q root name path : String} {fs : Files} {f : String × Content}
  {asked before after : List String} {ps : List String}

theorem hasMain_of_entryName {m : Content} (h : entryName m = .ok name) :
    name = "index" ∨ HasMain m (.text name) := by
  unfold entryName at h
  split at h
  · cases h
  · rename_i cs decoded
    split at h
    · cases h
      exact .inl rfl
    · rename_i v parsed
      split at h
      · rename_i s main
        split at h
        · cases h
          exact .inl rfl
        · cases h
          exact .inr ⟨cs, v, decoded, parsed, main⟩
      · split at h
        · cases h
          exact .inl rfl
        · cases h

/-- Paths of the network at which a download looks, and what led it there. -/
inductive Candidate (cdn : Cdn) (d : String) : String → Prop where
  | file {q : String} (member : q ∈ cdn.filePaths d) : Candidate cdn d q
  | index {q : String} (member : q ∈ cdn.indexes d) : Candidate cdn d q
  | metadata : Candidate cdn d (d ++ "/package.json")
  | entry {q : String} {m : Content} {name : String} (metadata : cdn.Holds (d ++ "/package.json") m)
      (named : entryName m = .ok name) (member : q ∈ cdn.entryPaths d name) : Candidate cdn d q

theorem Searches.placed (hs : cdn.Searches ps (.ok (some f)) asked) :
    ∃ q ∈ ps, cdn.Placed q f := by
  cases hs with
  | found split lacks placed => exact ⟨_, by simp [split], placed⟩

theorem Lists.placed (hl : cdn.Lists d (.ok fs) asked) (hf : f ∈ fs.entries)
    (metadata : join cdn.root [d, "package.json"] = join cdn.root [d ++ "/package.json"]) :
    ∃ q, cdn.Candidate d q ∧ cdn.Placed q f := by
  cases hl with
  | bare lacks index =>
    have found := Option.mem_toList.1 (Table.mem_of_mem_ofList hf)
    obtain ⟨q, member, placed⟩ := Searches.placed (found ▸ index)
    exact ⟨q, .index member, placed⟩
  | package holds named entry =>
    rcases List.mem_cons.1 (Table.mem_of_mem_ofList hf) with rfl | found
    · exact ⟨_, .metadata, metadata, holds⟩
    · have found := Option.mem_toList.1 found
      obtain ⟨q, member, placed⟩ := Searches.placed (found ▸ entry)
      exact ⟨q, .entry holds named member, placed⟩

theorem Retrieves.placed (hr : cdn.Retrieves d (.ok fs) asked) (hf : f ∈ fs.entries)
    (metadata : join cdn.root [d, "package.json"] = join cdn.root [d ++ "/package.json"]) :
    ∃ q, cdn.Candidate d q ∧ cdn.Placed q f := by
  cases hr with
  | file bare search =>
    obtain rfl := List.mem_singleton.1 (Table.mem_of_mem_ofList hf)
    obtain ⟨q, member, placed⟩ := search.placed
    exact ⟨q, .file member, placed⟩
  | package whole listing sub some => exact listing.placed hf metadata
  | directory part search listing sub => exact listing.placed hf metadata
  | nothing whole bare empty search => cases hf

/-- A path behind an extension that holds a slash. -/
inductive Slashed (cdn : Cdn) : String → Prop where
  | of {i e : String} (member : e ∈ cdn.extensions) (slash : '/' ∈ e.toList) : Slashed cdn (i ++ e)

/-- A path at which the entry of a directory may lie, though it leads out of the root. -/
inductive Astray (cdn : Cdn) (d : String) : String → Prop where
  | of {q name : String} {m : Content} (metadata : cdn.Holds (d ++ "/package.json") m)
      (named : entryName m = .ok name) (out : ¬ Inner (collapse (append d name)))
      (member : q ∈ cdn.entryPaths d name) : Astray cdn d q

theorem inner_extended (hi : Inner i) (hq : q ∈ cdn.extended i) : Inner q ∨ cdn.Slashed q := by
  obtain ⟨e, member, rfl⟩ := List.mem_map.1 hq
  by_cases slash : '/' ∈ e.toList
  · exact .inr (.of member slash)
  · exact .inl (hi.extend slash)

/-- Below a path inside the root a download looks nowhere else, unless an extension holds a slash or
metadata leads it out. -/
theorem Candidate.inner (hq : cdn.Candidate d q) (hd : Inner d) :
    Inner q ∨ cdn.Slashed q ∨ cdn.Astray d q := by
  have behind {i : String} (hi : Inner i) (hq : q ∈ cdn.extended i) :
      Inner q ∨ cdn.Slashed q ∨ cdn.Astray d q := (inner_extended hi hq).imp_right .inl
  cases hq with
  | file member =>
    rcases List.mem_cons.1 member with rfl | extended
    · exact .inl hd
    · split at extended
      · cases extended
      · exact behind hd extended
  | index member => exact behind hd.index member
  | metadata => exact .inl hd.metadata
  | @entry _ m name metadata named member =>
    by_cases inside : Inner (collapse (append d name))
    · rcases List.mem_cons.1 member with rfl | further
      · exact .inl inside
      · split at further
        · cases further
        · rcases List.mem_append.1 further with file | index
          · exact behind inside file
          · exact behind inside.index index
    · exact .inr (.inr (.of metadata named inside member))

/-- What leads a download to a path of the network that is none inside the root. -/
inductive LeadsOut (cdn : Cdn) (path : String) : String → Prop where
  | top {q : String} (top : normalize path = "/") : LeadsOut cdn path q
  | extension {q : String} (slashed : cdn.Slashed q) : LeadsOut cdn path q
  | entry {d q name : String} {m : Content} (below : below? cdn.root (normalize path) = some d)
      (metadata : cdn.Holds (d ++ "/package.json") m) (main : HasMain m (.text name))
      (out : ¬ Inner (collapse (append d name))) (member : q ∈ cdn.entryPaths d name) :
      LeadsOut cdn path q

theorem Astray.leadsOut (hq : cdn.Astray d q) (hd : Inner d)
    (below : below? cdn.root (normalize path) = some d) : cdn.LeadsOut path q := by
  obtain ⟨metadata, named, out, member⟩ := hq
  rcases hasMain_of_entryName named with rfl | main
  · exact (out (hd.collapse_index ▸ hd.index)).elim
  · exact .entry below metadata main out member

/-- What a download ends in does not depend on what was asked for before. -/
theorem fetches_of_run {r : Except Failure Files}
    (h : (cdn.download path).run.run before = (r, after)) : ∃ asked, cdn.Fetches path r asked := by
  obtain ⟨asked, run, fetches⟩ := (download_meets cdn path).result before
  rw [h] at run
  exact ⟨asked, (Prod.mk.inj run).1 ▸ fetches⟩

theorem Fetches.placed (hn : normalize cdn.root = cdn.root) (h : cdn.Fetches path (.ok fs) asked)
    (hf : f ∈ fs.entries) :
    ∃ q, cdn.Placed q f ∧ (Inner q ∧ f.1 = under cdn.root ++ q ∨ cdn.LeadsOut path q) := by
  cases h with
  | @files _ more d _ below retrieved some =>
    have inside := below
    rw [← hn] at inside
    rcases inner_of_below? inside with hd | ⟨rfl, top, root⟩
    · have metadata : join cdn.root [d, "package.json"] = join cdn.root [d ++ "/package.json"] :=
        hd.join_pair (by decide)
      obtain ⟨q, candidate, placed⟩ := retrieved.placed hf metadata
      refine ⟨q, placed, ?_⟩
      rcases candidate.inner hd with inner | slashed | astray
      · exact .inl ⟨inner, by rw [placed.key, ← hn, inner.join_eq]⟩
      · exact .inr (.extension slashed)
      · exact .inr (astray.leadsOut hd below)
    · have metadata :
          join cdn.root ["", "package.json"] = join cdn.root ["" ++ "/package.json"] := by
        rw [← hn, root]
        decide +kernel
      obtain ⟨q, -, placed⟩ := retrieved.placed hf metadata
      exact ⟨q, placed, .inr (.top top)⟩

/-- Every file that a download gives lies strictly below the root, and the network has its content
at the part of its path behind the root, unless something has led the download out of the root. -/
theorem download_placed (url root : String) (extensions : List String) (answer : String → Answer)
    {path : String} {before after : List String} {fs : Files}
    (h : ((below url root extensions answer).download path).run.run before = (.ok fs, after)) :
    ∀ f ∈ fs.entries, ∃ q, (below url root extensions answer).Placed q f ∧
      (Inner q ∧ f.1 = under (normalize root) ++ q ∨
        (below url root extensions answer).LeadsOut path q) := by
  intro f hf
  obtain ⟨asked, fetches⟩ := fetches_of_run h
  exact fetches.placed (normalize_normalize root) hf

/-- A network that has one package and one more file. -/
def Answer.withEntry (main place : String) (url : String) : Answer :=
  if url = "https://unpkg.com/p/package.json" then
    .content ("\x7b\"main\": \"" ++ main ++ "\"\x7d").toUTF8.toList
  else if url = "https://unpkg.com/" ++ place then .content "1".toUTF8.toList
  else .status 404

/-- The default network, with the package in it. -/
def withEntry (main place : String) : Cdn :=
  below "https://unpkg.com/" "/node_modules" defaultExtensions (Answer.withEntry main place)

theorem exists_run_of_keys {b : Browse Files} {ks : List String}
    (h : (b.run.run before).1.toOption.map Table.keys = some ks) :
    ∃ fs after, b.run.run before = (.ok fs, after) ∧ fs.keys = ks := by
  rcases hr : b.run.run before with ⟨f | fs, after⟩
  · rw [hr] at h
    cases h
  · rw [hr] at h
    exact ⟨fs, after, rfl, Option.some.inj h⟩

/-- The entry of a package is placed next to its metadata. -/
theorem download_placed_entry :
    ∃ fs after, ((withEntry "lib/a" "p/lib/a.js").download "node_modules/p/").run.run [] =
        (.ok fs, after) ∧
      fs.keys = ["/node_modules/p/package.json", "/node_modules/p/lib/a.js"] ∧
      ∀ f ∈ fs.entries, ∃ q, (withEntry "lib/a" "p/lib/a.js").Placed q f ∧
        (Inner q ∧ f.1 = under (normalize "/node_modules") ++ q ∨
          (withEntry "lib/a" "p/lib/a.js").LeadsOut "node_modules/p/" q) := by
  have keys : (((withEntry "lib/a" "p/lib/a.js").download "node_modules/p/").run.run
      []).1.toOption.map Table.keys =
        some ["/node_modules/p/package.json", "/node_modules/p/lib/a.js"] := by
    decide +kernel
  obtain ⟨fs, after, run, keys⟩ := exists_run_of_keys keys
  exact ⟨fs, after, run, keys, download_placed _ _ _ _ run⟩

/-- Metadata can place a file next to the root. -/
theorem download_can_stray :
    ∃ fs after, ((withEntry "../../src/a.py" "../src/a.py").download "/node_modules/p").run.run [] =
        (.ok fs, after) ∧
      ∃ f ∈ fs.entries, f.1 = "/src/a.py" ∧ below? (normalize "/node_modules") f.1 = none := by
  have keys : (((withEntry "../../src/a.py" "../src/a.py").download "/node_modules/p").run.run
      []).1.toOption.map Table.keys = some ["/node_modules/p/package.json", "/src/a.py"] := by
    decide +kernel
  obtain ⟨fs, after, run, keys⟩ := exists_run_of_keys keys
  have member : "/src/a.py" ∈ fs.keys := by simp [keys]
  obtain ⟨f, hf, key⟩ := List.mem_map.1 member
  refine ⟨fs, after, run, f, hf, key, ?_⟩
  rw [key]
  decide

end Cdn

end PluginHost
