import PluginHost.Module.Finder

/-!
Which file answers a path: the path itself or one behind an extension, the entry that metadata names
or the index of that entry, or the index of the path.
-/
namespace PluginHost

/-- What the metadata of a package has as its main entry, null if nothing. -/
def HasMain (m : Content) (main : Json) : Prop :=
  ∃ cs v, Json.decode m = .ok cs ∧ Json.ofChars cs = .ok v ∧ (v.field? "main").getD .null = main

theorem HasMain.unique {m : Content} {main other : Json} (h : HasMain m main)
    (h' : HasMain m other) : main = other := by
  obtain ⟨cs, v, decoded, parsed, rfl⟩ := h
  obtain ⟨cs', v', decoded', parsed', rfl⟩ := h'
  obtain rfl := Except.ok.inj (decoded.symm.trans decoded')
  obtain rfl := Except.ok.inj (parsed.symm.trans parsed')
  rfl

theorem exists_hasMain {m : Content}
    (h : ((Json.decode m).toOption.bind fun cs => (Json.ofChars cs).toOption).isSome = true) :
    ∃ main, HasMain m main := by
  cases decoded : Json.decode m with
  | error why =>
    rw [decoded] at h
    cases h
  | ok cs =>
    cases parsed : Json.ofChars cs with
    | error why =>
      rw [decoded, Except.toOption, Option.bind_some, parsed] at h
      cases h
    | ok v => exact ⟨_, cs, v, decoded, parsed, rfl⟩

theorem HasMain.mainEntry_eq {m : Content} {main : Json} (h : HasMain m main) :
    Finder.mainEntry m = .ok (main.text?.filter (· ≠ "")) := by
  obtain ⟨cs, v, decoded, parsed, rfl⟩ := h
  rw [Finder.mainEntry, decoded]
  dsimp only
  rw [parsed]
  dsimp only
  cases v.field? "main" <;> rfl

namespace Finder

variable {p : Finder} {store : Store} {path c name : String} {m : Content} {main : Json}
  {f : ModuleFile}

theorem mem_candidates : c ∈ p.candidates path ↔ c = path ∨ ∃ e ∈ p.extensions, c = path ++ e := by
  simp [candidates, eq_comm]

theorem candidate_of_file? (h : p.file? store path = some f) :
    ∃ c ∈ p.candidates path, store.read? c = some f.source ∧ f.path = Path.normalize c := by
  obtain ⟨c, member, found⟩ := List.exists_of_findSome?_eq_some h
  obtain ⟨source, read, rfl⟩ := Option.map_eq_some_iff.1 found
  exact ⟨c, member, read, rfl⟩

theorem isSome_file? (member : c ∈ p.candidates path) (h : (store.read? c).isSome = true) :
    (p.file? store path).isSome = true := by
  rw [file?, List.findSome?_isSome_iff]
  exact ⟨c, member, by simpa using h⟩

/-- Where the file comes from that answers a path. -/
inductive Finds (p : Finder) (store : Store) (path : String) (f : ModuleFile) : Prop where
  | file (found : p.file? store path = some f)
  | entry {m : Content} {name : String}
      (metadata : store.read? (Path.join path ["package.json"]) = some m)
      (main : mainEntry m = .ok (some name))
      (found : p.file? store (Path.join path [name]) = some f)
  | entryIndex {m : Content} {name : String}
      (metadata : store.read? (Path.join path ["package.json"]) = some m)
      (main : mainEntry m = .ok (some name))
      (found : p.file? store (Path.join (Path.join path [name]) ["index"]) = some f)
  | index (found : p.file? store (Path.join path ["index"]) = some f)

theorem finds_of_resolvePath (h : p.resolvePath store path = .ok (some f)) :
    p.Finds store path f := by
  unfold resolvePath at h
  split at h
  · rename_i file
    cases h
    exact .file file
  · cases through : p.throughMetadata store path with
    | error why =>
      rw [through] at h
      cases h
    | ok entry =>
      rw [through] at h
      rcases Option.or_eq_some_iff.1 (Except.ok.inj h) with rfl | ⟨-, index⟩
      · unfold throughMetadata at through
        split at through
        · cases through
        · rename_i m metadata
          cases main : mainEntry m with
          | error why =>
            rw [main] at through
            cases through
          | ok name? =>
            rw [main] at through
            obtain ⟨name, rfl, entry⟩ := Option.bind_eq_some_iff.1 (Except.ok.inj through)
            rcases Option.or_eq_some_iff.1 entry with file | ⟨-, index⟩
            · exact .entry metadata main file
            · exact .entryIndex metadata main index
      · exact .index index

theorem resolvePath_of_file (h : (p.file? store path).isSome = true) :
    ∃ f, p.resolvePath store path = .ok (some f) := by
  obtain ⟨f, file⟩ := Option.isSome_iff_exists.1 h
  exact ⟨f, by rw [resolvePath, file]⟩

/-- Past the metadata there is an index, unless the metadata is unreadable. -/
theorem resolvePath_of_through {found : Option ModuleFile}
    (through : p.throughMetadata store path = .ok found)
    (h : found.isSome = true ∨ (p.file? store (Path.join path ["index"])).isSome = true) :
    ∃ f, p.resolvePath store path = .ok (some f) := by
  unfold resolvePath
  split
  · exact ⟨_, rfl⟩
  · rw [through]
    cases found with
    | some f => exact ⟨f, rfl⟩
    | none =>
      obtain ⟨f, index⟩ := Option.isSome_iff_exists.1 (h.resolve_left (by simp))
      exact ⟨f, congrArg Except.ok index⟩

theorem resolvePath_of_entry (metadata : store.read? (Path.join path ["package.json"]) = some m)
    (main : HasMain m (.text name)) (named : name ≠ "")
    (h : (p.file? store (Path.join path [name])).isSome = true ∨
      (p.file? store (Path.join (Path.join path [name]) ["index"])).isSome = true) :
    ∃ f, p.resolvePath store path = .ok (some f) := by
  have through : p.throughMetadata store path = .ok (p.entryFile? store path name) := by
    rw [throughMetadata, metadata]
    dsimp only
    rw [main.mainEntry_eq]
    simp [Json.text?, Option.filter, named, Except.map]
  refine resolvePath_of_through through (.inl ?_)
  simpa [entryFile?] using h

theorem resolvePath_of_index
    (json : ∀ m, store.read? (Path.join path ["package.json"]) = some m → ∃ main, HasMain m main)
    (h : (p.file? store (Path.join path ["index"])).isSome = true) :
    ∃ f, p.resolvePath store path = .ok (some f) := by
  obtain ⟨found, through⟩ : ∃ found, p.throughMetadata store path = .ok found := by
    unfold throughMetadata
    split
    · exact ⟨_, rfl⟩
    · rename_i m metadata
      obtain ⟨main, hm⟩ := json m metadata
      rw [hm.mainEntry_eq]
      exact ⟨_, rfl⟩
  exact resolvePath_of_through through (.inr h)

end Finder

end PluginHost
