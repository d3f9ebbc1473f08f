import PluginHost.Proofs.Module.Finding
import PluginHost.Proofs.Path.Normal

/-!
What requests are answered with. Whatever the store holds, a request is answered with a file of the
store or with nothing, and metadata that names no main entry is passed over. Metadata whose bytes
are no text is the exception: coming upon it is a failure.
-/
namespace PluginHost

theorem Store.read?_normalize (s : Store) (path : String) :
    s.read? (Path.normalize path) = s.read? path := by
  simp only [Store.read?, Layer.read?, Path.normalize_normalize]

/-- Metadata that can be read, but names no main entry: it is no JSON, or what it has as its main
entry is no text. An array or a number has no main entry. -/
inductive Nameless (m : Content) : Prop where
  | garbled {cs : List Char} {why : Json.Unreadable} (decoded : Json.decode m = .ok cs)
      (unread : Json.ofChars cs = .error why) : Nameless m
  | misnamed {main : Json} (has : HasMain m main) (other : main.text? = none) : Nameless m

namespace Finder

variable {p : Finder} {store : Store} {path : String} {m : Content} {f : Failure}
  {file : ModuleFile} {r : ModuleRequest}

theorem mainEntry_of_nameless (h : Nameless m) : mainEntry m = .ok none := by
  cases h with
  | garbled decoded unread =>
    rw [mainEntry, decoded]
    dsimp only
    rw [unread]
  | misnamed has other =>
    rw [has.mainEntry_eq, other]
    rfl

theorem mainEntry_eq_error_iff :
    mainEntry m = .error f ↔ ∃ why, Json.decode m = .error why ∧ f = Fault.badText why := by
  unfold mainEntry
  split
  · rename_i why undecoded
    simp [undecoded, eq_comm]
  · rename_i cs decoded
    rw [decoded]
    split <;> simp

/-- How a request for a path can fail: no file answers the path itself, and the bytes of its
metadata are no text. -/
inductive Misreads (p : Finder) (store : Store) (path : String) : Failure → Prop where
  | of {m : Content} {why : Text.Malformed} (absent : p.file? store path = none)
      (metadata : store.read? (Path.join path ["package.json"]) = some m)
      (undecoded : Json.decode m = .error why) : Misreads p store path (Fault.badText why)

theorem throughMetadata_eq_error_iff : p.throughMetadata store path = .error f ↔
    ∃ m, store.read? (Path.join path ["package.json"]) = some m ∧ mainEntry m = .error f := by
  unfold throughMetadata
  split
  · rename_i absent
    simp [absent]
  · rename_i m metadata
    rw [metadata]
    cases entry : mainEntry m <;> simp [Except.map, entry]

theorem resolvePath_eq_error_iff :
    p.resolvePath store path = .error f ↔ p.Misreads store path f := by
  unfold resolvePath
  split
  · rename_i found answers
    constructor
    · exact fun h => by cases h
    · rintro ⟨absent, -, -⟩
      cases answers.symm.trans absent
  · rename_i absent
    have through : (p.throughMetadata store path).map (fun found =>
        found.or (p.file? store (Path.join path ["index"]))) = .error f ↔
          p.throughMetadata store path = .error f := by
      cases p.throughMetadata store path <;> simp [Except.map]
    rw [through, throughMetadata_eq_error_iff]
    simp only [mainEntry_eq_error_iff]
    constructor
    · rintro ⟨m, metadata, why, undecoded, rfl⟩
      exact .of absent metadata undecoded
    · rintro ⟨-, metadata, undecoded⟩
      exact ⟨_, metadata, _, undecoded, rfl⟩

/-- Metadata that names no main entry is passed over. -/
theorem resolvePath_of_nameless (metadata : store.read? (Path.join path ["package.json"]) = some m)
    (nameless : Nameless m) : p.resolvePath store path =
      .ok ((p.file? store path).or (p.file? store (Path.join path ["index"]))) := by
  unfold resolvePath
  split
  · rename_i found answers
    rw [answers]
    rfl
  · rename_i absent
    rw [throughMetadata, metadata]
    dsimp only
    rw [mainEntry_of_nameless nameless, absent]
    rfl

/-- A file that answers a request is one of the store. -/
structure Stored (store : Store) (file : ModuleFile) : Prop where
  normal : Path.normalize file.path = file.path
  read : store.read? file.path = some file.source

theorem stored_of_file? (h : p.file? store path = some file) : Stored store file := by
  obtain ⟨c, -, read, place⟩ := candidate_of_file? h
  constructor
  · rw [place, Path.normalize_normalize]
  · rw [place, store.read?_normalize, read]

theorem stored_of_resolvePath (h : p.resolvePath store path = .ok (some file)) :
    Stored store file := by
  cases finds_of_resolvePath h with
  | file found => exact stored_of_file? found
  | entry metadata main found => exact stored_of_file? found
  | entryIndex metadata main found => exact stored_of_file? found
  | index found => exact stored_of_file? found

/-- Every request is answered with a file of the store or with nothing, and metadata that names no
main entry is passed over, unless the bytes of the metadata that it comes upon are no text: just
then it fails. -/
theorem request_answered (p : Finder) (store : Store) (r : ModuleRequest) :
    (∀ f, p.resolve store r = .error f ↔ p.Misreads store (p.locate r) f) ∧
      (∀ m, store.read? (Path.join (p.locate r) ["package.json"]) = some m → Nameless m →
        p.resolve store r = .ok ((p.file? store (p.locate r)).or
          (p.file? store (Path.join (p.locate r) ["index"])))) ∧
      ∀ file, p.resolve store r = .ok (some file) → Stored store file := by
  refine ⟨fun f => resolvePath_eq_error_iff, fun m metadata nameless => ?_, fun file found => ?_⟩
  · exact resolvePath_of_nameless metadata nameless
  · exact stored_of_resolvePath found

/-- A package with an index and with metadata of a single byte that is no text. -/
def unreadable : Store :=
  (({} : Store).place "/node_modules/a/package.json" [0xFF]).place "/node_modules/a/index.py"
    "default = 1".toUTF8.toList

/-- A request for such a package is not answered with the index, but fails. -/
theorem request_can_fail :
    ∃ f, (ofRoot "/node_modules").resolve unreadable ⟨"a", none⟩ = .error f ∧
      f.message = "'utf-8' codec can't decode byte 0xff in position 0: invalid start byte" := by
  have failed : (match (ofRoot "/node_modules").resolve unreadable ⟨"a", none⟩ with
      | .ok _ => ""
      | .error f => f.message) =
        "'utf-8' codec can't decode byte 0xff in position 0: invalid start byte" := by
    decide +kernel
  split at failed
  · exact absurd failed (by decide)
  · rename_i f answer
    exact ⟨f, answer, failed⟩

end Finder

end PluginHost
