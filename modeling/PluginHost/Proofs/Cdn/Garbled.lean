import PluginHost.Proofs.Cdn.Browsing
import PluginHost.Proofs.Module.Finding

/-!
In what a download ends. It gives files, or fails since a path cannot be fetched, unless it comes
upon metadata that is beyond reading.
-/
namespace PluginHost.Cdn

variable {cdn : Cdn} {d p : String} {m : Content} {f : Failure} {r : Except Failure Files}
  {asked : List String}

/-- How metadata can be beyond reading: its bytes are no text, or the main file that it names is
something, but no text. Metadata that is no JSON, or no object, names no main file. -/
inductive Garbles (m : Content) : Failure → Prop where
  | undecoded {why : Text.Malformed} (bytes : Json.decode m = .error why) :
      Garbles m (Fault.badText why)
  | misnamed {main : Json} (has : HasMain m main) (other : main.text? = none)
      (some : main.isNothing = false) : Garbles m (badEntry main)

theorem Garbles.of_entryName (h : entryName m = .error f) : Garbles m f := by
  unfold entryName at h
  split at h
  · rename_i why bytes
    cases h
    exact .undecoded bytes
  · rename_i cs decoded
    split at h
    · cases h
    · rename_i v parsed
      split at h
      · cases h
      · rename_i other
        split at h
        · cases h
        · rename_i some
          cases h
          refine .misnamed ⟨cs, v, decoded, parsed, rfl⟩ ?_ (by simpa using some)
          cases main : (v.field? "main").getD .null with
          | text s => exact (other s main).elim
          | _ => rfl

theorem Garbles.entryName_eq (h : Garbles m f) : entryName m = .error f := by
  cases h with
  | undecoded bytes => rw [entryName, bytes]
  | @misnamed main has other some =>
    obtain ⟨cs, v, decoded, parsed, rfl⟩ := has
    rw [entryName, decoded]
    dsimp only
    rw [parsed]
    dsimp only
    split
    · rename_i s main
      rw [main] at other
      cases other
    · rw [some]
      rfl

theorem Garbles.isUnfetchable (h : Garbles m f) : f.fault.isUnfetchable = false := by
  cases h <;> rfl

theorem Refuses.isUnfetchable (h : cdn.Refuses p f) : f.fault.isUnfetchable = true := by
  cases h <;> rfl

/-- Whether a download of a path comes upon metadata that is beyond reading. A package is listed at
once, anything inside a package only if there is no file. -/
inductive Misreads (cdn : Cdn) (path : String) (f : Failure) : Prop where
  | of {d : String} {m : Content}
      (below : Path.below? cdn.root (Path.normalize path) = some d)
      (listed : PackageName.ofRequest d ≠ d → ∀ q ∈ cdn.filePaths d, cdn.Lacks q)
      (metadata : cdn.Holds (d ++ "/package.json") m) (garbles : Garbles m f)

theorem Lists.fails (h : cdn.Lists d (.error f) asked) :
    f.fault.isUnfetchable = true ∨ ∃ m, cdn.Holds (d ++ "/package.json") m ∧ Garbles m f := by
  cases h with
  | unnamed metadata why => exact .inr ⟨_, metadata, .of_entryName why⟩
  | refused asks refuses => exact .inl refuses.isUnfetchable

theorem Fetches.fails (h : cdn.Fetches p (.error f) asked) :
    f.fault.isUnfetchable = true ∨ cdn.Misreads p f := by
  cases h with
  | outside out => exact .inl rfl
  | nothing below retrieved empty => exact .inl rfl
  | failed below retrieved =>
    cases retrieved with
    | package whole listing sub some =>
      refine listing.fails.imp_right fun ⟨m, metadata, garbles⟩ => ?_
      exact .of below (fun part => (part whole).elim) metadata garbles
    | directory part search listing sub =>
      refine listing.fails.imp_right fun ⟨m, metadata, garbles⟩ => ?_
      cases search with
      | missed lacks => exact .of below (fun _ => lacks) metadata garbles
    | refused search sub =>
      cases search with
      | refused member asks refuses => exact .inl refuses.isUnfetchable

theorem Fetches.isEmpty {fs : Files} (h : cdn.Fetches p (.ok fs) asked) : fs.isEmpty = false := by
  cases h with
  | files below retrieved some => exact some

theorem Refuses.not_lacks (h : cdn.Refuses p f) : ¬ cdn.Lacks p := fun lacks => by
  cases h with
  | status answer other => exact other (Answer.status.inj (answer.symm.trans lacks))
  | unreachable answer => cases answer.symm.trans lacks

theorem Refuses.not_holds (h : cdn.Refuses p f) : ¬ cdn.Holds p m := fun holds => by
  cases h with
  | status answer other => cases answer.symm.trans holds
  | unreachable answer => cases answer.symm.trans holds

theorem firstFound_misses {ps : List String} (lacks : ∀ q ∈ ps, cdn.Lacks q) :
    (cdn.firstFound ps).Meets fun r _ => r = .ok none :=
  (firstFound_meets cdn ps).mono fun r asked hs => by
    cases hs with
    | found split before placed =>
      have none := lacks _ (split ▸ List.mem_append_right _ (List.mem_cons_self ..))
      cases none.symm.trans placed.holds
    | missed lacks => rfl
    | refused member asks refuses => exact (refuses.not_lacks (lacks _ member)).elim

section

variable (metadata : cdn.Holds (d ++ "/package.json") m) (garbles : Garbles m f)

include metadata garbles

theorem directory_fails : (cdn.directory d).Meets fun r _ => r = .error f := by
  refine .bind (get_meets ..) (fun g asked gets => ?_) (fun a asked gets => ?_)
  · cases gets with
    | refused refuses => exact (refuses.not_holds metadata).elim
  · cases gets with
    | absent lacks => cases lacks.symm.trans metadata
    | content holds =>
      cases holds.symm.trans metadata
      refine .bind .lift (fun g more why => ?_) fun name more named => ?_
      · cases why.1.trans garbles.entryName_eq
        rfl
      · cases named.1.trans garbles.entryName_eq

theorem artifact_fails (listed : PackageName.ofRequest d ≠ d → ∀ q ∈ cdn.filePaths d, cdn.Lacks q) :
    (cdn.artifact d).Meets fun r _ => r = .error f := by
  unfold artifact
  dsimp only
  split
  · exact .bind (directory_fails metadata garbles) (fun _ _ fails => fails) (by simp)
  · rename_i part
    refine .bind .given (by simp) ?_
    rintro _ _ ⟨⟨⟩, rfl⟩
    refine .bind (firstFound_misses (listed part)) (by simp) ?_
    rintro _ _ ⟨⟩
    exact directory_fails metadata garbles

end

theorem Misreads.fails (h : cdn.Misreads p f) : (cdn.download p).Meets fun r _ => r = .error f := by
  obtain ⟨below, listed, metadata, garbles⟩ := h
  unfold download
  dsimp only
  rw [below]
  exact .bind (artifact_fails metadata garbles listed) (fun _ _ fails => fails) (by simp)

/-- A download gives at least one file or fails since a path cannot be fetched, unless it comes upon
metadata that is beyond reading: it ends in any other failure just when it does. -/
theorem download_ends (cdn : Cdn) (p : String) (before : List String) :
    ∃ r after, (cdn.download p).run.run before = (r, after) ∧
      (∀ fs, r = .ok fs → fs.isEmpty = false) ∧
      ∀ f, r = .error f ∧ f.fault.isUnfetchable = false ↔ cdn.Misreads p f := by
  obtain ⟨asked, run, fetches⟩ := (download_meets cdn p).result before
  refine ⟨_, _, run, fun fs files => (files ▸ fetches).isEmpty, fun f => ⟨?_, fun misreads => ?_⟩⟩
  · rintro ⟨failed, other⟩
    obtain unfetchable | misreads := (failed ▸ fetches).fails
    · cases unfetchable.symm.trans other
    · exact misreads
  · obtain ⟨-, -, failed⟩ := misreads.fails.result before
    obtain ⟨below, listed, metadata, garbles⟩ := misreads
    exact ⟨failed, garbles.isUnfetchable⟩

/-- The default network, with nothing in it but the metadata of one package. -/
def withMetadataOnly (m : Content) : Cdn :=
  below "https://unpkg.com" "/node_modules" defaultExtensions fun url =>
    if url = "https://unpkg.com/p/package.json" then .content m else .status 404

/-- Whether a download fails with a message, and not since a path cannot be fetched. -/
def Leaks (cdn : Cdn) (p message : String) : Prop :=
  ∃ f after, (cdn.download p).run.run [] = (.error f, after) ∧ f.fault.isUnfetchable = false ∧
    f.message = message

def leaks? (cdn : Cdn) (p message : String) : Bool :=
  match ((cdn.download p).run.run []).1 with
  | .error f => !f.fault.isUnfetchable && f.message = message
  | .ok _ => false

theorem leaks_of_leaks? {message : String} (h : cdn.leaks? p message = true) :
    cdn.Leaks p message := by
  unfold leaks? at h
  split at h
  · rename_i f failed
    obtain ⟨other, said⟩ : f.fault.isUnfetchable = false ∧ f.message = message := by simpa using h
    exact ⟨f, _, Prod.ext failed rfl, other, said⟩
  · cases h

/-- A main file that is named by a number, and bytes that are no text, end a download in failures of
their own. -/
theorem download_can_misread :
    (withMetadataOnly "\x7b\"main\": 5\x7d".toUTF8.toList).Leaks "/node_modules/p"
        "join() argument must be str, bytes, or os.PathLike object, not 'int'" ∧
      (withMetadataOnly [0xFF]).Leaks "/node_modules/p"
        "'utf-8' codec can't decode byte 0xff in position 0: invalid start byte" :=
  ⟨leaks_of_leaks? (by decide +kernel), leaks_of_leaks? (by decide +kernel)⟩

end PluginHost.Cdn
