import PluginHost.Cdn

/-!
How browsing ends. One lemma for each function says in which results it can end, what the network
has answered then and which addresses were asked for.
-/
namespace PluginHost.Cdn

namespace Browse

variable {α β : Type} {b : Browse α} {g : α → Browse β} {r : Except Failure α}
  {post : Except Failure α → List String → Prop} {after : Except Failure β → List String → Prop}
  {before asked : List String}

/-- Whatever was asked before, browsing ends in a result that meets a condition, together with the
addresses that it asks for. -/
def Meets (b : Browse α) (post : Except Failure α → List String → Prop) : Prop :=
  ∃ r asked, (∀ before, b.run.run before = (r, before ++ asked)) ∧ post r asked

namespace Meets

theorem pure {a : α} (h : post (.ok a) []) : Meets (Pure.pure a) post :=
  ⟨.ok a, [], fun before => by rw [List.append_nil]; rfl, h⟩

theorem error {f : Failure} (h : post (.error f) []) : Meets (throw f) post :=
  ⟨.error f, [], fun before => by rw [List.append_nil]; rfl, h⟩

theorem ask {url : String} :
    Meets (modify (· ++ [url])) fun r asked => r = .ok () ∧ asked = [url] :=
  ⟨.ok (), [url], fun _ => rfl, rfl, rfl⟩

theorem lift {e : Except Failure α} :
    Meets (liftM e : Browse α) fun r asked => r = e ∧ asked = [] := by
  refine ⟨e, [], fun before => ?_, rfl, rfl⟩
  rw [List.append_nil]
  cases e <;> rfl

theorem given {a : α} : Meets (Pure.pure a : Browse α) fun r asked => r = .ok a ∧ asked = [] :=
  .pure ⟨rfl, rfl⟩

theorem thrown {f : Failure} :
    Meets (throw f : Browse α) fun r asked => r = .error f ∧ asked = [] :=
  .error ⟨rfl, rfl⟩

theorem bind (hb : b.Meets post)
    (failed : ∀ f asked, post (.error f) asked → after (.error f) asked)
    (next : ∀ a asked, post (.ok a) asked → (g a).Meets fun r more => after r (asked ++ more)) :
    Meets (b >>= g) after := by
  obtain ⟨r, asked, run, holds⟩ := hb
  cases r with
  | error f =>
    refine ⟨.error f, asked, fun before => ?_, failed f asked holds⟩
    have first := run before
    simp only [ExceptT.run_bind, StateT.run_bind, first]
    rfl
  | ok a =>
    obtain ⟨r, more, rest, holds⟩ := next a asked holds
    refine ⟨r, asked ++ more, fun before => ?_, holds⟩
    have first := run before
    have second := rest (before ++ asked)
    simp only [ExceptT.run_bind, StateT.run_bind, first]
    rw [← List.append_assoc]
    exact second

theorem mono {post' : Except Failure α → List String → Prop} (hb : b.Meets post)
    (h : ∀ r asked, post r asked → post' r asked) : b.Meets post' := by
  obtain ⟨r, asked, run, holds⟩ := hb
  exact ⟨r, asked, run, h r asked holds⟩

/-- The result does not depend on what was asked before. -/
theorem result (hb : b.Meets post) (before : List String) :
    ∃ asked, b.run.run before = ((b.run.run []).1, before ++ asked) ∧
      post (b.run.run []).1 asked := by
  obtain ⟨r, asked, run, holds⟩ := hb
  rw [run []]
  exact ⟨asked, run before, holds⟩

end Meets

end Browse

variable {cdn : Cdn} {p d : String} {ps : List String} {asked more : List String}
  {r : Except Failure (Option (String × Content))} {rs : Except Failure Files}

/-- Where a path of the network is asked for. -/
def address (cdn : Cdn) (path : String) : String := cdn.url ++ "/" ++ path

/-- Whether the network says that there is nothing at a path. -/
def Lacks (cdn : Cdn) (path : String) : Prop := cdn.answer (cdn.address path) = .status 404

/-- Whether the network has content at a path. -/
def Holds (cdn : Cdn) (path : String) (c : Content) : Prop :=
  cdn.answer (cdn.address path) = .content c

/-- What becomes of an answer that is neither content nor the absence of it. -/
inductive Refuses (cdn : Cdn) (path : String) : Failure → Prop where
  | status {code : Int} (answer : cdn.answer (cdn.address path) = .status code)
      (other : code ≠ 404) :
      Refuses cdn path
        (Failure.because (.unfetchable (cdn.address path) (some s!"HTTP {code}"))
          (Fault.httpStatus code))
  | unreachable {reason : String} (answer : cdn.answer (cdn.address path) = .unreachable reason) :
      Refuses cdn path
        (Failure.because (.unfetchable (cdn.address path) (some reason)) (Fault.network reason))

/-- How asking for one path ends. -/
inductive Gets (cdn : Cdn) (p : String) : Except Failure (Option Content) → List String → Prop where
  | content {c : Content} (holds : cdn.Holds p c) : Gets cdn p (.ok (some c)) [cdn.address p]
  | absent (lacks : cdn.Lacks p) : Gets cdn p (.ok none) [cdn.address p]
  | refused {f : Failure} (refuses : cdn.Refuses p f) :
      Gets cdn p (.error f) [cdn.address p]

theorem get_meets (cdn : Cdn) (p : String) : (cdn.get p).Meets (cdn.Gets p) := by
  unfold get
  refine .bind .ask ?_ ?_
  · rintro f asked ⟨⟨⟩, -⟩
  · rintro _ _ ⟨-, rfl⟩
    split
    · rename_i c holds
      exact .pure (.content holds)
    · rename_i code answer
      split
      · rename_i missing
        exact .pure (.absent (by rw [Lacks, address, answer, missing]))
      · rename_i other
        exact .error (.refused (.status answer other))
    · rename_i reason answer
      exact .error (.refused (.unreachable answer))

/-- A file that the network has at some path, placed where the root followed by it leads. -/
structure Placed (cdn : Cdn) (q : String) (f : String × Content) : Prop where
  key : f.1 = Path.join cdn.root [q]
  holds : cdn.Holds q f.2

/-- How a search through some paths ends. -/
inductive Searches (cdn : Cdn) (ps : List String) :
    Except Failure (Option (String × Content)) → List String → Prop where
  | found {before after asked : List String} {p : String} {file : String × Content}
      (split : ps = before ++ p :: after) (lacks : ∀ q ∈ before, cdn.Lacks q)
      (placed : cdn.Placed p file) : Searches cdn ps (.ok (some file)) asked
  | missed {asked : List String} (lacks : ∀ q ∈ ps, cdn.Lacks q) : Searches cdn ps (.ok none) asked
  | refused {asked : List String} {p : String} {f : Failure} (member : p ∈ ps)
      (asks : cdn.address p ∈ asked) (refuses : cdn.Refuses p f) :
      Searches cdn ps (.error f) asked

theorem Searches.cons (hs : cdn.Searches ps r asked) (hp : cdn.Lacks p)
    (sub : asked ⊆ more) : cdn.Searches (p :: ps) r more := by
  cases hs with
  | @found before after _ q file split lacks placed =>
    have split : p :: ps = (p :: before) ++ q :: after := by rw [split, List.cons_append]
    exact .found split (List.forall_mem_cons.2 ⟨hp, lacks⟩) placed
  | missed lacks => exact .missed (List.forall_mem_cons.2 ⟨hp, lacks⟩)
  | refused member asks refuses => exact .refused (List.mem_cons_of_mem _ member) (sub asks) refuses

theorem firstFound_meets (cdn : Cdn) (ps : List String) :
    (cdn.firstFound ps).Meets (cdn.Searches ps) := by
  induction ps with
  | nil => exact .pure (.missed (by simp))
  | cons p ps ih =>
    refine .bind (get_meets cdn p) (fun f asked gets => ?_) (fun a asked gets => ?_)
    · cases gets with
      | refused refuses =>
        exact .refused (List.mem_cons_self ..) (List.mem_singleton_self _) refuses
    · cases gets with
      | content holds =>
        have split : p :: ps = [] ++ p :: ps := rfl
        exact .pure (.found split (by simp) ⟨rfl, holds⟩)
      | absent lacks => exact ih.mono fun r more hs => hs.cons lacks (List.subset_append_right ..)

/-- How listing a directory ends. -/
inductive Lists (cdn : Cdn) (d : String) : Except Failure Files → List String → Prop where
  | bare {asked more : List String} {found : Option (String × Content)}
      (lacks : cdn.Lacks (d ++ "/package.json"))
      (index : cdn.Searches (cdn.indexes d) (.ok found) more) :
      Lists cdn d (.ok (Table.ofList found.toList)) asked
  | package {asked more : List String} {m : Content} {name : String}
      {found : Option (String × Content)} (metadata : cdn.Holds (d ++ "/package.json") m)
      (named : entryName m = .ok name)
      (entry : cdn.Searches (cdn.entryPaths d name) (.ok found) more) :
      Lists cdn d (.ok (Table.ofList
        ((Path.join cdn.root [d, "package.json"], m) :: found.toList))) asked
  | unnamed {asked : List String} {m : Content} {f : Failure}
      (metadata : cdn.Holds (d ++ "/package.json") m) (why : entryName m = .error f) :
      Lists cdn d (.error f) asked
  | refused {asked : List String} {q : String} {f : Failure}
      (asks : cdn.address q ∈ asked) (refuses : cdn.Refuses q f) : Lists cdn d (.error f) asked

theorem directory_meets (cdn : Cdn) (d : String) : (cdn.directory d).Meets (cdn.Lists d) := by
  refine .bind (get_meets ..) (fun f asked gets => ?_) (fun a asked gets => ?_)
  · cases gets with
    | refused refuses => exact .refused (List.mem_singleton_self _) refuses
  · cases gets with
    | absent lacks =>
      refine .bind (firstFound_meets ..) (fun f more hs => ?_) fun found more hs => .pure ?_
      · cases hs with
        | refused member asks refuses => exact .refused (List.mem_append_right _ asks) refuses
      · exact .bare lacks hs
    | content metadata =>
      refine .bind .lift (fun f more why => ?_) fun name more named => ?_
      · exact .unnamed metadata why.1.symm
      · refine .bind (firstFound_meets ..) (fun f later hs => ?_) fun found later hs => .pure ?_
        · cases hs with
          | refused member asks refuses =>
            exact .refused (List.mem_append_right _ (List.mem_append_right _ asks)) refuses
        · exact .package metadata named.1.symm hs

/-- How looking for what lies at a path ends. A package is first taken for a directory, anything
inside a package for a file. -/
inductive Retrieves (cdn : Cdn) (p : String) : Except Failure Files → List String → Prop where
  | file {asked more : List String} {file : String × Content}
      (bare : PackageName.ofRequest p = p →
        ∃ fs more, cdn.Lists p (.ok fs) more ∧ fs.isEmpty = true)
      (search : cdn.Searches (cdn.filePaths p) (.ok (some file)) more) :
      Retrieves cdn p (.ok (Table.ofList [file])) asked
  | package {asked more : List String} {r : Except Failure Files}
      (whole : PackageName.ofRequest p = p) (listing : cdn.Lists p r more) (sub : more ⊆ asked)
      (some : ∀ fs, r = .ok fs → fs.isEmpty = false) : Retrieves cdn p r asked
  | directory {asked before more : List String} {r : Except Failure Files}
      (part : PackageName.ofRequest p ≠ p)
      (search : cdn.Searches (cdn.filePaths p) (.ok none) before)
      (listing : cdn.Lists p r more) (sub : more ⊆ asked) : Retrieves cdn p r asked
  | nothing {asked before more : List String} {fs : Files} (whole : PackageName.ofRequest p = p)
      (bare : cdn.Lists p (.ok fs) before) (empty : fs.isEmpty = true)
      (search : cdn.Searches (cdn.filePaths p) (.ok none) more) : Retrieves cdn p (.ok .empty) asked
  | refused {asked more : List String} {f : Failure}
      (search : cdn.Searches (cdn.filePaths p) (.error f) more) (sub : more ⊆ asked) :
      Retrieves cdn p (.error f) asked

theorem artifact_meets (cdn : Cdn) (p : String) : (cdn.artifact p).Meets (cdn.Retrieves p) := by
  unfold artifact
  dsimp only
  split
  · rename_i whole
    refine .bind (directory_meets ..) (fun f asked listing => ?_) (fun fs asked listing => ?_)
    · exact .package whole listing (fun _ h => h) (by simp)
    · split
      · rename_i some
        exact .pure (.package whole listing (List.subset_append_left ..) (by simpa using some))
      · rename_i empty
        have empty : fs.isEmpty = true := by simpa using empty
        refine .bind (firstFound_meets ..) (fun f more hs => ?_) (fun found more hs => ?_)
        · exact .refused hs (List.subset_append_right ..)
        · split
          · exact .pure (.file (fun _ => ⟨_, _, listing, empty⟩) hs)
          · exact .pure (.nothing whole listing empty hs)
  · rename_i part
    refine .bind .given (by simp) ?_
    rintro _ _ ⟨⟨⟩, rfl⟩
    refine .bind (firstFound_meets ..) (fun f more hs => ?_) (fun found more hs => ?_)
    · exact .refused hs (by simp)
    · split
      · exact .pure (.file (fun whole => (part whole).elim) hs)
      · exact (directory_meets ..).mono fun r later listing =>
          .directory part hs listing (by simp)

/-- How a download ends. -/
inductive Fetches (cdn : Cdn) (p : String) : Except Failure Files → List String → Prop where
  | outside {asked : List String} (out : Path.below? cdn.root (Path.normalize p) = none) :
      Fetches cdn p
        (.error (Fault.unfetchable (Path.normalize p) (some s!"not under {cdn.root}"))) asked
  | files {asked more : List String} {inside : String} {fs : Files}
      (below : Path.below? cdn.root (Path.normalize p) = some inside)
      (retrieved : cdn.Retrieves inside (.ok fs) more) (some : fs.isEmpty = false) :
      Fetches cdn p (.ok fs) asked
  | nothing {asked more : List String} {inside : String} {fs : Files}
      (below : Path.below? cdn.root (Path.normalize p) = some inside)
      (retrieved : cdn.Retrieves inside (.ok fs) more) (empty : fs.isEmpty = true) :
      Fetches cdn p
        (.error (Fault.unfetchable (Path.normalize p) (some "not found on CDN"))) asked
  | failed {asked : List String} {inside : String} {f : Failure}
      (below : Path.below? cdn.root (Path.normalize p) = some inside)
      (retrieved : cdn.Retrieves inside (.error f) asked) : Fetches cdn p (.error f) asked

theorem download_meets (cdn : Cdn) (p : String) : (cdn.download p).Meets (cdn.Fetches p) := by
  unfold download
  dsimp only
  split
  · rename_i out
    exact .error (.outside out)
  · rename_i inside below
    refine .bind (artifact_meets ..) (fun f asked retrieved => ?_) (fun fs asked retrieved => ?_)
    · exact .failed below retrieved
    · split
      · rename_i empty
        refine .bind .thrown (fun f more thrown => ?_) (fun a more thrown => ?_)
        · obtain ⟨⟨⟩, -⟩ := thrown
          exact .nothing below retrieved empty
        · cases thrown.1
      · rename_i some
        exact .pure (.files below retrieved (by simpa using some))

end PluginHost.Cdn
