import PluginHost.Job

/-!
Fetching: a path is downloaded if the store does not have it, once for all tasks that want it at the
same time. The metadata of its package is fetched along with it if the remote has it.
-/
namespace PluginHost.Work

def fetch (fresh : TaskId) (path : String) (contextId : Json) (c : Workspace) : Workspace × Move :=
  let path := Path.normalize path
  let downloads := c.downloads.sync c.store
  let c := { c with downloads := downloads }
  if path ∈ downloads.fetched then (c, .done)
  else if c.store.contains path then ({ c with downloads := downloads.record path }, .done)
  else
    match downloads.pending.get? path with
    | some task => (c, .await .passOn task)
    | none =>
      ({ c with downloads := downloads.started path fresh },
        .launch (.downloadOwned path) (.download path contextId))

/-- The task that started a download takes it off the list of those on their way. -/
def downloadOwned (path : String) (o : Outcome) (c : Workspace) : Workspace × Move :=
  ({ c with downloads := c.downloads.ended path }, .finish o)

def download (path : String) (contextId : Json) (c : Workspace) : Workspace × Move :=
  (c, .ask (.downloaded path contextId) (.download path contextId))

/-- The files of a download, with the path that they were fetched for. -/
def placed (path : String) (fs : Files) (c : Workspace) : Workspace :=
  { c with
    store := c.store.placeAll fs
    downloads := c.downloads.counted.record path }

def downloaded (path : String) (contextId : Json) (o : Outcome) (c : Workspace) :
    Workspace × Move :=
  match o with
  | .ok (.files fs) =>
    let c := placed path fs c
    match Downloads.metadata? c.root path with
    | some metadata =>
      if metadata = path ∨ c.store.contains metadata then (c, .done)
      else (c, .call .metadataTried (.fetch metadata contextId))
    | none => (c, .done)
  | .ok _ => (c, .unexpected)
  | .error f => (c, .fail f)

/-- A package may have no metadata. -/
def metadataTried (o : Outcome) (c : Workspace) : Workspace × Move :=
  match o with
  | .ok _ => (c, .done)
  | .error f => (c, if f.fault.isUnfetchable then .done else .fail f)

def recover (f : Failure) (contextId : Json) (c : Workspace) : Workspace × Move :=
  match f.missingPath? c.root with
  | some path => (c, .call (.recovered path) (.fetch path contextId))
  | none => (c, .fail (.because (.unrecoverable f.message) f))

def recovered (path : String) (o : Outcome) (c : Workspace) : Workspace × Move :=
  match o with
  | .ok _ => (c, .finish (.ok (.path path)))
  | .error f => (c, .fail f)

end PluginHost.Work
