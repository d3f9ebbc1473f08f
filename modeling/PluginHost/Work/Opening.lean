import PluginHost.Job

/-!
Opening the store: the project's files are copied once, however many tasks wait for them. A failed
copy fails all who wait for it, and the next who needs the store tries again.
-/
namespace PluginHost.Work

def openStore (fresh : TaskId) (contextId : Json) (c : Workspace) : Workspace × Move :=
  if c.store.ready then (c, .done)
  else
    match c.store.opening with
    | some task => (c, .await (.storeAwaited task) task)
    | none =>
      ({ c with store := { c.store with opening := some fresh } },
        .launch (.storeAwaited fresh) (.copyProject contextId))

/-- A failed copy is forgotten unless a newer one has taken its place. -/
def storeAwaited (task : TaskId) (o : Outcome) (c : Workspace) : Workspace × Move :=
  match o with
  | .ok _ => (c, .done)
  | .error f =>
    if c.store.opening = some task then
      ({ c with store := { c.store with opening := none } }, .fail f)
    else (c, .fail f)

def copyProject (contextId : Json) (c : Workspace) : Workspace × Move :=
  if c.store.hasProject then (c, .ask .projectCopied (.projectFiles contextId))
  else (c, .fail (Fault.general "Store has no project files provider to initialize from"))

def projectCopied (o : Outcome) (c : Workspace) : Workspace × Move :=
  match o with
  | .ok (.files fs) => ({ c with store := c.store.copyProject fs }, .done)
  | .ok _ => (c, .unexpected)
  | .error f => (c, .fail f)

end PluginHost.Work
