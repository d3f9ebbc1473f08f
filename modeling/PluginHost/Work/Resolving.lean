import PluginHost.Job

/-!
Resolving names: the package of a name as it is written is tried first and the package of its
conventional form second. A package exists if its metadata can be fetched.
-/
namespace PluginHost.Work

def resolve (w : Wanted) (c : Workspace) : Workspace × Move :=
  (c, .call (.literalTried w) (.fetch (c.metadataPath (PackageName.ofRequest w.name)) w.contextId))

/-- The package that a name may stand for by convention. -/
def conventional (w : Wanted) (s : Settings) : String :=
  PackageName.prefixed (PackageName.ofRequest w.name) w.kind (s.isModern w.engine)

def literalTried (w : Wanted) (o : Outcome) (c : Workspace) : Workspace × Move :=
  match o with
  | .ok _ => (c, .finish (.ok (.path w.name)))
  | .error f =>
    if f.fault.isUnfetchable then
      let candidate := conventional w c.settings
      (c, .call (.prefixedTried w candidate) (.fetch (c.metadataPath candidate) w.contextId))
    else (c, .fail f)

def prefixedTried (w : Wanted) (candidate : String) (o : Outcome) (c : Workspace) :
    Workspace × Move :=
  match o with
  | .ok _ => (c, .finish (.ok (.path candidate)))
  | .error f =>
    if f.fault.isUnfetchable then
      (c, .fail (.because (.unresolved w.kind w.name [PackageName.ofRequest w.name, candidate]) f))
    else (c, .fail f)

end PluginHost.Work
