import PluginHost.Store

/-!
Stores over layers that their maker goes on using. A layer that holds files becomes part of the
store; in place of an empty one the store makes its own, and the maker's layer stays apart.
-/
namespace PluginHost

/-- A layer that was handed over. -/
inductive Held where
  | shared
  | apart (l : Layer)

inductive Side where
  | writable
  | remote
deriving DecidableEq

structure SuppliedStore where
  store : Store
  writable : Option Held
  remote : Option Held

namespace SuppliedStore

def hold (l : Layer) : Held := if l.isEmpty then .apart l else .shared

/-- A store over the layers that are given. -/
def ofLayers (hasProject : Bool) (writable remote : Option Layer) : SuppliedStore where
  store :=
    { writable := writable.getD .empty, remote := remote.getD .empty, hasProject := hasProject }
  writable := writable.map hold
  remote := remote.map hold

def held (s : SuppliedStore) : Side → Option Held
  | .writable => s.writable
  | .remote => s.remote

def own (s : SuppliedStore) : Side → Layer
  | .writable => s.store.writable
  | .remote => s.store.remote

/-- The layer that was handed over, as it is now. -/
def layer? (s : SuppliedStore) (side : Side) : Option Layer :=
  (s.held side).map fun
    | .shared => s.own side
    | .apart l => l

def putOwn (s : SuppliedStore) (l : Layer) : Side → SuppliedStore
  | .writable => { s with store := { s.store with writable := l } }
  | .remote => { s with store := { s.store with remote := l } }

def putApart (s : SuppliedStore) (l : Layer) : Side → SuppliedStore
  | .writable => { s with writable := some (.apart l) }
  | .remote => { s with remote := some (.apart l) }

/-- A change that the maker applies to a layer. -/
def change (s : SuppliedStore) (side : Side) (f : Layer → Layer) : SuppliedStore :=
  match s.held side with
  | some .shared => s.putOwn (f (s.own side)) side
  | some (.apart l) => s.putApart (f l) side
  | none => s

end SuppliedStore

end PluginHost
