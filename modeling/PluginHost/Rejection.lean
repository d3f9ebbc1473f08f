/-!
Rejected input. A rejection lists every field that does not fit, in the order of the model's fields.
-/
namespace PluginHost

/-- One step from a value to a part of it. -/
inductive Step where
  | field (name : String)
  | index (i : Nat)
deriving DecidableEq

/-- Why a value does not fit its place. -/
inductive Mismatch where
  | missing
  | notText
  | notInteger
  | fractionalInteger
  | unreadableInteger
  | notBoolean
  | unreadableBoolean
  | notNumber
  | unreadableNumber
  | notObject
  | notArray
  | notModel
  | tooSmall
deriving DecidableEq

structure Complaint where
  place : List Step
  mismatch : Mismatch
deriving DecidableEq

/-- The complaints about one input, under the name of what it should have been. -/
structure Rejection where
  model : String
  complaints : List Complaint
deriving DecidableEq

/-- The complaint seen from a value of which the current one is a part. -/
def Complaint.within (s : Step) (c : Complaint) : Complaint := { c with place := s :: c.place }

end PluginHost
