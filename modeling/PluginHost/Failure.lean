import PluginHost.Json.Reader
import PluginHost.MissingModule
import PluginHost.PackageName
import PluginHost.Rejection

/-!
Failures by cause. Every wording stands in `Fault.message`; a failure also keeps the faults that it
was raised from, the nearest first.
-/
namespace PluginHost

inductive Fault where
  /-- No layer of the store holds the path. -/
  | storeMiss (path : String)
  | storeNotReady (text : String)
  /-- The remote has no artifact at the path, or could not be asked for it. -/
  | unfetchable (path : String) (reason : Option String)
  /-- Neither the name as written nor its prefixed form exists remotely. -/
  | unresolved (kind : ModuleKind) (name : String) (candidates : List String)
  /-- A file that a transform or an evaluation needs is absent. -/
  | missingArtifact (text : String) (path request importer : Option String)
  /-- A failure names no path that could be fetched. -/
  | unrecoverable (text : String)
  | emptyExport (kind name : String)
  | notInstalled (kind name reason : String)
  | transform (text : String) (path : Option String)
  /-- Fetching and retrying did not come to an end. -/
  | recoveryLimit (attempts : Int) (last : Option String)
  | general (text : String)
  /-- The engine's own failure, with its code if it set one. -/
  | engine (text : String) (code : Option Json)
  | connection (text : String)
  | runtime (text : String)
  | badValue (text : String)
  | unboundName (name : String)
  | missingKey (key : String)
  | missingAttribute (text : String)
  | wrongType (text : String)
  | badScript (text : String)
  | badJson (why : Json.Unreadable)
  | badText (why : Text.Malformed)
  | noHostModule (text : String)
  | rejected (why : Rejection)
  | badYaml
  /-- A server's answer other than the content or its absence. -/
  | httpStatus (status : Int)
  | network (reason : String)

namespace Fault

/-- Faults that the host itself reports; all others come from its collaborators or from within. -/
def isReported : Fault → Bool
  | .storeMiss _ | .storeNotReady _ | .unfetchable .. | .unresolved .. | .missingArtifact ..
  | .unrecoverable _ | .emptyExport .. | .notInstalled .. | .transform .. | .recoveryLimit ..
  | .general _ => true
  | _ => false

def isUnfetchable : Fault → Bool
  | .unfetchable .. => true
  | _ => false

def isMissingArtifact : Fault → Bool
  | .missingArtifact .. => true
  | _ => false

def isRejection : Fault → Bool
  | .rejected _ => true
  | _ => false

def isStoreNotReady : Fault → Bool
  | .storeNotReady _ => true
  | _ => false

def withReason (text : String) (reason : Option String) : String :=
  match reason with
  | some r => if r = "" then text else text ++ ": " ++ r
  | none => text

def message : Fault → String
  | .storeMiss path => s!"ENOENT: no such file or directory, open '{path}'"
  | .storeNotReady text => text
  | .unfetchable path reason => withReason s!"Could not fetch '{path}'" reason
  | .unresolved kind _ candidates =>
    s!"Cannot find {kind.word} " ++ " or ".intercalate (candidates.map fun c => s!"'{c}'")
  | .missingArtifact text _ _ _ => text
  | .unrecoverable text => text
  | .emptyExport kind name => s!"Could not install {kind} '{name}', it is undefined."
  | .notInstalled kind name reason => s!"Could not find/install {kind} '{name}': {reason}"
  | .transform text _ => text
  | .recoveryLimit attempts last =>
    withReason s!"Dependency resolution did not converge after {attempts} recovery attempts" last
  | .general text => text
  | .engine text _ => text
  | .connection text => text
  | .runtime text => text
  | .badValue text => text
  | .unboundName name => s!"name '{name}' is not defined"
  | .missingKey key => Text.quoted key
  | .missingAttribute text => text
  | .wrongType text => text
  | .badScript text => text
  | .badJson why => why.message
  | .badText why => why.message
  | .noHostModule text => text
  | .rejected why => s!"{why.complaints.length} validation errors for {why.model}"
  | .badYaml => "invalid settings file"
  | .httpStatus status => s!"HTTP Error {status}"
  | .network reason => s!"<urlopen error {reason}>"

/-- The code that a fault carries. -/
def code : Fault → Json
  | .storeNotReady _ => .text "EIO"
  | .engine _ (some code) => code
  | _ => .null

def isIoError (f : Fault) : Bool :=
  match f.code with
  | .text "EIO" => true
  | _ => false

/-- What a fault carries besides its message, by name. -/
def details : Fault → List (String × Json)
  | .storeMiss path => [("path", .text path)]
  | .unfetchable path reason => [("path", .text path), ("reason", .ofOption reason)]
  | .unresolved _ name candidates =>
    [("name", .text name), ("candidates", .array (candidates.map .text))]
  | .missingArtifact _ path request importer =>
    [("path", .ofOption path), ("request", .ofOption request), ("importer", .ofOption importer)]
  | .emptyExport kind name => [("name", .text name), ("kind", .text kind)]
  | .notInstalled kind name reason =>
    [("kind", .text kind), ("name", .text name), ("reason", .text reason)]
  | .transform _ path => [("path", .ofOption path)]
  | .recoveryLimit attempts last => [("attempts", .int attempts), ("last_error", .ofOption last)]
  | _ => []

/-- A fault written as a call of the given label on its message; a missing artifact also shows the
parts that it knows. -/
def describe (label : String) (f : Fault) : String :=
  let parts := match f with
    | .missingArtifact _ path request importer =>
      [("path", path), ("request", request), ("importer", importer)].filterMap fun (name, part) =>
        part.map fun p => name ++ "=" ++ Text.quoted p
    | _ => []
  label ++ "(" ++ ", ".intercalate (Text.quoted f.message :: parts) ++ ")"

end Fault

/-- A fault and the chain of faults that it was raised from. -/
structure Failure where
  fault : Fault
  causes : List Fault := []

namespace Failure

def message (f : Failure) : String := f.fault.message

/-- A fault raised because of a failure. -/
def because (fault : Fault) (cause : Failure) : Failure := ⟨fault, cause.fault :: cause.causes⟩

instance : Coe Fault Failure := ⟨fun f => ⟨f, []⟩⟩

/-- The path that a failure reports as missing: the one that it carries, or else the one that the
request in its message means. -/
def missingPath? (f : Failure) (packagesRoot : String) : Option String :=
  let carried := match f.fault with
    | .missingArtifact _ (some path) _ _ => if path = "" then none else some (Path.normalize path)
    | _ => none
  carried.or ((ModuleRequest.ofMessage? f.message).map (·.path packagesRoot))

/-- Whether fetching a file could mend the failure. -/
def isMissingArtifact (f : Failure) : Bool :=
  f.fault.isMissingArtifact || ModuleRequest.isReported f.message

end Failure

end PluginHost
