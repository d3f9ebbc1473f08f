import PluginHost.Cdn
import PluginHost.Host.Run
import PluginHost.Ordering

/-!
Rehearsals: collaborators that follow a script, so that a host can be run without an engine or a
network. They note what they are asked and can be told to keep their answers back.
-/
namespace PluginHost

/-- What a collaborator was asked. -/
inductive Event where
  | download (path : String) (contextId : Json)
  | project (contextId : Json)
  | transform (config : EngineConfig)

/-- An event and the states of the compiles in progress at that moment. -/
structure Noted where
  event : Event
  states : List CompileState

inductive Channel where
  | download
  | project
  | engine
deriving DecidableEq

/-- Answers that are kept back on a channel: all, or those for some paths. -/
structure Hold where
  all : Bool := false
  paths : List String := []

/-- A task whose answer is kept back. -/
structure Kept where
  task : TaskId
  channel : Channel
  path : Option String

/-- Files of a project. The first calls for them fail. -/
structure ProjectScript where
  files : Files
  failing : Nat
  calls : Nat := 0

structure EngineScript where
  version : String := "7.0.0-test"
  async : Bool := false
  /-- Fail with an input error until the store is ready. -/
  untilReady : Bool := false
  /-- Failures to come, one for each transform. -/
  failures : List Fault := []
  /-- Paths that the store must have. -/
  required : List String := []
  dependencies : Json := .object []

structure Rehearsal where
  remote : Files := .empty
  remoteFaults : List (String × Fault) := []
  /-- A network that answers in place of the remote files. -/
  cdn : Option Cdn := none
  project : Option ProjectScript := none
  engine : EngineScript := {}
  downloadHold : Hold := {}
  projectHold : Hold := {}
  engineHold : Hold := {}
  kept : List Kept := []
  /-- Tasks whose answer is no longer kept back. -/
  released : List TaskId := []
  noted : List Noted := []

namespace Hold

def covers (h : Hold) (path : Option String) : Bool :=
  h.all || (path.map (h.paths.contains ·)).getD false

def extend (h : Hold) : Option (List String) → Hold
  | none => { h with all := true }
  | some paths => { h with paths := h.paths ++ paths }

def lift (h : Hold) : Option (List String) → Hold
  | none => {}
  | some paths => { h with paths := h.paths.filter (!paths.contains ·) }

end Hold

namespace Rehearsal

def hold (r : Rehearsal) : Channel → Hold
  | .download => r.downloadHold
  | .project => r.projectHold
  | .engine => r.engineHold

def setHold (r : Rehearsal) (h : Hold) : Channel → Rehearsal
  | .download => { r with downloadHold := h }
  | .project => { r with projectHold := h }
  | .engine => { r with engineHold := h }

/-- Keeps answers back from now on. -/
def keep (r : Rehearsal) (ch : Channel) (paths : Option (List String)) : Rehearsal :=
  r.setHold ((r.hold ch).extend paths) ch

/-- Whether a release lets an answer go. -/
def frees (ch : Channel) (paths : Option (List String)) (k : Kept) : Bool :=
  decide (k.channel = ch)
    && match paths with
      | none => true
      | some ps => (k.path.map (ps.contains ·)).getD false

/-- Lets answers go. The tasks that waited for them are returned. -/
def release (r : Rehearsal) (ch : Channel) (paths : Option (List String)) :
    List TaskId × Rehearsal :=
  let freed := (r.kept.filter (frees ch paths)).map (·.task)
  (freed,
    { r.setHold ((r.hold ch).lift paths) ch with
      kept := r.kept.filter (!frees ch paths ·)
      released := r.released ++ freed })

def publish (r : Rehearsal) (files : Files) : Rehearsal :=
  { r with remote := r.remote.union files.entries }

def unpublish (r : Rehearsal) (paths : List String) : Rehearsal :=
  { r with remote := paths.foldl (fun remote path => remote.erase path) r.remote }

/-- The remote files at a path or below it, in the order of their paths. -/
def filesAt (r : Rehearsal) (path : String) : List (String × Content) :=
  entriesInOrder <|
    r.remote.entries.filter fun f => f.1 = path || Text.startsWith f.1 (Path.under path)

def downloadAnswer (r : Rehearsal) (path : String) : Outcome :=
  match r.cdn with
  | some cdn => ((cdn.download path).run.run []).1.map .files
  | none =>
    match lookup? path r.remoteFaults with
    | some f => .error f
    | none =>
      match r.filesAt path with
      | [] => .error (Fault.unfetchable path (some "not found"))
      | files => .ok (.files (Table.ofList files))

def projectAnswer (r : Rehearsal) : Outcome × Rehearsal :=
  match r.project with
  | none => (.ok (.files .empty), r)
  | some p =>
    if p.failing = 0 then
      (.ok (.files p.files), { r with project := some { p with calls := p.calls + 1 } })
    else
      (.error (Fault.connection "controller unavailable"),
        { r with project := some { p with failing := p.failing - 1 } })

def entriesOf (config : EngineConfig) (field : String) : List String :=
  (Entries.names (config.get field)).toOption.getD []

/-- The first module of a configuration that a registry has no value for. -/
def absentModule? (config : EngineConfig) (registry : Registry) : Option (ModuleKind × String) :=
  let wanted := (entriesOf config "plugins").map (ModuleKind.plugin, ·)
    ++ (entriesOf config "presets").map (ModuleKind.preset, ·)
  wanted.find? fun m => (registry.get m.1 m.2).isNull

/-- The engine's answer: a scripted failure, a complaint about what is absent, or the code. -/
def engineAnswer (r : Rehearsal) (store : Store) (code : String) (config : EngineConfig)
    (registry : Registry) : Outcome × Rehearsal :=
  let engine := r.engine
  if engine.untilReady && !store.ready then
    (.error (Fault.engine "EIO: i/o error, read" (some (.text "EIO"))), r)
  else
    match engine.failures with
    | f :: later => (.error f, { r with engine := { engine with failures := later } })
    | [] =>
      match engine.required.find? fun p => !store.contains p, absentModule? config registry with
      | some path, _ => (.error (Fault.engine s!"Cannot find module '{path}'" none), r)
      | none, some (kind, name) =>
        (.error (Fault.engine s!"unknown: {kind.word} '{name}' is not installed" none), r)
      | none, none =>
        let metadata := Json.object [("dependencies", engine.dependencies)]
        (.ok (.transformed ⟨"/* transformed */\n" ++ code, metadata⟩), r)

def answer (r : Rehearsal) (store : Store) : Query → Outcome × Rehearsal
  | .download path _ => (r.downloadAnswer path, r)
  | .projectFiles _ => r.projectAnswer
  | .transform code config registry => r.engineAnswer store code config registry

def eventOf : Query → Event
  | .download path contextId => .download path contextId
  | .projectFiles contextId => .project contextId
  | .transform _ config _ => .transform config

def channelOf : Query → Channel
  | .download .. => .download
  | .projectFiles _ => .project
  | .transform .. => .engine

def pathOf : Query → Option String
  | .download path _ => some path
  | _ => none

/-- Only an engine that works asynchronously can be made to wait. -/
def keeps (r : Rehearsal) (q : Query) : Bool :=
  (r.hold (channelOf q)).covers (pathOf q)
    && (r.engine.async || decide (channelOf q ≠ .engine))

def note (r : Rehearsal) (h : Host) (q : Query) : Rehearsal :=
  { r with noted := r.noted ++ [⟨eventOf q, h.workspace.compiles.states⟩] }

def answered (r : Rehearsal) (h : Host) (q : Query) : Option Outcome × Rehearsal :=
  let (o, r) := r.answer h.workspace.store q
  (some o, r)

/-- A query is noted when it arrives and answered unless its answer is kept back; a released one is
answered without further note. -/
def meet (h : Host) (t : TaskId) (q : Query) (r : Rehearsal) : Option Outcome × Rehearsal :=
  if t ∈ r.released then { r with released := r.released.filter (· ≠ t) }.answered h q
  else
    let r := r.note h q
    if r.keeps q then (none, { r with kept := r.kept ++ [⟨t, channelOf q, pathOf q⟩] })
    else r.answered h q

def world : World Rehearsal := ⟨meet⟩

end Rehearsal

end PluginHost
