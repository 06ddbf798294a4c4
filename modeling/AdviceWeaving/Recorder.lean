import AdviceWeaving.Weave

/-!
# Recording a walk

A recorder is a visitor that writes down what it is shown and edits the module as a script tells it. With recorders one
can see in which order a walk shows a module, and what it does when a module changes under it.
-/

namespace AdviceWeaving

/-- The stations of a walk. -/
inductive Station
  | before
  | module
  | type
  | method
  | field
  | property
  | complete
  deriving DecidableEq, Inhabited

/-- The name of a station. -/
def Station.text : Station → String
  | before => "before"
  | module => "module"
  | type => "type"
  | method => "method"
  | field => "field"
  | property => "property"
  | complete => "complete"

/-- The station with the given name. -/
def Station.ofText? (text : String) : Option Station :=
  [before, module, type, method, field, property, complete].find? (·.text = text)

/-- What a recorder may do. Everything of the given name is removed, wherever it stands. -/
inductive Act
  | fail
  | removeType (name : String)
  | removeMethod (name : String)
  | removeField (name : String)
  | removeProperty (name : String)
  /-- Add a method without a body to the type that is shown, or whose member is shown. -/
  | addMethod (name : String)
  deriving DecidableEq, Inhabited

/-- An act, with the station and the name at which it is done; without a name it is done at every name. -/
structure Cue where
  station : Station
  name : Option String
  act : Act
  deriving DecidableEq, Inhabited

/-- A recorder: the tag of its entries, and its script. -/
structure Recorder where
  tag : String
  script : List Cue
  deriving DecidableEq, Inhabited

/-- An entry of a log. -/
structure LogEntry where
  tag : String
  station : Station
  name : String
  deriving DecidableEq, Inhabited

/-- An entry as a line. -/
def LogEntry.text (e : LogEntry) : String :=
  s!"{e.tag}:{e.station.text} {e.name}"

/-- A workspace, and the log of its recorders. -/
structure Recording where
  workspace : Workspace
  log : List LogEntry := []
  deriving Inhabited

/-- Change every type of a module. -/
def Module.mapTypes (f : TypeDecl → TypeDecl) (m : Module) : Module :=
  { m with types := m.types.map f }

/-- The module after an act, at a station that belongs to the type `owner?`. -/
def Act.edit (owner? : Option TypeId) (m : Module) : Act → Module
  | fail => m
  | removeType name => { m with types := m.types.filter (·.name ≠ name) }
  | removeMethod name => m.mapTypes fun t => { t with methods := t.methods.filter (·.name ≠ name) }
  | removeField name => m.mapTypes fun t => { t with fields := t.fields.filter (·.name ≠ name) }
  | removeProperty name => m.mapTypes fun t => { t with properties := t.properties.filter (·.name ≠ name) }
  | addMethod name =>
    match owner?.bind (m.pushMethod · { name, ret := .void }) with
    | some (m, _) => m
    | none => m

namespace Recorder

/-- The cues that an entry gives. -/
def cues (r : Recorder) (station : Station) (name : String) : List Cue :=
  r.script.filter fun c => c.station = station && c.name.all (· = name)

/-- Do the acts of a list, up to one that fails. -/
def perform (tag : String) (edit : Act → Module → Module) : List Cue → Step Recording Unit
  | [] => pure ()
  | c :: cs => do
    if c.act = .fail then
      throw (.unknownComponent tag)
    modify fun r => { r with workspace := { r.workspace with module := edit c.act r.workspace.module } }
    perform tag edit cs

/-- Write an entry, and do what the script tells. -/
def visit (r : Recorder) (station : Station) (name : String) (edit : Act → Module → Module) : Step Recording Unit := do
  modify fun s => { s with log := s.log ++ [⟨r.tag, station, name⟩] }
  perform r.tag edit (r.cues station name)

/-- The name of something that may be gone. -/
def nameOf (name? : Option String) : String :=
  name?.getD "?"

/-- The visitor that a recorder is. Before and after the walk it edits nothing. -/
def visitor (r : Recorder) : Visitor Recording where
  name := r.tag
  before := do
    r.visit .before (← get).workspace.module.name fun _ m => m
  onModule := do
    r.visit .module (← get).workspace.module.name fun act m => act.edit none m
  onType t := do
    let m := (← get).workspace.module
    r.visit .type (nameOf ((m.type? t).map (·.name))) fun act m => act.edit (some t) m
  onMethod id := do
    let found := (← get).workspace.module.method? id
    r.visit .method (nameOf (found.map (·.2.name))) fun act m => act.edit (found.map (·.1.id)) m
  onField t index := do
    let m := (← get).workspace.module
    r.visit .field (nameOf (((m.type? t).bind (·.fields[index]?)).map (·.name))) fun act m => act.edit (some t) m
  onProperty t index := do
    let m := (← get).workspace.module
    r.visit .property (nameOf (((m.type? t).bind (·.properties[index]?)).map (·.name))) fun act m =>
      act.edit (some t) m
  complete := do
    r.visit .complete "" fun _ m => m

end Recorder

/-- Let a visitor work in the workspace of a recording. -/
def Visitor.recorded (v : Visitor Workspace) : Visitor Recording :=
  v.onPart (·.workspace) fun workspace r => { r with workspace }

end AdviceWeaving
