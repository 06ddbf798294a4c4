import AdviceWeaving.Injection
import AdviceWeaving.Scan
import AdviceWeaving.Verification
import AdviceWeaving.Walk

/-!
# Weaving a module

Two visitors edit a module: the injection weaver reads the marker types and weaves them, and the orphan sweep removes
the markers of advice that stand outside marker types. `Module.weave` lets those that the settings name walk over a
module, and then verifies it.
-/

namespace AdviceWeaving

/-! ### The visitors -/

namespace Weaving

/-- Read the markers of a type and remove them. -/
def scan (id : TypeId) : Weaving (Option MarkerType) := do
  let w ← get
  let t ← expect (.unknownType id) (w.module.type? id)
  let scanned := t.scan w.pass.settings.markers
  updateModule (·.updateType id fun _ => scanned.rest)
  tally fun n => { n with markersStripped := n.markersStripped + scanned.stripped }
  conclude scanned.declared

/-- Weave a type, if it is a marker type. -/
def weaveType (id : TypeId) : Weaving Unit := do
  match ← scan id with
  | none => pure ()
  | some m =>
    let _ ← inject m
    updatePass fun p => { p with definitions := p.definitions ++ [m] }

/-- The warning about markers outside a marker type. -/
def strayMarkerWarning (t : TypeDecl) (m : Method) : Diagnostic where
  code := some .w0202
  level := .warning
  site := .ofMember t.name m.name
  message := "advice marker outside an Injection type was removed"
  hint := some "mark the declaring type with Injection to weave this advice"

/-- A method without markers of advice. -/
def swept (names : MarkerNames) (m : Method) : Method :=
  { m with attributes := strip m.attributes names.rise, params := m.params.map (·.stripped names) }

/-- Remove the markers of advice from a method. -/
def sweepMethod (id : MethodId) : Weaving Unit := do
  let w ← get
  let (t, m) ← expect (.unknownMethod id) (w.module.method? id)
  let names := w.pass.settings.markers
  let removed := m.countMarkers names
  if removed ≠ 0 then
    updateModule (·.updateMethod id (swept names))
    tally fun n => { n with markersStripped := n.markersStripped + removed }
    report [strayMarkerWarning t m]

end Weaving

/-- Weaves marker types. -/
def injectionWeaver : Visitor Workspace where
  name := injectionWeaverName
  onType := Weaving.weaveType

/-- Removes stray markers. -/
def orphanSweep : Visitor Workspace where
  name := orphanSweepName
  onMethod := Weaving.sweepMethod

/-- The visitor with the given name. -/
def visitorNamed (name : String) : Except Failure (Visitor Workspace) :=
  if name = injectionWeaverName then .ok injectionWeaver
  else if name = orphanSweepName then .ok orphanSweep
  else .error (.unknownComponent name)

/-- The visitors with the given names. -/
def visitorsNamed (names : List String) : Except Failure (List (Visitor Workspace)) :=
  names.mapM visitorNamed

/-! ### A pass -/

/-- What a pass tells besides the woven module. There is no certificate if the settings ask for none. -/
structure PassReport where
  diagnostics : List Diagnostic
  tally : Tally
  definitions : List MarkerType
  certificate : Option Certificate
  deriving DecidableEq, Inhabited

/-- The pass has found errors. -/
def PassReport.hasErrors (r : PassReport) : Bool :=
  AdviceWeaving.hasErrors r.diagnostics

/-- The report on a pass whose walk is over. -/
def Workspace.report (w : Workspace) : PassReport :=
  let verification? := if w.pass.settings.verify then some w.module.verify else none
  { diagnostics := w.pass.diagnostics ++ (verification?.map (·.diagnostics)).getD []
    tally := w.pass.tally
    definitions := w.pass.definitions
    certificate := verification?.map (·.certificate) }

/-- Weave a module. A pass that fails leaves the module as far as it came. -/
def Module.weave (m : Module) (settings : Settings) : Except Failure PassReport × Module :=
  match visitorsNamed settings.components with
  | .error failure => (.error failure, m)
  | .ok visitors =>
    let (result, w) := (walk Workspace.module visitors).run { pass := { settings }, module := m }
    (result.map fun _ => w.report, w.module)

end AdviceWeaving
