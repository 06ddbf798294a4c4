import AdviceWeaving.Advice
import AdviceWeaving.Failure
import AdviceWeaving.Settings

/-!
# The state of a pass

A pass works on a module and remembers what it has put in so far: the handles of marker types, the locals that hold
return values, and where the code that runs on entry ends. `Weaving` is the type of its steps.
-/

namespace AdviceWeaving

/-- The field that holds the instance on which advice is called, and the method that fills it. -/
structure Handle where
  field : FieldSig
  initializer : MethodSig
  deriving DecidableEq, Inhabited

/-- What a pass has done, in numbers. -/
structure Tally where
  markerTypes : Nat := 0
  rejected : Nat := 0
  targets : Nat := 0
  entrySites : Nat := 0
  exitSites : Nat := 0
  markersStripped : Nat := 0
  deriving DecidableEq, Inhabited

/-- How many calls of advice have been put in. -/
def Tally.injected (t : Tally) : Nat :=
  t.entrySites + t.exitSites

/-- What a pass knows besides the module. Of two entries of a list under one identifier the first counts. -/
structure Pass where
  settings : Settings := {}
  /-- The handles of the marker types that have one. -/
  handles : List (TypeId × Handle) := []
  /-- The locals that hold return values. -/
  slots : List (MethodId × UInt16) := []
  /-- The index behind the code that runs on entry. -/
  cursors : List (MethodId × Nat) := []
  /-- The marker types that have been dealt with. -/
  definitions : List MarkerType := []
  diagnostics : List Diagnostic := []
  tally : Tally := {}
  deriving Inhabited

namespace Pass

/-- The handle of a marker type, if it has been asked for. -/
def handle? (p : Pass) (id : TypeId) : Option Handle :=
  p.handles.lookup id

/-- The local that holds the return value of a method, if it has been asked for. -/
def slot? (p : Pass) (id : MethodId) : Option UInt16 :=
  p.slots.lookup id

/-- The index behind the code that runs on entry to a method; zero if nothing has been put in. -/
def cursor (p : Pass) (id : MethodId) : Nat :=
  (p.cursors.lookup id).getD 0

/-- Move the cursor of a method behind `n` more instructions. -/
def advance (p : Pass) (n : Nat) (id : MethodId) : Pass :=
  { p with cursors := (id, p.cursor id + n) :: p.cursors }

end Pass

/-- A pass together with the module that it edits. -/
structure Workspace where
  pass : Pass
  module : Module
  deriving Inhabited

/-- A step of a pass. -/
abbrev Weaving (α : Type) : Type :=
  Step Workspace α

namespace Weaving

/-- Change what the pass knows. -/
def updatePass (f : Pass → Pass) : Weaving Unit :=
  modify fun w => { w with pass := f w.pass }

/-- Change the module. -/
def updateModule (f : Module → Module) : Weaving Unit :=
  modify fun w => { w with module := f w.module }

/-- Add diagnostics, in order. -/
def report (diagnostics : List Diagnostic) : Weaving Unit :=
  updatePass fun p => { p with diagnostics := p.diagnostics ++ diagnostics }

/-- Change the numbers. -/
def tally (f : Tally → Tally) : Weaving Unit :=
  updatePass fun p => { p with tally := f p.tally }

/-- A value that is expected to be there. -/
def expect {α : Type} (failure : Failure) : Option α → Weaving α
  | some a => pure a
  | none => throw failure

/-- A result that has been found. -/
def conclude {α : Type} : Except Failure α → Weaving α
  | .ok a => pure a
  | .error failure => throw failure

end Weaving

end AdviceWeaving
