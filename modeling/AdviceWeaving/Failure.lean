import AdviceWeaving.Diagnostic
import AdviceWeaving.Text.Printer

/-!
# Failures

A failure ends the pass in which it arises, while a diagnostic only tells of something. `Failure.message` is what the
user reads. A `Step` is a piece of work on a state that may fail; the state keeps what was done before the failure.
-/

namespace AdviceWeaving

/-- What is wrong with a marker of advice. -/
inductive MarkerFault
  /-- A marked method does not tell when it is called. -/
  | noTiming
  /-- The argument stands for no timing. -/
  | unknownTiming (argument : Argument)
  /-- A marked parameter does not tell what is passed. -/
  | noSource (parameter : String)
  /-- The argument stands for no source. -/
  | unknownSource (argument : Argument) (parameter : String)
  deriving DecidableEq, Inhabited

/-- The message about a faulty marker. -/
def MarkerFault.message : MarkerFault → String
  | noTiming => "Rise marker has no timing"
  | unknownTiming argument => s!"unknown timing {argument.text}"
  | noSource parameter => s!"Argument marker on '{parameter}' has no source"
  | unknownSource argument parameter => s!"unknown argument source {argument.text} on '{parameter}'"

/-- Why a pass cannot go on. -/
inductive Failure
  | malformedMarker (site : Site) (fault : MarkerFault)
  | unknownType (id : TypeId)
  | unknownMethod (id : MethodId)
  | unknownComponent (name : String)
  /-- No index is left for another local of a method. -/
  | localsExhausted (id : MethodId)
  /-- A branch target would pass the largest 64-bit word. The program does not survive this. -/
  | overflow
  deriving DecidableEq, Inhabited

/-- The message about a failure. -/
def Failure.message : Failure → String
  | malformedMarker site fault => s!"malformed marker on {site.text}: {fault.message}"
  | unknownType id => s!"unknown type {id.text}"
  | unknownMethod id => s!"unknown method {id.text}"
  | unknownComponent name => s!"unknown component '{name}'"
  | localsExhausted id => s!"method {id.text} has no free local slot"
  | overflow => "attempt to add with overflow"

/-- A piece of work on a state. -/
abbrev Step (σ α : Type) : Type :=
  ExceptT Failure (StateM σ) α

/-- Do work on a part of a state. -/
def Step.onPart {σ τ α : Type} (part : τ → σ) (replace : σ → τ → τ) (step : Step σ α) : Step τ α :=
  fun whole =>
    let (result, changed) := step.run (part whole)
    (result, replace changed whole)

end AdviceWeaving
