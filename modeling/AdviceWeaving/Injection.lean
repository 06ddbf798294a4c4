import AdviceWeaving.Handle
import AdviceWeaving.Violation

/-!
# Injecting advice

`Weaving.inject` puts the calls that a marker type declares into its targets: those of entry advice at the start of
the body, in the order in which they come, and those of exit advice in front of every `ret`. Nothing is put in before
all advice has been checked against all targets.
-/

namespace AdviceWeaving

/-! ### Targets -/

/-- The methods that carry an attribute of the given name, each with its type. -/
def Module.carriers (m : Module) (marker : String) : List (TypeDecl × Method) :=
  m.methods.filter (hasAttribute ·.2.attributes marker)

/-- The methods into which a marker type is woven: the carriers of its name that have a body. -/
def Module.targets (m : Module) (marker : String) : List Target :=
  ((m.carriers marker).filter (·.2.body.isSome)).map fun (t, x) =>
    { id := x.id, owner := t.name, name := x.name, isStatic := x.isStatic, ret := x.ret }

/-- The warning about a carrier without a body. -/
def bodylessWarning (marker : String) (t : TypeDecl) (m : Method) : Diagnostic where
  code := some .w0201
  level := .warning
  site := .ofMember t.name m.name
  message := s!"'{marker}' is applied to a method without a body"

/-- The warnings about all carriers without a body. -/
def Module.bodylessWarnings (m : Module) (marker : String) : List Diagnostic :=
  ((m.carriers marker).filter (·.2.body.isNone)).map fun (t, x) => bodylessWarning marker t x

/-- The warning about a marker type that has no targets. -/
def noTargetsWarning (marker : String) : Diagnostic where
  code := some .w0203
  level := .warning
  site := ⟨marker, none⟩
  message := "marker type has no targets"

/-- The warning about a static target that has no instance to take the handle from. -/
def nullReceiverWarning (marker : String) (t : Target) : Diagnostic where
  code := some .w0204
  level := .warning
  site := .ofMember t.owner t.name
  message := s!"static target loads the '{marker}' handle through a null receiver"
  hint := some "set handle-storage to shared, or make the advice static"

/-! ### Code -/

/-- Load what the field of a handle holds, in a target. -/
def loadHandle (storage : HandleStorage) (field : FieldSig) (t : Target) : List Instruction :=
  match storage with
  | .perInstance => [if t.isStatic then .simple .ldnull else .slot .ldarg 0, .field .ldfld field]
  | .shared => [.field .ldsfld field]

/-- Call advice whose arguments are on the stack, and leave nothing there. -/
def Advice.callCode (a : Advice) : List Instruction :=
  [.call .call a.call, .simple (if a.ret.isVoid then .nop else .pop)]

/-- The code of entry advice; every parameter gets the name of the target. -/
def Advice.entryCode (a : Advice) (receiver : List Instruction) (t : Target) : List Instruction :=
  receiver ++ a.bindings.map (fun _ => .ldstr t.name) ++ a.callCode

/-- Load the value of a parameter of exit advice; `slot?` is the local that holds the return value. -/
def Binding.load (t : Target) (slot? : Option UInt16) (b : Binding) : Instruction :=
  match b.source, slot? with
  | some .targetReturnValue, some slot => .slot .ldloc slot
  | _, _ => .ldstr t.name

/-- The code of exit advice. The return value, if the advice gets it, waits in a local. -/
def Advice.exitCode (a : Advice) (receiver : List Instruction) (t : Target) (slot? : Option UInt16) :
    List Instruction :=
  (slot?.map (.slot .stloc)).toList ++ receiver ++ a.bindings.map (·.load t slot?) ++ a.callCode ++
    (slot?.map (.slot .ldloc)).toList

/-! ### Steps -/

namespace Weaving

/-- Put entry advice into a target, behind the entry advice that is there already. -/
def injectOnEntry (a : Advice) (receiver : List Instruction) (t : Target) : Weaving Unit := do
  let code := a.entryCode receiver t
  let body ← expect (.unknownMethod t.id) ((← get).module.body? t.id)
  let cursor := (← get).pass.cursor t.id
  let body ← expect .overflow (body.splice? cursor code .displaced)
  updateModule (·.setBody t.id body)
  updatePass (·.advance code.length t.id)
  tally fun n => { n with entrySites := n.entrySites + 1 }

/-- Put exit advice into a target. -/
def injectOnExit (a : Advice) (receiver : List Instruction) (t : Target) : Weaving Unit := do
  let slot? ← if a.binds .targetReturnValue then some <$> slotOf t.id t.ret else pure none
  let code := a.exitCode receiver t slot?
  let body ← expect (.unknownMethod t.id) ((← get).module.body? t.id)
  let (body, exits) ← expect .overflow (body.spliceAtExits? fun _ => code)
  updateModule (·.setBody t.id body)
  tally fun n => { n with exitSites := n.exitSites + exits }

/-- Put advice into a target. -/
def injectAdvice (a : Advice) (receiver : List Instruction) (t : Target) : Weaving Unit :=
  match a.timing with
  | .onEntry => injectOnEntry a receiver t
  | .onExit => injectOnExit a receiver t

/-- Put all advice of a marker type into a target. With a handle, all of it is called on the instance there. -/
def injectAll (m : MarkerType) (handle? : Option Handle) (t : Target) : Weaving Unit := do
  let storage := (← get).pass.settings.handleStorage
  let receiver := handle?.elim [] fun handle => loadHandle storage handle.field t
  m.advice.forM fun a => injectAdvice a receiver t

/-- The handle of a marker type, if some advice of it is called on an instance. -/
def handleFor (m : MarkerType) : Weaving (Option Handle) :=
  if m.advice.any (!·.isStatic) then some <$> handleOf m.owner else pure none

/-- The warnings about static targets, if handles are kept in instances. -/
def nullReceiverWarnings (storage : HandleStorage) (m : MarkerType) (targets : List Target) : List Diagnostic :=
  if storage = .perInstance then (targets.filter (·.isStatic)).map (nullReceiverWarning m.name) else []

/-- Put a marker type into targets that its advice fits. -/
def injectInto (m : MarkerType) (targets : List Target) : Weaving Unit := do
  let handle? ← handleFor m
  if handle?.isSome then
    report (nullReceiverWarnings (← get).pass.settings.handleStorage m targets)
  targets.forM (injectAll m handle?)
  tally fun n => { n with targets := n.targets + targets.length }

/-- Find the targets of a marker type, and warn of carriers that cannot be targets. -/
def findTargets (marker : String) : Weaving (List Target) := do
  let module := (← get).module
  report (module.bodylessWarnings marker)
  pure (module.targets marker)

/-- Weave a marker type into all its targets. Gives `false` if its advice breaks a rule; then nothing is woven. -/
def inject (m : MarkerType) : Weaving Bool := do
  tally fun n => { n with markerTypes := n.markerTypes + 1 }
  let targets ← findTargets m.name
  if targets.isEmpty then
    report [noTargetsWarning m.name]
    pure true
  else
    match m.firstViolation? targets with
    | some (violation, target) =>
      report [violation.diagnostic target.qualified]
      tally fun n => { n with rejected := n.rejected + 1 }
      pure false
    | none =>
      injectInto m targets
      pure true

end Weaving

end AdviceWeaving
