import AdviceWeaving.Advice
import AdviceWeaving.Diagnostic

/-!
# The rules of advice

Advice takes at most two parameters, each bound to the name of the target or to its return value. The name goes to a
string. The return value is bound at most once, on exit only, and only where the target returns a value of the
parameter's type.

`brokenRule?` checks the rules that concern the advice alone, `brokenPairRule?` the one that concerns its target too,
and `firstViolation?` all advice of a marker type against all its targets.
-/

namespace AdviceWeaving

/-- A rule, as advice breaks it. -/
inductive AdviceRule
  /-- The return value is bound, but the advice runs on entry. -/
  | bindingConflict
  /-- There are too many parameters. -/
  | arity (count : Nat)
  /-- The target returns no value of the parameter's type. -/
  | returnType (target : String) (expected found : ValueType)
  /-- A parameter is not bound. -/
  | unbound (parameter : String)
  /-- The return value is bound more than once. -/
  | duplicateReturn
  /-- A parameter gets the name, but is no string. -/
  | nameType (parameter : String) (found : ValueType)
  deriving DecidableEq, Inhabited

/-- Advice of a marker type that breaks a rule. -/
structure Violation where
  marker : String
  advice : String
  rule : AdviceRule
  deriving DecidableEq, Inhabited

/-! ### The checks -/

/-- How many parameters advice may have. -/
def maxAdviceParams : Nat := 2

/-- The rule that a parameter breaks by itself. -/
def Binding.brokenRule? (b : Binding) : Option AdviceRule :=
  match b.source with
  | none => some (.unbound b.parameter)
  | some .targetName => if b.type = .string then none else some (.nameType b.parameter b.type)
  | some .targetReturnValue => none

namespace Advice

/-- The first rule that advice breaks by itself. -/
def brokenRule? (a : Advice) : Option AdviceRule :=
  if maxAdviceParams < a.bindings.length then
    some (.arity a.bindings.length)
  else if a.timing = .onEntry ∧ a.binds .targetReturnValue then
    some .bindingConflict
  else
    match a.bindings.findSome? (·.brokenRule?) with
    | some rule => some rule
    | none => if 1 < a.bindings.countP (·.source = some .targetReturnValue) then some .duplicateReturn else none

/-- The rule that advice breaks on a target of the given name and return type. -/
def brokenPairRule? (a : Advice) (target : String) (ret : ValueType) : Option AdviceRule :=
  match a.bindings.find? (·.source = some .targetReturnValue) with
  | none => none
  | some b => if ret.isVoid ∨ ret ≠ b.type then some (.returnType target b.type ret) else none

/-- Advice of the marker type `marker` breaks a rule. -/
def violation (a : Advice) (marker : String) (rule : AdviceRule) : Violation :=
  ⟨marker, a.name, rule⟩

end Advice

/-- A method that carries a marker type's name. -/
structure Target where
  id : MethodId
  owner : String
  name : String
  isStatic : Bool
  ret : ValueType
  deriving DecidableEq, Inhabited

/-- The name of a target together with its type. -/
def Target.qualified (t : Target) : String :=
  s!"{t.owner}::{t.name}"

/-- The first rule that some advice of a marker type breaks on a target. The rules that concern advice alone come
first. -/
def MarkerType.violationOn? (m : MarkerType) (t : Target) : Option Violation :=
  (m.advice.findSome? fun a => a.brokenRule?.map (a.violation m.name)).or
    (m.advice.findSome? fun a => (a.brokenPairRule? t.qualified t.ret).map (a.violation m.name))

/-- The first violation of a marker type, with the target on which it was found. -/
def MarkerType.firstViolation? (m : MarkerType) (targets : List Target) : Option (Violation × Target) :=
  targets.findSome? fun t => (m.violationOn? t).map (·, t)

/-! ### Reports -/

namespace AdviceRule

/-- The code of a broken rule. -/
def code : AdviceRule → Code
  | bindingConflict => .e0101
  | arity _ => .e0102
  | returnType .. => .e0103
  | unbound _ => .e0104
  | duplicateReturn => .e0105
  | nameType .. => .e0106

/-- The message about advice of the given name. -/
def message (advice : String) : AdviceRule → String
  | bindingConflict => s!"advice '{advice}' binds the return value but runs on entry"
  | arity count => s!"advice '{advice}' declares {count} parameters (at most 2 allowed)"
  | returnType target expected found =>
    s!"advice '{advice}' expects a return value of type '{expected.text}' but target '{target}' returns '{found.text}'"
  | unbound parameter => s!"parameter '{parameter}' of advice '{advice}' has no Argument marker"
  | duplicateReturn => s!"advice '{advice}' binds the return value more than once"
  | nameType parameter found =>
    s!"parameter '{parameter}' of advice '{advice}' receives the method name but is '{found.text}', not 'string'"

/-- How to keep the rule. -/
def hint? : AdviceRule → Option String
  | bindingConflict => some "use When.OnExit, or bind Method.Name instead"
  | arity _ => some "advice may take the method name and the return value only"
  | unbound _ => some "mark the parameter with Argument(Method.Name) or Argument(Method.ReturnValue)"
  | _ => none

end AdviceRule

/-- What stands before and behind the last double colon of a qualified name; nothing is behind it if there is none. -/
def splitQualified (name : String) : String × String :=
  let rec behind (member : List Char) : List Char → Option (List Char × List Char)
    | ':' :: ':' :: owner => some (owner.reverse, member)
    | c :: rest => behind (c :: member) rest
    | [] => none
  match behind [] name.toList.reverse with
  | some (owner, member) => (String.ofList owner, String.ofList member)
  | none => (name, "")

namespace Violation

/-- The message about a violation. -/
def message (v : Violation) : String :=
  v.rule.message v.advice

/-- The error that reports a violation: it stands at the advice, and points at the target. -/
def diagnostic (v : Violation) (target : String) : Diagnostic :=
  let (owner, member) := splitQualified target
  { code := some v.rule.code
    level := .error
    site := .ofMember v.marker v.advice
    message := v.message
    hint := v.rule.hint?
    related := [⟨.ofMember owner member, "target declared here"⟩] }

end Violation

end AdviceWeaving
