import AdviceWeaving.Json.Encode

/-!
# Advice

A type that is marked as a marker type declares advice: methods to be called on entry to, or on exit from, the methods
that carry the marker type's name as an attribute. `MarkerType` is such a type as it was declared, `Advice` is one of
its methods, and `Binding` tells where a parameter of the advice gets its value.
-/

namespace AdviceWeaving

/-! ### The three markers -/

/-- The names of the attributes that declare advice. -/
structure MarkerNames where
  /-- Marks a type that declares advice. -/
  injection : String
  /-- Marks a method of such a type as advice, and tells when it is called. -/
  rise : String
  /-- Marks a parameter of advice, and tells what is passed. -/
  argument : String
  deriving DecidableEq, Inhabited

/-- The markers of a namespace. The empty namespace qualifies nothing. -/
def MarkerNames.ofNamespace (space : String) : MarkerNames :=
  let qualified (name : String) := if space.isEmpty then name else space ++ "." ++ name
  ⟨qualified "Injection", qualified "Rise", qualified "Argument"⟩

/-! ### When advice is called, and with what -/

/-- What the argument of a marker tells, the first or the second of two values: by number, or by the last segment of a
name. -/
def Argument.pick {α : Type} (first second : String) (a b : α) : Argument → Option α
  | int n => if n = 1 then some a else if n = 2 then some b else none
  | string _ => none
  | member path => if lastSegment path = first then some a else if lastSegment path = second then some b else none

/-- When advice is called. -/
inductive Timing
  | onEntry
  | onExit
  deriving DecidableEq, Inhabited

/-- The name of a timing in JSON. -/
def Timing.text : Timing → String
  | onEntry => "on-entry"
  | onExit => "on-exit"

/-- The timing that the argument of a marker tells. -/
def Timing.ofArgument? (argument : Argument) : Option Timing :=
  argument.pick "OnEntry" "OnExit" onEntry onExit

/-- What is passed for a parameter of advice. -/
inductive ArgumentSource
  /-- The name of the method that the advice is woven into. -/
  | targetName
  /-- The value that this method returns. -/
  | targetReturnValue
  deriving DecidableEq, Inhabited

/-- The name of a source in JSON. -/
def ArgumentSource.text : ArgumentSource → String
  | targetName => "target-name"
  | targetReturnValue => "target-return-value"

/-- The source that the argument of a marker tells. -/
def ArgumentSource.ofArgument? (argument : Argument) : Option ArgumentSource :=
  argument.pick "Name" "ReturnValue" targetName targetReturnValue

/-! ### Advice -/

/-- A parameter of advice. Without a marker it has no source. -/
structure Binding where
  type : ValueType
  parameter : String
  source : Option ArgumentSource
  deriving DecidableEq, Inhabited

/-- An advice method of a marker type. -/
structure Advice where
  name : String
  method : MethodId
  timing : Timing
  bindings : List Binding
  ret : ValueType
  isStatic : Bool
  /-- The signature that the woven calls use. -/
  call : MethodSig
  deriving DecidableEq, Inhabited

/-- Some parameter gets its value from the given source. -/
def Advice.binds (a : Advice) (source : ArgumentSource) : Bool :=
  a.bindings.any (·.source = some source)

/-- A type that declares advice, and its advice in order. -/
structure MarkerType where
  owner : TypeId
  name : String
  advice : List Advice
  deriving DecidableEq, Inhabited

/-! ### The advice model in JSON -/

/-- A parameter of advice. Its source is null if it has none. -/
def Binding.toJson (b : Binding) : Json :=
  .obj [("declared_type", b.type.toJson), ("parameter_name", .str b.parameter),
    ("source", b.source.elim .null (.str ·.text))]

/-- An advice method. -/
def Advice.toJson (a : Advice) : Json :=
  .obj [("name", .str a.name), ("timing", .str a.timing.text), ("bindings", .ofList Binding.toJson a.bindings),
    ("ret", a.ret.toJson), ("is_static", .bool a.isStatic)]

/-- A marker type. -/
def MarkerType.toJson (m : MarkerType) : Json :=
  .obj [("owner_name", .str m.name), ("advice", .ofList Advice.toJson m.advice)]

end AdviceWeaving
