/-!
# Value types and member signatures

The types that values have (`ValueType`) and the two ways an instruction refers to a member of a type:
`FieldSig` for a field, `MethodSig` for a method. Both carry names, not definitions, so a module may refer to
members that it does not declare.
-/

namespace AdviceWeaving

/-- The part of a dotted name after its last dot; the whole name if it has none. -/
def lastSegment (path : String) : String :=
  String.ofList (path.toList.reverse.takeWhile (· ≠ '.')).reverse

/-- The type of a value: one of the six built-in types, or a type known by its dotted name. -/
inductive ValueType
  | void
  | bool
  | int32
  | int64
  | string
  | object
  | named (path : String)
  deriving DecidableEq, Inhabited

namespace ValueType

/-- The built-in types are spelled by their keyword; every other name is a named type. -/
def ofName : String → ValueType
  | "void" => void
  | "bool" => bool
  | "int32" => int32
  | "int64" => int64
  | "string" => string
  | "object" => object
  | path => named path

/-- The spelling of a type in module text. -/
def text : ValueType → String
  | void => "void"
  | bool => "bool"
  | int32 => "int32"
  | int64 => "int64"
  | string => "string"
  | object => "object"
  | named path => path

/-- A method of type `void` returns no value. -/
def isVoid : ValueType → Bool
  | void => true
  | _ => false

/-- The spelling without the qualifying segments of a named type. -/
def shortName : ValueType → String
  | named path => lastSegment path
  | type => type.text

end ValueType

/-- A field as an instruction names it. -/
structure FieldSig where
  declaring : String
  name : String
  type : ValueType
  deriving DecidableEq, Inhabited

/-- A method as an instruction names it. `onInstance` says that a receiver is passed before the parameters. -/
structure MethodSig where
  declaring : String
  name : String
  onInstance : Bool
  params : List ValueType
  ret : ValueType
  deriving DecidableEq, Inhabited

end AdviceWeaving
