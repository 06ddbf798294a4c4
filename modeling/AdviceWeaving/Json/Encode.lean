import AdviceWeaving.Json.Basic
import AdviceWeaving.Module

/-!
# The JSON form of a module

`Module.toJson` writes every part of a module but its identifiers. The members of an object stand in a fixed order.
Lists of attributes and of arguments, and the base of a type, are left out when there is nothing in them; all else is
always written.
-/

namespace AdviceWeaving

/-- A list of values. -/
def Json.ofList {α : Type} (toJson : α → Json) (items : List α) : Json :=
  .arr (items.map toJson)

/-- The member of an object for a list, left out if the list is empty. -/
def Json.listMember {α : Type} (key : String) (toJson : α → Json) (items : List α) : List (String × Json) :=
  if items.isEmpty then [] else [(key, .ofList toJson items)]

/-- A built-in type is its keyword, any other is an object that holds its name. -/
def ValueType.toJson : ValueType → Json
  | named path => .obj [("named", .str path)]
  | type => .str type.text

/-- A field reference. -/
def FieldSig.toJson (f : FieldSig) : Json :=
  .obj [("declaring", .str f.declaring), ("name", .str f.name), ("ty", f.type.toJson)]

/-- A method reference. -/
def MethodSig.toJson (m : MethodSig) : Json :=
  .obj [("declaring", .str m.declaring), ("name", .str m.name), ("has_this", .bool m.onInstance),
    ("params", .ofList ValueType.toJson m.params), ("ret", m.ret.toJson)]

/-- The operand of an instruction, if it has one. -/
def Instruction.operandJson? : Instruction → Option Json
  | simple _ => none
  | ldcI4 value => some (.int value.toInt)
  | ldcI8 value => some (.int value.toInt)
  | ldstr value => some (.str value)
  | slot _ index => some (.int index.toNat)
  | field _ sig => some sig.toJson
  | call _ sig => some sig.toJson
  | branch _ target => some (.int target.toNat)

/-- An instruction is an object with its operation and, if it has one, its operand. -/
def Instruction.toJson (i : Instruction) : Json :=
  .obj (("op", .str i.opcode.jsonName) :: (i.operandJson?.map (("arg", ·))).toList)

/-- A body. -/
def Body.toJson (b : Body) : Json :=
  .obj [("locals", .ofList ValueType.toJson b.locals.toList), ("init_locals", .bool b.initLocals),
    ("instructions", .ofList Instruction.toJson b.code)]

/-- An argument of an attribute is an object whose only key tells its kind. -/
def Argument.toJson : Argument → Json
  | int value => .obj [("int", .int value.toInt)]
  | string value => .obj [("str", .str value)]
  | member path => .obj [("enum", .str path)]

/-- An attribute. -/
def Attribute.toJson (a : Attribute) : Json :=
  .obj (("ty", .str a.name) :: Json.listMember "args" Argument.toJson a.args)

/-- The member of an object for its attributes. -/
def attributesMember (attributes : List Attribute) : List (String × Json) :=
  Json.listMember "attributes" Attribute.toJson attributes

/-- A parameter. -/
def Param.toJson (p : Param) : Json :=
  .obj ([("name", .str p.name), ("ty", p.type.toJson)] ++ attributesMember p.attributes)

/-- A field. -/
def Field.toJson (f : Field) : Json :=
  .obj ([("name", .str f.name), ("ty", f.type.toJson), ("access", .str f.access.text),
    ("is_static", .bool f.isStatic)] ++ attributesMember f.attributes)

/-- A property. -/
def Property.toJson (p : Property) : Json :=
  .obj ([("name", .str p.name), ("ty", p.type.toJson)] ++ attributesMember p.attributes)

/-- A method. Its body is null if it has none. -/
def Method.toJson (m : Method) : Json :=
  .obj ([("name", .str m.name), ("access", .str m.access.text), ("is_static", .bool m.isStatic),
      ("params", .ofList Param.toJson m.params), ("ret", m.ret.toJson)] ++
    attributesMember m.attributes ++
    [("body", m.body.elim .null Body.toJson)])

/-- A type. -/
def TypeDecl.toJson (t : TypeDecl) : Json :=
  .obj ([("name", .str t.name), ("kind", .str t.kind.text)] ++
    (t.base.map (("base", .str ·))).toList ++
    attributesMember t.attributes ++
    [("fields", .ofList Field.toJson t.fields), ("properties", .ofList Property.toJson t.properties),
      ("methods", .ofList Method.toJson t.methods)])

/-- A module. -/
def Module.toJson (m : Module) : Json :=
  .obj [("name", .str m.name), ("types", .ofList TypeDecl.toJson m.types)]

end AdviceWeaving
