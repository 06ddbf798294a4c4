import AdviceWeaving.Module
import AdviceWeaving.Text.Quoted

/-!
# Writing module text

`Module.text` writes a module line by line. Every instruction gets a label that tells its index in hexadecimal, and
branches name these labels.
-/

namespace AdviceWeaving

/-- Texts with a comma between them. -/
def commaSeparated (texts : List String) : String :=
  String.intercalate ", " texts

/-- A text, ended by a line feed, for each line. -/
def joinLines (lines : List String) : String :=
  String.join (lines.map (· ++ "\n"))

/-! ### Instructions -/

/-- A number in hexadecimal, with at least four digits. -/
def hexDigits (n : Nat) : List Char :=
  let digits := Nat.toDigits 16 n
  List.replicate (4 - digits.length) '0' ++ digits

/-- The label of the instruction at an index. -/
def label (index : Nat) : String :=
  "IL_" ++ String.ofList (hexDigits index)

/-- A field reference. -/
def FieldSig.text (f : FieldSig) : String :=
  s!"{f.declaring}::{f.name}: {f.type.text}"

/-- A method reference. -/
def MethodSig.text (m : MethodSig) : String :=
  (if m.onInstance then "instance " else "") ++
    s!"{m.declaring}::{m.name}({commaSeparated (m.params.map (·.text))}) -> {m.ret.text}"

/-- The operand of an instruction, with a space in front, if there is one. -/
def Instruction.operandText : Instruction → String
  | simple _ => ""
  | ldcI4 value => s!" {value.toInt}"
  | ldcI8 value => s!" {value.toInt}"
  | ldstr value => s!" {escapeLiteral value}"
  | slot _ index => s!" {index.toNat}"
  | field _ sig => s!" {sig.text}"
  | call _ sig => s!" {sig.text}"
  | branch _ target => s!" {label target.toNat}"

/-- An instruction. -/
def Instruction.text (i : Instruction) : String :=
  i.mnemonic ++ i.operandText

/-! ### Attributes -/

/-- An argument of an attribute. -/
def Argument.text : Argument → String
  | int value => toString value.toInt
  | string value => escapeLiteral value
  | member path => path

/-- An attribute; without parentheses if it has no arguments. -/
def Attribute.text (a : Attribute) : String :=
  if a.args.isEmpty then s!"[{a.name}]" else s!"[{a.name}({commaSeparated (a.args.map (·.text))})]"

/-! ### Bodies and members -/

/-- The lines of a body, each with `indent` in front. -/
def Body.lines (body : Body) (indent : String) : List String :=
  (if body.locals.isEmpty then []
    else [s!"{indent}.locals ({commaSeparated (body.locals.toList.map (·.text))})"]) ++
  (if body.initLocals then [indent ++ ".initlocals"] else []) ++
  body.code.zipIdx.map fun (i, index) => s!"{indent}{label index}: {i.text}"

/-- One level of indentation. -/
def indent : String := "    "

/-- A line for each attribute of a member. -/
def attributeLines (attributes : List Attribute) : List String :=
  attributes.map (indent ++ ·.text)

/-- The modifiers in front of a field or a method. -/
def modifiers (access : Access) (isStatic : Bool) : String :=
  access.text ++ " " ++ if isStatic then "static " else ""

/-- The lines of a field. -/
def Field.lines (f : Field) : List String :=
  attributeLines f.attributes ++ [s!"{indent}{modifiers f.access f.isStatic}field {f.name}: {f.type.text}"]

/-- The lines of a property. -/
def Property.lines (p : Property) : List String :=
  attributeLines p.attributes ++ [s!"{indent}property {p.name}: {p.type.text}"]

/-- A parameter, with its attributes in front. -/
def Param.text (p : Param) : String :=
  String.join (p.attributes.map (·.text ++ " ")) ++ s!"{p.name}: {p.type.text}"

/-- A method up to its body. -/
def Method.heading (m : Method) : String :=
  s!"{indent}{modifiers m.access m.isStatic}method {m.name}({commaSeparated (m.params.map (·.text))}) -> {m.ret.text}"

/-- The lines of a method. -/
def Method.lines (m : Method) : List String :=
  attributeLines m.attributes ++
    match m.body with
    | none => [m.heading ++ ";"]
    | some body => [m.heading ++ " \x7b"] ++ body.lines (indent ++ indent) ++ [indent ++ "\x7d"]

/-! ### Types and modules -/

/-- The line that opens a type. -/
def TypeDecl.heading (t : TypeDecl) : String :=
  s!"{t.kind.text} {t.name}" ++ (t.base.elim "" (" extends " ++ ·)) ++ " \x7b"

/-- The lines of a type: its attributes, and then its fields, its properties and its methods in braces. -/
def TypeDecl.lines (t : TypeDecl) : List String :=
  t.attributes.map (·.text) ++ [t.heading] ++
    t.fields.flatMap (·.lines) ++ t.properties.flatMap (·.lines) ++ t.methods.flatMap (·.lines) ++ ["\x7d"]

/-- The lines of a module, with an empty line in front of each type. -/
def Module.lines (m : Module) : List String :=
  ("module " ++ m.name) :: m.types.flatMap fun t => "" :: t.lines

/-- The text of a module. -/
def Module.text (m : Module) : String :=
  joinLines m.lines

end AdviceWeaving
