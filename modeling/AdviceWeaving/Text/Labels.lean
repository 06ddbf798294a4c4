import AdviceWeaving.Body
import AdviceWeaving.Text.Quoted

/-!
# Labels and their lines

The body of a method is written as lines, each with an instruction and perhaps a label in front of it. Branches name
labels. `resolve` turns the lines into instructions whose branches name indices.
-/

namespace AdviceWeaving

/-- An operand as it is written: complete, or the label of a line. -/
inductive WrittenOperand
  | complete (operand : Operand)
  | line (label : String)
  deriving DecidableEq, Inhabited

/-- A line of a body. -/
structure Line where
  label : Option String
  mnemonic : String
  operand : WrittenOperand
  deriving DecidableEq, Inhabited

/-- Why the lines of a body do not resolve. -/
inductive LabelFault
  /-- Two lines have the label. -/
  | duplicate (label : String)
  /-- A branch names a label that no line has. -/
  | unknown (label : String)
  /-- The operand is not one of the mnemonic, or lies outside the range of the operation. -/
  | unfit (mnemonic : String) (operand : Operand)
  deriving DecidableEq, Inhabited

/-! ### Messages -/

/-- A type, as a message shows it. -/
def ValueType.shown : ValueType → String
  | void => "Void"
  | bool => "Bool"
  | int32 => "Int32"
  | int64 => "Int64"
  | string => "String"
  | object => "Object"
  | named path => s!"Named({showQuoted path.toList})"

/-- A record, as a message shows it. -/
def shownRecord (name : String) (fields : List (String × String)) : String :=
  name ++ " \x7b " ++ ", ".intercalate (fields.map fun (key, value) => key ++ ": " ++ value) ++ " \x7d"

/-- A field reference, as a message shows it. -/
def FieldSig.shown (f : FieldSig) : String :=
  shownRecord "FieldRef" [("declaring", showQuoted f.declaring.toList), ("name", showQuoted f.name.toList),
    ("ty", f.type.shown)]

/-- A method reference, as a message shows it. -/
def MethodSig.shown (m : MethodSig) : String :=
  shownRecord "MethodRef" [("declaring", showQuoted m.declaring.toList), ("name", showQuoted m.name.toList),
    ("has_this", toString m.onInstance), ("params", "[" ++ ", ".intercalate (m.params.map (·.shown)) ++ "]"),
    ("ret", m.ret.shown)]

/-- An operand, as a message shows it. -/
def Operand.shown : Operand → String
  | absent => "None"
  | int value => s!"Int({value.toInt})"
  | string value => s!"Str({showQuoted value.toList})"
  | field sig => s!"Field({sig.shown})"
  | method sig => s!"Method({sig.shown})"
  | label target => s!"Label({target.toNat})"

/-- The message about lines that do not resolve. -/
def LabelFault.message : LabelFault → String
  | duplicate label => s!"duplicate label '{label}'"
  | unknown label => s!"unknown label '{label}'"
  | unfit mnemonic operand => s!"invalid operand for '{mnemonic}': {operand.shown}"

/-! ### Resolving -/

/-- The index of the line with the given label. -/
def lineIndex? (lines : List Line) (label : String) : Option Nat :=
  lines.findIdx? (·.label = some label)

/-- The label of the first line that repeats the label of an earlier line. `seen` holds the labels before. -/
def repeatedLabel? (seen : List String) : List Line → Option String
  | [] => none
  | ⟨none, _, _⟩ :: lines => repeatedLabel? seen lines
  | ⟨some label, _, _⟩ :: lines =>
    if label ∈ seen then some label else repeatedLabel? (label :: seen) lines

/-- The operand that is written, where `target?` tells the line of a label. -/
def WrittenOperand.resolve (target? : String → Option Nat) : WrittenOperand → Except LabelFault Operand
  | complete operand => .ok operand
  | line label =>
    match target? label with
    | some index => .ok (.label (UInt64.ofNat index))
    | none => .error (.unknown label)

/-- The instruction of a line, where `target?` tells the line of a label. -/
def Line.resolve (target? : String → Option Nat) (line : Line) : Except LabelFault Instruction := do
  let operand ← line.operand.resolve target?
  match Instruction.build line.mnemonic operand with
  | some instruction => return instruction
  | none => throw (.unfit line.mnemonic operand)

/-- The instructions of the lines. A repeated label is found first, then the first line that does not resolve. -/
def resolve (lines : List Line) : Except LabelFault (List Instruction) :=
  match repeatedLabel? [] lines with
  | some label => .error (.duplicate label)
  | none => lines.mapM (·.resolve (lineIndex? lines))

end AdviceWeaving
