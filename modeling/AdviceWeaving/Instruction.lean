import AdviceWeaving.Signature

/-!
# Instructions

An instruction is an operation with an operand, and the operand's shape is fixed by the operation. The operations
are grouped by that shape, so `Instruction` has one constructor per shape, and the four branches are the only
instructions with a target.

Module text spells an operation by its mnemonic. Three tables have the mnemonics: `mnemonics` gives the operand that
follows each of them, `Instruction.build` the instruction it makes of a loose `Operand`, and `Instruction.mnemonic` the
spelling of an instruction.

`Opcode` is an operation without its operand, as the JSON form of a module has it in a place of its own.
-/

namespace AdviceWeaving

/-! ### Operations -/

/-- The operations without an operand. -/
inductive SimpleOp
  | nop | pop | dup | ret | ldnull | add | sub | mul | ceq | clt | cgt
  deriving DecidableEq, Inhabited

/-- The operations on an argument or a local, given by its index. -/
inductive SlotOp
  | ldarg | starg | ldloc | stloc
  deriving DecidableEq, Inhabited

/-- The operations on a field: of an instance, and (`ldsfld`, `stsfld`) of the type itself. -/
inductive FieldOp
  | ldfld | stfld | ldsfld | stsfld
  deriving DecidableEq, Inhabited

/-- The operations that run a method. -/
inductive CallOp
  | call | callvirt | newobj
  deriving DecidableEq, Inhabited

/-- The jumps. `br` is always taken, the others compare the values they pop. -/
inductive BranchOp
  | br | brtrue | brfalse | beq
  deriving DecidableEq, Inhabited

/-- An operation, of any of the groups. -/
inductive Opcode
  | simple (op : SimpleOp)
  | ldcI4
  | ldcI8
  | ldstr
  | slot (op : SlotOp)
  | field (op : FieldOp)
  | call (op : CallOp)
  | branch (op : BranchOp)
  deriving DecidableEq, Inhabited

namespace Opcode

/-- All operations. -/
def all : List Opcode :=
  [.simple .nop, .simple .pop, .simple .dup, .simple .ret, .simple .ldnull, .ldcI4, .ldcI8, .ldstr,
    .slot .ldarg, .slot .starg, .slot .ldloc, .slot .stloc,
    .field .ldfld, .field .stfld, .field .ldsfld, .field .stsfld,
    .call .call, .call .callvirt, .call .newobj,
    .branch .br, .branch .brtrue, .branch .brfalse, .branch .beq,
    .simple .add, .simple .sub, .simple .mul, .simple .ceq, .simple .clt, .simple .cgt]

/-- The name of an operation in a module's JSON form. -/
def jsonName : Opcode → String
  | simple .nop => "nop"
  | simple .pop => "pop"
  | simple .dup => "dup"
  | simple .ret => "ret"
  | simple .ldnull => "ld_null"
  | simple .add => "add"
  | simple .sub => "sub"
  | simple .mul => "mul"
  | simple .ceq => "ceq"
  | simple .clt => "clt"
  | simple .cgt => "cgt"
  | ldcI4 => "ldc_i4"
  | ldcI8 => "ldc_i8"
  | ldstr => "ld_str"
  | slot .ldarg => "ld_arg"
  | slot .starg => "st_arg"
  | slot .ldloc => "ld_loc"
  | slot .stloc => "st_loc"
  | field .ldfld => "ld_fld"
  | field .stfld => "st_fld"
  | field .ldsfld => "lds_fld"
  | field .stsfld => "sts_fld"
  | call .call => "call"
  | call .callvirt => "call_virt"
  | call .newobj => "new_obj"
  | branch .br => "br"
  | branch .brtrue => "br_true"
  | branch .brfalse => "br_false"
  | branch .beq => "beq"

/-- The operation with the given name in a module's JSON form. -/
def ofJsonName? (name : String) : Option Opcode :=
  all.find? (·.jsonName = name)

end Opcode

/-! ### Instructions -/

/-- One instruction of a body. A branch names the index of the instruction that it jumps to. -/
inductive Instruction
  | simple (op : SimpleOp)
  | ldcI4 (value : Int32)
  | ldcI8 (value : Int64)
  | ldstr (value : String)
  | slot (op : SlotOp) (index : UInt16)
  | field (op : FieldOp) (sig : FieldSig)
  | call (op : CallOp) (sig : MethodSig)
  | branch (op : BranchOp) (target : UInt64)
  deriving DecidableEq, Inhabited

/-- An operand that is not yet tied to an operation. The operand of a branch is an instruction index. -/
inductive Operand
  | absent
  | int (value : Int64)
  | string (value : String)
  | field (sig : FieldSig)
  | method (sig : MethodSig)
  | label (target : UInt64)
  deriving DecidableEq, Inhabited

/-- The shape of the operand that follows a mnemonic. -/
inductive OperandKind
  | none | int32 | int64 | string | index | field | method | label
  deriving DecidableEq, Inhabited

/-- The mnemonics, each with the operand that follows it. -/
def mnemonics : List (String × OperandKind) :=
  [("nop", .none), ("pop", .none), ("dup", .none), ("ret", .none), ("ldnull", .none), ("add", .none), ("sub", .none),
    ("mul", .none), ("ceq", .none), ("clt", .none), ("cgt", .none), ("ldc.i4", .int32), ("ldc.i8", .int64),
    ("ldstr", .string), ("ldarg", .index), ("starg", .index), ("ldloc", .index), ("stloc", .index), ("ldfld", .field),
    ("stfld", .field), ("ldsfld", .field), ("stsfld", .field), ("call", .method), ("callvirt", .method),
    ("newobj", .method), ("br", .label), ("brtrue", .label), ("brfalse", .label), ("beq", .label)]

/-- The shape of the operand that a mnemonic asks for. -/
def operandKind? (mnemonic : String) : Option OperandKind :=
  (mnemonics.find? (·.1 = mnemonic)).map (·.2)

/-- The 32-bit integer of the same value, if there is one. -/
def toInt32? (value : Int64) : Option Int32 :=
  if -2147483648 ≤ value.toInt ∧ value.toInt ≤ 2147483647 then some (Int32.ofInt value.toInt) else none

/-- The index of the same value, if there is one. -/
def toIndex? (value : Int64) : Option UInt16 :=
  if 0 ≤ value.toInt ∧ value.toInt ≤ 65535 then some (UInt16.ofNat value.toInt.toNat) else none

/-- How many values an instruction takes from the stack, and how many it then puts there. -/
structure StackEffect where
  pops : Nat
  pushes : Nat
  deriving DecidableEq, Inhabited

namespace Instruction

/-- The instruction with the given mnemonic and operand. There is none if the mnemonic is unknown, or if the operand has
another shape than it asks for or does not fit its integer range. -/
def build (mnemonic : String) (operand : Operand) : Option Instruction :=
  match mnemonic, operand with
  | "nop", .absent => some (.simple .nop)
  | "pop", .absent => some (.simple .pop)
  | "dup", .absent => some (.simple .dup)
  | "ret", .absent => some (.simple .ret)
  | "ldnull", .absent => some (.simple .ldnull)
  | "add", .absent => some (.simple .add)
  | "sub", .absent => some (.simple .sub)
  | "mul", .absent => some (.simple .mul)
  | "ceq", .absent => some (.simple .ceq)
  | "clt", .absent => some (.simple .clt)
  | "cgt", .absent => some (.simple .cgt)
  | "ldc.i4", .int value => (toInt32? value).map .ldcI4
  | "ldc.i8", .int value => some (.ldcI8 value)
  | "ldstr", .string value => some (.ldstr value)
  | "ldarg", .int value => (toIndex? value).map (.slot .ldarg)
  | "starg", .int value => (toIndex? value).map (.slot .starg)
  | "ldloc", .int value => (toIndex? value).map (.slot .ldloc)
  | "stloc", .int value => (toIndex? value).map (.slot .stloc)
  | "ldfld", .field sig => some (.field .ldfld sig)
  | "stfld", .field sig => some (.field .stfld sig)
  | "ldsfld", .field sig => some (.field .ldsfld sig)
  | "stsfld", .field sig => some (.field .stsfld sig)
  | "call", .method sig => some (.call .call sig)
  | "callvirt", .method sig => some (.call .callvirt sig)
  | "newobj", .method sig => some (.call .newobj sig)
  | "br", .label target => some (.branch .br target)
  | "brtrue", .label target => some (.branch .brtrue target)
  | "brfalse", .label target => some (.branch .brfalse target)
  | "beq", .label target => some (.branch .beq target)
  | _, _ => none

/-- The operation of an instruction. -/
def opcode : Instruction → Opcode
  | simple op => .simple op
  | ldcI4 _ => .ldcI4
  | ldcI8 _ => .ldcI8
  | ldstr _ => .ldstr
  | slot op _ => .slot op
  | field op _ => .field op
  | call op _ => .call op
  | branch op _ => .branch op

/-- The operand of an instruction. -/
def operand : Instruction → Operand
  | simple _ => .absent
  | ldcI4 value => .int (Int64.ofInt value.toInt)
  | ldcI8 value => .int value
  | ldstr value => .string value
  | slot _ index => .int (Int64.ofInt index.toNat)
  | field _ sig => .field sig
  | call _ sig => .method sig
  | branch _ target => .label target

/-- The spelling of the operation in module text. -/
def mnemonic : Instruction → String
  | simple .nop => "nop"
  | simple .pop => "pop"
  | simple .dup => "dup"
  | simple .ret => "ret"
  | simple .ldnull => "ldnull"
  | ldcI4 _ => "ldc.i4"
  | ldcI8 _ => "ldc.i8"
  | ldstr _ => "ldstr"
  | slot .ldarg _ => "ldarg"
  | slot .starg _ => "starg"
  | slot .ldloc _ => "ldloc"
  | slot .stloc _ => "stloc"
  | field .ldfld _ => "ldfld"
  | field .stfld _ => "stfld"
  | field .ldsfld _ => "ldsfld"
  | field .stsfld _ => "stsfld"
  | call .call _ => "call"
  | call .callvirt _ => "callvirt"
  | call .newobj _ => "newobj"
  | branch .br _ => "br"
  | branch .brtrue _ => "brtrue"
  | branch .brfalse _ => "brfalse"
  | branch .beq _ => "beq"
  | simple .add => "add"
  | simple .sub => "sub"
  | simple .mul => "mul"
  | simple .ceq => "ceq"
  | simple .clt => "clt"
  | simple .cgt => "cgt"

/-- Where a branch may continue, besides the next instruction. -/
def target? : Instruction → Option UInt64
  | branch _ target => some target
  | _ => none

/-- The instruction with its branch target, if it has one, changed by `f`. -/
def mapTarget? (f : UInt64 → Option UInt64) : Instruction → Option Instruction
  | branch op target => (f target).map (branch op)
  | i => some i

/-- `ret` ends the run of a body. -/
def isReturn : Instruction → Bool
  | simple .ret => true
  | _ => false

/-- Control may go on to the next instruction, except after `br` and `ret`. -/
def fallsThrough : Instruction → Bool
  | simple .ret => false
  | branch .br _ => false
  | _ => true

/-- A call takes the receiver, if there is one, and the arguments, and puts the result, if there is one. What `ret`
leaves behind depends on the method and is not counted here. -/
def stackEffect : Instruction → StackEffect
  | simple .nop | simple .ret => ⟨0, 0⟩
  | simple .pop => ⟨1, 0⟩
  | simple .dup => ⟨1, 2⟩
  | simple .ldnull => ⟨0, 1⟩
  | simple _ => ⟨2, 1⟩
  | ldcI4 _ | ldcI8 _ | ldstr _ => ⟨0, 1⟩
  | slot .ldarg _ | slot .ldloc _ => ⟨0, 1⟩
  | slot _ _ => ⟨1, 0⟩
  | field .ldfld _ => ⟨1, 1⟩
  | field .stfld _ => ⟨2, 0⟩
  | field .ldsfld _ => ⟨0, 1⟩
  | field .stsfld _ => ⟨1, 0⟩
  | call .newobj m => ⟨m.params.length, 1⟩
  | call _ m => ⟨m.params.length + m.onInstance.toNat, (!m.ret.isVoid).toNat⟩
  | branch .br _ => ⟨0, 0⟩
  | branch .beq _ => ⟨2, 0⟩
  | branch _ _ => ⟨1, 0⟩

end Instruction

end AdviceWeaving
