import AdviceWeaving.Json.Decoder
import AdviceWeaving.Module

/-!
# Modules from their JSON form

The decoders for the parts of a module, and `Module.ofJson`, which decodes a text and numbers the module. They read
what `Module.toJson` writes, and more: members in any order, members left out, and records written as arrays.
-/

namespace AdviceWeaving

namespace Decoder

/-! ### Integers -/

/-- A 32-bit integer. -/
def int32 : Decoder Int32 :=
  integer fun n => if -2147483648 ≤ n ∧ n ≤ 2147483647 then some (Int32.ofInt n) else none

/-- A 64-bit integer. -/
def int64 : Decoder Int64 :=
  integer fun n => if -9223372036854775808 ≤ n ∧ n ≤ 9223372036854775807 then some (Int64.ofInt n) else none

/-- The index of a local or of an argument. -/
def slotIndex : Decoder UInt16 :=
  integer fun n => if 0 ≤ n ∧ n ≤ 65535 then some (UInt16.ofNat n.toNat) else none

/-- The index of an instruction. -/
def branchTarget : Decoder UInt64 :=
  integer fun n => if 0 ≤ n ∧ n ≤ 18446744073709551615 then some (UInt64.ofNat n.toNat) else none

/-! ### Signatures -/

/-- A type. -/
def valueType : Decoder ValueType :=
  oneOf fun
    | "named" => some (.holding fun source r => .named <$> string source r)
    | name =>
      match ValueType.ofName name with
      | .named _ => none
      | type => some (.plain type)

/-- A field reference. -/
def fieldSig : Decoder FieldSig :=
  record [String, String, ValueType] (⟨"declaring", string, none⟩, ⟨"name", string, none⟩, ⟨"ty", valueType, none⟩, ())
    (fun (declaring, name, type, ()) => { declaring, name, type })

/-- A method reference. -/
def methodSig : Decoder MethodSig :=
  record [String, String, Bool, List ValueType, ValueType]
    (⟨"declaring", string, none⟩, ⟨"name", string, none⟩, ⟨"has_this", bool, none⟩, ⟨"params", list valueType, none⟩,
      ⟨"ret", valueType, none⟩, ())
    (fun (declaring, name, onInstance, params, ret, ()) => { declaring, name, onInstance, params, ret })

/-! ### Instructions

An instruction is an object with its operation and its operand, in any order, or an array of both. -/

/-- The operation of an instruction that is written as an object: an alternative without a value. -/
def opcode : Decoder Opcode :=
  oneOf fun name => (Opcode.ofJsonName? name).map .plain

/-- The operation of an instruction that is written as an array: nothing but a name. -/
def opcodeName : Decoder Opcode :=
  fun source r => do
    let name ← string source r
    match Opcode.ofJsonName? name with
    | some op => return op
    | none => .error (.misfit (.unknownVariant name))

/-- The instruction of an operation and its operand. -/
def operand (op : Opcode) : Decoder Instruction :=
  fun source r =>
    match op with
    | .simple op => do null source r; return .simple op
    | .ldcI4 => .ldcI4 <$> int32 source r
    | .ldcI8 => .ldcI8 <$> int64 source r
    | .ldstr => .ldstr <$> string source r
    | .slot op => .slot op <$> slotIndex source r
    | .field op => .field op <$> fieldSig source r
    | .call op => .call op <$> methodSig source r
    | .branch op => .branch op <$> branchTarget source r

/-- An entry that counts in an instruction, and the entries behind it. -/
inductive InstructionPart
  | op (value : Reading) (rest : Entries)
  | arg (value : Reading) (rest : Entries)
  | none

/-- The next entry that counts in an instruction. -/
def instructionPart : Entries → Except DecodeError InstructionPart
  | .done => .ok .none
  | .broken fault => .error fault.error
  | .dangling fault => .error fault.error
  | .entry key value rest => do
    let key ← key.text
    if key = "op" then
      return .op value rest
    else if key = "arg" then
      return .arg value rest
    else
      value.skip
      instructionPart rest

/-- No further entry may count in an instruction. -/
def noInstructionPart (entries : Entries) : Except DecodeError Unit := do
  match ← instructionPart entries with
  | .none => return ()
  | .op .. => .error (.misfit (.duplicateField "op"))
  | .arg .. => .error (.misfit (.duplicateField "arg"))

/-- An instruction from the entries of an object. An operand that stands before its operation is put aside; it may
nest fewer than `room` arrays and objects. -/
def instructionFromEntries (room : Nat) (entries : Entries) : Except DecodeError Instruction := do
  match ← instructionPart entries with
  | .none => .error (.misfit (.missingField "op"))
  | .op value rest =>
    let op ← opcode .direct value
    match ← instructionPart rest with
    | .none =>
      match op with
      | .simple op => return .simple op
      | _ => .error (.misfit (.missingField "arg"))
    | .op .. => .error (.misfit (.duplicateField "op"))
    | .arg value rest =>
      let i ← operand op .direct value
      noInstructionPart rest
      return i
  | .arg aside rest =>
    aside.settle room
    match ← instructionPart rest with
    | .none => .error (.misfit (.missingField "op"))
    | .arg .. => .error (.misfit (.duplicateField "arg"))
    | .op value rest =>
      let i ← operand (← opcode .direct value) .settled aside
      noInstructionPart rest
      return i

/-- An instruction from the items of an array. -/
def instructionFromItems : Items → Except DecodeError Instruction
  | .done => .error (.misfit (.wrongLength 0))
  | .broken fault => .error fault.error
  | .item value rest => do
    let op ← opcodeName .direct value
    match rest with
    | .done => .error (.misfit (.wrongLength 1))
    | .broken fault => .error fault.error
    | .item value rest =>
      let i ← operand op .direct value
      noMoreItems .direct 2 rest
      return i

/-- An instruction. -/
def instruction (room : Nat) : Decoder Instruction
  | _, .object entries => instructionFromEntries room entries
  | _, .array items => instructionFromItems items
  | _, r => .error r.mismatch

/-- How deep a text may nest arrays and objects. -/
def maxDepth : Nat := 128

/-- How many arrays and objects are around the operand of an instruction of a module. -/
def operandDepth : Nat := 8

/-! ### Bodies and members -/

/-- A body. -/
def body : Decoder Body :=
  record [List ValueType, Bool, List Instruction]
    (.withDefault "locals" (list valueType) [], .withDefault "init_locals" bool false,
      .required "instructions" (list (instruction (maxDepth - operandDepth))), ())
    (fun (locals, initLocals, code, ()) => { locals := locals.toArray, initLocals, code })

/-- An argument of an attribute. -/
def argument : Decoder Argument :=
  oneOf fun
    | "int" => some (.holding fun source r => .int <$> int64 source r)
    | "str" => some (.holding fun source r => .string <$> string source r)
    | "enum" => some (.holding fun source r => .member <$> string source r)
    | _ => none

/-- An attribute. -/
def attributeRecord : Decoder Attribute :=
  record [String, List Argument] (.required "ty" string, .withDefault "args" (list argument) [], ())
    (fun (name, args, ()) => { name, args })

/-- The attributes of a part of a module. -/
def attributes : RecordField (List Attribute) :=
  .withDefault "attributes" (list attributeRecord) []

/-- Who may use a member. -/
def access : RecordField Access :=
  .withDefault "access" (oneOf fun | "public" => some (.plain .pub) | "private" => some (.plain .priv) | _ => none) .priv

/-- Whether a member belongs to the type itself. -/
def isStatic : RecordField Bool :=
  .withDefault "is_static" bool false

/-- A parameter. -/
def param : Decoder Param :=
  record [String, ValueType, List Attribute] (.required "name" string, .required "ty" valueType, attributes, ())
    (fun (name, type, attributes, ()) => { name, type, attributes })

/-- A field. -/
def field : Decoder Field :=
  record [String, ValueType, Access, Bool, List Attribute]
    (.required "name" string, .required "ty" valueType, access, isStatic, attributes, ())
    (fun (name, type, access, isStatic, attributes, ()) => { name, type, access, isStatic, attributes })

/-- A property. -/
def property : Decoder Property :=
  record [String, ValueType, List Attribute] (.required "name" string, .required "ty" valueType, attributes, ())
    (fun (name, type, attributes, ()) => { name, type, attributes })

/-- A method. -/
def method : Decoder Method :=
  record [String, Access, Bool, List Param, ValueType, List Attribute, Option Body]
    (.required "name" string, access, isStatic, .withDefault "params" (list param) [], .required "ret" valueType,
      attributes, .withDefault "body" (optional body) none, ())
    (fun (name, access, isStatic, params, ret, attributes, body, ()) =>
      { name, access, isStatic, params, ret, attributes, body })

/-! ### Types and modules -/

/-- The kind of a type. -/
def typeKind : RecordField TypeKind :=
  .withDefault "kind"
    (oneOf fun | "class" => some (.plain .classType) | "interface" => some (.plain .interfaceType) | _ => none)
    .classType

/-- A type. -/
def typeDecl : Decoder TypeDecl :=
  record [String, TypeKind, Option String, List Attribute, List Field, List Property, List Method]
    (.required "name" string, typeKind, .withDefault "base" (optional string) none, attributes,
      .withDefault "fields" (list field) [], .withDefault "properties" (list property) [],
      .withDefault "methods" (list method) [], ())
    (fun (name, kind, base, attributes, fields, properties, methods, ()) =>
      { name, kind, base, attributes, fields, properties, methods })

/-- A module whose types and methods are not numbered yet. -/
def module : Decoder Module :=
  record [String, List TypeDecl] (.required "name" string, .withDefault "types" (list typeDecl) [], ())
    (fun (name, types, ()) => { name, types })

end Decoder

/-- The module that a text in JSON describes. -/
def Module.ofJson (text : String) : Except DecodeError Module :=
  return (← Decoder.module.decode text).assignIds

/-- The instruction that a text in JSON describes. -/
def Instruction.ofJson (text : String) : Except DecodeError Instruction :=
  (Decoder.instruction (Decoder.maxDepth - 1)).decode text

end AdviceWeaving
