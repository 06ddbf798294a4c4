import AdviceWeaving.ModuleFile
import AdviceWeaving.Proofs.JsonRecords
import AdviceWeaving.Proofs.Parsing

/-!
# Modules in JSON and back

Every part of a module is read back from its JSON form, whatever its names, numbers and branch targets are; identifiers
are not written.  So a module is read back from its JSON text, numbered anew (`Module.ofJson_text`).
-/

namespace AdviceWeaving

namespace Decoder

/-! ### Integers -/

private theorem reads_int32 (value : Int32) : int32.Reads (.int value.toInt) value := by
  have hlow := value.le_toInt
  have hhigh := value.toInt_lt
  refine reads_integer (by omega) (by omega) ?_
  rw [if_pos (by omega), Int32.ofInt_toInt]

private theorem reads_int64 (value : Int64) : int64.Reads (.int value.toInt) value := by
  have hlow := value.le_toInt
  have hhigh := value.toInt_lt
  refine reads_integer (by omega) (by omega) ?_
  rw [if_pos (by omega), Int64.ofInt_toInt]

private theorem reads_slotIndex (index : UInt16) : slotIndex.Reads (.int index.toNat) index := by
  have hlt := index.toNat_lt
  refine reads_integer (by omega) (by omega) ?_
  rw [if_pos (by omega), Int.toNat_natCast, UInt16.ofNat_toNat]

private theorem reads_branchTarget (target : UInt64) : branchTarget.Reads (.int target.toNat) target := by
  have hlt := target.toNat_lt
  refine reads_integer (by omega) (by omega) ?_
  rw [if_pos (by omega), Int.toNat_natCast, UInt64.ofNat_toNat]

/-! ### Signatures -/

private theorem reads_valueType (t : ValueType) : valueType.Reads t.toJson t := by
  cases t with
  | named path => exact reads_holding rfl (reads_map ValueType.named (reads_string path))
  | _ => exact reads_plain rfl

private theorem reads_valueTypes (ts : List ValueType) :
    (list valueType).Reads (Json.ofList ValueType.toJson ts) ts := by
  simpa using reads_list (f := id) fun t (_ : t ∈ ts) => reads_valueType t

private theorem reads_fieldSig (f : FieldSig) : fieldSig.Reads f.toJson f :=
  reads_record
    (.member (reads_string _) <| .member (reads_string _) <| .member (reads_valueType f.type)
      written_nil)
    (by decide) rfl

private theorem reads_methodSig (m : MethodSig) : methodSig.Reads m.toJson m :=
  reads_record
    (.member (reads_string _) <| .member (reads_string _) <| .member (reads_bool m.onInstance) <|
      .member (reads_valueTypes m.params) <| .member (reads_valueType m.ret) written_nil)
    (by decide) rfl

/-! ### Instructions -/

private theorem ofJsonName?_jsonName (op : Opcode) : Opcode.ofJsonName? op.jsonName = some op := by
  cases op with
  | simple op | slot op | field op | call op | branch op => cases op <;> decide
  | _ => decide

private theorem reads_opcode (op : Opcode) : opcode.Reads (.str op.jsonName) op :=
  reads_plain (by rw [ofJsonName?_jsonName]; rfl)

private theorem reads_operand {i : Instruction} {v : Json} (h : i.operandJson? = some v) :
    (operand i.opcode).Reads v i := by
  cases i with
  | simple op => cases h
  | ldcI4 value => cases h; exact reads_map Instruction.ldcI4 (reads_int32 value)
  | ldcI8 value => cases h; exact reads_map Instruction.ldcI8 (reads_int64 value)
  | ldstr text => cases h; exact reads_map Instruction.ldstr (reads_string text)
  | slot op index => cases h; exact reads_map (Instruction.slot op) (reads_slotIndex index)
  | field op sig => cases h; exact reads_map (Instruction.field op) (reads_fieldSig sig)
  | call op sig => cases h; exact reads_map (Instruction.call op) (reads_methodSig sig)
  | branch op target => cases h; exact reads_map (Instruction.branch op) (reads_branchTarget target)

/-- An operation without an operand is an instruction. -/
private theorem eq_simple_of_operandJson? {i : Instruction} (h : i.operandJson? = none) :
    ∃ op, i = .simple op := by
  cases i with
  | simple op => exact ⟨op, rfl⟩
  | _ => cases h

/-- The operation stands in front of its operand, so nothing is put aside. -/
private theorem reads_instruction (room : Nat) (i : Instruction) : (instruction room).Reads i.toJson i := by
  have hopcode : opcode .direct (.string (Json.quoted i.opcode.jsonName)) = .ok i.opcode :=
    reads_opcode i.opcode
  have hop : (Json.quoted "op").text = .ok "op" := Json.text_quoted "op"
  have harg : (Json.quoted "arg").text = .ok "arg" := Json.text_quoted "arg"
  cases hoperand : i.operandJson? with
  | none =>
    obtain ⟨op, rfl⟩ := eq_simple_of_operandJson? hoperand
    simp only [Reads, Instruction.toJson, hoperand, Option.map_none, Option.toList_none, Json.reading,
      Json.entriesReading, instruction, instructionFromEntries, instructionPart, hop, hopcode, bind,
      Except.bind, pure, Except.pure, if_true]
    rfl
  | some v =>
    have hv : operand i.opcode .direct v.reading = .ok i := reads_operand hoperand
    have hne : "arg" ≠ "op" := by decide
    simp only [Reads, Instruction.toJson, hoperand, Option.map_some, Option.toList_some, Json.reading,
      Json.entriesReading, instruction, instructionFromEntries, instructionPart, noInstructionPart,
      hop, harg, hopcode, hne, hv, bind, Except.bind, pure, Except.pure, if_true, if_false]

/-! ### Bodies and members -/

private theorem reads_body (b : Body) : body.Reads b.toJson b :=
  reads_record
    (.member (reads_valueTypes _) <| .member (reads_bool _) <|
      .member (reads_list fun i _ => reads_instruction _ i) written_nil)
    (by decide) (by simp)

private theorem reads_argument (a : Argument) : argument.Reads a.toJson a := by
  cases a with
  | int value => exact reads_holding rfl (reads_map Argument.int (reads_int64 value))
  | string text => exact reads_holding rfl (reads_map Argument.string (reads_string text))
  | member path => exact reads_holding rfl (reads_map Argument.member (reads_string path))

private theorem reads_attribute (a : Attribute) : attributeRecord.Reads a.toJson a := by
  have h := Written.listMember "args" (fun x (_ : x ∈ a.args) => reads_argument x) written_nil
  rw [List.append_nil] at h
  exact reads_record (.member (reads_string _) h) (by decide) (by simp)

variable {types : List Type} {fields : RecordFields types} {values : RecordValues types}
  {members : List (String × Json)}

/-- Attributes are left out if there are none. -/
private theorem written_attributes (as : List Attribute) (h : Written types fields values members) :
    Written (List Attribute :: types) (attributes, fields) (as, values)
      (attributesMember as ++ members) := by
  have h' := Written.listMember "attributes" (f := id) (fun x (_ : x ∈ as) => reads_attribute x) h
  rwa [List.map_id] at h'

private theorem written_attributes_nil (as : List Attribute) :
    Written [List Attribute] (attributes, ()) (as, ()) (attributesMember as) := by
  have h := written_attributes as written_nil
  rwa [List.append_nil] at h

private theorem reads_param (p : Param) : param.Reads p.toJson p :=
  reads_record
    (.member (reads_string _) <| .member (reads_valueType p.type) <|
      written_attributes_nil p.attributes)
    (by decide) rfl

private theorem reads_access (a : Access) : access.decoder.Reads (.str a.text) a := by
  cases a <;> exact reads_plain rfl

private theorem reads_field (f : Field) : field.Reads f.toJson f :=
  reads_record
    (.member (reads_string _) <| .member (reads_valueType f.type) <| .member (reads_access f.access) <|
      .member (reads_bool f.isStatic) <| written_attributes_nil f.attributes)
    (by decide) rfl

private theorem reads_property (p : Property) : property.Reads p.toJson p :=
  reads_record
    (.member (reads_string _) <| .member (reads_valueType p.type) <|
      written_attributes_nil p.attributes)
    (by decide) rfl

private theorem reads_optionalBody (b : Option Body) : (optional body).Reads (b.elim .null Body.toJson) b := by
  cases b with
  | none => rfl
  | some b => exact reads_optional (by simp [Body.toJson, Json.reading]) (reads_body b)

private theorem reads_method (x : Method) : method.Reads x.toJson x.withoutId := by
  rw [Method.toJson, List.append_assoc]
  exact reads_record
    (.member (reads_string _) <| .member (reads_access x.access) <| .member (reads_bool x.isStatic) <|
      .member (reads_list fun p _ => reads_param p) <| .member (reads_valueType x.ret) <|
      written_attributes x.attributes <| .member (reads_optionalBody x.body) written_nil)
    (by decide) (by simp; rfl)

/-! ### Types and modules -/

private theorem reads_typeKind (k : TypeKind) : typeKind.decoder.Reads (.str k.text) k := by
  cases k <;> exact reads_plain rfl

/-- The base is left out if there is none. -/
private theorem written_base (base : Option String) (h : Written types fields values members) :
    Written (Option String :: types) (.withDefault "base" (optional string) none, fields)
      (base, values) ((base.map (("base", Json.str ·))).toList ++ members) := by
  cases base with
  | none => exact .omitted rfl h
  | some base => exact .member (reads_optional (by simp [Json.reading]) (reads_string base)) h

private theorem reads_typeDecl (t : TypeDecl) : typeDecl.Reads t.toJson t.withoutId := by
  rw [TypeDecl.toJson, List.append_assoc, List.append_assoc]
  exact reads_record
    (.member (reads_string _) <| .member (reads_typeKind t.kind) <| written_base t.base <|
      written_attributes t.attributes <| .member (reads_list fun f _ => reads_field f) <|
      .member (reads_list fun p _ => reads_property p) <|
      .member (reads_list fun x _ => reads_method x) written_nil)
    (by decide) (by simp; rfl)

private theorem reads_module (m : Module) :
    module.Reads m.toJson { name := m.name, types := m.types.map (·.withoutId) } :=
  reads_record
    (.member (reads_string _) <| .member (reads_list fun t _ => reads_typeDecl t) written_nil)
    (by decide) rfl

/-- A text is decoded as what its value is read as. -/
theorem decode_text {α : Type} {d : Decoder α} {v : Json} {a : α} (h : d.Reads v a)
    {layout : Json.Layout} (hlayout : layout.IsBlank) {trail : String}
    (htrail : Json.Blank trail.toList) : d.decode (v.text layout ++ trail) = .ok a := by
  have ha : d .direct v.reading = .ok a := h
  have hrest : Reading.skipBlanks trail.toList = [] := by
    have := Json.skipBlanks_append htrail []
    rwa [List.append_nil] at this
  rw [decode, Json.ofText_text hlayout v htrail]
  simp only [ha, bind, Except.bind, Option.map_some, Option.getD_some, hrest]
  rfl

end Decoder

/-- A module is read back from its JSON text, with identifiers in declaration order. -/
theorem Module.ofJson_text (m : Module) {layout : Json.Layout} (hlayout : layout.IsBlank)
    {trail : String} (htrail : Json.Blank trail.toList) :
    Module.ofJson (m.toJson.text layout ++ trail) = .ok m.assignIds := by
  rw [ofJson, Decoder.decode_text (Decoder.reads_module m) hlayout htrail]
  exact congrArg Except.ok (ofTypes_withoutId m)

/-- A module is read back from its JSON form in a file. -/
theorem Encoding.decode_encode_json (m : Module) :
    Encoding.decode (Encoding.encode m .json) .json = .ok m.assignIds := by
  have htrail : Json.Blank "\n".toList := by simp [Json.Blank, Reading.isBlankChar]
  show (Module.ofJson (m.toJson.text .pretty ++ "\n")).mapError SourceError.json = _
  rw [Module.ofJson_text m Json.isBlank_pretty htrail]
  rfl

end AdviceWeaving
