import AdviceWeaving.Proofs.Resolving

/-!
# Mnemonics and operands

A mnemonic and an operand make the instruction that has both, and no other (`Instruction.build_exact`).  What an
instruction has for an operand is told by the values of integers, whatever their widths (`Instruction.Bears`), and what
a mnemonic takes by its kind alone (`OperandKind.Admits`).  The rules of module text read an operand by the same kinds,
so a line that is read fails to make an instruction only by an integer that is too large or too small.
-/

namespace AdviceWeaving

/-! ### Operands of instructions -/

/-- The operand of an instruction.  An integer is the operand if it has the same value, in whatever width. -/
inductive Instruction.Bears : Instruction → Operand → Prop
  | simple (op : SimpleOp) : Bears (.simple op) .absent
  | ldcI4 {v : Int32} {value : Int64} (same : value.toInt = v.toInt) : Bears (.ldcI4 v) (.int value)
  | ldcI8 (value : Int64) : Bears (.ldcI8 value) (.int value)
  | ldstr (value : String) : Bears (.ldstr value) (.string value)
  | slot (op : SlotOp) {index : UInt16} {value : Int64} (same : value.toInt = index.toNat) :
      Bears (.slot op index) (.int value)
  | field (op : FieldOp) (sig : FieldSig) : Bears (.field op sig) (.field sig)
  | call (op : CallOp) (sig : MethodSig) : Bears (.call op sig) (.method sig)
  | branch (op : BranchOp) (target : UInt64) : Bears (.branch op target) (.label target)

private theorem Instruction.bears_iff {i : Instruction} {o : Operand} : i.Bears o ↔ i.operand = o := by
  constructor
  · rintro (_ | same | _ | _ | ⟨_, same⟩ | _ | _ | _)
    case ldcI4 | slot => exact congrArg Operand.int (by rw [← same, Int64.ofInt_toInt])
    all_goals rfl
  · rintro rfl
    cases i with
    | ldcI4 v =>
      have := v.toInt_lt
      have := v.le_toInt
      exact .ldcI4 (Int64.toInt_ofInt_of_le (by omega) (by omega))
    | slot op index =>
      have := index.toNat_lt
      exact .slot op (Int64.toInt_ofInt_of_le (by omega) (by omega))
    | _ => constructor

/-- Each kind has an operand. -/
private theorem OperandKind.exists_admits (kind : OperandKind) : ∃ o, kind.Admits o := by
  cases kind with
  | none => exact ⟨.absent, .none⟩
  | int32 => exact ⟨.int 0, .int32 (by decide) (by decide)⟩
  | int64 => exact ⟨.int 0, .int64 0⟩
  | index => exact ⟨.int 0, .index (by decide) (by decide)⟩
  | string => exact ⟨.string default, .string _⟩
  | field => exact ⟨.field default, .field _⟩
  | method => exact ⟨.method default, .method _⟩
  | label => exact ⟨.label 0, .label 0⟩

/-! ### Operands of module text -/

private theorem Rule.read?_operand_iff {kind : OperandKind} {ts rest : List Lexeme} {w : WrittenOperand} :
    (Rule.operand kind ts).read? = some (w, rest) ↔
      ∃ (front : List Lexeme) (d : OperandTree kind), ts = front ++ rest ∧ front.map (·.token) = d.tokens ∧
        w = d.value := by
  constructor
  · intro h
    obtain ⟨front, rfl, d, hd, rfl⟩ := Rule.takes_operand kind ts w rest h
    exact ⟨front, d, rfl, hd.symm, rfl⟩
  · rintro ⟨front, d, rfl, hd, rfl⟩
    exact Rule.gives_operandTree d front rest hd

/-- What is read by a kind is of the kind, except that an integer may lie outside its range. -/
private theorem OperandTree.admits_or_int {kind : OperandKind} (d : OperandTree kind) {target? : String → Option Nat}
    {o : Operand} (h : d.value.resolve target? = .ok o) : kind.Admits o ∨ ∃ value, o = .int value := by
  cases d with
  | label name =>
    rw [value, WrittenOperand.resolve] at h
    split at h
    · cases h
      exact .inl (.label _)
    · cases h
  | int32 value | int64 value | index value =>
    cases h
    exact .inr ⟨value, rfl⟩
  | _ =>
    cases h
    exact .inl (by constructor)

/-- The tables of instructions agree.  A mnemonic and an operand make the instruction that has the mnemonic and bears
the operand, and none if there is no such instruction.  A mnemonic that has a kind makes one of each operand of the
kind and of no other, and a mnemonic without a kind makes none; so each instruction is made again of its own mnemonic
and operand.  Behind a mnemonic, module text is read as an operand of the kind of the mnemonic; what it stands for makes
an instruction, unless it is an integer outside the range of the kind. -/
theorem Instruction.build_exact :
    (∀ m o i, build m o = some i ↔ i.mnemonic = m ∧ i.Bears o) ∧
    (∀ m o, (∃ i, build m o = some i) ↔ ∃ kind, operandKind? m = some kind ∧ kind.Admits o) ∧
    (∀ m, (∃ o i, build m o = some i) ↔ (operandKind? m).isSome) ∧
    (∀ i : Instruction, build i.mnemonic i.operand = some i) ∧
    (∀ kind ts w rest, (Rule.operand kind ts).read? = some (w, rest) ↔
      ∃ (front : List Lexeme) (d : OperandTree kind), ts = front ++ rest ∧ front.map (·.token) = d.tokens ∧
        w = d.value) ∧
    (∀ (l : LineTree) (target? : String → Option Nat) o, l.operand.value.resolve target? = .ok o →
      (∃ i, build l.mnemonic o = some i) ∨ ∃ value, o = .int value ∧ ¬ l.kind.Admits (.int value)) := by
  refine ⟨fun m o i => ?_, fun m o => exists_build_iff, fun m => ?_, build_operand,
    fun kind ts w rest => Rule.read?_operand_iff, fun l target? o ho => ?_⟩
  · rw [build_eq_some_iff, bears_iff]
  · simp only [exists_build_iff, Option.isSome_iff_exists]
    constructor
    · rintro ⟨_, kind, hkind, -⟩
      exact ⟨kind, hkind⟩
    · rintro ⟨kind, hkind⟩
      obtain ⟨o, ho⟩ := kind.exists_admits
      exact ⟨o, kind, hkind, ho⟩
  · by_cases hadmits : l.kind.Admits o
    · exact .inl (exists_build_iff.2 ⟨l.kind, l.kind_eq, hadmits⟩)
    · obtain h | ⟨value, rfl⟩ := l.operand.admits_or_int ho
      · exact absurd h hadmits
      · exact .inr ⟨value, rfl, hadmits⟩

/-- The largest index makes an instruction; the integer behind it is read as well, but is outside the range. -/
theorem Instruction.build_exact_index :
    build "ldarg" (.int 65535) = some (.slot .ldarg 65535) ∧ build "ldarg" (.int 65536) = none ∧
    (OperandTree.index 65536).value.resolve (fun _ => none) = .ok (.int 65536) ∧
    ∃ value, Operand.int 65536 = .int value ∧ ¬ OperandKind.index.Admits (.int value) := by
  have hnone : build "ldarg" (.int 65536) = none := by decide
  have hresolve : (OperandTree.index 65536).value.resolve (fun _ => none) = .ok (.int 65536) := rfl
  refine ⟨(build_exact.1 _ _ _).2 ⟨rfl, .slot .ldarg (by decide)⟩, hnone, hresolve, ?_⟩
  obtain ⟨i, hi⟩ | hunfit :=
    build_exact.2.2.2.2.2 ⟨none, "ldarg", .index, by decide, .index 65536⟩ (fun _ => none) _ hresolve
  · rw [hnone] at hi
    cases hi
  · exact hunfit

end AdviceWeaving
