import AdviceWeaving.Text.Labels
import Mathlib.Tactic.Common

/-!
# The tables of instructions

`Instruction.build` makes the instruction that has the mnemonic and the operand (`Instruction.build_eq_some_iff`), and
it makes one of the mnemonics of `mnemonics`, with an operand of the kind that stands there, and of nothing else
(`Instruction.exists_build_iff`).  An operand of a kind of integers lies in its range (`OperandKind.Admits`).
-/

namespace AdviceWeaving

/-- The operands of a kind.  The narrower kinds of integers have those of their range. -/
inductive OperandKind.Admits : OperandKind → Operand → Prop
  | none : Admits .none .absent
  | int32 {value : Int64} (lower : Int32.minValue.toInt ≤ value.toInt) (upper : value.toInt ≤ Int32.maxValue.toInt) :
      Admits .int32 (.int value)
  | int64 (value : Int64) : Admits .int64 (.int value)
  | index {value : Int64} (lower : 0 ≤ value.toInt) (upper : value.toInt < UInt16.size) : Admits .index (.int value)
  | string (value : String) : Admits .string (.string value)
  | field (sig : FieldSig) : Admits .field (.field sig)
  | method (sig : MethodSig) : Admits .method (.method sig)
  | label (target : UInt64) : Admits .label (.label target)

theorem mem_mnemonics {m : String} {kind : OperandKind} (h : operandKind? m = some kind) :
    (m, kind) ∈ mnemonics := by
  obtain ⟨⟨m', kind'⟩, hfind, rfl⟩ := Option.map_eq_some_iff.1 h
  obtain rfl : m' = m := by simpa using List.find?_some hfind
  exact List.mem_of_find?_eq_some hfind

/-! ### Narrower integers -/

private theorem toInt32?_ofInt (value : Int32) : toInt32? (Int64.ofInt value.toInt) = some value := by
  have hle := value.le_toInt
  have hlt := value.toInt_lt
  rw [toInt32?, Int64.toInt_ofInt_of_le (by omega) (by omega), if_pos ⟨by omega, by omega⟩,
    Int32.ofInt_toInt]

private theorem toIndex?_ofInt (index : UInt16) : toIndex? (Int64.ofInt index.toNat) = some index := by
  have hlt := index.toNat_lt
  rw [toIndex?, Int64.toInt_ofInt_of_le (by omega) (by omega), if_pos ⟨by omega, by omega⟩,
    Int.toNat_natCast, UInt16.ofNat_toNat]

private theorem toInt32?_eq_some_iff {value : Int64} {v : Int32} :
    toInt32? value = some v ↔ Int64.ofInt v.toInt = value := by
  constructor
  · intro h
    obtain ⟨⟨hle, hlt⟩, hv⟩ := Option.ite_none_right_eq_some.1 h
    rw [← Option.some.inj hv, Int32.toInt_ofInt_of_le hle (by omega), Int64.ofInt_toInt]
  · rintro rfl
    exact toInt32?_ofInt v

private theorem toIndex?_eq_some_iff {value : Int64} {index : UInt16} :
    toIndex? value = some index ↔ Int64.ofInt index.toNat = value := by
  constructor
  · intro h
    obtain ⟨⟨hle, hlt⟩, hv⟩ := Option.ite_none_right_eq_some.1 h
    rw [← Option.some.inj hv, UInt16.toNat_ofNat_of_lt' (by rw [UInt16.size]; omega), Int.toNat_of_nonneg hle,
      Int64.ofInt_toInt]
  · rintro rfl
    exact toIndex?_ofInt index

namespace Instruction

/-! ### Mnemonics and instructions -/

/-- Every instruction is made again of its mnemonic and its operand. -/
theorem build_operand (i : Instruction) : build i.mnemonic i.operand = some i := by
  cases i with
  | simple op | field op | call op | branch op => cases op <;> rfl
  | ldcI4 v => exact congrArg (Option.map ldcI4) (toInt32?_ofInt v)
  | slot op index => cases op <;> exact congrArg (Option.map (slot _)) (toIndex?_ofInt index)
  | _ => rfl

theorem build_eq_some_iff {m : String} {o : Operand} {i : Instruction} :
    build m o = some i ↔ i.mnemonic = m ∧ i.operand = o := by
  constructor
  · intro h
    unfold build at h
    -- one case for each line of the table; only the narrower integers can fail to make an instruction
    split at h
    case h_12 =>
      obtain ⟨v, hv, rfl⟩ := Option.map_eq_some_iff.1 h
      exact ⟨rfl, congrArg Operand.int (toInt32?_eq_some_iff.1 hv)⟩
    case h_15 | h_16 | h_17 | h_18 =>
      obtain ⟨index, hindex, rfl⟩ := Option.map_eq_some_iff.1 h
      exact ⟨rfl, congrArg Operand.int (toIndex?_eq_some_iff.1 hindex)⟩
    case h_30 => cases h
    all_goals
      cases h
      exact ⟨rfl, rfl⟩
  · rintro ⟨rfl, rfl⟩
    exact build_operand i

/-! ### Mnemonics and kinds -/

/-- The kind of the operand of an instruction. -/
def kind : Instruction → OperandKind
  | simple _ => .none
  | ldcI4 _ => .int32
  | ldcI8 _ => .int64
  | ldstr _ => .string
  | slot _ _ => .index
  | field _ _ => .field
  | call _ _ => .method
  | branch _ _ => .label

theorem operandKind?_mnemonic (i : Instruction) : operandKind? i.mnemonic = some i.kind := by
  cases i with
  | simple op | slot op | field op | call op | branch op => cases op <;> rfl
  | _ => rfl

private theorem admits_operand (i : Instruction) : i.kind.Admits i.operand := by
  cases i with
  | ldcI4 v =>
    have hle := v.le_toInt
    have hlt := v.toInt_lt
    have hv : (Int64.ofInt v.toInt).toInt = v.toInt := Int64.toInt_ofInt_of_le (by omega) (by omega)
    refine .int32 ?_ ?_
    · rw [hv, Int32.toInt_minValue]
      exact hle
    · rw [hv, Int32.toInt_maxValue]
      omega
  | slot op index =>
    have hlt := index.toNat_lt
    have hv : (Int64.ofInt index.toNat).toInt = index.toNat := Int64.toInt_ofInt_of_le (by omega) (by omega)
    exact .index (by omega) (by rw [hv, UInt16.size]; omega)
  | _ => constructor

/-- A mnemonic of the table makes an instruction of each operand of its kind. -/
private theorem exists_build_of_mem {m : String} {kind : OperandKind} (h : (m, kind) ∈ mnemonics) {o : Operand}
    (ho : kind.Admits o) : ∃ i, build m o = some i := by
  cases ho with
  | none =>
    simp [mnemonics] at h
    rcases h with rfl | rfl | rfl | rfl | rfl | rfl | rfl | rfl | rfl | rfl | rfl <;> exact ⟨_, rfl⟩
  | @int32 value lower upper =>
    obtain rfl : m = "ldc.i4" := by simpa [mnemonics] using h
    rw [Int32.toInt_minValue] at lower
    rw [Int32.toInt_maxValue] at upper
    exact ⟨.ldcI4 (.ofInt value.toInt), congrArg (Option.map ldcI4) (if_pos ⟨lower, by omega⟩)⟩
  | int64 =>
    obtain rfl : m = "ldc.i8" := by simpa [mnemonics] using h
    exact ⟨_, rfl⟩
  | @index value lower upper =>
    have hindex : toIndex? value = some (UInt16.ofNat value.toInt.toNat) := if_pos ⟨lower, by simp at upper; omega⟩
    simp [mnemonics] at h
    rcases h with rfl | rfl | rfl | rfl <;> exact ⟨.slot _ _, congrArg (Option.map (slot _)) hindex⟩
  | string =>
    obtain rfl : m = "ldstr" := by simpa [mnemonics] using h
    exact ⟨_, rfl⟩
  | field | label =>
    simp [mnemonics] at h
    rcases h with rfl | rfl | rfl | rfl <;> exact ⟨_, rfl⟩
  | method =>
    simp [mnemonics] at h
    rcases h with rfl | rfl | rfl <;> exact ⟨_, rfl⟩

theorem exists_build_iff {m : String} {o : Operand} :
    (∃ i, build m o = some i) ↔ ∃ kind, operandKind? m = some kind ∧ kind.Admits o := by
  constructor
  · rintro ⟨i, h⟩
    obtain ⟨rfl, rfl⟩ := build_eq_some_iff.1 h
    exact ⟨i.kind, i.operandKind?_mnemonic, i.admits_operand⟩
  · rintro ⟨kind, hkind, ho⟩
    exact exists_build_of_mem (mem_mnemonics hkind) ho

theorem build_eq_none_iff {m : String} {o : Operand} :
    build m o = none ↔ ∀ kind, operandKind? m = some kind → ¬ kind.Admits o := by
  rw [← not_iff_not, ← Ne, Option.ne_none_iff_exists', exists_build_iff]
  push Not
  rfl

end Instruction

/-! ### Lines -/

namespace Line

variable {target? : String → Option Nat} {line : Line}

theorem resolve_eq_ok_iff {i : Instruction} :
    line.resolve target? = .ok i ↔
      ∃ o, line.operand.resolve target? = .ok o ∧ Instruction.build line.mnemonic o = some i := by
  rw [resolve]
  cases line.operand.resolve target? with
  | error fault => simp [bind, Except.bind]
  | ok o => cases h : Instruction.build line.mnemonic o <;> simp [bind, Except.bind, pure, Except.pure, h]

theorem resolve_eq_error_iff {fault : LabelFault} :
    line.resolve target? = .error fault ↔
      line.operand.resolve target? = .error fault ∨
        ∃ o, line.operand.resolve target? = .ok o ∧ Instruction.build line.mnemonic o = none ∧
          fault = .unfit line.mnemonic o := by
  rw [resolve]
  cases line.operand.resolve target? with
  | error fault => simp [bind, Except.bind]
  | ok o =>
    cases h : Instruction.build line.mnemonic o <;>
      simp [bind, Except.bind, pure, Except.pure, throw, throwThe, MonadExceptOf.throw, h, eq_comm]

end Line

end AdviceWeaving
