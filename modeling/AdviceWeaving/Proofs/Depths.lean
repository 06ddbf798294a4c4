import AdviceWeaving.Proofs.Paths

/-!
# Stack depths

A body keeps stack balance just if its instructions can be given depths that agree along every step
of control (`Depths`): safe paths give such depths (`Body.exists_depths`), and where there are any
nothing is found (`Body.stackFindings_eq_nil`).  So a body is accepted just if its operands are in
range and it has such depths (`Body.Verifies`, `Method.findings_eq_nil_iff`).
-/

namespace AdviceWeaving

/-! ### Depths that agree along control -/

/-- Where control may go from an instruction, whether or not it stays in the body. -/
def Instruction.nexts (index : Nat) (i : Instruction) : List Nat :=
  (if i.fallsThrough then [index + 1] else []) ++ (i.target?.map (·.toNat)).toList

/-- An instruction that is reached with the given depth keeps stack balance, if the depths in `At`
are those at the instructions where control goes. -/
structure Instruction.Balanced (expected : Nat) (At : Nat → Nat → Prop) (index depth : Nat)
    (i : Instruction) : Prop where
  pops_le : i.stackEffect.pops ≤ depth
  returns : i.isReturn → depth = expected
  continues : i.isReturn = false → ∀ next ∈ i.nexts index,
    At next (depth - i.stackEffect.pops + i.stackEffect.pushes)

/-- `At` relates the instructions that are reached to their depths, in code whose `ret` leaves
`expected` values. -/
structure Depths (code : List Instruction) (expected : Nat) (At : Nat → Nat → Prop) : Prop where
  start : At 0 0
  unique : ∀ {index a b}, At index a → At index b → a = b
  balanced : ∀ {index depth}, At index depth →
    ∃ i, code[index]? = some i ∧ i.Balanced expected At index depth

/-! ### Depths and paths -/

section

variable {code : List Instruction} {expected index depth : Nat} {At : Nat → Nat → Prop}

private theorem Instruction.mem_nexts_of_leads {length next : Nat} {i : Instruction}
    (h : i.Leads length index next) : next ∈ i.nexts index := by
  simp only [nexts, List.mem_append]
  cases h with
  | fallThrough hfalls _ => exact .inl (by rw [if_pos hfalls]; exact List.mem_singleton.2 rfl)
  | branch htarget _ => exact .inr (by simp [htarget])

theorem Instruction.isReturn_of_fallsThrough {i : Instruction} (h : i.fallsThrough) :
    i.isReturn = false := by
  cases i with
  | simple op => cases op <;> simp_all [isReturn, fallsThrough]
  | _ => rfl

/-- If every branch leads into the body, safe paths give its instructions their depths. -/
theorem Body.exists_depths {b : Body} (h : b.stackFindings expected = [])
    (htargets : ∀ i ∈ b.code, ∀ target, i.target? = some target → target.toNat < b.code.length) :
    ∃ At, Depths b.code expected At := by
  have hsafe := stackFindings_eq_nil_iff.1 h
  refine ⟨fun index depth => Arrives b.code index depth, .start,
    fun ha hb => by exact_mod_cast hsafe.unique ha hb, fun {index depth} harrives => ?_⟩
  have hlt := harrives.lt_length hsafe.code_ne_nil
  have hi : b.code[index]? = some b.code[index] := List.getElem?_eq_getElem hlt
  have hpops : b.code[index].stackEffect.pops ≤ depth := by
    exact_mod_cast hsafe.pops_le harrives hi
  refine ⟨_, hi, hpops, fun hr => by exact_mod_cast hsafe.returns harrives hi hr,
    fun _ next hnext => ?_⟩
  have hleads : b.code[index].Leads b.code.length index next := by
    rcases List.mem_append.1 hnext with hnext | hnext
    · split at hnext
      · next hfalls =>
        rw [List.mem_singleton.1 hnext]
        exact .fallThrough hfalls (hsafe.stays harrives hi hfalls)
      · cases hnext
    · obtain ⟨target, htarget, rfl⟩ := Option.map_eq_some_iff.1 (Option.mem_toList.1 hnext)
      exact .branch htarget (htargets _ (List.getElem_mem hlt) target htarget)
  have hstep := harrives.step hi hleads
  rwa [Instruction.depth_eq hpops] at hstep

private theorem Depths.exists_at (h : Depths code expected At) {depth : Int}
    (harrives : Arrives code index depth) : ∃ d : Nat, depth = d ∧ At index d := by
  induction harrives with
  | start => exact ⟨0, rfl, h.start⟩
  | step _ hi hleads ih =>
    obtain ⟨d, rfl, hat⟩ := ih
    obtain ⟨i, hi', hbalanced⟩ := h.balanced hat
    obtain rfl := Option.some.inj (hi'.symm.trans hi)
    refine ⟨_, Instruction.depth_eq hbalanced.pops_le, hbalanced.continues ?_ _
      (Instruction.mem_nexts_of_leads hleads)⟩
    cases hr : i.isReturn with
    | false => rfl
    | true =>
      -- control goes nowhere from a `ret`
      rw [Instruction.leads_iff, (Instruction.successors_of_isReturn hr).2] at hleads
      cases hleads

theorem Body.stackFindings_eq_nil {b : Body} (h : Depths b.code expected At) :
    b.stackFindings expected = [] := by
  have hlt {index depth : Nat} (hat : At index depth) : index < b.code.length := by
    obtain ⟨i, hi, _⟩ := h.balanced hat
    exact (List.getElem?_eq_some_iff.1 hi).1
  have hbalanced {index : Nat} {depth : Int} {i : Instruction}
      (harrives : Arrives b.code index depth) (hi : b.code[index]? = some i) :
      ∃ d : Nat, depth = d ∧ i.Balanced expected At index d := by
    obtain ⟨d, rfl, hat⟩ := h.exists_at harrives
    obtain ⟨i', hi', hbalanced⟩ := h.balanced hat
    obtain rfl := Option.some.inj (hi'.symm.trans hi)
    exact ⟨d, rfl, hbalanced⟩
  refine stackFindings_eq_nil_iff.2 ⟨List.length_pos_iff.1 (Nat.lt_of_le_of_lt (Nat.zero_le _)
    (hlt h.start)), fun h₁ h₂ => ?_, fun h₁ hi => ?_, fun h₁ hi hr => ?_, fun h₁ hi hfalls => ?_⟩
  · obtain ⟨d₁, rfl, hd₁⟩ := h.exists_at h₁
    obtain ⟨d₂, rfl, hd₂⟩ := h.exists_at h₂
    rw [h.unique hd₁ hd₂]
  all_goals obtain ⟨d, rfl, hd⟩ := hbalanced h₁ hi
  · exact_mod_cast hd.pops_le
  · exact_mod_cast hd.returns hr
  · exact hlt (hd.continues (Instruction.isReturn_of_fallsThrough hfalls) _
      (by simp [Instruction.nexts, hfalls]))

end

/-! ### Bodies that are accepted -/

/-- A body keeps all four obligations. -/
structure Body.Verifies (b : Body) (args expected : Nat) : Prop where
  operands : ∀ i ∈ b.code, i.breach? b.code.length b.locals.size args = none
  depths : ∃ At, Depths b.code expected At

theorem Instruction.target_lt_of_breach? {i : Instruction} {length locals args : Nat}
    (h : i.breach? length locals args = none) {target : UInt64} (ht : i.target? = some target) :
    target.toNat < length := by
  cases i with
  | branch op target' =>
    cases ht
    simp only [Instruction.breach?] at h
    split at h
    · cases h
    · omega
  | _ => cases ht

theorem Body.findings_eq_nil_iff {b : Body} {args expected : Nat} :
    b.operandFindings args = [] ∧ b.stackFindings expected = [] ↔ b.Verifies args expected := by
  rw [Body.operandFindings_eq_nil_iff]
  constructor
  · rintro ⟨hoperands, hstack⟩
    exact ⟨hoperands, b.exists_depths hstack fun i hi target ht =>
      Instruction.target_lt_of_breach? (hoperands i hi) ht⟩
  · rintro ⟨hoperands, At, hdepths⟩
    exact ⟨hoperands, b.stackFindings_eq_nil hdepths⟩

/-- A method is accepted just if its body, where it has one, keeps the obligations. -/
theorem Method.findings_eq_nil_iff {x : Method} :
    x.findings = [] ↔ ∀ b, x.body = some b → b.Verifies x.argCount (!x.ret.isVoid).toNat := by
  unfold Method.findings
  cases hb : x.body with
  | none => simp
  | some b => simp [Body.findings_eq_nil_iff]

end AdviceWeaving
