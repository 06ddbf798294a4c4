import AdviceWeaving.Proofs.Balance
import Mathlib.Logic.Function.Basic

/-!
# A machine for bodies

A machine runs the instructions of a body on a stack of values, with locals and arguments.  What the
instructions that only move values do is fixed; arithmetic, field accesses, calls and the outcome of
a comparison are left to the machine, as functions of the values that are taken and of an
environment.  A run ends at a `ret` (`Machine.Returns`), and notes the calls on its way.
-/

namespace AdviceWeaving

/-! ### Machines and frames -/

/-- The parts of a run that are left open: the values of constants, what the other instructions make
of the values that they take, top first, and of the environment, and which comparisons lead to a
jump. -/
structure Machine (V E : Type) where
  null : V
  int32 : Int32 → V
  int64 : Int64 → V
  string : String → V
  result : Instruction → List V → E → List V × E
  length_result : ∀ i popped env, (result i popped env).1.length = i.stackEffect.pushes
  taken : BranchOp → List V → E → Bool

/-- A call in a run, with its operands in the order in which they were put on the stack. -/
structure Call (V : Type) where
  op : CallOp
  sig : MethodSig
  operands : List V

/-- What a run works on, and the calls that it has made. -/
structure Frame (V E : Type) where
  stack : List V
  locals : UInt16 → V
  args : UInt16 → V
  env : E
  calls : List (Call V)

namespace Machine

variable {V E : Type} (M : Machine V E)

/-- Put the first value into a slot. -/
def assign (slots : UInt16 → V) (index : UInt16) : List V → UInt16 → V
  | [] => slots
  | v :: _ => Function.update slots index v

/-- What an instruction does to a frame. -/
def act (i : Instruction) (f : Frame V E) : Frame V E :=
  let popped := f.stack.take i.stackEffect.pops
  let rest := f.stack.drop i.stackEffect.pops
  let made := M.result i popped f.env
  match i with
  | .simple .nop | .simple .pop | .simple .ret | .branch _ _ => { f with stack := rest }
  | .simple .dup => { f with stack := popped ++ popped ++ rest }
  | .simple .ldnull => { f with stack := M.null :: rest }
  | .ldcI4 value => { f with stack := M.int32 value :: rest }
  | .ldcI8 value => { f with stack := M.int64 value :: rest }
  | .ldstr value => { f with stack := M.string value :: rest }
  | .slot .ldarg index => { f with stack := f.args index :: rest }
  | .slot .ldloc index => { f with stack := f.locals index :: rest }
  | .slot .starg index => { f with stack := rest, args := assign f.args index popped }
  | .slot .stloc index => { f with stack := rest, locals := assign f.locals index popped }
  | .simple _ | .field _ _ => { f with stack := made.1 ++ rest, env := made.2 }
  | .call op sig =>
    { f with
      stack := made.1 ++ rest
      env := made.2
      calls := f.calls ++ [⟨op, sig, popped.reverse⟩] }

/-- Where control goes from an instruction. -/
def next (i : Instruction) (index : Nat) (f : Frame V E) : Nat :=
  match i with
  | .branch op target =>
    if i.fallsThrough && !M.taken op (f.stack.take i.stackEffect.pops) f.env then index + 1
    else target.toNat
  | _ => index + 1

/-- A run from an instruction of a body comes to a `ret`, with the second frame. -/
inductive Returns (code : List Instruction) : Nat → Frame V E → Frame V E → Prop
  | ret {index : Nat} {f : Frame V E} {i : Instruction} (hi : code[index]? = some i)
      (hr : i.isReturn) : Returns code index f f
  | step {index : Nat} {f g : Frame V E} {i : Instruction} (hi : code[index]? = some i)
      (hr : i.isReturn = false) (hpops : i.stackEffect.pops ≤ f.stack.length)
      (hrest : Returns code (M.next i index f) (M.act i f) g) : Returns code index f g

/-- The instruction leaves the environment as it is. -/
def Silent (i : Instruction) : Prop :=
  ∀ f, (M.act i f).env = f.env

/-! ### Steps -/

variable {M} {code : List Instruction} {index : Nat} {f g g' : Frame V E} {i : Instruction}

theorem length_act (hr : i.isReturn = false) (hpops : i.stackEffect.pops ≤ f.stack.length) :
    (M.act i f).stack.length = f.stack.length - i.stackEffect.pops + i.stackEffect.pushes := by
  have hresult := M.length_result i (f.stack.take i.stackEffect.pops) f.env
  cases i with
  | simple op =>
    cases op <;> simp_all [act, Instruction.stackEffect, Instruction.isReturn] <;> omega
  | slot op k => cases op <;> simp [act, Instruction.stackEffect]
  | field op sig => simp [act, hresult]; omega
  | call op sig => simp [act, hresult]; omega
  | branch op target => cases op <;> simp [act, Instruction.stackEffect]
  | _ => simp [act, Instruction.stackEffect]

theorem next_mem_nexts (hr : i.isReturn = false) : M.next i index f ∈ i.nexts index := by
  cases i with
  | branch op target =>
    unfold next
    by_cases h : ((Instruction.branch op target).fallsThrough &&
        !M.taken op (f.stack.take (Instruction.branch op target).stackEffect.pops) f.env) = true
    · simp only
      rw [if_pos h, Instruction.nexts, if_pos (Bool.and_eq_true_iff.1 h).1]
      exact List.mem_append_left _ (List.mem_singleton_self _)
    · simp only
      rw [if_neg h]
      exact List.mem_append_right _ (List.mem_singleton_self _)
  | simple op => cases op with
    | ret => cases hr
    | _ => simp [next, Instruction.nexts, Instruction.fallsThrough]
  | _ => simp [next, Instruction.nexts, Instruction.fallsThrough]

private theorem next_of_isPlain (hi : i.isPlain) : M.next i index f = index + 1 := by
  have hnext : M.next i index f ∈ i.nexts index :=
    next_mem_nexts (Instruction.isReturn_of_isPlain hi)
  rwa [Instruction.nexts_of_isPlain hi, List.mem_singleton] at hnext

/-- A run has one outcome. -/
theorem Returns.unique (h : M.Returns code index f g) (h' : M.Returns code index f g') :
    g = g' := by
  induction h with
  | ret hi hr =>
    cases h' with
    | ret => rfl
    | step hi' hr' =>
      rw [Option.some.inj (hi'.symm.trans hi), hr] at hr'
      cases hr'
  | step hi hr hpops _ ih =>
    cases h' with
    | ret hi' hr' =>
      rw [Option.some.inj (hi'.symm.trans hi), hr] at hr'
      cases hr'
    | step hi' _ _ hrest =>
      obtain rfl := Option.some.inj (hi'.symm.trans hi)
      exact ih hrest

/-- The stack at a `ret` has the depth that is expected there. -/
theorem Returns.length_stack {expected : Nat} {At : Nat → Nat → Prop}
    (hdepths : Depths code expected At) (h : M.Returns code index f g)
    (hat : At index f.stack.length) : g.stack.length = expected := by
  induction h with
  | ret hi hr =>
    obtain ⟨i', hi', hbalanced⟩ := hdepths.balanced hat
    obtain rfl := Option.some.inj (hi'.symm.trans hi)
    exact hbalanced.returns hr
  | step hi hr hpops _ ih =>
    obtain ⟨i', hi', hbalanced⟩ := hdepths.balanced hat
    obtain rfl := Option.some.inj (hi'.symm.trans hi)
    refine ih ?_
    rw [length_act hr hpops]
    exact hbalanced.continues hr _ (next_mem_nexts hr)

/-! ### Straight code -/

variable (M) in
/-- The frame behind straight code; there is none if the code takes what is not there. -/
def exec : List Instruction → Frame V E → Option (Frame V E)
  | [], f => some f
  | i :: code, f => if i.stackEffect.pops ≤ f.stack.length then exec code (M.act i f) else none

theorem exec_append (a b : List Instruction) (f : Frame V E) :
    M.exec (a ++ b) f = (M.exec a f).bind (M.exec b) := by
  induction a generalizing f with
  | nil => rfl
  | cons i a ih =>
    simp only [List.cons_append, exec]
    split
    · exact ih _
    · rfl

/-- A run through straight code goes on behind it. -/
theorem returns_exec {seq : List Instruction} (hplain : Plain seq)
    (hseq : ∀ k < seq.length, code[index + k]? = seq[k]?) (hexec : M.exec seq f = some g) :
    M.Returns code index f g' ↔ M.Returns code (index + seq.length) g g' := by
  induction seq generalizing index f with
  | nil => cases hexec; rfl
  | cons i seq ih =>
    have hi : code[index]? = some i := by simpa using hseq 0 (by simp)
    have hiplain := hplain i List.mem_cons_self
    have hr := Instruction.isReturn_of_isPlain hiplain
    simp only [exec] at hexec
    split at hexec
    · next hpops =>
      have htail : ∀ k < seq.length, code[index + 1 + k]? = seq[k]? := by
        intro k hk
        rw [Nat.add_assoc, Nat.add_comm 1 k]
        exact hseq (k + 1) (by simpa using hk)
      -- a plain instruction leads to the next one
      have hrest := ih (fun j hj => hplain j (List.mem_cons_of_mem _ hj)) htail hexec
      rw [List.length_cons, Nat.add_comm seq.length, ← Nat.add_assoc, ← hrest]
      constructor
      · intro h
        cases h with
        | ret hi' hr' =>
          rw [Option.some.inj (hi'.symm.trans hi), hr] at hr'
          cases hr'
        | step hi' _ _ hstep =>
          obtain rfl := Option.some.inj (hi'.symm.trans hi)
          rwa [next_of_isPlain hiplain] at hstep
      · intro h
        exact .step hi hr hpops (by rwa [next_of_isPlain hiplain])
    · cases hexec

end Machine

end AdviceWeaving
