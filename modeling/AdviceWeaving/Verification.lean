import AdviceWeaving.Diagnostic
import AdviceWeaving.Text.Printer

/-!
# Verification

A body must keep four obligations: branches lead into the body, locals are declared, arguments exist, and on every
path the stack has one and the same depth at an instruction, holds what the instruction takes, and holds at `ret` what
the method returns. `Method.findings` lists what breaks them; `Module.verify` does so for all bodies of a module.

The depths are found by following the control flow from the first instruction. Every instruction is looked at once,
with the depth of the first path that reached it.
-/

namespace AdviceWeaving

/-- What a body has to keep. -/
inductive Obligation
  | stackBalance
  | branchRange
  | localsRange
  | argsRange
  deriving DecidableEq, Inhabited

/-- The obligations, in the order of a certificate. -/
def Obligation.all : List Obligation :=
  [stackBalance, branchRange, localsRange, argsRange]

/-- The name of an obligation in a certificate. -/
def Obligation.text : Obligation → String
  | stackBalance => "stack_balance"
  | branchRange => "branch_range"
  | localsRange => "locals_range"
  | argsRange => "args_range"

/-- How an instruction breaks an obligation. -/
inductive Breach
  | branchTarget (target : Nat)
  | undeclaredLocal (index : Nat)
  | missingArgument (index : Nat)
  | emptyBody
  | underflow (mnemonic : String)
  | returnDepth (found expected : Nat)
  | fallsOff
  | depthMismatch (seen found : Nat)
  deriving DecidableEq, Inhabited

namespace Breach

/-- The obligation that is broken. -/
def obligation : Breach → Obligation
  | branchTarget _ => .branchRange
  | undeclaredLocal _ => .localsRange
  | missingArgument _ => .argsRange
  | _ => .stackBalance

/-- The message about a breach. -/
def message : Breach → String
  | branchTarget target => s!"branch target {target} is outside the body"
  | undeclaredLocal index => s!"local {index} is not declared"
  | missingArgument index => s!"argument {index} does not exist"
  | emptyBody => "body has no instructions"
  | underflow mnemonic => s!"stack underflow in '{mnemonic}'"
  | returnDepth found expected => s!"ret with {found} values on the stack, expected {expected}"
  | fallsOff => "control falls off the end of the body"
  | depthMismatch seen found => s!"inconsistent stack depth ({seen} vs {found})"

end Breach

/-- A breach, and the index of the instruction where it was found. -/
structure Finding where
  index : Nat
  breach : Breach
  deriving DecidableEq, Inhabited

/-! ### Operands -/

/-- How many arguments a method has, with the receiver. -/
def Method.argCount (m : Method) : Nat :=
  m.params.length + (!m.isStatic).toNat

/-- The breach of an instruction's operand, in a body of `length` instructions and `locals` locals that has `args`
arguments. -/
def Instruction.breach? (length locals args : Nat) : Instruction → Option Breach
  | branch _ target => if length ≤ target.toNat then some (.branchTarget target.toNat) else none
  | slot .ldloc i | slot .stloc i => if locals ≤ i.toNat then some (.undeclaredLocal i.toNat) else none
  | slot .ldarg i | slot .starg i => if args ≤ i.toNat then some (.missingArgument i.toNat) else none
  | _ => none

/-- The breaches of all operands of a body, in order. -/
def Body.operandFindings (body : Body) (args : Nat) : List Finding :=
  let length := body.code.length
  body.code.zipIdx.filterMap fun (i, index) => (i.breach? length body.locals.size args).map (⟨index, ·⟩)

/-! ### Stack depths -/

/-- What is known while the control flow is followed: the depth at the instructions that were reached, the instructions
that are still to be looked at, latest first, and what was found. -/
structure Flow where
  depths : Array (Option Nat)
  pending : List Nat
  findings : List Finding
  deriving DecidableEq, Inhabited

namespace Flow

/-- At the first of `length` instructions, the stack is empty. -/
def start (length : Nat) : Flow :=
  ⟨(Array.replicate length none).setIfInBounds 0 (some 0), [0], []⟩

/-- The depth at an instruction, if it was reached. -/
def depth? (f : Flow) (index : Nat) : Option Nat :=
  f.depths[index]?.join

/-- Note a breach. -/
def note (f : Flow) (index : Nat) (breach : Breach) : Flow :=
  { f with findings := f.findings ++ [⟨index, breach⟩] }

/-- Reach an instruction with the given depth. -/
def reach (f : Flow) (depth : Nat) (index : Nat) : Flow :=
  match f.depth? index with
  | none => { f with depths := f.depths.setIfInBounds index (some depth), pending := index :: f.pending }
  | some seen => if seen = depth then f else f.note index (.depthMismatch seen depth)

end Flow

/-- Where control may go from an instruction of a body of `length` instructions, as far as it stays there. -/
def Instruction.successors (length index : Nat) (i : Instruction) : List Nat :=
  (if i.fallsThrough ∧ index + 1 < length then [index + 1] else []) ++
    (i.target?.map (·.toNat)).toList.filter (· < length)

/-- Look at an instruction that was reached with the given depth. At `ret` the depth is to be `expected`. -/
def Instruction.follow (length expected : Nat) (f : Flow) (index depth : Nat) (i : Instruction) : Flow :=
  if depth < i.stackEffect.pops then
    f.note index (.underflow i.mnemonic)
  else if i.isReturn then
    if depth = expected then f else f.note index (.returnDepth depth expected)
  else
    let f := if i.fallsThrough ∧ length ≤ index + 1 then f.note index .fallsOff else f
    (i.successors length index).foldl (·.reach (depth - i.stackEffect.pops + i.stackEffect.pushes)) f

/-- Look at up to `fuel` of the pending instructions of a body, and at those that are reached from them. -/
def Flow.followAll (code : Array Instruction) (expected : Nat) : Nat → Flow → Flow
  | 0, f => f
  | fuel + 1, f =>
    match f.pending with
    | [] => f
    | index :: pending =>
      let f := { f with pending }
      match f.depth? index, code[index]? with
      | some depth, some i => followAll code expected fuel (i.follow code.size expected f index depth)
      | _, _ => followAll code expected fuel f

/-- The breaches of stack depth in a body whose `ret` leaves `expected` values. Each instruction becomes pending once,
so there are no more steps than instructions. -/
def Body.stackFindings (body : Body) (expected : Nat) : List Finding :=
  if body.code.isEmpty then
    [⟨0, .emptyBody⟩]
  else
    let length := body.code.length
    (Flow.followAll body.code.toArray expected length (.start length)).findings

/-! ### Methods and modules -/

/-- Everything that is wrong with the body of a method. A method without a body has nothing wrong with it. -/
def Method.findings (m : Method) : List Finding :=
  match m.body with
  | none => []
  | some body => body.operandFindings m.argCount ++ body.stackFindings (!m.ret.isVoid).toNat

/-- The error that reports a finding. -/
def Finding.diagnostic (f : Finding) (site : Site) : Diagnostic where
  code := some .e0300
  level := .error
  site := site
  message := s!"{f.breach.message} at {label f.index}"

/-- The outcome of verification: how many bodies there are, and which obligations all of them keep. -/
structure Certificate where
  methodsChecked : Nat
  kept : List Obligation
  deriving DecidableEq, Inhabited

namespace Certificate

/-- An obligation is kept. -/
def keeps (c : Certificate) (obligation : Obligation) : Bool :=
  c.kept.contains obligation

/-- All obligations are kept. -/
def allPass (c : Certificate) : Bool :=
  Obligation.all.all c.keeps

end Certificate

/-- The certificate of a module, and the errors that tell why it is not clean. -/
structure Verification where
  certificate : Certificate
  diagnostics : List Diagnostic
  deriving DecidableEq, Inhabited

/-- All findings of a module, with the sites of their methods. -/
def Module.findings (m : Module) : List (Site × Finding) :=
  m.methods.flatMap fun (t, x) => x.findings.map (Site.ofMember t.name x.name, ·)

/-- The certificate of a module with the given findings. -/
def Certificate.ofFindings (methodsChecked : Nat) (findings : List (Site × Finding)) : Certificate where
  methodsChecked := methodsChecked
  kept := Obligation.all.filter fun o => findings.all (·.2.breach.obligation ≠ o)

/-- Verify all bodies of a module. -/
def Module.verify (m : Module) : Verification :=
  let findings := m.findings
  { certificate := .ofFindings (m.methods.countP (·.2.body.isSome)) findings
    diagnostics := findings.map fun (site, f) => f.diagnostic site }

end AdviceWeaving
