import AdviceWeaving.Instruction

/-!
# Method bodies and splicing

A body is a list of locals and a list of instructions, whose branches name instruction indices. `Body.splice?` puts
a sequence in at an index and moves every branch target with the instruction that it names; `Body.spliceAtExits?`
does so in front of every `ret`. Nothing else changes the instruction list of a body.

Branch targets are 64-bit words. A target that would have to pass the largest of them cannot be moved, and then there
is no result; that never happens to the targets that lie within a body.
-/

namespace AdviceWeaving

/-- Where the jumps to a splice point lead after the splice. -/
inductive Landing
  /-- At the instruction that they led to before, which the new sequence displaces. -/
  | displaced
  /-- At the start of the new sequence. -/
  | inserted
  deriving DecidableEq, Inhabited

/-- The locals and the instructions of a method. `initLocals` asks for zeroed locals. -/
structure Body where
  locals : Array ValueType
  initLocals : Bool
  code : List Instruction
  deriving DecidableEq, Inhabited

namespace Body

/-- A body without locals. -/
def ofCode (code : List Instruction) : Body :=
  ⟨#[], false, code⟩

/-- How many locals a body may have: one for each 16-bit index. -/
def maxLocals : Nat := 65536

/-- Declare one more local, and give its index. There is none left when every index is taken. -/
def addLocal (body : Body) (type : ValueType) : Option (UInt16 × Body) :=
  if body.locals.size < maxLocals then
    some (UInt16.ofNat body.locals.size, { body with locals := body.locals.push type })
  else
    none

/-- The indices of the `ret` instructions, in order. -/
def exits (body : Body) : List Nat :=
  (body.code.zipIdx.filter (·.1.isReturn)).map (·.2)

/-- A branch target that leads `n` instructions further, unless it would pass the largest 64-bit word. -/
def addTarget? (target : UInt64) (n : Nat) : Option UInt64 :=
  if target.toNat + n < UInt64.size then some (target + UInt64.ofNat n) else none

/-- The new place of a branch target, when `n` instructions are put in at index `pos`. -/
def moved? (pos n : Nat) (landing : Landing) (target : UInt64) : Option UInt64 :=
  if pos < target.toNat ∨ (target.toNat = pos ∧ landing = .displaced) then addTarget? target n else some target

/-- Put `seq` in before the instruction at `pos`, or at the end if `pos` lies behind it. The targets of branches
inside `seq` count from the start of `seq`. -/
def splice? (body : Body) (pos : Nat) (seq : List Instruction) (landing : Landing) : Option Body := do
  let pos := min pos body.code.length
  let code ← body.code.mapM (·.mapTarget? (moved? pos seq.length landing))
  let seq ← seq.mapM (·.mapTarget? (addTarget? · pos))
  pure { body with code := code.take pos ++ seq ++ code.drop pos }

/-- Put a sequence in before every `ret`, so that the jumps to a `ret` run it first. The copies are asked for from the
last `ret` to the first; `copies k` is the `k`-th of them. Gives the number of `ret` instructions as well. -/
def spliceAtExits? (body : Body) (copies : Nat → List Instruction) : Option (Body × Nat) := do
  let spliced ← body.exits.reverse.zipIdx.foldlM (fun body (pos, k) => body.splice? pos (copies k) .inserted) body
  pure (spliced, body.exits.length)

end Body

end AdviceWeaving
