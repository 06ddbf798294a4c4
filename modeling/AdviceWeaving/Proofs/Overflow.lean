import AdviceWeaving.Handle
import Mathlib.Data.List.Forall2

/-!
# Splices that do not overflow

A splice gives no body if a branch target would have to pass the largest 64-bit word.  In `Body.splice` and
`Body.spliceAtExits` the targets wrap around instead, so these always give a body: the one that `Body.splice?` and
`Body.spliceAtExits?` give, if they give any (`Body.splice?_eq_some_iff`).
-/

namespace AdviceWeaving

/-! ### Optional results over a list -/

private theorem mapM_eq_some_iff {α β : Type} {f : α → Option β} {xs : List α} {ys : List β} :
    xs.mapM f = some ys ↔ List.Forall₂ (fun x y => f x = some y) xs ys := by
  induction xs generalizing ys with
  | nil => cases ys <;> simp
  | cons x xs ih =>
    rw [List.mapM_cons]
    cases hx : f x with
    | none => cases ys <;> simp [hx]
    | some y =>
      cases hxs : xs.mapM f with
      | none => cases ys <;> simp [hx, ← ih, hxs]
      | some ys' => cases ys <;> simp [hx, ← ih, hxs]

/-- A function that gives `g x` for just those `x` that `P` holds of. -/
private theorem mapM_eq_some_map_iff {α β : Type} {f : α → Option β} {g : α → β} {P : α → Prop}
    (hf : ∀ x y, f x = some y ↔ P x ∧ y = g x) {xs : List α} {ys : List β} :
    xs.mapM f = some ys ↔ (∀ x ∈ xs, P x) ∧ ys = xs.map g := by
  simp only [mapM_eq_some_iff, hf]
  induction xs generalizing ys with
  | nil => simp
  | cons x xs ih => cases ys <;> simp [ih, and_assoc, and_left_comm]

/-! ### Targets that wrap around -/

theorem toNat_add_ofNat {target : UInt64} {n : Nat} (h : target.toNat + n < UInt64.size) :
    (target + UInt64.ofNat n).toNat = target.toNat + n := by
  rw [← UInt64.ofNat_toNat (x := target), ← UInt64.ofNat_add, UInt64.toNat_ofNat_of_lt' (by simpa using h)]
  simp

/-- The instruction with its branch target, if it has one, changed by `f`. -/
def Instruction.mapTarget (f : UInt64 → UInt64) : Instruction → Instruction
  | branch op target => branch op (f target)
  | i => i

private theorem Instruction.mapTarget?_eq_some_iff (i : Instruction) {f : UInt64 → Option UInt64} {g : UInt64 → UInt64}
    {P : UInt64 → Prop} (hf : ∀ target target', f target = some target' ↔ P target ∧ target' = g target)
    (i' : Instruction) :
    i.mapTarget? f = some i' ↔ (∀ target ∈ i.target?, P target) ∧ i' = i.mapTarget g := by
  cases i with
  | branch op target =>
    simp [mapTarget?, mapTarget, target?, Option.map_eq_some_iff, hf, eq_comm (a := i')]
  | _ => simp [mapTarget?, mapTarget, target?, eq_comm]

/-- Where a jump leads after `n` instructions have been put in at index `pos`. -/
def Landing.destination (landing : Landing) (pos n target : Nat) : Nat :=
  if pos < target ∨ (target = pos ∧ landing = .displaced) then target + n else target

namespace Body

/-- The new place of a branch target, when `n` instructions are put in at index `pos`. -/
def moved (pos n : Nat) (landing : Landing) (target : UInt64) : UInt64 :=
  if pos < target.toNat ∨ (target.toNat = pos ∧ landing = .displaced) then target + UInt64.ofNat n else target

/-- Put `seq` in before the instruction at `pos`, as `splice?` does. -/
def splice (body : Body) (pos : Nat) (seq : List Instruction) (landing : Landing) : Body :=
  let pos := min pos body.code.length
  let code := body.code.map (·.mapTarget (moved pos seq.length landing))
  let seq := seq.map (·.mapTarget (· + UInt64.ofNat pos))
  { body with code := code.take pos ++ seq ++ code.drop pos }

/-- Put a sequence in before every `ret`, as `spliceAtExits?` does. -/
def spliceAtExits (body : Body) (copies : Nat → List Instruction) : Body × Nat :=
  (body.exits.reverse.zipIdx.foldl (fun body (pos, k) => body.splice pos (copies k) .inserted) body,
    body.exits.length)

/-- No branch target passes the largest 64-bit word when it is moved. -/
structure SpliceFits (b : Body) (pos : Nat) (seq : List Instruction) (landing : Landing) : Prop where
  code : ∀ i ∈ b.code, ∀ target ∈ i.target?,
    landing.destination (min pos b.code.length) seq.length target.toNat < UInt64.size
  inserted : ∀ i ∈ seq, ∀ target ∈ i.target?, target.toNat + min pos b.code.length < UInt64.size

variable {b b' : Body} {pos : Nat} {seq : List Instruction} {landing : Landing}

private theorem addTarget?_eq_some_iff (n : Nat) (target target' : UInt64) :
    addTarget? target n = some target' ↔ target.toNat + n < UInt64.size ∧ target' = target + UInt64.ofNat n := by
  unfold addTarget?
  split
  · next h => simp [h, eq_comm]
  · next h => simp [h]

private theorem moved?_eq_some_iff (pos n : Nat) (landing : Landing) (target target' : UInt64) :
    moved? pos n landing target = some target' ↔
      landing.destination pos n target.toNat < UInt64.size ∧ target' = moved pos n landing target := by
  unfold moved? moved Landing.destination
  split
  · exact addTarget?_eq_some_iff n target target'
  · simp [target.toNat_lt, eq_comm]

/-- A splice gives a body just if it fits, and then the one that it gives if targets wrap around. -/
theorem splice?_eq_some_iff :
    b.splice? pos seq landing = some b' ↔ b.SpliceFits pos seq landing ∧ b' = b.splice pos seq landing := by
  have hcode (i i' : Instruction) := i.mapTarget?_eq_some_iff
    (moved?_eq_some_iff (min pos b.code.length) seq.length landing) i'
  have hseq (i i' : Instruction) := i.mapTarget?_eq_some_iff
    (addTarget?_eq_some_iff (min pos b.code.length)) i'
  simp only [splice?, bind, Option.bind_eq_some_iff, pure, mapM_eq_some_map_iff hcode, mapM_eq_some_map_iff hseq,
    Option.some.injEq]
  constructor
  · rintro ⟨_, ⟨hfits, rfl⟩, _, ⟨hinserted, rfl⟩, rfl⟩
    exact ⟨⟨hfits, hinserted⟩, rfl⟩
  · rintro ⟨⟨hfits, hinserted⟩, rfl⟩
    exact ⟨_, ⟨hfits, rfl⟩, _, ⟨hinserted, rfl⟩, rfl⟩

theorem splice?_eq_none_iff : b.splice? pos seq landing = none ↔ ¬ b.SpliceFits pos seq landing := by
  rw [← not_iff_not, not_not, ← Ne, Option.ne_none_iff_exists']
  simp [splice?_eq_some_iff]

end Body

/-! ### Constructors -/

/-- Put code in at the start of a constructor, as `Method.prologue?` does. -/
def Method.prologue (code : List Instruction) (m : Method) : Method :=
  if m.isConstructor then { m with body := m.body.map (·.splice 0 code .displaced) } else m

private theorem Method.prologue?_eq_some_iff {code : List Instruction} (x x' : Method) :
    x.prologue? code = some x' ↔
      (x.isConstructor → ∀ b ∈ x.body, b.SpliceFits 0 code .displaced) ∧ x' = x.prologue code := by
  unfold prologue? prologue
  cases hc : x.isConstructor with
  | false => simp [eq_comm]
  | true =>
    cases hb : x.body with
    | none =>
      have hsame : { x with body := none } = x := by rw [← hb]
      simp [hsame, eq_comm]
    | some b => simp [Option.map_eq_some_iff, Body.splice?_eq_some_iff, eq_comm (b := x')]

/-- The constructors of the type `t` can take the call of its hidden method. -/
def TypeDecl.TakesCall (t : TypeDecl) (initializer : MethodSig) : Prop :=
  ∀ x ∈ t.methods, x.isConstructor → ∀ b ∈ x.body, b.SpliceFits 0 (initializerCall initializer) .displaced

theorem TypeDecl.mapM_prologue?_eq_some_iff {t : TypeDecl} {initializer : MethodSig} {methods : List Method} :
    t.methods.mapM (·.prologue? (initializerCall initializer)) = some methods ↔
      t.TakesCall initializer ∧ methods = t.methods.map (·.prologue (initializerCall initializer)) :=
  mapM_eq_some_map_iff Method.prologue?_eq_some_iff

end AdviceWeaving
