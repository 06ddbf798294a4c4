import AdviceWeaving.Failure

/-!
# Walking a module

A walk shows a module to a list of visitors: first the module, then every type and its members, and each of these to
the visitors in turn. Types, and the members of one kind in a type, are shown from the last to the first. So a visitor
may remove what it is shown, or what stands behind it, and the walk misses nothing that stands before it.

The state of the walk is left open; `view` gives the module in it, as it is at the time.
-/

namespace AdviceWeaving

/-- What is done at the stations of a walk. -/
structure Visitor (σ : Type) where
  name : String
  /-- Before anything is edited. -/
  before : Step σ Unit := pure ()
  onModule : Step σ Unit := pure ()
  onType : TypeId → Step σ Unit := fun _ => pure ()
  onMethod : MethodId → Step σ Unit := fun _ => pure ()
  /-- At a field, given by its type and its place there. -/
  onField : TypeId → Nat → Step σ Unit := fun _ _ => pure ()
  /-- At a property, given by its type and its place there. -/
  onProperty : TypeId → Nat → Step σ Unit := fun _ _ => pure ()
  /-- After everything has been visited. -/
  complete : Step σ Unit := pure ()

/-- Do something for each number below `n`, from the greatest to zero. -/
def countdown {σ : Type} (visit : Nat → Step σ Unit) : Nat → Step σ Unit
  | 0 => pure ()
  | n + 1 => do
    visit n
    countdown visit n

namespace Walk

variable {σ : Type} (view : σ → Module)

/-- Let the visitors do something in turn, as long as what they are shown is in the module. -/
def inTurn (isPresent : Module → Bool) (visit : Visitor σ → Step σ Unit) : List (Visitor σ) → Step σ Unit
  | [] => pure ()
  | v :: vs => do
    if isPresent (view (← get)) then
      visit v
      inTurn isPresent visit vs

/-- The members of one kind of the type `t`; none if the type is gone. -/
def membersOf {α : Type} (members : TypeDecl → List α) (t : TypeId) (m : Module) : List α :=
  (m.type? t).elim [] members

/-- Show the methods of a type. -/
def visitMethods (visitors : List (Visitor σ)) (t : TypeId) : Step σ Unit := do
  let visit (index : Nat) : Step σ Unit := do
    match (membersOf (·.methods) t (view (← get)))[index]? with
    | none => pure ()
    | some method => inTurn view (fun m => (m.method? method.id).isSome) (·.onMethod method.id) visitors
  countdown visit (membersOf (·.methods) t (view (← get))).length

/-- Show the members of one kind that are known by their places. -/
def visitPlaces {α : Type} (visitors : List (Visitor σ)) (members : TypeDecl → List α)
    (visit : Visitor σ → Nat → Step σ Unit) (t : TypeId) : Step σ Unit := do
  let visitPlace (index : Nat) : Step σ Unit :=
    inTurn view (fun m => index < (membersOf members t m).length) (visit · index) visitors
  countdown visitPlace (membersOf members t (view (← get))).length

/-- Show a type, and then its methods, its fields and its properties. -/
def visitType (visitors : List (Visitor σ)) (t : TypeId) : Step σ Unit := do
  visitors.forM (·.onType t)
  visitMethods view visitors t
  visitPlaces view visitors (·.fields) (·.onField t) t
  visitPlaces view visitors (·.properties) (·.onProperty t) t

/-- Show all types. -/
def visitTypes (visitors : List (Visitor σ)) : Step σ Unit := do
  let visit (index : Nat) : Step σ Unit := do
    match (view (← get)).types[index]? with
    | none => pure ()
    | some t => visitType view visitors t.id
  countdown visit (view (← get)).types.length

end Walk

/-- Walk over the module in the state. -/
def walk {σ : Type} (view : σ → Module) (visitors : List (Visitor σ)) : Step σ Unit := do
  visitors.forM (·.before)
  visitors.forM (·.onModule)
  Walk.visitTypes view visitors
  visitors.forM (·.complete)

/-- Let a visitor work on a part of the state. -/
def Visitor.onPart {σ τ : Type} (part : τ → σ) (replace : σ → τ → τ) (v : Visitor σ) : Visitor τ where
  name := v.name
  before := v.before.onPart part replace
  onModule := v.onModule.onPart part replace
  onType t := (v.onType t).onPart part replace
  onMethod m := (v.onMethod m).onPart part replace
  onField t index := (v.onField t index).onPart part replace
  onProperty t index := (v.onProperty t index).onPart part replace
  complete := v.complete.onPart part replace

end AdviceWeaving
