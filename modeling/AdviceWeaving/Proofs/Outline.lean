import AdviceWeaving.Weave
import AdviceWeaving.Proofs.Wrapping
import AdviceWeaving.Proofs.Numbering

/-!
# The outline of a pass

What a pass decides does not depend on the code that it has put in so far.  The outline of a pass is
what is left of it when no code is put in: it reads and removes the markers, finds the targets and
checks the rules as the pass does, adds the hidden members, and notes which marker types are woven
into which targets (`Outline.admissions`), in the order in which they are visited.  From these
admissions, `Outline.wrapping` tells the code around every body at one stroke.
-/

namespace AdviceWeaving

/-! ### Admissions -/

/-- A marker type that is woven: it has targets, and its advice keeps the rules on all of them. -/
structure Admission where
  marker : MarkerType
  targets : List Target
  /-- The field from which the instance is loaded, if some advice is called on an instance. -/
  handle? : Option FieldSig := none
  /-- The hidden method of the marker type is made for it, and was not there before. -/
  initializes : Bool := false
  deriving DecidableEq, Inhabited

/-- What a pass has decided: the module without the code that it has put in, and the marker types
that it has woven, in order. -/
structure Outline where
  module : Module
  admissions : List Admission := []
  deriving DecidableEq, Inhabited

/-- A method as a target. -/
def Method.target (x : Method) (owner : TypeDecl) : Target where
  id := x.id
  owner := owner.name
  name := x.name
  isStatic := x.isStatic
  ret := x.ret

/-- The targets of a marker type are the methods that have a body and carry its name. -/
theorem Module.mem_targets_iff {m : Module} {marker : String} {target : Target} :
    target ∈ m.targets marker ↔ ∃ t x, (t, x) ∈ m.methods ∧ x.target t = target ∧
      (∃ a ∈ x.attributes, a.name = marker) ∧ ∃ b, x.body = some b := by
  simp only [targets, carriers, List.mem_map, List.mem_filter, Prod.exists, hasAttribute, List.any_eq_true,
    decide_eq_true_eq, Option.isSome_iff_exists]
  constructor
  · rintro ⟨t, x, ⟨⟨hx, hcarries⟩, hbody⟩, rfl⟩
    exact ⟨t, x, hx, rfl, hcarries, hbody⟩
  · rintro ⟨t, x, hx, rfl, hcarries, hbody⟩
    exact ⟨t, x, ⟨⟨hx, hcarries⟩, hbody⟩, rfl⟩

/-- The target constructs an instance. -/
def Target.isConstructor (t : Target) : Bool :=
  t.name = Method.constructorName && !t.isStatic

/-- What a pass leaves as it is in a method, the code that it puts in apart. -/
structure Profile where
  owner : TypeId
  target : Target
  args : Nat
  body : Option Body
  deriving DecidableEq, Inhabited

/-- The profile of a method. -/
def Method.profile (x : Method) (owner : TypeDecl) : Profile :=
  ⟨owner.id, x.target owner, x.argCount, x.body⟩

/-- The signature of the hidden method. -/
def initializerSig (owner : String) : MethodSig :=
  ⟨owner, initializerName, true, [], .void⟩

/-- Add the field of a handle to the type `t`, unless it has one. -/
def Module.addHandleField (m : Module) (storage : HandleStorage) (t : TypeDecl) : Module :=
  if (t.field? handleFieldName).isNone then
    m.updateType t.id fun t' => { t' with fields := t'.fields ++ [handleField storage t] }
  else
    m

/-- Add the hidden method to the type `t`, unless it has one. -/
def Module.addInitializer (m : Module) (storage : HandleStorage) (t : TypeDecl) : Module :=
  if (t.method? initializerName).isNone then
    ((m.pushMethod t.id (initializerMethod storage (t.handle storage))).map (·.1)).getD m
  else
    m

namespace Outline

variable (settings : Settings) (o : Outline)

/-! ### Visiting types -/

/-- Note a marker type, if it is woven, and add its hidden members. -/
def enlist (m : MarkerType) : Outline :=
  let targets := o.module.targets m.name
  if targets.isEmpty ∨ (m.firstViolation? targets).isSome then
    o
  else if m.advice.any (!·.isStatic) then
    match o.module.type? m.owner with
    | none => o
    | some t =>
      { module := (o.module.addHandleField settings.handleStorage t).addInitializer
          settings.handleStorage t
        admissions := o.admissions ++ [{ marker := m, targets
                                         handle? := some (t.handle settings.handleStorage)
                                         initializes := (t.method? initializerName).isNone }] }
  else
    { o with admissions := o.admissions ++ [{ marker := m, targets }] }

variable {settings o} {m : MarkerType}

theorem enlist_of_rejected
    (h : (o.module.targets m.name).isEmpty ∨ (m.firstViolation? (o.module.targets m.name)).isSome) :
    o.enlist settings m = o := by
  simp only [enlist]
  rw [if_pos h]

theorem enlist_of_static
    (h : ¬ ((o.module.targets m.name).isEmpty ∨
      (m.firstViolation? (o.module.targets m.name)).isSome))
    (hstatic : m.advice.any (!·.isStatic) = false) :
    o.enlist settings m =
      { o with admissions :=
          o.admissions ++ [{ marker := m, targets := o.module.targets m.name }] } := by
  simp only [enlist]
  rw [if_neg h, if_neg (by simp [hstatic])]

theorem enlist_of_missing
    (h : ¬ ((o.module.targets m.name).isEmpty ∨
      (m.firstViolation? (o.module.targets m.name)).isSome))
    (hinstance : m.advice.any (!·.isStatic) = true) (ht : o.module.type? m.owner = none) :
    o.enlist settings m = o := by
  simp only [enlist]
  rw [if_neg h, if_pos hinstance, ht]

theorem enlist_of_instance
    (h : ¬ ((o.module.targets m.name).isEmpty ∨
      (m.firstViolation? (o.module.targets m.name)).isSome))
    (hinstance : m.advice.any (!·.isStatic) = true) {t : TypeDecl}
    (ht : o.module.type? m.owner = some t) :
    o.enlist settings m =
      { module := (o.module.addHandleField settings.handleStorage t).addInitializer
          settings.handleStorage t
        admissions := o.admissions ++ [{ marker := m, targets := o.module.targets m.name
                                         handle? := some (t.handle settings.handleStorage)
                                         initializes :=
                                           (t.method? initializerName).isNone }] } := by
  simp only [enlist]
  rw [if_neg h, if_pos hinstance, ht]

variable (settings o)

/-- Read the markers of a type, and note it if it is a marker type. -/
def weaveType (id : TypeId) : Outline :=
  match o.module.type? id with
  | none => o
  | some t =>
    let scanned := t.scan settings.markers
    let o := { o with module := o.module.updateType id fun _ => scanned.rest }
    match scanned.declared with
    | .ok (some m) => o.enlist settings m
    | _ => o

/-- Remove the stray markers from the methods of a type. -/
def sweepType (id : TypeId) : Outline :=
  { o with module := o.module.mapMethods fun t x =>
      if t.id = id then Weaving.swept settings.markers x else x }

/-- What the visitors that the settings name do at a type. -/
def visitType (id : TypeId) : Outline :=
  let o := if injectionWeaverName ∈ settings.components then o.weaveType settings id else o
  if orphanSweepName ∈ settings.components then o.sweepType settings id else o

/-! ### The code around a body -/

/-- What is woven into a target, in order: the advice of each marker type that is woven into it. -/
def adviceFor (t : Target) : List (Admission × Advice) :=
  (o.admissions.filter (t ∈ ·.targets)).flatMap fun a => a.marker.advice.map (a, ·)

/-- The hidden method of a type is made in the pass. -/
def initializes (id : TypeId) : Bool :=
  o.admissions.any fun a => a.marker.owner = id && a.initializes

end Outline

/-- Load the instance on which the advice of a marker type is called, if some advice is called on
one. -/
def Admission.receiver (storage : HandleStorage) (a : Admission) (t : Target) : List Instruction :=
  a.handle?.elim [] fun field => loadHandle storage field t

/-- The code of entry advice in a target. -/
def Admission.entryCode (storage : HandleStorage) (t : Target) (p : Admission × Advice) :
    List Instruction :=
  p.2.entryCode (p.1.receiver storage t) t

/-- The code of exit advice in a target whose return value waits in the local `slot`. -/
def Admission.exitCode (storage : HandleStorage) (t : Target) (slot : UInt16)
    (p : Admission × Advice) : List Instruction :=
  p.2.exitCode (p.1.receiver storage t) t (if p.2.binds .targetReturnValue then some slot else none)

/-- The advice runs on exit and gets the return value. -/
def Advice.takesResult (a : Advice) : Bool :=
  a.timing = .onExit && a.binds .targetReturnValue

namespace Outline

variable (storage : HandleStorage) (o : Outline)

/-- What a method runs before all advice: a constructor calls the hidden method of its type, if that
is new. -/
def prologue (p : Profile) : List Instruction :=
  if p.target.isConstructor && o.initializes p.owner then
    initializerCall (initializerSig p.target.owner)
  else []

/-- The code around the body of a method, if the body has `locals` locals. -/
def wrapping (p : Profile) (locals : Nat) : Wrapping :=
  let advice := o.adviceFor p.target
  { entry := o.prologue p ++
      (advice.filter (·.2.timing = .onEntry)).flatMap (Admission.entryCode storage p.target)
    exit := (advice.filter (·.2.timing = .onExit)).flatMap
      (Admission.exitCode storage p.target (UInt16.ofNat locals))
    slot? := if advice.any (·.2.takesResult) then some p.target.ret else none }

end Outline

/-- A body in a wrapping. -/
def Wrapping.body (w : Wrapping) (b : Body) : Body where
  locals := b.locals ++ w.slot?.toArray
  initLocals := b.initLocals || w.slot?.isSome
  code := w.code b.code

/-- The outline of a pass that has come from the last type to the one at the place `n`. -/
def Module.outlineFrom (m : Module) (settings : Settings) (n : Nat) : Outline :=
  ((m.types.map (·.id)).drop n).foldr (fun id o => o.visitType settings id) { module := m }

/-- The outline of a pass: the types are visited from the last to the first. -/
def Module.outline (m : Module) (settings : Settings) : Outline :=
  (m.types.map (·.id)).foldr (fun id o => o.visitType settings id) { module := m }

/-- No type has been visited when a pass begins. -/
theorem Module.outlineFrom_length (m : Module) (settings : Settings) :
    m.outlineFrom settings m.types.length = { module := m } := by
  rw [outlineFrom, ← List.length_map (·.id), List.drop_length]
  rfl

/-- The type at the place `n` is visited after those behind it. -/
theorem Module.outlineFrom_of_lt (m : Module) (settings : Settings) {n : Nat} (hn : n < m.types.length) :
    m.outlineFrom settings n = (m.outlineFrom settings (n + 1)).visitType settings m.types[n].id := by
  rw [outlineFrom, outlineFrom, List.drop_eq_getElem_cons (by rwa [List.length_map]), List.foldr_cons,
    List.getElem_map]

end AdviceWeaving
