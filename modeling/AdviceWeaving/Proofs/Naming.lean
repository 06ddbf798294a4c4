import AdviceWeaving.Module
import AdviceWeaving.Proofs.Lexing

/-!
# Modules that have a text

The names of a module that can be written in module text, and the branch targets that a label can stand for.  A
module is `TextWellFormed` if all its names are `isName` (those of methods and referenced members may be constructor
names instead), no named type is spelled like a built-in one, and every branch leads into its body.
-/

namespace AdviceWeaving

/-! ### Names -/

/-- The text names a method, or a member that an instruction refers to. -/
def isMemberName (name : String) : Bool :=
  isName name || name = Method.constructorName || name = Method.typeInitializerName

/-- The spellings of the built-in types. -/
def builtinNames : List String :=
  ["void", "bool", "int32", "int64", "string", "object"]

/-- A named type is not spelled like a built-in one. -/
def ValueType.WellNamed : ValueType → Prop
  | .named path => isName path ∧ path ∉ builtinNames
  | _ => True

def FieldSig.WellNamed (f : FieldSig) : Prop :=
  isName f.declaring ∧ isMemberName f.name ∧ f.type.WellNamed

def MethodSig.WellNamed (m : MethodSig) : Prop :=
  isName m.declaring ∧ isMemberName m.name ∧ (∀ p ∈ m.params, p.WellNamed) ∧ m.ret.WellNamed

def Instruction.WellNamed : Instruction → Prop
  | .field _ sig => sig.WellNamed
  | .call _ sig => sig.WellNamed
  | _ => True

def Argument.WellNamed : Argument → Prop
  | .member path => isName path
  | _ => True

def Attribute.WellNamed (a : Attribute) : Prop :=
  isName a.name ∧ ∀ x ∈ a.args, x.WellNamed

def Body.WellNamed (body : Body) : Prop :=
  (∀ t ∈ body.locals.toList, t.WellNamed) ∧ ∀ i ∈ body.code, i.WellNamed

def Param.WellNamed (p : Param) : Prop :=
  isName p.name ∧ p.type.WellNamed ∧ ∀ a ∈ p.attributes, a.WellNamed

def Field.WellNamed (f : Field) : Prop :=
  isName f.name ∧ f.type.WellNamed ∧ ∀ a ∈ f.attributes, a.WellNamed

def Property.WellNamed (p : Property) : Prop :=
  isName p.name ∧ p.type.WellNamed ∧ ∀ a ∈ p.attributes, a.WellNamed

def Method.WellNamed (m : Method) : Prop :=
  isMemberName m.name ∧ (∀ p ∈ m.params, p.WellNamed) ∧ m.ret.WellNamed ∧
    (∀ a ∈ m.attributes, a.WellNamed) ∧ ∀ body ∈ m.body, body.WellNamed

def TypeDecl.WellNamed (t : TypeDecl) : Prop :=
  isName t.name ∧ (∀ base ∈ t.base, isName base) ∧ (∀ a ∈ t.attributes, a.WellNamed) ∧
    (∀ f ∈ t.fields, f.WellNamed) ∧ (∀ p ∈ t.properties, p.WellNamed) ∧ ∀ m ∈ t.methods, m.WellNamed

def Module.WellNamed (m : Module) : Prop :=
  isName m.name ∧ ∀ t ∈ m.types, t.WellNamed

/-! ### Branch targets -/

/-- Every branch leads to an instruction of the body. -/
def Body.TargetsInRange (body : Body) : Prop :=
  ∀ i ∈ body.code, ∀ target ∈ i.target?, target.toNat < body.code.length

def Method.TargetsInRange (m : Method) : Prop :=
  ∀ body ∈ m.body, body.TargetsInRange

def TypeDecl.TargetsInRange (t : TypeDecl) : Prop :=
  ∀ m ∈ t.methods, m.TargetsInRange

def Module.TargetsInRange (m : Module) : Prop :=
  ∀ t ∈ m.types, t.TargetsInRange

/-- The module can be written as text and be read back. -/
def Module.TextWellFormed (m : Module) : Prop :=
  m.WellNamed ∧ m.TargetsInRange

/-! ### Deciding them -/

section

instance : DecidablePred ValueType.WellNamed
  | .named _ => inferInstanceAs (Decidable (_ ∧ _))
  | .void | .bool | .int32 | .int64 | .string | .object => .isTrue trivial

instance : DecidablePred FieldSig.WellNamed := fun _ => inferInstanceAs (Decidable (_ ∧ _))

instance : DecidablePred MethodSig.WellNamed := fun _ => inferInstanceAs (Decidable (_ ∧ _))

instance : DecidablePred Instruction.WellNamed
  | .field _ sig => inferInstanceAs (Decidable sig.WellNamed)
  | .call _ sig => inferInstanceAs (Decidable sig.WellNamed)
  | .simple _ | .ldcI4 _ | .ldcI8 _ | .ldstr _ | .slot _ _ | .branch _ _ => .isTrue trivial

instance : DecidablePred Argument.WellNamed
  | .member path => inferInstanceAs (Decidable (isName path))
  | .int _ | .string _ => .isTrue trivial

instance : DecidablePred Attribute.WellNamed := fun _ => inferInstanceAs (Decidable (_ ∧ _))

instance : DecidablePred Body.WellNamed := fun _ => inferInstanceAs (Decidable (_ ∧ _))

instance : DecidablePred Param.WellNamed := fun _ => inferInstanceAs (Decidable (_ ∧ _))

instance : DecidablePred Field.WellNamed := fun _ => inferInstanceAs (Decidable (_ ∧ _))

instance : DecidablePred Property.WellNamed := fun _ => inferInstanceAs (Decidable (_ ∧ _))

instance : DecidablePred Method.WellNamed := fun m =>
  inferInstanceAs (Decidable (isMemberName m.name ∧ _))

instance : DecidablePred TypeDecl.WellNamed := fun _ => inferInstanceAs (Decidable (_ ∧ _))

instance : DecidablePred Module.WellNamed := fun _ => inferInstanceAs (Decidable (_ ∧ _))

-- to decide this for all words, and not for the one target, would take too long
instance (length : Nat) (i : Instruction) : Decidable (∀ target ∈ i.target?, target.toNat < length) :=
  i.target?.decidableForallMem

instance : DecidablePred Body.TargetsInRange := fun body =>
  inferInstanceAs (Decidable (∀ i ∈ body.code, ∀ target ∈ i.target?, target.toNat < body.code.length))

instance : DecidablePred Method.TargetsInRange := fun m =>
  inferInstanceAs (Decidable (∀ body ∈ m.body, body.TargetsInRange))

instance : DecidablePred TypeDecl.TargetsInRange := fun t =>
  inferInstanceAs (Decidable (∀ m ∈ t.methods, m.TargetsInRange))

instance : DecidablePred Module.TargetsInRange := fun m =>
  inferInstanceAs (Decidable (∀ t ∈ m.types, t.TargetsInRange))

instance : DecidablePred Module.TextWellFormed := fun _ => inferInstanceAs (Decidable (_ ∧ _))

end

/-! ### Types and their names -/

private theorem ValueType.ofName_of_not_mem {path : String} (h : path ∉ builtinNames) :
    ofName path = .named path := by
  simp only [builtinNames, List.mem_cons, not_or] at h
  unfold ofName
  split <;> simp_all

/-- A type is given back by its spelling. -/
theorem ValueType.ofName_text {t : ValueType} (h : t.WellNamed) : ofName t.text = t := by
  cases t with
  | named path => exact ofName_of_not_mem h.2
  | _ => rfl

theorem ValueType.isName_text {t : ValueType} (h : t.WellNamed) : isName t.text := by
  cases t with
  | named path => exact h.1
  | _ => decide

theorem ValueType.wellNamed_ofName {path : String} (h : isName path) : (ofName path).WellNamed := by
  by_cases hbuiltin : path ∈ builtinNames
  · simp only [builtinNames, List.mem_cons, List.not_mem_nil, or_false] at hbuiltin
    obtain rfl | rfl | rfl | rfl | rfl | rfl := hbuiltin <;> trivial
  · rw [ofName_of_not_mem hbuiltin]
    exact ⟨h, hbuiltin⟩

end AdviceWeaving
