import AdviceWeaving.Proofs.RoundTrip

/-!
# Types that are spelled alike

A class may have the name of a built-in type, and then a value of the class has a type that is spelled like the
built-in one.  In the text of a module the two cannot be told apart: it is read as the built-in type.  So what is
read back from the text of a module is the module with its types respelled (`Module.respelled`).  A module that is
well-formed but for this can still be written as text (`Module.Spelled`) and be read back.
-/

namespace AdviceWeaving

/-! ### Respelling -/

/-- The type that the spelling of a type is read as. -/
def ValueType.respelled (t : ValueType) : ValueType :=
  ofName t.text

def FieldSig.respelled (f : FieldSig) : FieldSig :=
  { f with type := f.type.respelled }

def MethodSig.respelled (m : MethodSig) : MethodSig :=
  { m with params := m.params.map (·.respelled), ret := m.ret.respelled }

def Instruction.respelled : Instruction → Instruction
  | .field op sig => .field op sig.respelled
  | .call op sig => .call op sig.respelled
  | i => i

def Body.respelled (b : Body) : Body :=
  { b with locals := b.locals.map (·.respelled), code := b.code.map (·.respelled) }

def Param.respelled (p : Param) : Param :=
  { p with type := p.type.respelled }

def Field.respelled (f : Field) : Field :=
  { f with type := f.type.respelled }

def Property.respelled (p : Property) : Property :=
  { p with type := p.type.respelled }

def Method.respelled (x : Method) : Method :=
  { x with
    params := x.params.map (·.respelled)
    ret := x.ret.respelled
    body := x.body.map (·.respelled) }

def TypeDecl.respelled (t : TypeDecl) : TypeDecl :=
  { t with
    fields := t.fields.map (·.respelled)
    properties := t.properties.map (·.respelled)
    methods := t.methods.map (·.respelled) }

def Module.respelled (m : Module) : Module :=
  { m with types := m.types.map (·.respelled) }

/-! ### The text stays the same -/

private theorem ValueType.text_ofName (name : String) : (ofName name).text = name := by
  unfold ofName
  split <;> rfl

@[simp] theorem ValueType.text_respelled (t : ValueType) : t.respelled.text = t.text :=
  text_ofName t.text

@[simp] theorem FieldSig.text_respelled (f : FieldSig) : f.respelled.text = f.text := by
  simp [FieldSig.text, FieldSig.respelled]

@[simp] theorem MethodSig.text_respelled (m : MethodSig) : m.respelled.text = m.text := by
  simp [MethodSig.text, MethodSig.respelled, Function.comp_def]
  rfl

theorem Instruction.mnemonic_respelled (i : Instruction) : i.respelled.mnemonic = i.mnemonic := by
  cases i with
  | field op sig | call op sig => cases op <;> rfl
  | _ => rfl

@[simp] theorem Instruction.text_respelled (i : Instruction) : i.respelled.text = i.text := by
  rw [Instruction.text, Instruction.text, mnemonic_respelled]
  cases i <;> simp [Instruction.respelled, Instruction.operandText]

@[simp] theorem Body.lines_respelled (b : Body) (indent : String) :
    b.respelled.lines indent = b.lines indent := by
  have hcode : (b.code.map (·.respelled)).zipIdx.map
      (fun p => s!"{indent}{label p.2}: {p.1.text}") =
        b.code.zipIdx.map fun p => s!"{indent}{label p.2}: {p.1.text}" := by
    rw [List.zipIdx_map, List.map_map]
    simp [Function.comp_def]
  simp only [Body.lines, Body.respelled, hcode, Array.isEmpty, Array.size_map, Array.toList_map,
    List.map_map, Function.comp_def, ValueType.text_respelled]
  rfl

@[simp] theorem Param.text_respelled (p : Param) : p.respelled.text = p.text := by
  simp [Param.text, Param.respelled]

@[simp] theorem Field.lines_respelled (f : Field) : f.respelled.lines = f.lines := by
  simp [Field.lines, Field.respelled]

@[simp] theorem Property.lines_respelled (p : Property) : p.respelled.lines = p.lines := by
  simp [Property.lines, Property.respelled]

@[simp] theorem Method.lines_respelled (x : Method) : x.respelled.lines = x.lines := by
  have hheading : x.respelled.heading = x.heading := by
    simp [Method.heading, Method.respelled, Function.comp_def]
  have hattributes : x.respelled.attributes = x.attributes := rfl
  have hbody : x.respelled.body = x.body.map (·.respelled) := rfl
  rw [Method.lines, Method.lines, hheading, hattributes, hbody]
  cases x.body <;> simp

@[simp] theorem TypeDecl.lines_respelled (t : TypeDecl) : t.respelled.lines = t.lines := by
  simp [TypeDecl.lines, TypeDecl.heading, TypeDecl.respelled, List.flatMap_map]

theorem Module.text_respelled (m : Module) : m.respelled.text = m.text := by
  simp [Module.text, Module.lines, Module.respelled, List.flatMap_map]

/-! ### Identifiers have no text -/

@[simp] theorem TypeDecl.lines_withoutId (t : TypeDecl) : t.withoutId.lines = t.lines := by
  simp [TypeDecl.lines, TypeDecl.heading, TypeDecl.withoutId, List.flatMap_map, Method.lines,
    Method.heading, Method.withoutId]

theorem Module.text_assignIds (m : Module) : m.assignIds.text = m.text := by
  have hlines (ts : List TypeDecl) :
      ts.flatMap (fun t => "" :: t.lines) = (ts.map (·.withoutId)).flatMap fun t => "" :: t.lines := by
    simp [List.flatMap_map]
  have hname : m.assignIds.name = m.name := rfl
  rw [Module.text, Module.lines, hlines, withoutId_assignIds, ← hlines, hname]
  rfl

/-! ### Modules that have a text -/

theorem ValueType.wellNamed_respelled {t : ValueType} : t.respelled.WellNamed ↔ isName t.text := by
  refine ⟨fun h => ?_, wellNamed_ofName⟩
  have := isName_text h
  rwa [text_respelled] at this

/-- A type that is well-named stays so. -/
theorem ValueType.WellNamed.respelled {t : ValueType} (h : t.WellNamed) : t.respelled.WellNamed :=
  wellNamed_respelled.2 (isName_text h)

/-- The body can be written as text. -/
def Body.Spelled (b : Body) : Prop :=
  b.respelled.WellNamed ∧ b.TargetsInRange

def Method.Spelled (x : Method) : Prop :=
  x.respelled.WellNamed ∧ x.TargetsInRange

def TypeDecl.Spelled (t : TypeDecl) : Prop :=
  t.respelled.WellNamed ∧ t.TargetsInRange

/-- The module can be written as text. -/
def Module.Spelled (m : Module) : Prop :=
  isName m.name ∧ ∀ t ∈ m.types, t.Spelled

theorem Body.spelled_iff {b : Body} :
    b.Spelled ↔ (∀ t ∈ b.locals.toList, t.respelled.WellNamed) ∧ (∀ i ∈ b.code, i.respelled.WellNamed) ∧
      b.TargetsInRange := by
  simp [Spelled, WellNamed, respelled, and_assoc]

theorem Method.spelled_iff {x : Method} :
    x.Spelled ↔ isMemberName x.name ∧ (∀ p ∈ x.params, p.respelled.WellNamed) ∧
      x.ret.respelled.WellNamed ∧ (∀ a ∈ x.attributes, a.WellNamed) ∧ ∀ b ∈ x.body, b.Spelled := by
  simp [Spelled, WellNamed, respelled, and_assoc, Body.Spelled, TargetsInRange, forall_and]

theorem TypeDecl.spelled_iff {t : TypeDecl} :
    t.Spelled ↔ isName t.name ∧ (∀ base ∈ t.base, isName base) ∧ (∀ a ∈ t.attributes, a.WellNamed) ∧
      (∀ f ∈ t.fields, f.respelled.WellNamed) ∧ (∀ p ∈ t.properties, p.respelled.WellNamed) ∧
      ∀ x ∈ t.methods, x.Spelled := by
  simp [Spelled, WellNamed, respelled, and_assoc, Method.Spelled, TargetsInRange, forall_and]

/-! ### Well-named parts stay so -/

theorem FieldSig.WellNamed.respelled {f : FieldSig} (h : f.WellNamed) : f.respelled.WellNamed :=
  h.imp_right (And.imp_right ValueType.WellNamed.respelled)

theorem MethodSig.WellNamed.respelled {m : MethodSig} (h : m.WellNamed) : m.respelled.WellNamed := by
  obtain ⟨hdeclaring, hname, hparams, hret⟩ := h
  exact ⟨hdeclaring, hname, List.forall_mem_map.2 fun p hp => (hparams p hp).respelled, hret.respelled⟩

theorem Instruction.WellNamed.respelled {i : Instruction} (h : i.WellNamed) :
    i.respelled.WellNamed := by
  cases i with
  | field op sig => exact FieldSig.WellNamed.respelled h
  | call op sig => exact MethodSig.WellNamed.respelled h
  | _ => trivial

private theorem Method.WellNamed.spelled {x : Method} (h : x.WellNamed) (hrange : x.TargetsInRange) :
    x.Spelled := by
  obtain ⟨hname, hparams, hret, hattributes, hbody⟩ := h
  refine spelled_iff.2 ⟨hname, fun p hp => ?_, hret.respelled, hattributes, fun b hb => ?_⟩
  · obtain ⟨hname, htype, hattributes⟩ := hparams p hp
    exact ⟨hname, htype.respelled, hattributes⟩
  · obtain ⟨hlocals, hcode⟩ := hbody b hb
    exact Body.spelled_iff.2 ⟨fun t ht => (hlocals t ht).respelled, fun i hi => (hcode i hi).respelled,
      hrange b hb⟩

/-- A module that can be written and be read as itself can be written. -/
theorem Module.TextWellFormed.spelled {m : Module} (h : m.TextWellFormed) : m.Spelled := by
  obtain ⟨⟨hname, htypes⟩, hrange⟩ := h
  refine ⟨hname, fun t ht => ?_⟩
  obtain ⟨hname, hbase, hattributes, hfields, hproperties, hmethods⟩ := htypes t ht
  refine TypeDecl.spelled_iff.2 ⟨hname, hbase, hattributes, fun f hf => ?_, fun p hp => ?_,
    fun x hx => (hmethods x hx).spelled (hrange t ht x hx)⟩
  · obtain ⟨hname, htype, hattributes⟩ := hfields f hf
    exact ⟨hname, htype.respelled, hattributes⟩
  · obtain ⟨hname, htype, hattributes⟩ := hproperties p hp
    exact ⟨hname, htype.respelled, hattributes⟩

/-! ### Writing and reading -/

private theorem Module.Spelled.textWellFormed {m : Module} (h : m.Spelled) : m.respelled.TextWellFormed := by
  have hlength (b : Body) : b.respelled.TargetsInRange ↔ b.TargetsInRange := by
    have htarget (i : Instruction) : i.respelled.target? = i.target? := by cases i <;> rfl
    simp [Body.TargetsInRange, Body.respelled, htarget]
  refine ⟨⟨h.1, List.forall_mem_map.2 fun t ht => (h.2 t ht).1⟩, List.forall_mem_map.2 fun t ht => ?_⟩
  refine List.forall_mem_map.2 fun x hx b' hb' => ?_
  obtain ⟨b, hb, rfl⟩ := Option.map_eq_some_iff.1 hb'
  exact (hlength b).2 ((h.2 t ht).2 x hx b hb)

/-- A module that can be written is read back with its types respelled and numbered anew. -/
theorem Module.Spelled.parse_eq {m : Module} (h : m.Spelled) :
    parse m.text = ⟨some m.respelled.assignIds, []⟩ := by
  rw [← m.text_respelled]
  exact parse_text_of_textWellFormed h.textWellFormed

end AdviceWeaving
