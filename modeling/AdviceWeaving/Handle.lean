import AdviceWeaving.Pass

/-!
# Hidden members

Advice that is no static method is called on an instance of its marker type. The instance is kept in a field of that
type, which every constructor fills through a hidden method; together they are the handle of the type. Advice that gets
the return value of its target needs a local there. Both are made when they are first asked for and then used again.
-/

namespace AdviceWeaving

/-- The name of the field. -/
def handleFieldName : String := "instance_field"

/-- The name of the hidden method. -/
def initializerName : String := "hidden_instance"

/-- The attribute that keeps debuggers out of the hidden method. -/
def debuggerHiddenName : String := "System.Diagnostics.DebuggerHiddenAttribute"

/-! ### The members -/

/-- The field as a member of the type `t`. -/
def handleField (storage : HandleStorage) (t : TypeDecl) : Field where
  name := handleFieldName
  type := .named t.name
  access := .pub
  isStatic := storage = .shared

/-- A field as instructions refer to it. -/
def Field.signature (f : Field) (declaring : String) : FieldSig :=
  ⟨declaring, f.name, f.type⟩

/-- Assign the receiver to the field, unless the field has a value. -/
def initializerCode (storage : HandleStorage) (field : FieldSig) : List Instruction :=
  match storage with
  | .perInstance =>
    [.slot .ldarg 0, .field .ldfld field, .branch .brtrue 6, .slot .ldarg 0, .slot .ldarg 0, .field .stfld field,
      .simple .ret]
  | .shared =>
    [.field .ldsfld field, .branch .brtrue 4, .slot .ldarg 0, .field .stsfld field, .simple .ret]

/-- The hidden method as a member of its type. -/
def initializerMethod (storage : HandleStorage) (field : FieldSig) : Method where
  name := initializerName
  ret := .void
  attributes := [{ name := debuggerHiddenName }]
  body := some (.ofCode (initializerCode storage field))

/-- What a constructor runs first. -/
def initializerCall (initializer : MethodSig) : List Instruction :=
  [.slot .ldarg 0, .call .call initializer]

/-- A constructor that has a body. -/
def Method.constructs (m : Method) : Bool :=
  m.isConstructor && m.body.isSome

/-- Put code in at the start of a constructor; leave other methods as they are. -/
def Method.prologue? (code : List Instruction) (m : Method) : Option Method :=
  match m.isConstructor, m.body with
  | true, some body => (body.splice? 0 code .displaced).map fun body => { m with body := some body }
  | _, _ => some m

/-! ### Making them -/

/-- What instructions refer to as the field of the type `t`: the first of its name, or the one that is made. -/
def TypeDecl.handle (storage : HandleStorage) (t : TypeDecl) : FieldSig :=
  ((t.field? handleFieldName).getD (handleField storage t)).signature t.name

namespace Weaving

/-- Let every constructor of the type `t` run the hidden method first. What is put in on entry later comes behind. -/
def callInitializer (t : TypeDecl) (initializer : MethodSig) : Weaving Unit := do
  let code := initializerCall initializer
  let methods ← expect .overflow (t.methods.mapM (·.prologue? code))
  updateModule (·.updateType t.id fun t => { t with methods })
  updatePass fun p => ((t.methods.filter (·.constructs)).map (·.id)).foldl (·.advance code.length) p

/-- The hidden method of the type `t`: the first of its name, or a new one behind the others. -/
def initializerOf (t : TypeDecl) (field : FieldSig) : Weaving MethodSig := do
  match t.method? initializerName with
  | some method => pure (method.signature t.name)
  | none =>
    let method := initializerMethod (← get).pass.settings.handleStorage field
    callInitializer t (method.signature t.name)
    let (module, _) ← expect (.unknownType t.id) ((← get).module.pushMethod t.id method)
    updateModule fun _ => module
    pure (method.signature t.name)

/-- Give the type `t` the field behind its others, unless it has one of this name. -/
def makeHandleField (t : TypeDecl) : Weaving Unit := do
  if (t.field? handleFieldName).isNone then
    let field := handleField (← get).pass.settings.handleStorage t
    updateModule (·.updateType t.id fun t => { t with fields := t.fields ++ [field] })

/-- The handle of a marker type. The constructors come first: if one of them cannot take the call, nothing is made. -/
def handleOf (id : TypeId) : Weaving Handle := do
  match (← get).pass.handle? id with
  | some handle => pure handle
  | none =>
    let t ← expect (.unknownType id) ((← get).module.type? id)
    let field := t.handle (← get).pass.settings.handleStorage
    let initializer ← initializerOf t field
    makeHandleField t
    let handle : Handle := ⟨field, initializer⟩
    updatePass fun p => { p with handles := (id, handle) :: p.handles }
    pure handle

/-- The local of a method that holds its return value, which is of the given type. -/
def slotOf (id : MethodId) (type : ValueType) : Weaving UInt16 := do
  match (← get).pass.slot? id with
  | some slot => pure slot
  | none =>
    let body ← expect (.unknownMethod id) ((← get).module.body? id)
    let (slot, body) ← expect (.localsExhausted id) (body.addLocal type)
    updateModule (·.setBody id { body with initLocals := true })
    updatePass fun p => { p with slots := (id, slot) :: p.slots }
    pure slot

end Weaving

end AdviceWeaving
