import AdviceWeaving.Attribute
import AdviceWeaving.Body

/-!
# Modules

A module is a list of types with their fields, properties and methods. Types and methods carry an identifier that
stays with them while the module is edited, so that what is known about a method can be kept by its identifier. The
identifiers are given out in increasing order: `Module.pushType` and `Module.pushMethod` take the next ones, and
`Module.assignIds` starts again at zero, in declaration order.
-/

namespace AdviceWeaving

/-! ### Identifiers -/

/-- The identifier of a type. -/
structure TypeId where
  index : Nat
  deriving DecidableEq, Inhabited

/-- The identifier of a method, unique in its module and not only in its type. -/
structure MethodId where
  index : Nat
  deriving DecidableEq, Inhabited

/-- How an identifier is shown in a message. -/
def TypeId.text (id : TypeId) : String :=
  s!"TypeId({id.index})"

/-- How an identifier is shown in a message. -/
def MethodId.text (id : MethodId) : String :=
  s!"MethodId({id.index})"

/-- The next identifiers to give out. -/
structure IdSupply where
  nextType : Nat := 0
  nextMethod : Nat := 0
  deriving DecidableEq, Inhabited

/-- Give out the identifier of a type. -/
def IdSupply.takeType (ids : IdSupply) : TypeId × IdSupply :=
  (⟨ids.nextType⟩, { ids with nextType := ids.nextType + 1 })

/-- Give out the identifier of a method. -/
def IdSupply.takeMethod (ids : IdSupply) : MethodId × IdSupply :=
  (⟨ids.nextMethod⟩, { ids with nextMethod := ids.nextMethod + 1 })

/-! ### Members -/

/-- Who may use a member. -/
inductive Access
  | pub
  | priv
  deriving DecidableEq, Inhabited

/-- The spelling in module text. -/
def Access.text : Access → String
  | .pub => "public"
  | .priv => "private"

/-- A parameter of a method. -/
structure Param where
  name : String
  type : ValueType
  attributes : List Attribute := []
  deriving DecidableEq, Inhabited

/-- A field of a type. -/
structure Field where
  name : String
  type : ValueType
  access : Access := .priv
  isStatic : Bool := false
  attributes : List Attribute := []
  deriving DecidableEq, Inhabited

/-- A property of a type. -/
structure Property where
  name : String
  type : ValueType
  attributes : List Attribute := []
  deriving DecidableEq, Inhabited

/-- A method of a type. A method of an interface, or one that is only declared, has no body. -/
structure Method where
  id : MethodId := ⟨0⟩
  name : String
  access : Access := .priv
  isStatic : Bool := false
  params : List Param := []
  ret : ValueType
  attributes : List Attribute := []
  body : Option Body := none
  deriving DecidableEq, Inhabited

namespace Method

/-- The name of the constructors of instances. -/
def constructorName : String := ".ctor"

/-- The name of the initializer of a type. -/
def typeInitializerName : String := ".cctor"

/-- The method constructs an instance. -/
def isConstructor (m : Method) : Bool :=
  m.name = constructorName && !m.isStatic

/-- The signature under which instructions refer to a method of the type `declaring`. -/
def signature (m : Method) (declaring : String) : MethodSig where
  declaring := declaring
  name := m.name
  onInstance := !m.isStatic
  params := m.params.map (·.type)
  ret := m.ret

end Method

/-! ### Types -/

/-- The two kinds of types that a module declares. -/
inductive TypeKind
  | classType
  | interfaceType
  deriving DecidableEq, Inhabited

/-- The keyword in module text. -/
def TypeKind.text : TypeKind → String
  | .classType => "class"
  | .interfaceType => "interface"

/-- A type with its members. -/
structure TypeDecl where
  id : TypeId := ⟨0⟩
  name : String
  kind : TypeKind := .classType
  base : Option String := none
  attributes : List Attribute := []
  fields : List Field := []
  properties : List Property := []
  methods : List Method := []
  deriving DecidableEq, Inhabited

namespace TypeDecl

/-- The first method with the given name. -/
def method? (t : TypeDecl) (name : String) : Option Method :=
  t.methods.find? (·.name = name)

/-- The first field with the given name. -/
def field? (t : TypeDecl) (name : String) : Option Field :=
  t.fields.find? (·.name = name)

end TypeDecl

/-! ### Modules -/

/-- A module: what one weaving pass works on. -/
structure Module where
  name : String
  types : List TypeDecl := []
  ids : IdSupply := {}
  deriving DecidableEq, Inhabited

/-- Give the methods of one type their identifiers, in order. -/
def IdSupply.numberMethods (ids : IdSupply) : List Method → List Method × IdSupply
  | [] => ([], ids)
  | m :: ms =>
    let (id, ids) := ids.takeMethod
    let (ms, ids) := ids.numberMethods ms
    ({ m with id } :: ms, ids)

/-- Give a type and its methods their identifiers. -/
def IdSupply.numberType (ids : IdSupply) (t : TypeDecl) : TypeDecl × IdSupply :=
  let (id, ids) := ids.takeType
  let (methods, ids) := ids.numberMethods t.methods
  ({ t with id, methods }, ids)

/-- Give the types of a list their identifiers, in order. -/
def IdSupply.numberTypes (ids : IdSupply) : List TypeDecl → List TypeDecl × IdSupply
  | [] => ([], ids)
  | t :: ts =>
    let (t, ids) := ids.numberType t
    let (ts, ids) := ids.numberTypes ts
    (t :: ts, ids)

namespace Module

/-- Two modules with the same name and the same types; how many identifiers each has given out does not count. -/
def sameAs (a b : Module) : Bool :=
  a.name = b.name && a.types = b.types

/-- Append a type. It and its methods get the next identifiers. -/
def pushType (m : Module) (t : TypeDecl) : Module × TypeId :=
  let (t, ids) := m.ids.numberType t
  ({ m with types := m.types ++ [t], ids }, t.id)

/-- Number all types and methods in declaration order, from zero. -/
def assignIds (m : Module) : Module :=
  let (types, ids) := ({} : IdSupply).numberTypes m.types
  { m with types, ids }

/-- The module with the given name and types, numbered. -/
def ofTypes (name : String) (types : List TypeDecl) : Module :=
  assignIds { name, types }

/-- The type with the given identifier. -/
def type? (m : Module) (id : TypeId) : Option TypeDecl :=
  m.types.find? (·.id = id)

/-- The place of a type in the list of types. -/
def typeIndex? (m : Module) (id : TypeId) : Option Nat :=
  m.types.findIdx? (·.id = id)

/-- The first type with the given name. -/
def typeByName? (m : Module) (name : String) : Option TypeDecl :=
  m.types.find? (·.name = name)

/-- Change the type with the given identifier. -/
def updateType (m : Module) (id : TypeId) (f : TypeDecl → TypeDecl) : Module :=
  { m with types := m.types.modify (m.types.findIdx (·.id = id)) f }

/-- All methods in module order, each with its type. -/
def methods (m : Module) : List (TypeDecl × Method) :=
  m.types.flatMap fun t => t.methods.map (t, ·)

/-- The method with the given identifier, and its type. -/
def method? (m : Module) (id : MethodId) : Option (TypeDecl × Method) :=
  m.methods.find? (·.2.id = id)

/-- Change the method with the given identifier. -/
def updateMethod (m : Module) (id : MethodId) (f : Method → Method) : Module :=
  { m with
    types := m.types.modify (m.types.findIdx (·.methods.any (·.id = id))) fun t =>
      { t with methods := t.methods.modify (t.methods.findIdx (·.id = id)) f } }

/-- The body of the method with the given identifier. -/
def body? (m : Module) (id : MethodId) : Option Body :=
  (m.method? id).bind (·.2.body)

/-- Replace the body of the method with the given identifier. -/
def setBody (m : Module) (id : MethodId) (body : Body) : Module :=
  m.updateMethod id fun method => { method with body := some body }

/-- Append a method to a type of the module. It gets the next identifier; there is none if the type is gone. -/
def pushMethod (m : Module) (owner : TypeId) (method : Method) : Option (Module × MethodId) :=
  if (m.type? owner).isSome then
    let (id, ids) := m.ids.takeMethod
    let pushed := m.updateType owner fun t => { t with methods := t.methods ++ [{ method with id }] }
    some ({ pushed with ids }, id)
  else
    none

end Module

end AdviceWeaving
