import AdviceWeaving.Text.Grammar
import AdviceWeaving.Proofs.Spelling

/-!
# The grammar of module text

The grammar by itself, apart from the rules that read it.  A tree is a derivation: one type of trees for each kind of
phrase, one constructor for each way to build the phrase, one field for each choice in it.  `tokens` gives the tokens
that a tree derives, and `value` what they stand for.  Only bodies may have no value: their labels may not resolve, or
their integers may not fit.
-/

namespace AdviceWeaving

/-! ### References -/

/-- `name = path | '.ctor' | '.cctor'` -/
inductive NameTree
  | path (name : String)
  | ctor (name : CtorName)

/-- `field = path '::' name ':' path` -/
structure FieldTree where
  declaring : String
  name : NameTree
  type : String

/-- `method = ['instance'] path '::' name '(' [path {',' path}] ')' '->' path` -/
structure MethodTree where
  onInstance : Bool
  declaring : String
  name : NameTree
  params : List String
  ret : String

namespace NameTree

def token : NameTree → Token
  | path name => .path name
  | ctor name => .ctor name

def value : NameTree → String
  | path name => name
  | ctor name => name.text

end NameTree

namespace FieldTree

def tokens (d : FieldTree) : List Token :=
  [.path d.declaring, .mark .doubleColon, d.name.token, .mark .colon, .path d.type]

def value (d : FieldTree) : FieldSig :=
  ⟨d.declaring, d.name.value, .ofName d.type⟩

end FieldTree

/-- The tokens of a list of types in parentheses. -/
def typeListTokens (types : List String) : List Token :=
  parenTokens (types.map ([.path ·]))

namespace MethodTree

def tokens (d : MethodTree) : List Token :=
  (if d.onInstance then [.keyword .onInstance] else []) ++
    .path d.declaring :: .mark .doubleColon :: d.name.token :: (typeListTokens d.params ++
      [.mark .arrow, .path d.ret])

def value (d : MethodTree) : MethodSig :=
  ⟨d.declaring, d.name.value, d.onInstance, d.params.map .ofName, .ofName d.ret⟩

end MethodTree

/-! ### Attributes -/

/-- `attr = '[' path ['(' [arg {',' arg}] ')'] ']'`, where `arg = int | string | path` -/
structure AttributeTree where
  name : String
  args : Option (List Argument)

namespace AttributeTree

def tokens (d : AttributeTree) : List Token :=
  .mark .openBracket :: .path d.name :: (d.args.elim [] (fun args => parenTokens (args.map ([·.token]))) ++
    [.mark .closeBracket])

def value (d : AttributeTree) : Attribute :=
  ⟨d.name, d.args.getD []⟩

end AttributeTree

/-! ### Lines of a body -/

/-- The operand of a mnemonic, which tells the kind of it. -/
inductive OperandTree : OperandKind → Type
  | none : OperandTree .none
  | int32 (value : Int64) : OperandTree .int32
  | int64 (value : Int64) : OperandTree .int64
  | index (value : Int64) : OperandTree .index
  | string (value : String) : OperandTree .string
  | field (sig : FieldTree) : OperandTree .field
  | method (sig : MethodTree) : OperandTree .method
  | label (name : String) : OperandTree .label

def OperandTree.tokens : {kind : OperandKind} → OperandTree kind → List Token
  | _, none => []
  | _, int32 value | _, int64 value | _, index value => [.int value]
  | _, string value => [.string value]
  | _, field sig => sig.tokens
  | _, method sig => sig.tokens
  | _, label name => [.path name]

def OperandTree.value : {kind : OperandKind} → OperandTree kind → WrittenOperand
  | _, none => .complete .absent
  | _, int32 value | _, int64 value | _, index value => .complete (.int value)
  | _, string value => .complete (.string value)
  | _, field sig => .complete (.field sig.value)
  | _, method sig => .complete (.method sig.value)
  | _, label name => .line name

/-- `line = [path ':'] mnemonic operand` -/
structure LineTree where
  label : Option String
  mnemonic : String
  kind : OperandKind
  kind_eq : operandKind? mnemonic = some kind
  operand : OperandTree kind

namespace LineTree

def tokens (d : LineTree) : List Token :=
  d.label.elim [] ([.path ·, .mark .colon]) ++ .path d.mnemonic :: d.operand.tokens

def value (d : LineTree) : Line :=
  ⟨d.label, d.mnemonic, d.operand.value⟩

end LineTree

/-- `body = '{' ['.locals' '(' [path {',' path}] ')'] ['.initlocals'] line* '}'` -/
structure BodyTree where
  locals : Option (List String)
  initLocals : Bool
  lines : List LineTree

namespace BodyTree

/-- The tokens of the lines, and the closing brace. -/
def linesTokens (lines : List LineTree) : List Token :=
  lines.flatMap (·.tokens) ++ [.mark .closeBrace]

/-- The tokens behind the opening brace. -/
def rest (d : BodyTree) : List Token :=
  d.locals.elim [] (fun types => .directive .locals :: typeListTokens types) ++
    ((if d.initLocals then [.directive .initLocals] else []) ++ linesTokens d.lines)

def tokens (d : BodyTree) : List Token :=
  .mark .openBrace :: d.rest

def value (d : BodyTree) : Option Body :=
  (resolve (d.lines.map (·.value))).toOption.map fun code =>
    { locals := ((d.locals.getD []).map .ofName).toArray, initLocals := d.initLocals, code }

end BodyTree

/-! ### Members -/

/-- `param = attr* path ':' path` -/
structure ParamTree where
  attributes : List AttributeTree
  name : String
  type : String

/-- What is declared in a member:
`[access] ['static'] 'field' path ':' path`, where `access = 'public' | 'private'`,
`'property' path ':' path`, or
`[access] ['static'] 'method' name '(' [param {',' param}] ')' '->' path (';' | body)` -/
inductive DeclarationTree
  | field (access : Option Access) (isStatic : Bool) (name type : String)
  | property (name type : String)
  | method (access : Option Access) (isStatic : Bool) (name : NameTree) (params : List ParamTree) (ret : String)
      (body : Option BodyTree)

/-- A declaration behind its attributes: `member = attr* declaration` -/
structure MemberTree where
  attributes : List AttributeTree
  declaration : DeclarationTree

/-- The tokens of a name and a type with a colon between them. -/
def namedTokens (name type : String) : List Token :=
  [.path name, .mark .colon, .path type]

namespace ParamTree

def tokens (d : ParamTree) : List Token :=
  d.attributes.flatMap (·.tokens) ++ namedTokens d.name d.type

def value (d : ParamTree) : Param :=
  { name := d.name, type := .ofName d.type, attributes := d.attributes.map (·.value) }

end ParamTree

namespace DeclarationTree

/-- The tokens of the modifiers of a field or a method. -/
def modifiers (access : Option Access) (isStatic : Bool) : List Token :=
  access.elim [] ([.keyword ·.keyword]) ++ if isStatic then [.keyword .static] else []

/-- The tokens of a method behind its keyword. -/
def methodTokens (name : NameTree) (params : List ParamTree) (ret : String) (body : Option BodyTree) : List Token :=
  name.token :: (parenTokens (params.map (·.tokens)) ++ .mark .arrow :: .path ret ::
    body.elim [.mark .semicolon] (·.tokens))

def tokens : DeclarationTree → List Token
  | field access isStatic name type => modifiers access isStatic ++ .keyword .field :: namedTokens name type
  | property name type => .keyword .property :: namedTokens name type
  | method access isStatic name params ret body =>
    modifiers access isStatic ++ .keyword .method :: methodTokens name params ret body

/-- The body of a method that may have none. -/
def bodyValue : Option BodyTree → Option (Option Body)
  | none => some none
  | some body => body.value.map some

def value (attributes : List Attribute) : DeclarationTree → Option Rule.Member
  | field access isStatic name type =>
    some (.field { name, type := .ofName type, access := access.getD .priv, isStatic, attributes })
  | property name type => some (.property { name, type := .ofName type, attributes })
  | method access isStatic name params ret body =>
    (bodyValue body).map fun body => .method
      { name := name.value, access := access.getD .priv, isStatic, params := params.map (·.value)
        ret := .ofName ret, attributes, body }

end DeclarationTree

namespace MemberTree

def tokens (d : MemberTree) : List Token :=
  d.attributes.flatMap (·.tokens) ++ d.declaration.tokens

def value (d : MemberTree) : Option Rule.Member :=
  d.declaration.value (d.attributes.map (·.value))

end MemberTree

/-! ### Types and modules -/

/-- `type = attr* ('class' | 'interface') path ['extends' path] '{' member* '}'` -/
structure TypeTree where
  attributes : List AttributeTree
  kind : TypeKind
  name : String
  base : Option String
  members : List MemberTree

/-- `module = 'module' path type*` -/
structure ModuleTree where
  name : String
  types : List TypeTree

namespace TypeTree

/-- The tokens of the members, and the closing brace. -/
def membersTokens (members : List MemberTree) : List Token :=
  members.flatMap (·.tokens) ++ [.mark .closeBrace]

/-- The tokens behind the keyword that tells the kind of the type. -/
def rest (d : TypeTree) : List Token :=
  .path d.name :: (d.base.elim [] ([.keyword .inherits, .path ·]) ++ .mark .openBrace :: membersTokens d.members)

def tokens (d : TypeTree) : List Token :=
  d.attributes.flatMap (·.tokens) ++ .keyword d.kind.keyword :: d.rest

def value (d : TypeTree) : Option TypeDecl :=
  (d.members.mapM MemberTree.value).map (Rule.typeOf d.name d.kind d.base (d.attributes.map (·.value)))

end TypeTree

namespace ModuleTree

def tokens (d : ModuleTree) : List Token :=
  .keyword .module :: .path d.name :: d.types.flatMap (·.tokens)

def value (d : ModuleTree) : Option Module :=
  (d.types.mapM TypeTree.value).map (.ofTypes d.name)

end ModuleTree

end AdviceWeaving
