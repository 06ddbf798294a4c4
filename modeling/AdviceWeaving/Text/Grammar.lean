import AdviceWeaving.Module
import AdviceWeaving.Text.Lexer
import AdviceWeaving.Text.Rule

/-!
# Reading module text

The rules for the parts of a module, from references to whole modules, and `parse`, which reads the text of a module.
One token of lookahead decides every choice, except that a word at the start of a line is a label when a colon
follows it.

A text with stray parts may still give a module: the rules read the tokens that are left.
-/

namespace AdviceWeaving

namespace Rule

/-! ### References -/

/-- Read a field reference: `Type::name: Type`. -/
def fieldSig : Rule FieldSig := do
  let declaring ← path
  mark .doubleColon
  let name ← memberName
  mark .colon
  return { declaring, name, type := ← valueType }

/-- Read a method reference: `instance Type::name(Type, Type) -> Type`, where `instance` may be absent. -/
def methodSig : Rule MethodSig := do
  let onInstance ← optional (.keyword .onInstance)
  let declaring ← path
  mark .doubleColon
  let name ← memberName
  let params ← parenthesized valueType
  mark .arrow
  return { declaring, name, onInstance, params, ret := ← valueType }

/-! ### Attributes -/

/-- Read an argument of an attribute. -/
def argument : Rule Argument :=
  token fun
    | .int value => some (.int value)
    | .string value => some (.string value)
    | .path name => some (.member name)
    | _ => none

/-- Read an attribute behind its opening bracket. -/
def attributeBody : Rule Attribute := do
  let name ← path
  let args ←
    match ← peek with
    | some ⟨.mark .openParen, _⟩ => parenthesized argument
    | _ => pure []
  mark .closeBracket
  return { name, args }

/-- Read as many attributes as there are. -/
def attributes : Rule (List Attribute)
  | [] => .ok ([], ⟨[], Nat.le_refl _⟩)
  | t :: ts =>
    if t.token = .mark .openBracket then
      ((attributeBody ts).andThen fun a rest => (attributes rest).withValue (a :: ·)).behind t
    else
      .ok ([], ⟨t :: ts, Nat.le_refl _⟩)
termination_by ts => ts.length
decreasing_by
  have := rest.property
  simp only [List.length_cons]
  omega

/-! ### Lines of a body -/

/-- Read the operand of a mnemonic. -/
def operand : OperandKind → Rule WrittenOperand
  | .none => return .complete .absent
  | .int32 | .int64 | .index =>
    token fun
      | .int value => some (.complete (.int value))
      | _ => none
  | .string =>
    token fun
      | .string value => some (.complete (.string value))
      | _ => none
  | .field => return .complete (.field (← fieldSig))
  | .method => return .complete (.method (← methodSig))
  | .label => return .line (← path)

/-- The token may be the first of an operand. -/
def startsOperand (kind : OperandKind) (t : Option Token) : Bool :=
  match kind, t with
  | .none, _ => true
  | .string, some (.string _) => true
  | .int32, some (.int _) | .int64, some (.int _) | .index, some (.int _) => true
  | .field, some (.path _) | .label, some (.path _) | .method, some (.path _) => true
  | .method, some (.keyword .onInstance) => true
  | _, _ => false

/-- Read the instruction of the line with the given label. A word that starts no instruction is itself at fault there,
since it can only be a mnemonic. -/
def labelledLine (label : String) : Rule Line
  | ⟨.path word, span⟩ :: ts =>
    let next := ts.head?.map (·.token)
    Outcome.behind _ <|
      match operandKind? word with
      | none => fail (.dangling span none) ts
      | some kind =>
        if startsOperand kind next then (Line.mk (some label) word <$> operand kind) ts
        else fail (.dangling span (if kind = .method then next else none)) ts
  | ts => unexpected ts

/-- Read the line that starts with the given word: the word is a label if a colon follows it, and a mnemonic
otherwise. -/
def line (word : String) : Rule Line := do
  if (← optional (.mark .colon)) then
    labelledLine word
  else
    match operandKind? word with
    | some kind => return { label := none, mnemonic := word, operand := ← operand kind }
    | none => unexpected

/-- Read lines up to the closing brace, and the brace. -/
def lines : Rule (List Line)
  | ⟨.mark .closeBrace, _⟩ :: ts => .ok ([], ⟨ts, Nat.le_succ _⟩)
  | ⟨.path word, span⟩ :: ts =>
    ((line word ts).andThen fun a rest => (lines rest).withValue (a :: ·)).behind ⟨.path word, span⟩
  | ts => unexpected ts
termination_by ts => ts.length
decreasing_by
  have := rest.property
  simp only [List.length_cons]
  omega

/-- Read a body behind its opening brace, which stands at `brace`. -/
def bodyFrom (brace : Span) : Rule Body := do
  let locals ← if (← optional (.directive .locals)) then parenthesized valueType else pure []
  let initLocals ← optional (.directive .initLocals)
  match resolve (← lines) with
  | .ok code => return { locals := locals.toArray, initLocals, code }
  | .error fault => fail (.unresolved brace fault)

/-! ### Members -/

/-- Read a name and a type with a colon between them. -/
def nameAndType : Rule (String × ValueType) := do
  let name ← path
  mark .colon
  return (name, ← valueType)

/-- Read a parameter. -/
def param : Rule Param := do
  let attributes ← attributes
  let (name, type) ← nameAndType
  return { name, type, attributes }

/-- Read what a declaration of a method has for a body: one in braces, or a semicolon for none. -/
def bodyOrNone : Rule (Option Body)
  | ⟨.mark .semicolon, _⟩ :: ts => .ok (none, ⟨ts, Nat.le_succ _⟩)
  | ⟨.mark .openBrace, brace⟩ :: ts => ((bodyFrom brace ts).withValue some).behind _
  | ts => unexpected ts

/-- A member of a type. -/
inductive Member
  | field (field : Field)
  | property (property : Property)
  | method (method : Method)
  deriving DecidableEq, Inhabited

/-- Read a property behind the keyword. -/
def propertyFrom (attributes : List Attribute) : Rule Member := do
  let (name, type) ← nameAndType
  return .property { name, type, attributes }

/-- Read a field behind the keyword. -/
def fieldFrom (access : Access) (isStatic : Bool) (attributes : List Attribute) : Rule Member := do
  let (name, type) ← nameAndType
  return .field { name, type, access, isStatic, attributes }

/-- Read a method behind the keyword. -/
def methodFrom (access : Access) (isStatic : Bool) (attributes : List Attribute) : Rule Member := do
  let name ← memberName
  let params ← parenthesized param
  mark .arrow
  let ret ← valueType
  return .method { name, access, isStatic, params, ret, attributes, body := ← bodyOrNone }

/-- Read a field or a method behind its modifiers. -/
def fieldOrMethod (access : Access) (isStatic : Bool) (attributes : List Attribute) : Rule Member := do
  let isField ← token fun
    | .keyword .field => some true
    | .keyword .method => some false
    | _ => none
  if isField then fieldFrom access isStatic attributes else methodFrom access isStatic attributes

/-- Read a field or a method behind its access modifier. -/
def maybeStatic (access : Access) (attributes : List Attribute) : Rule Member := do
  let isStatic ← optional (.keyword .static)
  fieldOrMethod access isStatic attributes

/-- Read the member whose attributes are read and which starts with the token `t`. -/
def memberFrom (attributes : List Attribute) (t : Lexeme) : Rule Member :=
  match t.token with
  | .keyword .property => propertyFrom attributes
  | .keyword .pub => maybeStatic .pub attributes
  | .keyword .priv => maybeStatic .priv attributes
  | .keyword .static => fieldOrMethod .priv true attributes
  | .keyword .field => fieldFrom .priv false attributes
  | .keyword .method => methodFrom .priv false attributes
  | _ => fail (.unexpected (some t))

/-- Read members up to the closing brace, and the brace. -/
def members : Rule (List Member)
  | [] => .error (.unexpected none)
  | t :: ts =>
    if t.token = .mark .closeBrace then
      .ok ([], ⟨ts, Nat.le_succ _⟩)
    else
      (attributes (t :: ts)).andThen fun attributes rest =>
        match rest with
        | ⟨[], _⟩ => .error (.unexpected none)
        | ⟨u :: us, _⟩ =>
          ((memberFrom attributes u us).andThen fun a rest => (members rest).withValue (a :: ·)).behind u
termination_by ts => ts.length
decreasing_by
  have := rest.property
  simp only [List.length_cons] at *
  omega

/-! ### Types and modules -/

/-- The type with the given members, each kind in order. -/
def typeOf (name : String) (kind : TypeKind) (base : Option String) (attributes : List Attribute)
    (members : List Member) : TypeDecl where
  name := name
  kind := kind
  base := base
  attributes := attributes
  fields := members.filterMap fun | .field f => some f | _ => none
  properties := members.filterMap fun | .property p => some p | _ => none
  methods := members.filterMap fun | .method m => some m | _ => none

/-- Read a type behind the keyword that tells its kind. -/
def typeBody (kind : TypeKind) (attributes : List Attribute) : Rule TypeDecl := do
  let name ← path
  let base ← if (← optional (.keyword .inherits)) then some <$> path else pure none
  mark .openBrace
  return typeOf name kind base attributes (← members)

/-- Read the type whose attributes are read and which starts with the token `t`. -/
def typeFrom (attributes : List Attribute) (t : Lexeme) : Rule TypeDecl :=
  match t.token with
  | .keyword .classType => typeBody .classType attributes
  | .keyword .interfaceType => typeBody .interfaceType attributes
  | _ => fail (.unexpected (some t))

/-- Read types up to the end. -/
def types : Rule (List TypeDecl)
  | [] => .ok ([], ⟨[], Nat.le_refl _⟩)
  | t :: ts =>
    (attributes (t :: ts)).andThen fun attributes rest =>
      match rest with
      | ⟨[], _⟩ => .error (.unexpected none)
      | ⟨u :: us, _⟩ =>
        ((typeFrom attributes u us).andThen fun a rest => (types rest).withValue (a :: ·)).behind u
termination_by ts => ts.length
decreasing_by
  have := rest.property
  simp only [List.length_cons] at *
  omega

/-- Read a whole module. -/
def module : Rule Module := do
  exactly (.keyword .module)
  let name ← path
  return .ofTypes name (← types)

end Rule

/-! ### The text of a module -/

/-- What is wrong with a text. -/
inductive Cause
  | stray (text : List Char)
  | unresolved (fault : LabelFault)
  /-- The token found is not one that can stand there; none is told at the end of the text, and for a word behind a
  label that starts no instruction. -/
  | unexpected (found : Option Token)
  deriving DecidableEq, Inhabited

/-- A fault of a text, and where it is. -/
structure Complaint where
  span : Span
  cause : Cause
  deriving DecidableEq, Inhabited

/-- The message about a fault of a text. -/
def Cause.message : Cause → String
  | stray text => "unexpected character: " ++ showQuoted text
  | unresolved fault => fault.message
  | unexpected (some t) => s!"found '{t.text}' where it cannot stand"
  | unexpected none => "found the end of what can be read"

/-- Where the fault of a source with the given number of bytes is. -/
def ParseFault.complaint (length : Nat) : ParseFault → Complaint
  | .unexpected (some t) => ⟨t.span, .unexpected (some t.token)⟩
  | .unexpected none => ⟨⟨length, length⟩, .unexpected none⟩
  | .dangling word found => ⟨word, .unexpected found⟩
  | .unresolved brace fault => ⟨brace, .unresolved fault⟩

/-- What reading a text gives: a module, unless the rules failed, and all that is wrong with the text. -/
structure Parsed where
  module? : Option Module
  complaints : List Complaint
  deriving DecidableEq, Inhabited

/-- Read the text of a module. Stray text is complained of first, in order, then the fault at which the rules
stopped. -/
def parse (source : String) : Parsed :=
  let lexed := lex source
  let strays := lexed.strays.map fun s => ⟨s.span, .stray s.text⟩
  match Rule.module lexed.tokens with
  | .ok (m, _) => ⟨some m, strays⟩
  | .error fault => ⟨none, strays ++ [fault.complaint (source.utf8ByteSize)]⟩

end AdviceWeaving
