import AdviceWeaving.Text.Grammar

/-!
# Reading module text by trial

An `Attempt` that cannot read a value gives up without a reason, and what comes next is tried from where it started.
Here is the grammar of module text in this form: a choice tries its alternatives in order, a list goes on until an
item cannot be read, and then takes back what the item had read of the tokens.
-/

namespace AdviceWeaving

/-- A way to read a value from the front of a list of tokens, or to give up. -/
abbrev Attempt : Type → Type :=
  StateT (List Lexeme) Option

namespace Attempt

variable {α β γ : Type}

/-- Read one token of the class that `f` accepts. -/
def select (f : Token → Option α) : Attempt α
  | [] => none
  | t :: ts => (f t.token).map (·, ts)

/-- Read the given token. -/
def just (t : Token) : Attempt Unit :=
  select fun u => if u = t then some () else none

/-- Read values until one cannot be read. Each has to take a token, or there would be no end. -/
def repeated (p : Attempt α) : Attempt (List α) := fun ts =>
  match p.run ts with
  | none => some ([], ts)
  | some (a, rest) =>
    if rest.length < ts.length then (repeated p rest).map fun more => (a :: more.1, more.2)
    else none
termination_by ts => ts.length

/-- Read values with commas between them. -/
def separated (p : Attempt α) : Attempt (List α) :=
  (do return (← p) :: (← repeated (do just (.mark .comma); p))) <|> pure []

/-- Read a value between two punctuation marks. -/
def delimited (first last : Mark) (p : Attempt α) : Attempt α := do
  just (.mark first)
  let a ← p
  just (.mark last)
  return a

/-- Read nothing, where no token is left. -/
def atEnd : Attempt Unit
  | [] => some ((), [])
  | _ :: _ => none

/-! ### References -/

def path : Attempt String :=
  select fun | .path name => some name | _ => none

def int : Attempt Int64 :=
  select fun | .int value => some value | _ => none

def string : Attempt String :=
  select fun | .string value => some value | _ => none

def memberName : Attempt String :=
  path <|> select fun | .ctor name => some name.text | _ => none

def valueType : Attempt ValueType := do
  return .ofName (← path)

def typeList : Attempt (List ValueType) :=
  delimited .openParen .closeParen (separated valueType)

def fieldSig : Attempt FieldSig := do
  let declaring ← path
  just (.mark .doubleColon)
  let name ← memberName
  just (.mark .colon)
  return { declaring, name, type := ← valueType }

def methodSig : Attempt MethodSig := do
  let onInstance ← optional (just (.keyword .onInstance))
  let declaring ← path
  just (.mark .doubleColon)
  let name ← memberName
  let params ← typeList
  just (.mark .arrow)
  return { declaring, name, onInstance := onInstance.isSome, params, ret := ← valueType }

/-! ### Attributes -/

def argument : Attempt Argument :=
  (do return .int (← int)) <|> (do return .string (← string)) <|> (do return .member (← path))

def arguments : Attempt (List Argument) :=
  delimited .openParen .closeParen (separated argument)

def oneAttribute : Attempt Attribute :=
  delimited .openBracket .closeBracket do
    let name ← path
    let args ← optional arguments
    return { name, args := args.getD [] }

def attributes : Attempt (List Attribute) :=
  repeated oneAttribute

/-! ### Lines of a body -/

/-- Read a mnemonic whose operand is of one of the kinds. -/
def mnemonic (kinds : List OperandKind) : Attempt String := do
  let word ← path
  guard ((operandKind? word).any (· ∈ kinds))
  return word

/-- Read a mnemonic and its operand. -/
def instruction : Attempt (String × WrittenOperand) :=
  (do return (← mnemonic [.none], .complete .absent)) <|>
  (do return (← mnemonic [.int32, .int64, .index], .complete (.int (← int)))) <|>
  (do return (← mnemonic [.string], .complete (.string (← string)))) <|>
  (do return (← mnemonic [.field], .complete (.field (← fieldSig)))) <|>
  (do return (← mnemonic [.method], .complete (.method (← methodSig)))) <|>
  (do return (← mnemonic [.label], .line (← path)))

/-- Read a label and its colon. -/
def label : Attempt String := do
  let label ← path
  just (.mark .colon)
  return label

def line : Attempt Line := do
  let label ← optional label
  let (mnemonic, operand) ← instruction
  return { label, mnemonic, operand }

/-- Read the parts of a body: the locals, whether they are cleared, and the lines. -/
def bodyParts : Attempt (List ValueType × Bool × List Line) := do
  let locals ← optional (do just (.directive .locals); typeList)
  let initLocals ← optional (just (.directive .initLocals))
  let lines ← repeated line
  return (locals.getD [], initLocals.isSome, lines)

/-- The body with the given parts, if its lines resolve. -/
def resolved : List ValueType × Bool × List Line → Attempt Body
  | (locals, initLocals, lines) =>
    match resolve lines with
    | .ok code => return { locals := locals.toArray, initLocals, code }
    | .error _ => failure

def body : Attempt Body := do
  resolved (← delimited .openBrace .closeBrace bodyParts)

/-! ### Members -/

def access : Attempt Access := do
  let access ← optional ((do just (.keyword .pub); return .pub) <|> (do just (.keyword .priv); return .priv))
  return access.getD .priv

def isStatic : Attempt Bool := do
  let isStatic ← optional (just (.keyword .static))
  return isStatic.isSome

def nameAndType : Attempt (String × ValueType) := do
  let name ← path
  just (.mark .colon)
  return (name, ← valueType)

def param : Attempt Param := do
  let attributes ← attributes
  let (name, type) ← nameAndType
  return { name, type, attributes }

def bodyOrNone : Attempt (Option Body) :=
  (do just (.mark .semicolon); return none) <|> (do return some (← body))

def field : Attempt Field := do
  let access ← access
  let isStatic ← isStatic
  just (.keyword .field)
  let (name, type) ← nameAndType
  return { name, type, access, isStatic, attributes := [] }

def property : Attempt Property := do
  just (.keyword .property)
  let (name, type) ← nameAndType
  return { name, type, attributes := [] }

def method : Attempt Method := do
  let access ← access
  let isStatic ← isStatic
  just (.keyword .method)
  let name ← memberName
  let params ← delimited .openParen .closeParen (separated param)
  just (.mark .arrow)
  let ret ← valueType
  return { name, access, isStatic, params, ret, attributes := [], body := ← bodyOrNone }

/-- The member with the given attributes. -/
def withAttributes (attributes : List Attribute) : Rule.Member → Rule.Member
  | .field f => .field { f with attributes }
  | .property p => .property { p with attributes }
  | .method m => .method { m with attributes }

/-- Read a member without its attributes. -/
def declaration : Attempt Rule.Member :=
  (do return .field (← field)) <|> (do return .property (← property)) <|> (do return .method (← method))

def member : Attempt Rule.Member := do
  let attributes ← attributes
  return withAttributes attributes (← declaration)

/-! ### Types and modules -/

def kind : Attempt TypeKind :=
  (do just (.keyword .classType); return .classType) <|>
  (do just (.keyword .interfaceType); return .interfaceType)

def base : Attempt (Option String) :=
  optional (do just (.keyword .inherits); path)

def typeDecl : Attempt TypeDecl := do
  let attributes ← attributes
  let kind ← kind
  let name ← path
  let base ← base
  let members ← delimited .openBrace .closeBrace (repeated member)
  return Rule.typeOf name kind base attributes members

def module : Attempt Module := do
  just (.keyword .module)
  let name ← path
  let types ← repeated typeDecl
  atEnd
  return .ofTypes name types

end Attempt

end AdviceWeaving
