import AdviceWeaving.Text.Quoted

/-!
# Tokens of module text

The text form of a module is a sequence of tokens. `Token.text` spells a token; a string literal is spelled with its
value between quotes, without escapes.
-/

namespace AdviceWeaving

/-- A stretch of the source, in bytes; the end lies behind it. -/
structure Span where
  start : Nat
  stop : Nat
  deriving DecidableEq, Inhabited

/-- The reserved words. -/
inductive Keyword
  | module
  | classType
  | interfaceType
  | inherits
  | field
  | property
  | method
  | pub
  | priv
  | static
  | onInstance
  deriving DecidableEq, Inhabited

namespace Keyword

/-- All reserved words. -/
def all : List Keyword :=
  [module, classType, interfaceType, inherits, field, property, method, pub, priv, static, onInstance]

/-- The spelling of a reserved word. -/
def text : Keyword → String
  | module => "module"
  | classType => "class"
  | interfaceType => "interface"
  | inherits => "extends"
  | field => "field"
  | property => "property"
  | method => "method"
  | pub => "public"
  | priv => "private"
  | static => "static"
  | onInstance => "instance"

/-- The reserved word with the given spelling. -/
def ofText? (word : String) : Option Keyword :=
  all.find? (·.text = word)

end Keyword

/-- The words that start with a dot and open a part of a body. -/
inductive Directive
  | locals
  | initLocals
  deriving DecidableEq, Inhabited

/-- The spelling of a directive. -/
def Directive.text : Directive → String
  | .locals => ".locals"
  | .initLocals => ".initlocals"

/-- The punctuation. -/
inductive Mark
  | doubleColon
  | colon
  | arrow
  | openParen
  | closeParen
  | openBrace
  | closeBrace
  | openBracket
  | closeBracket
  | comma
  | semicolon
  deriving DecidableEq, Inhabited

/-- The spelling of a punctuation mark. -/
def Mark.text : Mark → String
  | .doubleColon => "::"
  | .colon => ":"
  | .arrow => "->"
  | .openParen => "("
  | .closeParen => ")"
  | .openBrace => "\x7b"
  | .closeBrace => "\x7d"
  | .openBracket => "["
  | .closeBracket => "]"
  | .comma => ","
  | .semicolon => ";"

/-- The two method names that start with a dot. -/
inductive CtorName
  | ctor
  | cctor
  deriving DecidableEq, Inhabited

/-- The spelling of a constructor's name. -/
def CtorName.text : CtorName → String
  | .ctor => ".ctor"
  | .cctor => ".cctor"

/-- A token: what the grammar of module text is about. -/
inductive Token
  | keyword (word : Keyword)
  | directive (word : Directive)
  | ctor (name : CtorName)
  | mark (m : Mark)
  | int (value : Int64)
  | string (value : String)
  /-- A dotted name. -/
  | path (name : String)
  deriving DecidableEq, Inhabited

/-- The spelling of a token in a message. -/
def Token.text : Token → String
  | keyword word => word.text
  | directive word => word.text
  | ctor name => name.text
  | mark m => m.text
  | int value => toString value.toInt
  | string value => "\"" ++ value ++ "\""
  | path name => name

/-- A token and where it stands. -/
structure Lexeme where
  token : Token
  span : Span
  deriving DecidableEq, Inhabited

end AdviceWeaving
