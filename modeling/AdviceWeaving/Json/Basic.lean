/-!
# JSON values

`Json` is a JSON value to be written: its numbers are integers, and the members of an object keep their order.
`Json.text` writes a value in one of two layouts, `Layout.compact` on one line and `Layout.pretty` with a line for
each item and each member.
-/

namespace AdviceWeaving

/-- A JSON value. -/
inductive Json
  | null
  | bool (value : Bool)
  | int (value : Int)
  | str (value : String)
  | arr (items : List Json)
  | obj (members : List (String × Json))
  deriving Inhabited

namespace Json

/-- How the parts of a value are set apart. -/
structure Layout where
  /-- What stands between two parts at a depth of nesting. -/
  gap : Nat → String
  /-- What stands between the key and the value of a member. -/
  colon : String

/-- Nothing is set apart. -/
def Layout.compact : Layout := ⟨fun _ => "", ":"⟩

/-- Each item and each member has a line, indented by two spaces for each level. -/
def Layout.pretty : Layout := ⟨fun depth => "\n" ++ String.ofList (List.replicate (2 * depth) ' '), ": "⟩

/-- A digit of a hexadecimal number below sixteen. -/
def hexDigit (n : Nat) : Char :=
  Nat.digitChar n

/-- A character inside a string. Quotes, backslashes and control characters are escaped, nothing else is. -/
def escapeChar : Char → List Char
  | '"' => ['\\', '"']
  | '\\' => ['\\', '\\']
  | '\x08' => ['\\', 'b']
  | '\t' => ['\\', 't']
  | '\n' => ['\\', 'n']
  | '\x0c' => ['\\', 'f']
  | '\r' => ['\\', 'r']
  | c => if c.toNat < 32 then ['\\', 'u', '0', '0', hexDigit (c.toNat / 16), hexDigit (c.toNat % 16)] else [c]

/-- A string with its quotes. -/
def quote (text : String) : String :=
  String.ofList ('"' :: text.toList.flatMap escapeChar ++ ['"'])

mutual

/-- The parts of the text of a value that stands at a depth of nesting. -/
def chunks (layout : Layout) (depth : Nat) : Json → List String
  | .null => ["null"]
  | .bool true => ["true"]
  | .bool false => ["false"]
  | .int value => [toString value]
  | .str value => [quote value]
  | .arr [] => ["[]"]
  | .arr (item :: items) =>
    "[" :: layout.gap (depth + 1) :: chunks layout (depth + 1) item ++
      itemChunks layout (depth + 1) items ++ [layout.gap depth, "]"]
  | .obj [] => ["\x7b\x7d"]
  | .obj ((key, value) :: members) =>
    "\x7b" :: layout.gap (depth + 1) :: quote key :: layout.colon :: chunks layout (depth + 1) value ++
      memberChunks layout (depth + 1) members ++ [layout.gap depth, "\x7d"]

/-- The parts of further items, with a comma before each. -/
def itemChunks (layout : Layout) (depth : Nat) : List Json → List String
  | [] => []
  | item :: items => "," :: layout.gap depth :: chunks layout depth item ++ itemChunks layout depth items

/-- The parts of further members, with a comma before each. -/
def memberChunks (layout : Layout) (depth : Nat) : List (String × Json) → List String
  | [] => []
  | (key, value) :: members =>
    "," :: layout.gap depth :: quote key :: layout.colon :: chunks layout depth value ++
      memberChunks layout depth members

end

/-- The text of a value. -/
def text (layout : Layout) (value : Json) : String :=
  String.join (value.chunks layout 0)

/-- The text of a value on one line. -/
def compact (value : Json) : String :=
  value.text .compact

/-- The text of a value with a line for each item and each member. -/
def pretty (value : Json) : String :=
  value.text .pretty

end Json

end AdviceWeaving
