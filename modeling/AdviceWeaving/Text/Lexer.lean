import AdviceWeaving.Text.Token

/-!
# From characters to tokens

`pieces` cuts a text into pieces: tokens, blanks (spaces, line ends and comments) and stray text. At each place the
longest token wins. Nothing is lost: the texts of the pieces join to the whole text (`pieces_text`).

Text is stray when no token starts there (then one character is), when a string literal is not closed (then the text
up to where it stops), or when a literal is closed but stands for no value (then the whole literal).
-/

namespace AdviceWeaving

/-! ### Classes of characters -/

/-- Blanks separate tokens. -/
def isBlank (c : Char) : Bool :=
  c = ' ' || c = '\t' || c = '\r' || c = '\n'

/-- A name starts with a letter or an underscore. -/
def isNameStart (c : Char) : Bool :=
  c.isAlpha || c = '_'

/-- A name goes on with letters, digits and underscores. -/
def isNameChar (c : Char) : Bool :=
  c.isAlphanum || c = '_'

/-! ### Lengths of lexemes

Each function gives how many characters belong to a lexeme that has started. -/

/-- How many characters at the front have the property. -/
def runLength (p : Char → Bool) (cs : List Char) : Nat :=
  (cs.takeWhile p).length

/-- What follows the first character of a dotted name: the rest of the segment, then further segments, each with a dot
in front. -/
def pathLength : List Char → Nat
  | '.' :: c :: rest => if isNameStart c then 2 + pathLength rest else 0
  | c :: rest => if isNameChar c then 1 + pathLength rest else 0
  | [] => 0

/-- The inside of a string literal, up to its closing quote or to where it stops without one: at the end, or at a
backslash with nothing behind it on its line. The flag tells whether the closing quote is there. -/
def literalLength : List Char → Nat × Bool
  | '"' :: _ => (0, true)
  | '\\' :: '\n' :: _ => (0, false)
  | '\\' :: _ :: rest => let (n, closed) := literalLength rest; (2 + n, closed)
  | ['\\'] => (0, false)
  | _ :: rest => let (n, closed) := literalLength rest; (1 + n, closed)
  | [] => (0, false)

/-! ### Values of literals -/

/-- The value of a run of decimal digits. -/
def decimalValue (digits : List Char) : Nat :=
  digits.foldl (fun n c => 10 * n + (c.toNat - '0'.toNat)) 0

/-- The 64-bit integer of the same value, if there is one. -/
def toInt64? (value : Int) : Option Int64 :=
  if -9223372036854775808 ≤ value ∧ value ≤ 9223372036854775807 then some (Int64.ofInt value) else none

/-! ### Pieces -/

/-- What a piece of text is. -/
inductive Verdict
  | blank
  | token (token : Token)
  | stray
  deriving DecidableEq, Inhabited

/-- A stretch of characters and what it is. -/
structure Piece where
  text : List Char
  verdict : Verdict
  deriving DecidableEq, Inhabited

/-- A literal that is closed, but may stand for no value. -/
def Verdict.ofValue? (value : Option Token) : Verdict :=
  value.elim stray token

/-- The integer literal of a sign and its digits. -/
def intVerdict (negative : Bool) (digits : List Char) : Verdict :=
  let value : Int := decimalValue digits
  .ofValue? ((toInt64? (if negative then -value else value)).map .int)

/-- A dotted name is a keyword if it is spelled like one, unless a dot follows it. -/
def nameVerdict (name : String) (next : Option Char) : Verdict :=
  match Keyword.ofText? name with
  | some word => if next = some '.' then .token (.path name) else .token (.keyword word)
  | none => .token (.path name)

/-- The words that start with a dot, without the dot. -/
def dottedWords : List (String × Token) :=
  [("locals", .directive .locals), ("initlocals", .directive .initLocals),
    ("ctor", .ctor .ctor), ("cctor", .ctor .cctor)]

/-- What the text `c :: cs` starts with, and how many characters behind `c` belong to it. -/
def firstPiece (c : Char) (cs : List Char) : Verdict × Nat :=
  if isBlank c then
    (.blank, 0)
  else if isNameStart c then
    let n := pathLength cs
    (nameVerdict (String.ofList (c :: cs.take n)) (cs.drop n).head?, n)
  else if c.isDigit then
    let n := runLength Char.isDigit cs
    (intVerdict false (c :: cs.take n), n)
  else
    match c, cs with
    | '/', '/' :: rest => (.blank, 1 + runLength (· ≠ '\n') rest)
    | '"', _ =>
      match literalLength cs with
      | (n, true) => (.ofValue? ((unescape? (cs.take n)).map (.string <| String.ofList ·)), n + 1)
      | (n, false) => (.stray, n)
    | '-', '>' :: _ => (.token (.mark .arrow), 1)
    | '-', d :: rest =>
      if d.isDigit then
        let n := runLength Char.isDigit rest
        (intVerdict true (d :: rest.take n), 1 + n)
      else
        (.stray, 0)
    | ':', ':' :: _ => (.token (.mark .doubleColon), 1)
    | ':', _ => (.token (.mark .colon), 0)
    | '(', _ => (.token (.mark .openParen), 0)
    | ')', _ => (.token (.mark .closeParen), 0)
    | '{', _ => (.token (.mark .openBrace), 0)
    | '}', _ => (.token (.mark .closeBrace), 0)
    | '[', _ => (.token (.mark .openBracket), 0)
    | ']', _ => (.token (.mark .closeBracket), 0)
    | ',', _ => (.token (.mark .comma), 0)
    | ';', _ => (.token (.mark .semicolon), 0)
    | '.', _ =>
      match dottedWords.find? (fun (word, _) => word.toList.isPrefixOf cs) with
      | some (word, token) => (.token token, word.length)
      | none => (.stray, 0)
    | _, _ => (.stray, 0)

/-- The pieces of a text, in order. -/
def pieces : List Char → List Piece
  | [] => []
  | c :: cs =>
    let (verdict, n) := firstPiece c cs
    ⟨c :: cs.take n, verdict⟩ :: pieces (cs.drop n)
termination_by cs => cs.length
decreasing_by simp only [List.length_drop, List.length_cons]; omega

/-- The pieces of a text join to the text. -/
theorem pieces_text (cs : List Char) : (pieces cs).flatMap (·.text) = cs := by
  fun_induction pieces cs with
  | case1 => rfl
  | case2 c cs verdict n _ ih => simp [ih]

/-! ### Tokens and stray text -/

/-- The number of bytes of a text. -/
def byteLength : List Char → Nat
  | [] => 0
  | c :: cs => c.utf8Size + byteLength cs

/-- The pieces with the spans they fill when the first of them starts at `start`. -/
def located (start : Nat) : List Piece → List (Span × Piece)
  | [] => []
  | p :: ps =>
    let stop := start + byteLength p.text
    (⟨start, stop⟩, p) :: located stop ps

/-- Stray text and where it stands. -/
structure Stray where
  text : List Char
  span : Span
  deriving DecidableEq, Inhabited

/-- The message about stray text. -/
def Stray.message (s : Stray) : String :=
  "unexpected character: " ++ showQuoted s.text

/-- The tokens of a text, and its stray text, each in order. -/
structure Lexed where
  tokens : List Lexeme
  strays : List Stray
  deriving DecidableEq, Inhabited

/-- Read the tokens of a source. -/
def lex (source : String) : Lexed :=
  let located := located 0 (pieces source.toList)
  { tokens := located.filterMap fun (span, p) =>
      match p.verdict with
      | .token token => some ⟨token, span⟩
      | _ => none
    strays := located.filterMap fun (span, p) =>
      match p.verdict with
      | .stray => some ⟨p.text, span⟩
      | _ => none }

end AdviceWeaving
