import AdviceWeaving.Text.Unprintable

/-!
# Quoted text

Two ways to write a string between double quotes. `escapeLiteral` writes a string literal of module text, and
`unescape?` reads what stands between its quotes; every character but the quote, the backslash, the line feed and
the tab stands for itself. `showQuoted` writes a string for a message, where no character may disturb the line.
-/

namespace AdviceWeaving

/-- A character inside a string literal. -/
def escapeChar : Char → List Char
  | '"' => ['\\', '"']
  | '\\' => ['\\', '\\']
  | '\n' => ['\\', 'n']
  | '\t' => ['\\', 't']
  | c => [c]

/-- The string literal of a text. -/
def escapeLiteral (text : String) : String :=
  String.ofList ('"' :: text.toList.flatMap escapeChar ++ ['"'])

/-- The text that the inside of a string literal stands for. There is none if an escape is unknown. -/
def unescape? : List Char → Option (List Char)
  | [] => some []
  | '\\' :: '"' :: rest => (unescape? rest).map ('"' :: ·)
  | '\\' :: '\\' :: rest => (unescape? rest).map ('\\' :: ·)
  | '\\' :: 'n' :: rest => (unescape? rest).map ('\n' :: ·)
  | '\\' :: 't' :: rest => (unescape? rest).map ('\t' :: ·)
  | '\\' :: _ => none
  | c :: rest => (unescape? rest).map (c :: ·)

/-- A character inside quoted text of a message: with a short escape if it has one, by its code point in hexadecimal
if it has no shape of its own. -/
def showChar : Char → List Char
  | '"' => ['\\', '"']
  | '\\' => ['\\', '\\']
  | '\n' => ['\\', 'n']
  | '\t' => ['\\', 't']
  | '\r' => ['\\', 'r']
  | '\x00' => ['\\', '0']
  | c => if isUnprintable c then '\\' :: 'u' :: '\x7b' :: Nat.toDigits 16 c.toNat ++ ['\x7d'] else [c]

/-- A text between quotes, for a message. -/
def showQuoted (text : List Char) : String :=
  String.ofList ('"' :: text.flatMap showChar ++ ['"'])

end AdviceWeaving
