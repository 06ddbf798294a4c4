import AdviceWeaving.Json.Numeral

/-!
# Reading JSON text

`Reading.ofText` turns a text into a tree that holds as much of the text as is JSON, and a `JsonFault` at the place where
the text stops being JSON. Nothing behind that place is read. What a tree means is found by going through it in the
order of the text, so that of two faults the first one counts.

Strings and numbers are kept as they are written: whether a string is text and a number has a value matters only to
those that ask.
-/

namespace AdviceWeaving

/-- Why a text stops being JSON. -/
inductive JsonFault
  /-- There is no text left where something must stand. -/
  | absent
  /-- The text ends inside a word or a string. -/
  | cutOff
  /-- The text ends inside a number. -/
  | numberCutOff
  /-- A character cannot stand where it stands. -/
  | malformed
  deriving DecidableEq, Inhabited

/-- A part of a string: a character, or an escape that names a 16-bit unit. -/
inductive Letter
  | char (c : Char)
  | unit (value : Nat)
  deriving DecidableEq, Inhabited

/-- A string as it is written, up to its closing quote or to a fault. -/
structure Quoted where
  letters : List Letter
  fault : Option JsonFault
  deriving DecidableEq, Inhabited

mutual

/-- A value as it is written. -/
inductive Reading
  | broken (fault : JsonFault)
  | null
  | bool (value : Bool)
  | number (numeral : Numeral)
  | string (text : Quoted)
  | array (items : Items)
  | object (entries : Entries)

/-- What follows the opening bracket or an item of an array. -/
inductive Items
  | done
  | broken (fault : JsonFault)
  | item (value : Reading) (rest : Items)

/-- What follows the opening brace or an entry of an object. -/
inductive Entries
  | done
  | broken (fault : JsonFault)
  /-- A comma with no string behind it. -/
  | dangling (fault : JsonFault)
  | entry (key : Quoted) (value : Reading) (rest : Entries)

end

namespace Reading

/-! ### Blanks, words and strings -/

/-- The characters that may stand between the parts of a value. -/
def isBlankChar (c : Char) : Bool :=
  c = ' ' || c = '\n' || c = '\t' || c = '\r'

/-- The text without the blanks at its front. -/
def skipBlanks (cs : List Char) : List Char :=
  cs.dropWhile isBlankChar

/-- Read the letters of a word; what is left, or why the word is not there. -/
def word : List Char → List Char → Except JsonFault (List Char)
  | [], cs => .ok cs
  | _ :: _, [] => .error .cutOff
  | w :: ws, c :: cs => if w = c then word ws cs else .error .malformed

/-- The value of a hexadecimal digit. -/
def hexValue? (c : Char) : Option Nat :=
  if c.isDigit then some (c.toNat - '0'.toNat)
  else if 'a' ≤ c ∧ c ≤ 'f' then some (c.toNat - 'a'.toNat + 10)
  else if 'A' ≤ c ∧ c ≤ 'F' then some (c.toNat - 'A'.toNat + 10)
  else none

/-- The value of four hexadecimal digits. -/
def hexUnit? (a b c d : Char) : Option Nat := do
  return ((← hexValue? a) * 16 + (← hexValue? b)) * 256 + ((← hexValue? c) * 16 + (← hexValue? d))

/-- The character of an escape with one letter. -/
def shortEscape? : Char → Option Char
  | '"' => some '"'
  | '\\' => some '\\'
  | '/' => some '/'
  | 'b' => some '\x08'
  | 'f' => some '\x0c'
  | 'n' => some '\n'
  | 'r' => some '\r'
  | 't' => some '\t'
  | _ => none

/-- An escape by number needs four bytes; with fewer left, the text is cut off, whatever they are. -/
def shortUnitFault (cs : List Char) : JsonFault :=
  if (String.ofList cs).utf8ByteSize < 4 then .cutOff else .malformed

/-- Read a string behind its opening quote: its parts, and what is left if it is closed. -/
def quoted : List Char → Quoted × Option (List Char)
  | [] => (⟨[], some .cutOff⟩, none)
  | '"' :: cs => (⟨[], none⟩, some cs)
  | ['\\'] => (⟨[], some .cutOff⟩, none)
  | '\\' :: 'u' :: a :: b :: c :: d :: cs =>
    match hexUnit? a b c d with
    | some unit => let (q, rest) := quoted cs; ({ q with letters := .unit unit :: q.letters }, rest)
    | none => (⟨[], some .malformed⟩, none)
  | '\\' :: 'u' :: cs => (⟨[], some (shortUnitFault cs)⟩, none)
  | '\\' :: e :: cs =>
    match shortEscape? e with
    | some c => let (q, rest) := quoted cs; ({ q with letters := .char c :: q.letters }, rest)
    | none => (⟨[], some .malformed⟩, none)
  | c :: cs =>
    if c.toNat < 32 then (⟨[], some .malformed⟩, none)
    else let (q, rest) := quoted cs; ({ q with letters := .char c :: q.letters }, rest)

/-! ### Numbers -/

/-- The digits at the front, and what is left. -/
def digits (cs : List Char) : List Char × List Char :=
  (cs.takeWhile Char.isDigit, cs.dropWhile Char.isDigit)

/-- Digits where one must stand. -/
def someDigits (cs : List Char) : Except JsonFault (List Char × List Char) :=
  match digits cs, cs with
  | ([], _), [] => .error .numberCutOff
  | ([], _), _ :: _ => .error .malformed
  | found, _ => .ok found

/-- The integer part of a number. It starts with a zero only if it is zero. -/
def wholePart (cs : List Char) : Except JsonFault (List Char × List Char) :=
  match cs with
  | '0' :: rest => if (rest.head?.map Char.isDigit).getD false then .error .malformed else .ok (['0'], rest)
  | _ => someDigits cs

/-- The fraction of a number, if there is one. -/
def fractionPart : List Char → Except JsonFault (Option (List Char) × List Char)
  | '.' :: cs => (someDigits cs).map fun (ds, rest) => (some ds, rest)
  | cs => .ok (none, cs)

/-- The exponent of a number, if there is one. -/
def exponentPart : List Char → Except JsonFault (Option (Bool × List Char) × List Char)
  | c :: cs =>
    if c = 'e' ∨ c = 'E' then
      match cs with
      | '+' :: cs => (someDigits cs).map fun (ds, rest) => (some (false, ds), rest)
      | '-' :: cs => (someDigits cs).map fun (ds, rest) => (some (true, ds), rest)
      | cs => (someDigits cs).map fun (ds, rest) => (some (false, ds), rest)
    else
      .ok (none, c :: cs)
  | [] => .ok (none, [])

/-- Read a number behind its sign. -/
def numeral (negative : Bool) (cs : List Char) : Except JsonFault (Numeral × List Char) := do
  let (whole, cs) ← wholePart cs
  let (fraction, cs) ← fractionPart cs
  let (exponent, cs) ← exponentPart cs
  return (⟨negative, whole, fraction, exponent⟩, cs)

/-! ### Values

Reading a value gives the value and what is left of the text; nothing is left to read behind a fault. Each round is
paid for with one unit of `fuel`; no character of the text takes more than three of them. -/

/-- Where a value must stand but none does. -/
def noValue : List Char → JsonFault
  | [] => .absent
  | _ :: _ => .malformed

/-- What reading a word gives. -/
def ofWord (value : Reading) (rest : Except JsonFault (List Char)) : Reading × Option (List Char) :=
  match rest with
  | .ok cs => (value, some cs)
  | .error fault => (.broken fault, none)

/-- What reading a number gives. -/
def ofNumeral (numeral : Except JsonFault (Numeral × List Char)) : Reading × Option (List Char) :=
  match numeral with
  | .ok (n, cs) => (.number n, some cs)
  | .error fault => (.broken fault, none)

mutual

/-- Read a value. -/
def value (fuel : Nat) (cs : List Char) : Reading × Option (List Char) :=
  match fuel with
  | 0 => (.broken .malformed, none)
  | fuel + 1 =>
    match skipBlanks cs with
    | 'n' :: cs => ofWord .null (word "ull".toList cs)
    | 't' :: cs => ofWord (.bool true) (word "rue".toList cs)
    | 'f' :: cs => ofWord (.bool false) (word "alse".toList cs)
    | '"' :: cs => let (text, rest) := quoted cs; (.string text, rest)
    | '[' :: cs => let (items, rest) := items fuel cs; (.array items, rest)
    | '{' :: cs => let (entries, rest) := entries fuel cs; (.object entries, rest)
    | '-' :: cs => ofNumeral (numeral true cs)
    | c :: cs => if c.isDigit then ofNumeral (numeral false (c :: cs)) else (.broken .malformed, none)
    | [] => (.broken .absent, none)

/-- Read what follows the opening bracket of an array. -/
def items (fuel : Nat) (cs : List Char) : Items × Option (List Char) :=
  match fuel with
  | 0 => (.broken .malformed, none)
  | fuel + 1 =>
    match skipBlanks cs with
    | [] => (.broken .absent, none)
    | ']' :: cs => (.done, some cs)
    | cs => item fuel cs

/-- Read an item and what follows it. -/
def item (fuel : Nat) (cs : List Char) : Items × Option (List Char) :=
  match fuel with
  | 0 => (.broken .malformed, none)
  | fuel + 1 =>
    match value fuel cs with
    | (v, none) => (.item v .done, none)
    | (v, some cs) =>
      match skipBlanks cs with
      | ']' :: cs => (.item v .done, some cs)
      | ',' :: cs => let (rest, left) := item fuel cs; (.item v rest, left)
      | cs => (.item v (.broken (noValue cs)), none)

/-- Read what follows the opening brace of an object. -/
def entries (fuel : Nat) (cs : List Char) : Entries × Option (List Char) :=
  match fuel with
  | 0 => (.broken .malformed, none)
  | fuel + 1 =>
    match skipBlanks cs with
    | [] => (.broken .absent, none)
    | '}' :: cs => (.done, some cs)
    | '"' :: cs => entry fuel cs
    | _ => (.broken .malformed, none)

/-- Read an entry behind the opening quote of its key, and what follows it. -/
def entry (fuel : Nat) (cs : List Char) : Entries × Option (List Char) :=
  match fuel with
  | 0 => (.broken .malformed, none)
  | fuel + 1 =>
    match quoted cs with
    | (key, none) => (.entry key (.broken .malformed) .done, none)
    | (key, some cs) =>
      match skipBlanks cs with
      | ':' :: cs =>
        match value fuel cs with
        | (v, none) => (.entry key v .done, none)
        | (v, some cs) =>
          match skipBlanks cs with
          | '}' :: cs => (.entry key v .done, some cs)
          | ',' :: cs =>
            match skipBlanks cs with
            | '"' :: cs => let (rest, left) := entry fuel cs; (.entry key v rest, left)
            | cs => (.entry key v (.dangling (noValue cs)), none)
          | cs => (.entry key v (.broken (noValue cs)), none)
      | cs => (.entry key (.broken (noValue cs)) .done, none)

end

/-- What a text holds: a value, and the text behind it. -/
def ofText (text : String) : Reading × Option (List Char) :=
  value (3 * text.toList.length + 3) text.toList

end Reading

end AdviceWeaving
