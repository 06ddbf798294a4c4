/-!
# Strings of the operating system

The names of files are bytes, and most of them are text in UTF-8. `OsString.display` is the text in which a name is
shown, and under which a manifest remembers it; what is not UTF-8 in the name is replaced there, so that two names may
be shown alike.
-/

namespace AdviceWeaving

/-- A string of the operating system: any bytes. -/
structure OsString where
  bytes : List UInt8
  deriving DecidableEq, Inhabited

namespace OsString

/-- The bytes of a text in UTF-8. -/
def ofString (text : String) : OsString :=
  ⟨text.toList.flatMap String.utf8EncodeChar⟩

instance : Coe String OsString := ⟨ofString⟩

/-- The string without any byte. -/
def isEmpty (s : OsString) : Bool :=
  s.bytes.isEmpty

/-! ### Text -/

/-- What stands for bytes that are not UTF-8. -/
def replacement : Char := '\uFFFD'

/-- A character some of whose bytes have been read: the number that they tell, how many bytes are missing behind the
next one, and between what bounds the next one lies. -/
structure Unfinished where
  number : Nat
  missing : Nat
  low : Nat
  high : Nat
  deriving DecidableEq, Inhabited

/-- What the first byte of a character of several bytes tells. No character is written with more bytes than it needs,
and none is a surrogate. -/
def Unfinished.ofFirst? (byte : Nat) : Option Unfinished :=
  if 0xC2 ≤ byte ∧ byte ≤ 0xDF then
    some ⟨byte - 0xC0, 0, 0x80, 0xBF⟩
  else if 0xE0 ≤ byte ∧ byte ≤ 0xEF then
    some ⟨byte - 0xE0, 1, if byte = 0xE0 then 0xA0 else 0x80, if byte = 0xED then 0x9F else 0xBF⟩
  else if 0xF0 ≤ byte ∧ byte ≤ 0xF4 then
    some ⟨byte - 0xF0, 2, if byte = 0xF0 then 0x90 else 0x80, if byte = 0xF4 then 0x8F else 0xBF⟩
  else
    none

/-- What is shown when a byte is read between two characters, and the character that it begins. -/
def beginWith (byte : Nat) : List Char × Option Unfinished :=
  if byte < 0x80 then
    ([Char.ofNat byte], none)
  else
    match Unfinished.ofFirst? byte with
    | some u => ([], some u)
    | none => ([replacement], none)

/-- The same for a byte inside a character, if it belongs there. -/
def Unfinished.goOn? (u : Unfinished) (byte : Nat) : Option (List Char × Option Unfinished) :=
  if u.low ≤ byte ∧ byte ≤ u.high then
    let number := u.number * 64 + (byte - 0x80)
    match u.missing with
    | 0 => some ([Char.ofNat number], none)
    | missing + 1 => some ([], some ⟨number, missing, 0x80, 0xBF⟩)
  else
    none

/-- The characters that bytes show, behind an unfinished one, if there is one. A character that does not come to its end
is replaced as a whole, and the byte at which it breaks off is read once more. -/
def shown : Option Unfinished → List UInt8 → List Char
  | none, [] => []
  | some _, [] => [replacement]
  | none, byte :: bytes =>
    let (chars, u?) := beginWith byte.toNat
    chars ++ shown u? bytes
  | some u, byte :: bytes =>
    match u.goOn? byte.toNat with
    | some (chars, u?) => chars ++ shown u? bytes
    | none =>
      let (chars, u?) := beginWith byte.toNat
      replacement :: chars ++ shown u? bytes

/-- The text in which the string is shown. -/
def display (s : OsString) : String :=
  String.ofList (shown none s.bytes)

end OsString

end AdviceWeaving
