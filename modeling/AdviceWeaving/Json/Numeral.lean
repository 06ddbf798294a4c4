import AdviceWeaving.Decimal.Shortest

/-!
# Numbers in JSON text

A `Numeral` is a number as it is written. Its value is an integer if it is written as one and fits 64 bits, and a
floating-point number otherwise: the first digits that fit 64 bits, rounded, times or divided by a rounded power of
ten. A numeral that is too large has no value.
-/

namespace AdviceWeaving

/-- A number as it is written. -/
structure Numeral where
  negative : Bool
  whole : List Char
  /-- The digits behind the point, if there is one. -/
  fraction : Option (List Char)
  /-- The sign and the digits of the exponent, if there is one. -/
  exponent : Option (Bool × List Char)
  deriving DecidableEq, Inhabited

/-- The value of a numeral. The sign of a floating-point number is kept apart, since there are two zeros. -/
inductive Number
  | int (value : Int)
  | float (negative : Bool) (magnitude : Binary)
  deriving DecidableEq, Inhabited

/-- How a number is shown in a message. -/
def Number.text : Number → String
  | int value => toString value
  | float negative magnitude => (if negative then "-" else "") ++ magnitude.text

/-- The largest number of 64 bits. -/
def maxWord : Nat := 18446744073709551615

/-- The value of a digit. -/
def digitValue (c : Char) : Nat :=
  c.toNat - '0'.toNat

/-- The value of the first digits that fit a word, and how many digits are left. -/
def takeDigits (value : Nat) : List Char → Nat × Nat
  | [] => (value, 0)
  | c :: cs =>
    if 10 * value + digitValue c ≤ maxWord then takeDigits (10 * value + digitValue c) cs else (value, cs.length + 1)

/-- Ten to the given power, rounded. -/
def powerOfTen (n : Nat) : Binary :=
  (Binary.round (Nat.pow 10 n) 1).getD .zero

/-- Divide by powers of ten, the largest first, until the exponent is used up or nothing is left. -/
def divideByTens (value : Binary) (exponent : Nat) : Binary :=
  if exponent ≤ 308 then
    (value.div (powerOfTen exponent)).getD .zero
  else if value.mantissa = 0 then
    value
  else
    divideByTens ((value.div (powerOfTen 308)).getD .zero) (exponent - 308)
termination_by exponent

/-- The floating-point number `digits * 10 ^ exponent`, unless it is too large. -/
def scaleDigits (digits : Nat) (exponent : Int) : Option Binary :=
  let value := (Binary.round digits 1).getD .zero
  if exponent < 0 then
    some (divideByTens value (-exponent).toNat)
  else if exponent ≤ 308 then
    value.mul (powerOfTen exponent.toNat)
  else if value.mantissa = 0 then
    some value
  else
    none

namespace Numeral

/-- The value of the digits of the exponent. -/
def exponentValue (n : Numeral) : Int :=
  match n.exponent with
  | none => 0
  | some (negative, digits) =>
    let value : Int := digits.foldl (fun v c => 10 * v + digitValue c) 0
    if negative then -value else value

/-- The floating-point value, unless it is too large. Digits that do not fit a word are counted, not read. -/
def magnitude? (n : Numeral) : Option Binary :=
  let (value, skipped) := takeDigits 0 n.whole
  let fraction := n.fraction.getD []
  let (value, unread) := takeDigits value fraction
  let read := fraction.length - unread
  scaleDigits value ((skipped : Int) - read + n.exponentValue)

/-- The value of a numeral, unless it is too large. Minus zero is no integer. -/
def value? (n : Numeral) : Option Number :=
  let (value, skipped) := takeDigits 0 n.whole
  let isInteger := n.fraction.isNone && n.exponent.isNone && skipped = 0
  if isInteger && !n.negative then
    some (.int value)
  else if isInteger && value ≠ 0 && value ≤ 9223372036854775808 then
    some (.int (-value))
  else
    n.magnitude?.map (.float n.negative)

end Numeral

end AdviceWeaving
