import AdviceWeaving.Decimal.Binary

/-!
# The shortest decimal of a binary number

`Binary.shortest` gives the decimal with the fewest digits among those that round to the number, and of these the
nearest to it. `Binary.text` writes it: in full when the decimal point lies within or near the digits, and with an
exponent otherwise.
-/

namespace AdviceWeaving

/-- The number `digits * 10 ^ exponent`. -/
structure Decimal where
  digits : Nat
  exponent : Int
  deriving DecidableEq, Inhabited

namespace Decimal

/-- The number as a fraction. -/
def fraction (d : Decimal) : Nat × Nat :=
  scaleFraction 10 d.exponent d.digits 1

/-- The same number without zeros at the end of its digits; at most `fuel` of them are taken off. -/
def trimmed (d : Decimal) : Nat → Decimal
  | 0 => d
  | fuel + 1 => if d.digits % 10 = 0 then trimmed ⟨d.digits / 10, d.exponent + 1⟩ fuel else d

end Decimal

/-- The order of two fractions. -/
def compareFractions (a b : Nat × Nat) : Ordering :=
  compare (a.1 * b.2) (b.1 * a.2)

namespace Binary

/-- The ends of the interval of the numbers that round to `b`. Below a power of two the neighbour is only half as far. -/
def roundingInterval (b : Binary) : (Nat × Nat) × (Nat × Nat) :=
  let below := if b.mantissa = mantissaBound / 2 ∧ minExponent < b.exponent then 1 else 2
  (scaleFraction 2 (b.exponent - 2) (4 * b.mantissa - below) 1, scaleFraction 2 (b.exponent - 2) (4 * b.mantissa + 2) 1)

/-- The decimal rounds to `b`. An end of the interval does so when the mantissa is even. -/
def contains (b : Binary) (d : Decimal) : Bool :=
  let (low, high) := b.roundingInterval
  match compareFractions low d.fraction, compareFractions d.fraction high with
  | .lt, .lt => true
  | .eq, .lt => b.mantissa % 2 = 0
  | .lt, .eq => b.mantissa % 2 = 0
  | _, _ => false

/-- How many digits stand before the decimal point; negative for zeros behind the point. -/
def magnitude (b : Binary) : Int :=
  let (n, d) := b.fraction
  ((Nat.toDigits 10 (n * Nat.pow 10 350 / d)).length : Int) - 350

/-- The two decimals with the given number of digits on either side of `b`, the nearer first; of two that are equally
near, the one with the even last digit. -/
def neighbours (b : Binary) (count : Nat) : List Decimal :=
  let exponent := b.magnitude - count
  let (n, d) := scaleFraction 10 (-exponent) b.fraction.1 b.fraction.2
  let down : Decimal := ⟨n / d, exponent⟩
  let up : Decimal := ⟨n / d + 1, exponent⟩
  if roundDiv n d = n / d then [down, up] else [up, down]

/-- The decimal with the fewest digits that rounds to `b`, and of these the nearest. Seventeen digits always do. -/
def shortest (b : Binary) : Decimal :=
  let candidates := (List.range 17).flatMap fun n => b.neighbours (n + 1)
  ((candidates.find? b.contains).getD ⟨0, 0⟩).trimmed 17

/-- The sign and the digits of an exponent. -/
private def exponentText (exponent : Int) : String :=
  (if exponent < 0 then "-" else "+") ++ toString exponent.natAbs

/-- Digits with a point after the first `whole` of them. -/
private def pointed (digits : List Char) (whole : Nat) : String :=
  String.ofList (digits.take whole ++ '.' :: digits.drop whole)

/-- The shortest decimal, in full for numbers from 10 ^ (-5) to below 10 ^ 16, with an exponent otherwise. A number in
full has at least one digit behind the point. -/
def text (b : Binary) : String :=
  if b.mantissa = 0 then
    "0.0"
  else
    let decimal := b.shortest
    let digits := Nat.toDigits 10 decimal.digits
    let length : Int := digits.length
    let point := length + decimal.exponent
    let zeros (n : Int) : List Char := List.replicate n.toNat '0'
    if 0 ≤ decimal.exponent ∧ point ≤ 16 then
      String.ofList (digits ++ zeros decimal.exponent) ++ ".0"
    else if 0 < point ∧ point ≤ 16 then
      pointed digits point.toNat
    else if -5 < point ∧ point ≤ 0 then
      "0." ++ String.ofList (zeros (-point) ++ digits)
    else if length = 1 then
      String.ofList digits ++ "e" ++ exponentText (point - 1)
    else
      pointed digits 1 ++ "e" ++ exponentText (point - 1)

end Binary

end AdviceWeaving
