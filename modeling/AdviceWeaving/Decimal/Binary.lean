/-!
# Numbers with 53 binary digits

A `Binary` is a non-negative number that fits the 64-bit floating-point format: an integer below 2 ^ 53 times a power
of two that is at least 2 ^ (-1074). `Binary.round` takes a fraction to the nearest such number. All arithmetic is on
natural numbers.
-/

namespace AdviceWeaving

/-- The quotient rounded to the nearest integer; of two that are equally near, the even one. -/
def roundDiv (num den : Nat) : Nat :=
  let q := num / den
  let r := num % den
  if 2 * r < den then q else if den < 2 * r then q + 1 else q + q % 2

/-- The number `mantissa * 2 ^ exponent`. -/
structure Binary where
  mantissa : Nat
  exponent : Int
  deriving DecidableEq, Inhabited

/-- The fraction `num / den` times `base ^ exponent`, as a fraction. -/
def scaleFraction (base : Nat) (exponent : Int) (num den : Nat) : Nat × Nat :=
  if 0 ≤ exponent then (num * base.pow exponent.toNat, den) else (num, den * base.pow (-exponent).toNat)

namespace Binary

/-- A mantissa is below two to the power of 53. -/
def mantissaBound : Nat := Nat.pow 2 53

/-- The least exponent. -/
def minExponent : Int := -1074

/-- The number zero. -/
def zero : Binary := ⟨0, minExponent⟩

/-- The number as a fraction. -/
def fraction (b : Binary) : Nat × Nat :=
  scaleFraction 2 b.exponent b.mantissa 1

/-- The nearest number to a fraction; of two that are equally near, the one with the even mantissa. There is none when
it would be 2 ^ 1024 or more. -/
def round (num den : Nat) : Option Binary :=
  if num = 0 then
    some zero
  else
    let scaled (exponent : Int) : Nat × Nat := scaleFraction 2 (-exponent) num den
    let rough : Int := max (num.log2 - den.log2 - 53) minExponent
    let (n, d) := scaled rough
    let exponent := if mantissaBound ≤ n / d then rough + 1 else rough
    let (n, d) := scaled exponent
    let m := roundDiv n d
    let b : Binary := if m = mantissaBound then ⟨mantissaBound / 2, exponent + 1⟩ else ⟨m, exponent⟩
    if b.exponent ≤ 971 then some b else none

/-- The product, rounded. -/
def mul (a b : Binary) : Option Binary :=
  round (a.fraction.1 * b.fraction.1) (a.fraction.2 * b.fraction.2)

/-- The quotient, rounded. -/
def div (a b : Binary) : Option Binary :=
  round (a.fraction.1 * b.fraction.2) (a.fraction.2 * b.fraction.1)

end Binary

end AdviceWeaving
