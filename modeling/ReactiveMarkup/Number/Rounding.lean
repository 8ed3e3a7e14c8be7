-- SUMMARY: The floating-point number nearest to a fraction.
import ReactiveMarkup.Number.Binary64

/-!
# Rounding to floating-point numbers

`Binary64.ofRatio?` is the number nearest to a fraction of natural numbers, with ties to the even
significand. Products and quotients are rounded once, from their exact values. All of them are
missing where the result is beyond the finite numbers.
-/

namespace ReactiveMarkup.Binary64

/-! ## Fractions -/

/-- The natural number nearest to `num / den`, with ties to the even one. -/
def roundQuotient (num den : Nat) : Nat :=
  let quotient := num / den
  match compare (2 * (num % den)) den with
  | .lt => quotient
  | .eq => quotient + quotient % 2
  | .gt => quotient + 1

/-- The exponent of the greatest power of two that is not above the fraction `num / den` of positive
numbers. The binary logarithms leave two candidates. -/
def binade (num den : Nat) : Int :=
  let estimate : Int := (num.log2 : Int) - (den.log2 : Int)
  if den * Nat.pow 2 estimate.toNat ≤ num * Nat.pow 2 (-estimate).toNat then estimate
  else estimate - 1

/-- The number with a sign and the magnitude `num / den`, rounded to the nearest. Significands have
53 bits, fewer where the exponent has reached its least value. One that rounds up to the next power
of two carries into the exponent field, as it should. -/
def ofRatio? (negative : Bool) (num den : Nat) : Option Binary64 :=
  let scale : Int := if num = 0 then -1074 else max (binade num den - 52) (-1074)
  let significand := roundQuotient (num * Nat.pow 2 (-scale).toNat) (den * Nat.pow 2 scale.toNat)
  let magnitude := (scale + 1074).toNat * 0x10000000000000 + significand
  if magnitude < 0x7FF0000000000000 then
    let bits := UInt64.ofNat magnitude
    let bits := if negative then bits ||| 0x8000000000000000 else bits
    if h : (bits >>> 52) &&& 0x7FF ≠ 0x7FF then some ⟨bits, h⟩ else none
  else none

/-! ## Arithmetic -/

/-- The absolute value of the number as a fraction. -/
def ratio (x : Binary64) : Nat × Nat :=
  (x.significand * Nat.pow 2 x.scale.toNat, Nat.pow 2 (-x.scale).toNat)

/-- The product, rounded to the nearest number. -/
def mul? (x y : Binary64) : Option Binary64 :=
  ofRatio? (x.isNegative != y.isNegative) (x.ratio.1 * y.ratio.1) (x.ratio.2 * y.ratio.2)

/-- The quotient, rounded to the nearest number. There is none by zero. -/
def div? (x y : Binary64) : Option Binary64 :=
  if y.isZero then none
  else ofRatio? (x.isNegative != y.isNegative) (x.ratio.1 * y.ratio.2) (x.ratio.2 * y.ratio.1)

/-! ## Powers of ten -/

/-- The exponent of the greatest power of ten among the finite numbers. -/
def maxPower : Nat := 308

/-- The number nearest to `10 ^ exponent`. -/
def powerOfTen? (exponent : Nat) : Option Binary64 :=
  if exponent ≤ maxPower then ofRatio? false (Nat.pow 10 exponent) 1 else none

/-- The number multiplied by `10 ^ exponent`. The power is rounded, and then the product. -/
def timesPower? (x : Binary64) (exponent : Nat) : Option Binary64 :=
  if x.isZero then some x
  else do x.mul? (← powerOfTen? exponent)

/-- The number divided by `10 ^ exponent`. The power is rounded, and then the quotient; a power
beyond the finite numbers is divided by in steps. -/
def overPower? (x : Binary64) (exponent : Nat) : Option Binary64 :=
  if _h : exponent ≤ maxPower then do x.div? (← powerOfTen? exponent)
  else if x.isZero then some x
  else do overPower? (← x.div? (← powerOfTen? maxPower)) (exponent - maxPower)
termination_by exponent
decreasing_by
  have : maxPower = 308 := rfl
  omega

end ReactiveMarkup.Binary64
