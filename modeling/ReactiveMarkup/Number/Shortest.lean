-- SUMMARY: The shortest decimal that reads back to a floating-point number, and its text.
import ReactiveMarkup.Number.Binary64

/-!
# Shortest decimals

A `Binary64` is written with the fewest digits that read back to it; among decimals of that length
the nearest one is taken, and of two equally near ones the even one. All comparisons are made on
natural numbers. `Binary64.text` lays the digits out: positionally while the exponent of the leading
digit is between -5 and 15, with `.0` after an integral number, and otherwise with a signed
exponent.
-/

namespace ReactiveMarkup

/-- The decimal `digits * 10 ^ exponent`. -/
structure Decimal where
  digits : Nat
  exponent : Int
deriving DecidableEq

namespace Decimal

/-- Compares the decimal with `n * 2 ^ j`. -/
def compareBinary (d : Decimal) (n : Nat) (j : Int) : Ordering :=
  compare (d.digits * Nat.pow 10 d.exponent.toNat * Nat.pow 2 (-j).toNat)
    (n * Nat.pow 2 j.toNat * Nat.pow 10 (-d.exponent).toNat)

/-- The same decimal without zeros at the end of its digits, as far as `fuel` digits go. -/
def stripZeros : Nat → Decimal → Decimal
  | 0, d => d
  | fuel + 1, d =>
    if d.digits ≠ 0 ∧ d.digits % 10 = 0 then stripZeros fuel ⟨d.digits / 10, d.exponent + 1⟩ else d

end Decimal

namespace Binary64

/-! ## Choosing the digits -/

/-- Whether the decimal lies among the reals that round to the absolute value of `x`: between the
midpoints to its two neighbours, with the midpoints included when the significand is even. Just
above a power of two the neighbour below is at half the distance. -/
def readBy (x : Binary64) (d : Decimal) : Bool :=
  let narrow := x.fractionField == 0 && decide (1 < x.exponentField)
  let low := if narrow then 4 * x.significand - 1 else 4 * x.significand - 2
  let high := 4 * x.significand + 2
  let included := x.significand % 2 == 0
  let above := d.compareBinary low (x.scale - 2)
  let below := d.compareBinary high (x.scale - 2)
  (above == .gt || (included && above == .eq)) && (below == .lt || (included && below == .eq))

/-- The least power of ten above the absolute value of `x`, as an exponent. The binary logarithm
leaves three candidates. -/
def decade (x : Binary64) : Int :=
  let estimate := Int.fdiv ((x.significand.log2 + x.scale) * 30103) 100000
  if (Decimal.mk 1 estimate).compareBinary x.significand x.scale == .gt then estimate
  else if (Decimal.mk 1 (estimate + 1)).compareBinary x.significand x.scale == .gt then estimate + 1
  else estimate + 2

/-- The absolute value of `x` divided by `10 ^ e`, as a fraction of natural numbers. -/
def scaledBy (x : Binary64) (e : Int) : Nat × Nat :=
  (x.significand * Nat.pow 2 x.scale.toNat * Nat.pow 10 (-e).toNat,
    Nat.pow 2 (-x.scale).toNat * Nat.pow 10 e.toNat)

/-- The better of the two neighbours of `x` among the multiples of `10 ^ e`, if one reads back. -/
def nearestOnGrid? (x : Binary64) (e : Int) : Option Decimal :=
  let (num, den) := x.scaledBy e
  let low : Decimal := ⟨num / den, e⟩
  let high : Decimal := ⟨num / den + 1, e⟩
  match x.readBy low, x.readBy high with
  | false, false => none
  | true, false => some low
  | false, true => some high
  | true, true =>
    match compare (2 * num) ((low.digits + high.digits) * den) with
    | .lt => some low
    | .gt => some high
    | .eq => some (if low.digits % 2 = 0 then low else high)

/-- The absolute value of `x` as an exact decimal. -/
def exact (x : Binary64) : Decimal :=
  ⟨x.significand * Nat.pow 2 x.scale.toNat * Nat.pow 5 (-x.scale).toNat, min x.scale 0⟩

/-- The shortest decimal that reads back to the absolute value of `x`. Seventeen digits are enough
for any number; should they not be, the exact decimal stands in. -/
def shortest (x : Binary64) : Decimal :=
  let found := (List.range 17).findSome? fun n => x.nearestOnGrid? (x.decade - (n + 1 : Nat))
  Decimal.stripZeros 1100 (found.getD x.exact)

/-! ## Laying the digits out -/

/-- The text of a positive decimal: `digits` are its digits and `lead` is the exponent of the
first. -/
def layOut (digits : List Char) (lead : Int) : String :=
  let zeros (n : Nat) : List Char := List.replicate n '0'
  if -5 ≤ lead ∧ lead ≤ 15 then
    if lead < 0 then
      String.ofList ('0' :: '.' :: zeros (-lead - 1).toNat ++ digits)
    else
      let whole := (digits ++ zeros (lead.toNat + 1 - digits.length)).take (lead.toNat + 1)
      let fraction := digits.drop (lead.toNat + 1)
      String.ofList (whole ++ '.' :: (if fraction.isEmpty then ['0'] else fraction))
  else
    let mantissa := match digits with
      | [] => []
      | [d] => [d]
      | d :: rest => d :: '.' :: rest
    let sign := if lead < 0 then '-' else '+'
    String.ofList (mantissa ++ 'e' :: sign :: Nat.toDigits 10 lead.natAbs)

/-- The text of the number: a minus sign where the sign bit is set, and the shortest digits. -/
def text (x : Binary64) : String :=
  let magnitude :=
    if x.isZero then "0.0"
    else
      let d := x.shortest
      let digits := Nat.toDigits 10 d.digits
      layOut digits (d.exponent + (digits.length : Int) - 1)
  if x.isNegative then "-" ++ magnitude else magnitude

end Binary64

end ReactiveMarkup
