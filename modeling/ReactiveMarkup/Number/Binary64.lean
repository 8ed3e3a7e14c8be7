-- SUMMARY: Finite double-precision numbers as bit patterns.
/-!
# Binary floating-point numbers

A `Binary64` is a finite double-precision number, held as its bit pattern. The two zeros are equal
numbers with different patterns, and no other pattern repeats a number.
-/

namespace ReactiveMarkup

/-- A finite double-precision number, given by its bits. -/
structure Binary64 where
  bits : UInt64
  /-- The exponent field is not the one of the infinities and of the undefined results. -/
  finite : (bits >>> 52) &&& 0x7FF ≠ 0x7FF
deriving DecidableEq

namespace Binary64

/-- Whether the sign bit is set, which is so for `-0.0` too. -/
def isNegative (x : Binary64) : Bool := x.bits >>> 63 == 1

/-- The exponent field. -/
def exponentField (x : Binary64) : Nat := ((x.bits >>> 52) &&& 0x7FF).toNat

/-- The fraction field. -/
def fractionField (x : Binary64) : Nat := (x.bits &&& 0xFFFFFFFFFFFFF).toNat

/-- The integer `m` in the absolute value `m * 2 ^ q` of the number. -/
def significand (x : Binary64) : Nat :=
  if x.exponentField = 0 then x.fractionField else 0x10000000000000 + x.fractionField

/-- The exponent `q` in the absolute value `m * 2 ^ q` of the number. -/
def scale (x : Binary64) : Int :=
  if x.exponentField = 0 then -1074 else (x.exponentField : Int) - 1075

/-- Whether the number is one of the two zeros. -/
def isZero (x : Binary64) : Bool := x.significand == 0

/-- Numeric equality: the zeros are equal, and otherwise the bits decide. -/
def same (x y : Binary64) : Bool := x.bits == y.bits || (x.isZero && y.isZero)

/-- Positive zero. -/
def zero : Binary64 := ⟨0, by decide⟩

instance : Inhabited Binary64 := ⟨zero⟩

theorem same_self (x : Binary64) : x.same x = true := by
  simp [same]

end Binary64

end ReactiveMarkup
