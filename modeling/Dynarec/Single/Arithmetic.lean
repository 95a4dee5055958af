/-
The four operations and the square root in single precision.

Each is the exact result rounded once to nearest even. A NaN operand wins over everything: the
result is the first NaN among the operands, made quiet. An operation that has no numeric result
(infinity minus infinity, zero times infinity, zero by zero, infinity by infinity, the root of a
negative number) gives the quiet NaN with the sign bit set. The order of the operands therefore
matters exactly when both are NaNs.

The guest's multiplication is `f_mul`; the rest is the arithmetic of the host.
-/
import Dynarec.Single.Rounding

set_option autoImplicit false

namespace Dynarec.Single

/-- The first NaN among two operands, made quiet. -/
def firstNaN (a b : Word) : Option Word :=
  if isNaN a then some (quiet a) else if isNaN b then some (quiet b) else none

/-! ## Sum and difference -/

/-- The sum of two finite patterns. A sum of zero is negative only when both operands are. -/
def addFinite (a b : Word) : Word :=
  let e := min (exponent a) (exponent b)
  let s := signedSignificand a * twoTo (exponent a - e).toNat
    + signedSignificand b * twoTo (exponent b - e).toNat
  if s = 0 then zero (isNegative a && isNegative b) else ofScaled (s < 0) s.natAbs e

/-- The sum of two patterns neither of which is a NaN. -/
def addNumbers (a b : Word) : Word :=
  if isInfinite a then
    if isInfinite b && isNegative a != isNegative b then invalid else a
  else if isInfinite b then b
  else addFinite a b

/-- The sum of two patterns. -/
def add (a b : Word) : Word := (firstNaN a b).getD (addNumbers a b)

/-- The difference of two patterns: the sum with the second operand negated, except that a NaN
keeps its sign. -/
def sub (a b : Word) : Word := (firstNaN a b).getD (addNumbers a (negate b))

/-! ## Product -/

/-- The sign of a product or quotient. -/
def signOf (a b : Word) : Bool := isNegative a != isNegative b

/-- The product of two patterns neither of which is a NaN. -/
def mulNumbers (a b : Word) : Word :=
  if (isInfinite a && isZero b) || (isZero a && isInfinite b) then invalid
  else if isInfinite a || isInfinite b then infinity (signOf a b)
  else ofScaled (signOf a b) (significand a * significand b) (exponent a + exponent b)

/-- The product of two patterns. -/
def mul (a b : Word) : Word := (firstNaN a b).getD (mulNumbers a b)

/-- The product as the guest's scalar multiply gives it: infinity times zero is the positive
quiet NaN. -/
def guestMul (a b : Word) : Word :=
  if (isZero b && isInfinite a) || (isZero a && isInfinite b) then canonicalNaN else mul a b

/-! ## Quotient -/

/-- The quotient of two finite patterns, the second not zero. The integer quotient is taken with
64 further bits, so at least 40 stand before the sticky bit. -/
def divFinite (a b : Word) : Word :=
  let n := significand a * twoTo 64
  let d := significand b
  ofScaled (signOf a b) (withSticky (n / d) (n % d != 0)) (exponent a - exponent b - 65)

/-- The quotient of two patterns neither of which is a NaN. -/
def divNumbers (a b : Word) : Word :=
  if (isInfinite a && isInfinite b) || (isZero a && isZero b) then invalid
  else if isInfinite a || isZero b then infinity (signOf a b)
  else if isInfinite b then zero (signOf a b)
  else divFinite a b

/-- The quotient of two patterns. -/
def div (a b : Word) : Word := (firstNaN a b).getD (divNumbers a b)

/-! ## Square root -/

/-- The root of a positive finite pattern. The exponent is made even and the significand given 60
further bits, so the integer root has at least 30 before the sticky bit. -/
def sqrtFinite (a : Word) : Word :=
  let odd := exponent a % 2 ≠ 0
  let m := (if odd then 2 * significand a else significand a) * twoTo 60
  let e := if odd then exponent a - 1 else exponent a
  let r := m.sqrt
  ofScaled false (withSticky r (r * r != m)) (e / 2 - 31)

/-- The square root of a pattern; the root of a zero is that zero. -/
def sqrt (a : Word) : Word :=
  if isNaN a then quiet a
  else if isZero a then a
  else if isNegative a then invalid
  else if isInfinite a then a
  else sqrtFinite a

end Dynarec.Single
