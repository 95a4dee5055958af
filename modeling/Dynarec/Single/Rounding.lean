/-
Rounding an exact value to single precision.

Every operation of this folder first forms its exact result as `± m * 2^e`, or a value of that
shape that lies on the same side of every rounding boundary, and then rounds once. The unit in the
last place of the result is `2^q` with `q` chosen so that at most 24 bits remain, but never below
`2^-149`; the number of units is rounded to the nearest integer, a tie going to the even one. The
pattern is then `(q + 149) * 2^23 + units`: that one sum is right for subnormals (`q = -149` and
fewer than `2^23` units), for normal numbers (the hidden bit raises the exponent field by one), and
when rounding carries into the next binade. A sum at or beyond the infinity's pattern is an
overflow and becomes the infinity.
-/
import Dynarec.Single.Basic

set_option autoImplicit false

namespace Dynarec.Single

/-- `m / 2^k` rounded to the nearest natural number, a tie going to the even one. -/
def halfEven (m k : Nat) : Nat :=
  let floor := m / twoTo k
  let rest := m % twoTo k
  if 2 * rest < twoTo k then floor
  else if twoTo k < 2 * rest then floor + 1
  else if floor % 2 = 0 then floor else floor + 1

/-- The exponent of the unit in the last place for the value `m * 2^e`. -/
def unitExponent (m : Nat) (e : Int) : Int :=
  max (e + (m.log2 : Int) - 23) (-149)

/-- The number of units of `2^q` nearest to `m * 2^e`. -/
def unitsOf (m : Nat) (e q : Int) : Nat :=
  if q ≤ e then m * twoTo (e - q).toNat else halfEven m (q - e).toNat

/-- The pattern, without sign, of the single nearest to `m * 2^e`. -/
def magnitudeOfScaled (m : Nat) (e : Int) : Nat :=
  if m = 0 then 0
  else
    let q := unitExponent m e
    min ((q + 149).toNat * twoTo 23 + unitsOf m e q) 0x7f800000

/-- The single nearest to `± m * 2^e`, a tie going to the even pattern. -/
def ofScaled (negative : Bool) (m : Nat) (e : Int) : Word :=
  zero negative ||| UInt32.ofNat (magnitudeOfScaled m e)

/-- `2 * floor + 1` or `2 * floor`, as there is a remainder or not. A truncated result with this
mark rounds as the exact one does, provided `floor` has at least 25 bits. -/
def withSticky (floor : Nat) (inexact : Bool) : Nat := 2 * floor + (if inexact then 1 else 0)

end Dynarec.Single
