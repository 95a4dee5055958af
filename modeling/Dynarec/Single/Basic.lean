/-
Single precision numbers as bit patterns.

A pattern is a sign bit, eight exponent bits and 23 fraction bits. Exponent 255 is an infinity or,
with a fraction, a NaN; exponent 0 is a zero or a subnormal; any other exponent adds the hidden
bit. A finite pattern is worth `± m * 2^e` for natural `m` and integer `e` (`significand`,
`exponent`), and everything else in this folder is exact arithmetic on that pair. The host's
floating point is never used, so what is computed here is defined by this text alone.
-/
import Dynarec.Bits

set_option autoImplicit false

namespace Dynarec.Single

/-! ## Fields -/

/-- The sign bit. -/
def isNegative (w : Word) : Bool := w &&& 0x80000000 != 0

/-- The pattern without its sign bit. -/
def magnitude (w : Word) : Word := w &&& 0x7fffffff

/-- The pattern with the opposite sign bit. -/
def negate (w : Word) : Word := w ^^^ 0x80000000

/-- The eight exponent bits. -/
def exponentField (w : Word) : Nat := ((w >>> 23) &&& 0xff).toNat

/-- The 23 fraction bits. -/
def fraction (w : Word) : Nat := (w &&& 0x7fffff).toNat

/-! ## Classes -/

/-- Not a number. -/
def isNaN (w : Word) : Bool := exponentField w == 255 && fraction w != 0

/-- One of the two infinities. -/
def isInfinite (w : Word) : Bool := exponentField w == 255 && fraction w == 0

/-- One of the two zeros. -/
def isZero (w : Word) : Bool := magnitude w == 0

/-! ## The value of a finite pattern -/

/-- The natural number `m` in the value `± m * 2^e`. -/
def significand (w : Word) : Nat :=
  if exponentField w = 0 then fraction w else fraction w + twoTo 23

/-- The exponent `e` in the value `± m * 2^e`. -/
def exponent (w : Word) : Int :=
  if exponentField w = 0 then -149 else (exponentField w : Int) - 150

/-- The significand with the sign of the pattern. -/
def signedSignificand (w : Word) : Int :=
  if isNegative w then -(significand w : Int) else (significand w : Int)

/-! ## Particular patterns -/

/-- The zero with the given sign. -/
def zero (negative : Bool) : Word := if negative then 0x80000000 else 0

/-- The infinity with the given sign. -/
def infinity (negative : Bool) : Word := if negative then 0xff800000 else 0x7f800000

/-- What an operation without a numeric result leaves: the quiet NaN with the sign bit set. -/
def invalid : Word := 0xffc00000

/-- The positive quiet NaN. -/
def canonicalNaN : Word := 0x7fc00000

/-- A NaN with its quiet bit set. -/
def quiet (w : Word) : Word := w ||| 0x00400000

end Dynarec.Single
