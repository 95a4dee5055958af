/-
Between single precision and integers.

The conversions of the guest (`f_round`, `f_trunc`, `f_ceil`, `f_floor` and `f_cvt_ws`) work on
patterns. A NaN or an infinity has its answer at once (`nan_or_inf_result`). Any other pattern is
rounded to an integer that is a pattern again, and this pattern becomes a word if it is in the range
of words, which is tested in single precision; otherwise it becomes the least word (`cvt_i32`). The
guest's truncation rounds down or up by the sign and takes the least word, where the number is not
negative, for a number too large.
-/
import Dynarec.Single.Compare
import Dynarec.Single.Rounding

set_option autoImplicit false

namespace Dynarec.Single

/-- A direction for rounding to an integer. -/
inductive Direction where
  | nearestEven
  | towardZero
  | up
  | down
  deriving DecidableEq, Repr

/-! ## Rounding to integers -/

/-- `z / d` rounded to an integer in the given direction, for positive `d`. -/
def roundQuotient (dir : Direction) (z d : Int) : Int :=
  let floor := z / d
  let rest := z % d
  match dir with
  | .down => floor
  | .up => if rest = 0 then floor else floor + 1
  | .towardZero => z.tdiv d
  | .nearestEven =>
    if 2 * rest < d then floor
    else if d < 2 * rest then floor + 1
    else if floor % 2 = 0 then floor else floor + 1

/-- The integer a finite pattern rounds to. -/
def toInteger (dir : Direction) (w : Word) : Int :=
  let e := exponent w
  if 0 ≤ e then signedSignificand w * twoTo e.toNat
  else roundQuotient dir (signedSignificand w) (twoTo (-e).toNat)

/-- A pattern rounded to an integer that is a pattern with the same sign. A pattern without places
after the point stays as it is; so do NaNs and infinities. -/
def integral (dir : Direction) (w : Word) : Word :=
  if 0 ≤ exponent w then w else ofScaled (isNegative w) (toInteger dir w).natAbs 0

/-! ## Words -/

/-- The least signed word. -/
def leastWord : Word := 0x80000000

/-- The greatest signed word. -/
def greatestWord : Word := 0x7fffffff

/-- A pattern taken as a signed word: the number without its places after the point, or the word
nearest to it; a NaN is taken as zero. -/
def asWord (w : Word) : Word :=
  if isNaN w then 0
  else if isInfinite w then if isNegative w then leastWord else greatestWord
  else UInt32.ofInt (max (-(twoTo 31 : Int)) (min (toInteger .towardZero w) ((twoTo 31 : Int) - 1)))

/-- The pattern of the least signed word. -/
def leastPattern : Word := 0xcf000000

/-- The pattern of the number after the greatest signed word. -/
def limitPattern : Word := 0x4f000000

/-- A pattern as a signed word (`cvt_i32`): the least word if it is out of range. -/
def toWord (w : Word) : Word :=
  if le leastPattern w && lt w limitPattern then asWord w else leastWord

/-! ## Conversions -/

/-- The answer for patterns that are not finite (`nan_or_inf_result`). -/
def specialWord (w : Word) : Option Word :=
  if isNaN w || isInfinite w then
    some (if isInfinite w && lt w (zero false) then leastWord else greatestWord)
  else none

/-- Conversion to a signed word in the given direction. -/
def convert (dir : Direction) (w : Word) : Word :=
  (specialWord w).getD (toWord (integral dir w))

/-- The guest's truncation (`f_trunc`). -/
def truncate (w : Word) : Word :=
  match specialWord w with
  | some special => special
  | none =>
    if le (zero false) w then
      let result := toWord (integral .down w)
      if result = leastWord then greatestWord else result
    else toWord (integral .up w)

/-- The direction that the two low bits of the float control register select (`f_cvt_ws`). -/
def controlDirection (control : Word) : Direction :=
  match (control &&& 3).toNat with
  | 0 => .nearestEven
  | 1 => .towardZero
  | 2 => .up
  | _ => .down

/-- The single nearest to a signed word. -/
def ofWord (w : Word) : Word :=
  let z := Word.signed w
  ofScaled (z < 0) z.natAbs 0

end Dynarec.Single
