/-
Reading a decimal number as a single.

The text is an optional sign and either one of the words `inf`, `infinity`, `nan` in any case, or
digits with an optional point and an optional exponent, at least one digit standing before or
after the point. The value `d * 10^p` is rounded once: for negative `p` the quotient is formed with
enough binary places that a sticky bit decides as the exact value would. Numbers whose first
digit stands more than 45 places before the point overflow, and those whose first digit stands
more than 60 places after it vanish, so the powers of ten stay small.
-/
import Dynarec.Single.Rounding
import Dynarec.Text.Digits

set_option autoImplicit false

namespace Dynarec.Single

open Dynarec.Text (digitIn? digits? digitsFrom?)

/-- An ASCII digit. -/
def isDigit (c : Char) : Bool := (digitIn? 10 c).isSome

/-- The pattern, without sign, of the single nearest to `d * 10^p`. -/
def magnitudeOfDecimal (d : Nat) (p : Int) : Nat :=
  let lead := ((Nat.toDigits 10 d).length : Int) + p
  if d = 0 then 0
  else if 45 < lead then 0x7f800000
  else if lead < -60 then 0
  else if 0 ≤ p then magnitudeOfScaled (d * Nat.pow 10 p.toNat) 0
  else
    let t : Nat := Nat.pow 10 (-p).toNat
    let k := t.log2 + 64
    let n := d * twoTo k
    magnitudeOfScaled (withSticky (n / t) (n % t != 0)) (-(k : Int) - 1)

/-- The exponent part of a decimal: nothing, or `e`, an optional sign and digits. -/
def exponentPart? : List Char → Option Int
  | [] => some 0
  | c :: rest =>
    if c = 'e' ∨ c = 'E' then
      match rest with
      | '-' :: ds => (digits? 10 ds).map fun n => -(n : Int)
      | '+' :: ds => (digits? 10 ds).map fun n => (n : Int)
      | ds => (digits? 10 ds).map fun n => (n : Int)
    else none

/-- The part of a decimal after its integer digits: the fraction digits and the exponent part. -/
def fractionSplit : List Char → List Char × List Char
  | '.' :: rest => (rest.takeWhile isDigit, rest.dropWhile isDigit)
  | rest => ([], rest)

/-- An unsigned decimal: its pattern, if the text is one. -/
def unsignedDecimal? (cs : List Char) : Option Nat :=
  let whole := cs.takeWhile isDigit
  let (frac, rest) := fractionSplit (cs.dropWhile isDigit)
  if whole.isEmpty && frac.isEmpty then none
  else
    match digitsFrom? 10 0 (whole ++ frac), exponentPart? rest with
    | some d, some x => some (magnitudeOfDecimal d (x - (frac.length : Int)))
    | _, _ => none

/-- The words for the values that have no digits. -/
def namedMagnitude? (cs : List Char) : Option Nat :=
  let lower := cs.map Char.toLower
  if lower = "nan".toList then some 0x7fc00000
  else if lower = "inf".toList ∨ lower = "infinity".toList then some 0x7f800000
  else none

/-- The pattern of a decimal text, if it is one. -/
def ofText? (cs : List Char) : Option Word :=
  let (negative, body) :=
    match cs with
    | '-' :: rest => (true, rest)
    | '+' :: rest => (false, rest)
    | _ => (false, cs)
  match unsignedDecimal? body with
  | some m => some (zero negative ||| UInt32.ofNat m)
  | none => (namedMagnitude? body).map fun m => zero negative ||| UInt32.ofNat m

end Dynarec.Single
