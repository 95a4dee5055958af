/-
Constants that fit into an instruction.

A logical instruction takes a bitmask: an element of 2, 4, 8, 16, 32 or 64 bits, repeated to the
width of the operation, where the element is a run of ones, neither empty nor full, rotated right.
The element size and the length of the run share one field: the size is given by the place of the
highest zero bit of `n : s`, and the bits below it are the length less one.

The way from a value to its fields (`logical_imm`) takes the first run of ones and the distance to
the next one, and compares the value with copies of that run at that distance. A value whose lowest
bit is set is inverted first, so that its first run is not the upper part of a run that was rotated
across the end. The way back (`decode_logical_imm`) lays out the element as often as it fits.

An addition takes twelve bits, as they are or shifted left by twelve.
-/
import Dynarec.Fault

set_option autoImplicit false

namespace Dynarec.Aarch64

/-- The fields of a bitmask: the size bit, size and length, and rotation. -/
structure Mask where
  n : UInt8
  s : UInt8
  r : UInt8
  deriving DecidableEq, Repr

namespace Mask

/-- The element of `size` bits with `ones` one bits from the bottom, rotated right by `r`. -/
def element (size ones r : Nat) : Nat :=
  let run := twoTo ones - 1
  (run >>> r ||| run <<< (size - r)) % twoTo size

/-- `count` copies of an element of `size` bits. -/
def repeated (size element : Nat) : Nat → Nat
  | 0 => 0
  | count + 1 => element <<< (count * size) ||| repeated size element count

/-! ## From fields to values -/

/-- The value of a mask at a width, unless the fields are reserved. Fields that describe an
element or a width of more than 64 bits overflow. -/
def decode (m : Mask) (width : Nat) : Except Fault (Option UInt64) :=
  if width = 32 ∧ m.n ≠ 0 then .ok none
  else
    let sizeBits := m.n.toNat <<< 6 ||| (63 - m.s.toNat % 64)
    let size := twoTo sizeBits.log2
    let ones := m.s.toNat % size
    if sizeBits < 2 ∨ ones = size - 1 then .ok none
    else
      let count := (width + size - 1) / size
      if 64 < size ∨ 64 < count * size then .error .overflow
      else
        let value := repeated size (element size (ones + 1) (m.r.toNat % size)) count
        .ok (some (UInt64.ofNat (if width = 32 then value % twoTo 32 else value)))

/-! ## From values to fields -/

/-- The lowest one bit of a value; zero has none. -/
def lowestBit (v : UInt64) : UInt64 := v &&& (0 - v)

/-- The number of zero bits above the highest one bit, 64 for zero. -/
def leadingZeros (v : UInt64) : Nat := if v = 0 then 64 else 63 - v.toNat.log2

/-- One at bit `d`, which has to be the number of a bit. -/
def oneAt (d : Int32) : Except Fault UInt64 :=
  if 0 ≤ d ∧ d < 64 then .ok ((1 : UInt64) <<< d.toInt64.toUInt64) else .error .overflow

/-- A word has exactly one bit. -/
def isPowerOfTwo (w : Word) : Bool := w != 0 && w &&& (w - 1) == 0

/-- The factors that repeat an element of 64, 32, 16, 8, 4 and 2 bits. -/
def multipliers : List UInt64 :=
  [0x0000000000000001, 0x0000000100000001, 0x0001000100010001, 0x0101010101010101,
   0x1111111111111111, 0x5555555555555555]

/-- The factor for an element of `d` bits, found by the place of the highest bit of `d`. -/
def multiplier (d : Int32) : Except Fault UInt64 :=
  let zeros := leadingZeros d.toInt64.toUInt64
  if zeros < 57 then .error .overflow
  else
    match multipliers[zeros - 57]? with
    | some m => .ok m
    | none => .error .outOfBounds

/-- Whether the value is inverted to clear its lowest bit, and the double word to look at: 32 bits
are written twice. -/
def prepare (value : UInt64) (width : Nat) : Bool × UInt64 :=
  let low := if width = 32 then value &&& 0xffffffff else value
  let negated := low &&& 1 != 0
  let even := if negated then ~~~low else low
  let high := even <<< 32
  (negated, if width = 32 then high ||| high >>> 32 else even)

/-- The size of the element, the mask of its bits and the size bit of the fields, from the first one
bit `a` and the first one bit `c` after the first run. Without a second run the element is the whole
double word, and zero has no element. -/
def period (a c : UInt64) : Except Fault (Option (Int32 × UInt64 × UInt8)) :=
  if c ≠ 0 then do
    let d := Int32.ofNat (leadingZeros a) - Int32.ofNat (leadingZeros c)
    let bit ← oneAt d
    return some (d, bit - 1, 0)
  else if a = 0 then .ok none
  else .ok (some (64, 0xffffffffffffffff, 1))

/-- The fields of an element of `d` bits, from the leading zeros of the first bit of its run and of
the first bit above the run. The run of an inverted value begins where the other one ends. -/
def ofRun (negated : Bool) (n : UInt8) (d zerosFirst zerosAbove : Int32) : Mask :=
  let length := zerosFirst - zerosAbove
  let ones := if negated then d - length else length
  let last := if negated then zerosAbove else zerosFirst
  { n := n, s := (((-d) <<< 1) ||| (ones - 1)).toInt8.toUInt8 &&& 0x3f,
    r := ((last + 1) &&& (d - 1)).toInt8.toUInt8 }

/-- The fields of a double word with its lowest bit clear. The first run of ones goes from bit `a`
up to bit `b`, and the next one begins at bit `c`; then only copies of that one run are left to
compare with. -/
def ofEven? (negated : Bool) (value : UInt64) : Except Fault (Option Mask) := do
  let a := lowestBit value
  let b := lowestBit (value + a)
  let c := lowestBit (value + a - b)
  match ← period a c with
  | none => return none
  | some (d, mask, n) =>
    if ¬ isPowerOfTwo d.toUInt32 then return none
    else if (b - a) &&& ~~~mask ≠ 0 then return none
    else
      let candidate := (b - a) * (← multiplier d)
      if value ≠ candidate then return none
      else
        let zerosAbove := if b = 0 then -1 else Int32.ofNat (leadingZeros b)
        return some (ofRun negated n d (Int32.ofNat (leadingZeros a)) zerosAbove)

/-- The fields of a value at a width; an operation is 32 or 64 bits wide. -/
def ofValue? (value : UInt64) (width : Nat) : Except Fault (Option Mask) :=
  if width = 32 ∨ width = 64 then
    let (negated, even) := prepare value width
    ofEven? negated even
  else violate (.maskWidth width)

end Mask

/-- The twelve bits of an addition's constant and whether they are shifted left by twelve. -/
def arithmeticImmediate? (value : UInt64) : Option (Word × Bool) :=
  if value < 4096 then some (value.toUInt32, false)
  else if value &&& 0xfff000 = value then some ((value >>> 12).toUInt32, true)
  else none

end Dynarec.Aarch64
