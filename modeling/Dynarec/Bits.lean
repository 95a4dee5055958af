/-
Words and what is done to their bits.

A guest register slot, a guest address and a pool constant are all 32-bit words, and the guest
reads the same word as unsigned or as two's complement. This file holds the operations that
depend only on the bits: the signed view, the two right shifts, rotation, byte and bit reversal,
counting leading zeros and the two sign extensions. Shift and rotate amounts count modulo 32, so
every operation is defined for every pair of words.
-/

set_option autoImplicit false

namespace Dynarec

/-- The power of two with the given exponent. -/
def twoTo (k : Nat) : Nat := Nat.pow 2 k

/-- The number of double words. Counts, sizes and offsets on the host are double words. -/
def doubleWords : Nat := twoTo 64

/-- A guest word: 32 bits, arithmetic modulo `2^32`. -/
abbrev Word := UInt32

namespace Word

/-- The two's complement value of a word. -/
def signed (w : Word) : Int := w.toInt32.toInt

/-- Signed comparison of two words. -/
def slt (a b : Word) : Bool := decide (signed a < signed b)

/-- The word `1` or `0` for a truth value. -/
def ofBool (b : Bool) : Word := if b then 1 else 0

/-- Arithmetic right shift, the amount taken modulo 32. -/
def sar (w n : Word) : Word := (w.toInt32 >>> (n &&& 31).toInt32).toUInt32

/-- Right rotation, the amount taken modulo 32. -/
def ror (w n : Word) : Word :=
  let k := n &&& 31
  (w >>> k) ||| (w <<< ((32 - k) &&& 31))

/-- The larger of two words read as signed. -/
def smax (a b : Word) : Word := if slt a b then b else a

/-- The smaller of two words read as signed. -/
def smin (a b : Word) : Word := if slt b a then b else a

/-- The two bytes of each half exchanged. -/
def swapHalves (w : Word) : Word :=
  ((w &&& (0xff00ff00 : Word)) >>> 8) ||| ((w &&& (0x00ff00ff : Word)) <<< 8)

/-- The four bytes in opposite order. -/
def swapBytes (w : Word) : Word :=
  (w <<< 24) ||| ((w &&& (0xff00 : Word)) <<< 8) ||| ((w >>> 8) &&& (0xff00 : Word)) ||| (w >>> 24)

/-- The 32 bits in opposite order. -/
def reverse (w : Word) : Word := UInt32.ofBitVec w.toBitVec.reverse

/-- The number of zero bits above the highest set bit, 32 for zero. -/
def leadingZeros (w : Word) : Word := UInt32.ofBitVec w.toBitVec.clz

/-- The low byte, sign extended. -/
def extend8 (w : Word) : Word := w.toUInt8.toInt8.toInt32.toUInt32

/-- The low half, sign extended. -/
def extend16 (w : Word) : Word := w.toUInt16.toInt16.toInt32.toUInt32

/-- The four bytes of a word, lowest first. -/
def littleEndian (w : Word) : List UInt8 :=
  [w.toUInt8, (w >>> 8).toUInt8, (w >>> 16).toUInt8, (w >>> 24).toUInt8]

/-- The word whose bytes, lowest first, are the arguments. -/
def ofBytes (b0 b1 b2 b3 : UInt8) : Word :=
  b0.toUInt32 ||| (b1.toUInt32 <<< 8) ||| (b2.toUInt32 <<< 16) ||| (b3.toUInt32 <<< 24)

end Word

/-- The eight bytes of a double word, lowest first. -/
def littleEndian64 (w : UInt64) : List UInt8 :=
  Word.littleEndian w.toUInt32 ++ Word.littleEndian (w >>> 32).toUInt32

end Dynarec
