/-
Rounding sizes up, and the zero bytes that fill the gaps.

Code blocks, the sections of an object file and the pages of a code buffer all start at multiples
of some unit. What lies between the end of one thing and the start of the next is zero.
-/

set_option autoImplicit false

namespace Dynarec

/-- The smallest multiple of `unit` that is at least `n`. -/
def alignUp (unit n : Nat) : Nat := (n + (unit - 1)) / unit * unit

/-- Bytes followed by zeros up to the given size; longer bytes stay as they are. -/
def padTo (size : Nat) (bytes : List UInt8) : List UInt8 :=
  bytes ++ List.replicate (size - bytes.length) 0

end Dynarec
