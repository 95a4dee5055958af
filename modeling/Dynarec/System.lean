/-
What the operating system is asked for.

Code lives in memory that is mapped for it. Whether there is such memory, and whether its protection
can be changed, is not known before the system has been asked, so its answers are given from
outside.
-/
import Dynarec.Bits

set_option autoImplicit false

namespace Dynarec

/-- The answers of an operating system. A refusal comes with its reason. -/
structure System where
  /-- The size of a page is a power of two, and this is its exponent. -/
  pageBits : Nat
  /-- Map as many bytes twice, to be written and to be run. -/
  mapTwice : Nat → Except String Unit
  /-- Map as many bytes once. -/
  mapOnce : Nat → Except String Unit
  /-- Change the protection of what is mapped once; the changes that are asked for are numbered. -/
  protect : Nat → Except String Unit

namespace System

/-- The size of a page. -/
def pageSize (sys : System) : Nat := twoTo sys.pageBits

end System

end Dynarec
