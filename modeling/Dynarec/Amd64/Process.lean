/-
A process on x86-64.

Pages have 4096 bytes and addresses 47 bits. Whatever fits into the address space twice is mapped,
and what does not has no room in memory either.
-/
import Dynarec.Amd64.Encoding
import Dynarec.Platform

set_option autoImplicit false

namespace Dynarec.Amd64

/-- A system with 4096-byte pages and 47 bits of addresses. -/
def system : System where
  pageBits := 12
  mapTwice size :=
    if 2 * size < twoTo 47 then .ok () else .error "mmap: Cannot allocate memory (os error 12)"
  mapOnce _ := .error "mmap: Cannot allocate memory (os error 12)"
  protect _ := .ok ()

/-- A process that has the interpreter at the given address. -/
def process (helper : UInt64) : Platform where
  host := .amd64
  entersCode := true
  helper := helper
  assemble := assemble
  system := system

end Dynarec.Amd64
