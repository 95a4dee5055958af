/-
Guest memory: a flat array of bytes, words stored lowest byte first.

An access names an address and a size and is allowed when its last byte lies inside the memory,
the sum taken without wrapping. A refused access changes nothing. A memory can be created if its
size is a signed double word.

This is `GuestMemory`: `new`, `range`, the reads and the writes.
-/
import Dynarec.Fault

set_option autoImplicit false

namespace Dynarec.Guest

/-- The bytes of guest memory. -/
structure Memory where
  bytes : Array UInt8
  deriving DecidableEq, Repr

namespace Memory

/-- Zeroed memory of the given size. -/
def zeroed (size : Nat) : Memory := { bytes := Array.replicate size 0 }

/-- The sizes that a memory can have are below this one. -/
def sizeLimit : Nat := twoTo 63

/-- Zeroed memory of the given size, if there can be such a memory. -/
def create (size : Nat) : Except Fault Memory :=
  if size < sizeLimit then .ok (zeroed size) else .error .overflow

/-- The number of bytes. -/
def size (m : Memory) : Nat := m.bytes.size

/-- An access of `count` bytes at `addr` stays inside the memory. -/
def covers (m : Memory) (addr : Word) (count : Nat) : Bool := addr.toNat + count ≤ m.size

/-- The byte at a position, zero outside the memory. -/
def byteAt (m : Memory) (pos : Nat) : UInt8 := m.bytes.getD pos 0

/-- Refuse an access that leaves the memory. -/
def check (m : Memory) (addr : Word) (count : Nat) : Except Fault Unit :=
  if m.covers addr count then .ok () else .error (.memory addr (UInt32.ofNat count))

/-- The byte at an address. -/
def read8 (m : Memory) (addr : Word) : Except Fault UInt8 := do
  m.check addr 1
  return m.byteAt addr.toNat

/-- The half word at an address, as a word. -/
def read16 (m : Memory) (addr : Word) : Except Fault Word := do
  m.check addr 2
  let p := addr.toNat
  return Word.ofBytes (m.byteAt p) (m.byteAt (p + 1)) 0 0

/-- The word at an address. -/
def read32 (m : Memory) (addr : Word) : Except Fault Word := do
  m.check addr 4
  let p := addr.toNat
  return Word.ofBytes (m.byteAt p) (m.byteAt (p + 1)) (m.byteAt (p + 2)) (m.byteAt (p + 3))

/-- Bytes put down one after the other from a position. -/
def putBytes (bytes : Array UInt8) (pos : Nat) : List UInt8 → Array UInt8
  | [] => bytes
  | b :: bs => putBytes (bytes.setIfInBounds pos b) (pos + 1) bs

/-- The memory with `data` written at an address. -/
def write (m : Memory) (addr : Word) (data : List UInt8) : Except Fault Memory := do
  m.check addr data.length
  return { bytes := putBytes m.bytes addr.toNat data }

end Memory

end Dynarec.Guest
