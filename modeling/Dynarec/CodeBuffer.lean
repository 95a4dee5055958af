/-
The buffer that compiled blocks live in.

A buffer has a capacity, a whole number of pages. Blocks are put down one after the other at
multiples of sixteen bytes and never move, so a block that was placed once can be read back for as
long as the buffer is not reset. Resetting forgets the blocks but does not clear the bytes: a gap
between two later blocks may still show what stood there before.

If the system maps memory twice, one view is for writing and one for running. Otherwise there is a
single view, whose protection is changed before and after a block is written. The second change may
be refused when the block is in place: then it takes up its room although it was never handed out.
Sizes and offsets are double words, and a sum that leaves them is an overflow.

The operations are those of `CodeBuffer`: `new`, `set_writable`, `append`, `commit`, `exec_ptr`,
`bytes` and `reset`.
-/
import Dynarec.Fault
import Dynarec.Padding
import Dynarec.System

set_option autoImplicit false

namespace Dynarec

/-- A run of bytes in a buffer. -/
structure Extent where
  offset : Nat
  length : Nat
  deriving DecidableEq, Repr

namespace Extent

/-- The offset after the last byte. -/
def stop (e : Extent) : Nat := e.offset + e.length

end Extent

/-- How a buffer is mapped. -/
inductive Mapping where
  /-- Twice: always writable through one view, and never through the other. -/
  | twice
  /-- Once: either writable or to be run. -/
  | once (writable : Bool)
  deriving DecidableEq, Repr

/-- A buffer for code. -/
structure CodeBuffer where
  capacity : Nat
  mapping : Mapping
  /-- How many changes of protection have been asked for. -/
  changes : Nat := 0
  /-- The bytes that were ever written, from the start of the buffer; all after them are zero. -/
  contents : List UInt8 := []
  /-- The offset after the last block. -/
  used : Nat := 0
  deriving DecidableEq, Repr

namespace CodeBuffer

/-- The unit at which blocks start. -/
def blockUnit : Nat := 16

/-- The lengths that a run of bytes can have are below this one. -/
def lengthLimit : Nat := twoTo 63

/-- An empty buffer of at least `size` bytes. -/
def create (sys : System) (size : Nat) : Except Fault CodeBuffer :=
  if size = 0 then .error (.codeBuffer .zeroSized)
  else do
    discard (asDouble (size + sys.pageSize))
    let capacity := alignUp sys.pageSize size
    match sys.mapTwice capacity with
    | .ok () => return { capacity := capacity, mapping := .twice }
    | .error _ =>
      match sys.mapOnce capacity with
      | .ok () => return { capacity := capacity, mapping := .once true }
      | .error reason => throw (.codeBuffer (.refused reason))

/-- The number of bytes after the last block. -/
def remaining (b : CodeBuffer) : Nat := b.capacity - b.used

/-- Where the next block will start. -/
def nextOffset (b : CodeBuffer) : Nat := alignUp blockUnit b.used

/-- Bytes with `code` in place of what stands at an offset. -/
def overwrite (bytes : List UInt8) (offset : Nat) (code : List UInt8) : List UInt8 :=
  (padTo offset bytes).take offset ++ code ++ bytes.drop (offset + code.length)

/-- Where a block of the given length goes. -/
def place (b : CodeBuffer) (length : Nat) : Except Fault Extent :=
  let offset := b.nextOffset
  if b.capacity < offset + length then
    .error (.codeBuffer (.outOfSpace length (b.capacity - offset)))
  else .ok { offset := offset, length := length }

/-- Make a buffer that is mapped once writable, or ready to be run. -/
def setWritable (sys : System) (writable : Bool) (b : CodeBuffer) :
    Except Fault Unit × CodeBuffer :=
  match b.mapping with
  | .twice => (.ok (), b)
  | .once current =>
    if current = writable then (.ok (), b)
    else
      match sys.protect b.changes with
      | .ok () => (.ok (), { b with mapping := .once writable, changes := b.changes + 1 })
      | .error reason =>
        (.error (.codeBuffer (.refused reason)), { b with changes := b.changes + 1 })

/-- The buffer with a block written. -/
def write (b : CodeBuffer) (e : Extent) (code : List UInt8) : CodeBuffer :=
  { b with contents := overwrite b.contents e.offset code, used := e.stop }

/-- Add a block: where it is, and the buffer afterwards. -/
def append (sys : System) (b : CodeBuffer) (code : List UInt8) : Except Fault Extent × CodeBuffer :=
  match b.place code.length with
  | .error f => (.error f, b)
  | .ok e =>
    match b.setWritable sys true with
    | (.error f, b) => (.error f, b)
    | (.ok (), b) =>
      match (b.write e code).setWritable sys false with
      | (.error f, b) => (.error f, b)
      | (.ok (), b) => (.ok e, b)

/-- Add a block that repeats a byte. -/
def appendFill (sys : System) (b : CodeBuffer) (count : Nat) (byte : UInt8) :
    Except Fault Extent × CodeBuffer :=
  if lengthLimit ≤ count then (.error .overflow, b)
  else
    match b.place count with
    | .error f => (.error f, b)
    | .ok e => b.append sys (List.replicate e.length byte)

/-- An offset that code may be entered at. -/
def entryPoint (b : CodeBuffer) (offset : Nat) : Except Fault Nat :=
  if offset ≤ b.capacity then .ok offset else violate (.codeOffset offset)

/-- The bytes of a run, which must not go past the last block. -/
def read (b : CodeBuffer) (e : Extent) : Except Fault (List UInt8) := do
  let stop ← asDouble e.stop
  if b.used < stop then violate .codeRange
  return (b.contents.drop e.offset).take e.length

/-- The buffer without its blocks. -/
def reset (b : CodeBuffer) : CodeBuffer := { b with used := 0 }

end CodeBuffer

end Dynarec
