/-
The table of symbol names in an object file.

Names stand one after the other, each ended by a zero byte, behind one zero byte that serves as
the empty name. A name that another one ends with need not be written again: a reference into the
middle of the longer name reads the same. To find such names the table is filled in the order of
the names read from their ends, longest continuation first, so a name that ends another one comes
right after it or after others that end it too.
-/

set_option autoImplicit false

namespace Dynarec.ObjectFile

/-- The bytes of a name. -/
abbrev NameBytes := List UInt8

/-- The order of two names read from their ends, the larger byte first and the longer name first
where one continues the other. -/
def reversedBefore : NameBytes → NameBytes → Bool
  | _, [] => true
  | [], _ :: _ => false
  | a :: as, b :: bs => b < a || (a == b && reversedBefore as bs)

/-- The order in which names are written. -/
def writtenBefore (a b : NameBytes) : Bool := reversedBefore a.reverse b.reverse

/-- Names in a table. -/
structure NameTable where
  bytes : List UInt8 := [0]
  /-- The name that was written last. -/
  last : NameBytes := []
  /-- Where each name starts. -/
  offsets : List (NameBytes × Nat) := []

namespace NameTable

/-- The table with one more name, which shares the bytes of the last name if it ends it. -/
def add (t : NameTable) (name : NameBytes) : NameTable :=
  if name.isSuffixOf t.last then
    { t with offsets := (name, t.bytes.length - name.length - 1) :: t.offsets }
  else
    { bytes := t.bytes ++ name ++ [0]
      last := name
      offsets := (name, t.bytes.length) :: t.offsets }

/-- The table of the given names. -/
def ofNames (names : List NameBytes) : NameTable :=
  (((names.filter (!·.isEmpty)).eraseDups).mergeSort writtenBefore).foldl add {}

/-- Where a name starts; the empty name is at the front. -/
def offset (t : NameTable) (name : NameBytes) : Nat := (t.offsets.lookup name).getD 0

end NameTable

end Dynarec.ObjectFile
