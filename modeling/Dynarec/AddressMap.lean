/-
Values by guest address.

The entries stand in ascending order of address and no address occurs twice, so the order in which
values were inserted cannot be seen. Inserting at an address that has a value replaces it.
-/
import Dynarec.Bits

set_option autoImplicit false

namespace Dynarec

/-- Values by address, in ascending order. -/
structure AddressMap (α : Type) where
  entries : List (Word × α) := []
  deriving DecidableEq, Repr

namespace AddressMap

variable {α : Type}

/-- The entries with one more value, in front of the first larger address. -/
def insertEntry (addr : Word) (value : α) : List (Word × α) → List (Word × α)
  | [] => [(addr, value)]
  | (k, v) :: rest =>
    if addr < k then (addr, value) :: (k, v) :: rest
    else if addr = k then (addr, value) :: rest
    else (k, v) :: insertEntry addr value rest

/-- The map with a value at an address. -/
def insert (m : AddressMap α) (addr : Word) (value : α) : AddressMap α :=
  { entries := insertEntry addr value m.entries }

/-- The value at an address. -/
def get? (m : AddressMap α) (addr : Word) : Option α :=
  (m.entries.find? fun e => e.1 == addr).map (·.2)

/-- The addresses, ascending. -/
def addresses (m : AddressMap α) : List Word := m.entries.map (·.1)

/-- The values in order of their addresses. -/
def values (m : AddressMap α) : List α := m.entries.map (·.2)

/-- The number of addresses. -/
def size (m : AddressMap α) : Nat := m.entries.length

/-- The map with a list of pairs inserted, a later pair replacing an earlier one. -/
def ofList (pairs : List (Word × α)) : AddressMap α :=
  pairs.foldl (fun m (addr, value) => m.insert addr value) {}

end AddressMap

end Dynarec
