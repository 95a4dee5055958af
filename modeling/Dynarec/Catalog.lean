/-
The blocks that are known, by guest address.

This is `MapFrontend`; `fetch` is its `translate`.
-/
import Dynarec.AddressMap
import Dynarec.Listing.Cursor

set_option autoImplicit false

namespace Dynarec

/-- Blocks by guest address. -/
abbrev Catalog := AddressMap Block

namespace Catalog

/-- The blocks of a listing; of two blocks at one address the later counts. -/
def ofText (text : String) : Except Fault Catalog := do
  return AddressMap.ofList (← Listing.parseModule text)

/-- The block at an address, with a pool of its own. -/
def fetch (c : Catalog) (addr : Word) : Except Fault Block :=
  match c.get? addr with
  | some b => b.copy
  | none => .error (.unknownBlock addr)

end Catalog

end Dynarec
