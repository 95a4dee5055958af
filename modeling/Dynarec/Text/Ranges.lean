/-
Sets of characters given by code point ranges.

The character classes of the listing format are properties of the Unicode standard. Each is a
table of closed ranges in ascending order; this file holds the one test that reads such a table.
-/

set_option autoImplicit false

namespace Dynarec.Text

/-- A set of characters: closed ranges of code points, in ascending order. -/
abbrev Ranges := List (Nat × Nat)

/-- Membership of a character in a table of ranges. -/
def Ranges.has (table : Ranges) (c : Char) : Bool :=
  table.any fun r => r.1 ≤ c.toNat && c.toNat ≤ r.2

end Dynarec.Text
