/-
Reading unsigned numbers.

A number is one or more digits, optionally after one plus sign; leading zeros are allowed. The
base is ten or sixteen, and letters of either case serve as digits in base sixteen.
-/

set_option autoImplicit false

namespace Dynarec.Text

/-- The value of a character as a digit, letters counting from ten. -/
def digitValue? (c : Char) : Option Nat :=
  if '0' ≤ c ∧ c ≤ '9' then some (c.toNat - '0'.toNat)
  else if 'a' ≤ c ∧ c ≤ 'z' then some (c.toNat - 'a'.toNat + 10)
  else if 'A' ≤ c ∧ c ≤ 'Z' then some (c.toNat - 'A'.toNat + 10)
  else none

/-- The value of a character as a digit of the given base. -/
def digitIn? (base : Nat) (c : Char) : Option Nat :=
  match digitValue? c with
  | some d => if d < base then some d else none
  | none => none

/-- The value of a run of digits that follows digits worth `acc`. -/
def digitsFrom? (base acc : Nat) : List Char → Option Nat
  | [] => some acc
  | c :: cs =>
    match digitIn? base c with
    | some d => digitsFrom? base (acc * base + d) cs
    | none => none

/-- The value of a non-empty run of digits. -/
def digits? (base : Nat) : List Char → Option Nat
  | [] => none
  | cs => digitsFrom? base 0 cs

/-- An unsigned number: digits, optionally after one plus sign. -/
def unsigned? (base : Nat) : List Char → Option Nat
  | '+' :: cs => digits? base cs
  | cs => digits? base cs

/-- An unsigned number below `limit`. -/
def unsignedBelow? (base limit : Nat) (cs : List Char) : Option Nat :=
  match unsigned? base cs with
  | some n => if n < limit then some n else none
  | none => none

end Dynarec.Text
