/-
Order of single precision patterns.

Patterns that are not NaNs are ordered like the integers `± magnitude`, the two zeros being one
value. A NaN is neither below, equal to nor above anything. Minimum and maximum of the guest choose
one of the two patterns; with a NaN among them they fall back on the order of the patterns as
signed words, reversed when both are negative.

The guest's minimum, maximum and comparison are `f_min`, `f_max` and `f_cmp`.
-/
import Dynarec.Single.Basic

set_option autoImplicit false

namespace Dynarec.Single

/-- The integer that orders a pattern among its like. -/
def orderKey (w : Word) : Int :=
  if isNegative w then -((magnitude w).toNat : Int) else ((magnitude w).toNat : Int)

/-- One of two patterns is a NaN. -/
def unordered (a b : Word) : Bool := isNaN a || isNaN b

/-- `a < b` as numbers. -/
def lt (a b : Word) : Bool := !unordered a b && decide (orderKey a < orderKey b)

/-- `a = b` as numbers. -/
def eq (a b : Word) : Bool := !unordered a b && decide (orderKey a = orderKey b)

/-- `a ≤ b` as numbers. -/
def le (a b : Word) : Bool := !unordered a b && decide (orderKey a ≤ orderKey b)

/-- The guest's minimum. -/
def minimum (a b : Word) : Word :=
  if unordered a b then
    if isNegative a && isNegative b then Word.smax a b else Word.smin a b
  else if lt b a then b else a

/-- The guest's maximum. -/
def maximum (a b : Word) : Word :=
  if unordered a b then
    if isNegative a && isNegative b then Word.smin a b else Word.smax a b
  else if lt a b then b else a

/-- The eight conditions of a float comparison; only the low three bits of the mode count. The
unordered form of a condition also holds when an operand is a NaN. -/
def compare (mode : UInt8) (a b : Word) : Bool :=
  match (mode &&& 7).toNat with
  | 0 => false
  | 1 => unordered a b
  | 2 => eq a b
  | 3 => eq a b || unordered a b
  | 4 => le a b
  | 5 => !lt b a
  | 6 => lt a b
  | _ => !le b a

end Dynarec.Single
