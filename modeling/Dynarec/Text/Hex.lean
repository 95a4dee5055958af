/-
Numbers in base sixteen, lowercase, as every report of this library writes them: with the `0x`
mark and as many digits as needed, with the mark and eight digits, or as bare digit pairs for
code bytes.
-/
import Dynarec.Bits

set_option autoImplicit false

namespace Dynarec.Text

/-- The digits of `n` in base sixteen. -/
def hexDigits (n : Nat) : String := String.ofList (Nat.toDigits 16 n)

/-- The digits of `n` in base sixteen, filled up with zeros on the left to `width` digits. -/
def hexPadded (width n : Nat) : String :=
  let digits := Nat.toDigits 16 n
  String.ofList (List.replicate (width - digits.length) '0' ++ digits)

/-- `n` with the `0x` mark and no filling. -/
def hex (n : Nat) : String := "0x" ++ hexDigits n

/-- A guest address or register value: the mark and at least eight digits. -/
def hex8 (n : Nat) : String := "0x" ++ hexPadded 8 n

/-- A code byte: two digits. -/
def hexByte (b : UInt8) : String := hexPadded 2 b.toNat

/-- Code bytes one after the other. -/
def hexBytes (bs : List UInt8) : String := String.join (bs.map hexByte)

end Dynarec.Text
