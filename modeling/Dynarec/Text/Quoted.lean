/-
One character in single quotes, as error messages quote the character they stumbled on.

A character stands for itself unless it is the quote, the backslash, one of the four controls with
a letter of their own, or hidden; a hidden character is written by its code point in base sixteen.
-/
import Dynarec.Text.Hex
import Dynarec.Text.Hidden

set_option autoImplicit false

namespace Dynarec.Text

/-- The inside of a quoted character. -/
def escape (c : Char) : String :=
  if c.toNat = 0 then "\\0"
  else if c = '\t' then "\\t"
  else if c = '\r' then "\\r"
  else if c = '\n' then "\\n"
  else if c.toNat = 39 then "\\'"
  else if c = '\\' then "\\\\"
  else if isHidden c then "\\u\x7b" ++ hexDigits c.toNat ++ "\x7d"
  else c.toString

/-- A character in single quotes. -/
def quoted (c : Char) : String := "'" ++ escape c ++ "'"

/-- What was found at a place in a text: a character, or nothing because the text ends there. -/
def found : Option Char → String
  | none => "None"
  | some c => "Some(" ++ quoted c ++ ")"

end Dynarec.Text
