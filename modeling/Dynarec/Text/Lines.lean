/-
Texts as lines.

Two ways of cutting a text at its line feeds are needed. A listing is read line by line and an
error message may have to name the line feed itself, so its lines keep their terminator. Reports
and check files are compared line by line, so their lines have neither the line feed nor the
carriage return in front of it, and a final line feed opens no further line.
-/

set_option autoImplicit false

namespace Dynarec.Text

/-- One step of cutting a text into terminated lines, from its right end: a line feed starts a
new line that ends with it, any other character goes in front of the line being collected. -/
def terminatedStep (c : Char) : List (List Char) → List (List Char)
  | [] => [[c]]
  | line :: rest => if c = '\n' then [c] :: line :: rest else (c :: line) :: rest

/-- The lines of a text, each with the line feed that ends it if there is one; their
concatenation is the text. -/
def terminatedLines (cs : List Char) : List (List Char) := cs.foldr terminatedStep []

/-- A line without its terminator: the line feed and one carriage return in front of it. -/
def stripTerminator (line : List Char) : List Char :=
  match line.reverse with
  | '\n' :: '\r' :: rest => rest.reverse
  | '\n' :: rest => rest.reverse
  | _ => line

/-- The lines of a text without their terminators. -/
def lines (cs : List Char) : List (List Char) := (terminatedLines cs).map stripTerminator

/-- `pattern` occurs somewhere in `text`. -/
def occursIn (pattern : List Char) : List Char → Bool
  | [] => pattern.isEmpty
  | c :: cs => pattern.isPrefixOf (c :: cs) || occursIn pattern cs

/-- One step of cutting a text at a separator, from its right end. -/
def splitStep (sep : Char) (c : Char) : List (List Char) → List (List Char)
  | [] => if c = sep then [[], []] else [[c]]
  | piece :: rest => if c = sep then [] :: piece :: rest else (c :: piece) :: rest

/-- The pieces of a text between its separators; a text without a separator is one piece. -/
def splitOn (sep : Char) (cs : List Char) : List (List Char) :=
  cs.foldr (splitStep sep) [[]]

end Dynarec.Text
