/-
Blanks, and the text operations that only look for blanks: trimming both ends and cutting a text
into words.
-/
import Dynarec.Text.Ranges

set_option autoImplicit false

namespace Dynarec.Text

/-- The ranges of the Unicode property White_Space. -/
def blankRanges : Ranges := [
  (0x9, 0xd), (0x20, 0x20), (0x85, 0x85), (0xa0, 0xa0), (0x1680, 0x1680), (0x2000, 0x200a),
  (0x2028, 0x2029), (0x202f, 0x202f), (0x205f, 0x205f), (0x3000, 0x3000)]

/-- A character of the White_Space property. -/
def isBlank (c : Char) : Bool := blankRanges.has c

/-- A text without the blanks at its two ends. -/
def trim (cs : List Char) : List Char :=
  ((cs.dropWhile isBlank).reverse.dropWhile isBlank).reverse

/-- One step of cutting a text into words, from its right end: a blank closes the word being
collected, any other character goes in front of it. -/
def wordsStep (c : Char) : List Char × List (List Char) → List Char × List (List Char)
  | (word, rest) =>
    if isBlank c then ([], if word.isEmpty then rest else word :: rest) else (c :: word, rest)

/-- The maximal runs of characters that are not blank, in order. -/
def words (cs : List Char) : List (List Char) :=
  match cs.foldr wordsStep ([], []) with
  | (word, rest) => if word.isEmpty then rest else word :: rest

end Dynarec.Text
