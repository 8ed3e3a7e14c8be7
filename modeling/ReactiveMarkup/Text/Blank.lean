-- SUMMARY: Blank characters, and texts without blanks at their ends.
import ReactiveMarkup.Text.CodeRange

/-!
# Blank characters

The characters with the Unicode property White_Space, and the text without those at its ends.
-/

namespace ReactiveMarkup.Text

/-- The code points with the property White_Space. -/
def blankRanges : List CodeRange :=
  [(0x09, 0x0D), (0x20, 0x20), (0x85, 0x85), (0xA0, 0xA0), (0x1680, 0x1680), (0x2000, 0x200A),
   (0x2028, 0x2029), (0x202F, 0x202F), (0x205F, 0x205F), (0x3000, 0x3000)]

/-- Whether the character has the property White_Space. -/
def isBlank (c : Char) : Bool := inRanges blankRanges c

/-- Whether the text has no other characters than blank ones. -/
def allBlank (s : String) : Bool := s.toList.all isBlank

/-- The characters without the blank ones at the end. -/
def trimRight (cs : List Char) : List Char := (cs.reverse.dropWhile isBlank).reverse

/-- The text without the blank characters at both ends. -/
def trim (s : String) : String := String.ofList (trimRight (s.toList.dropWhile isBlank))

end ReactiveMarkup.Text
