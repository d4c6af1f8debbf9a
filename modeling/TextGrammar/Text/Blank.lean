import TextGrammar.Text.CodeRanges

/-!
# White space

Two sets. `isWhiteSpace` is the Unicode property. `isBlank` has four control
characters more, the information separators `U+001C` to `U+001F`, which separate
but are not white space.
-/

namespace TextGrammar

/-- The code points with the property `White_Space`. -/
def whiteSpaceRanges : CodeRanges :=
  [(0x9, 0xD), (0x20, 0x20), (0x85, 0x85), (0xA0, 0xA0), (0x1680, 0x1680), (0x2000, 0x200A),
   (0x2028, 0x2029), (0x202F, 0x202F), (0x205F, 0x205F), (0x3000, 0x3000)]

/-- Whether the character has the property `White_Space`. -/
def isWhiteSpace (c : Char) : Bool := whiteSpaceRanges.has c.toNat

/-- Whether the character is white space or an information separator. -/
def isBlank (c : Char) : Bool := (0x1C ≤ c.toNat && c.toNat ≤ 0x1F) || isWhiteSpace c

end TextGrammar
