import TextGrammar.Text.Blank

/-!
# Escaping

A text becomes a pattern that matches this text and nothing else by putting a
backslash before each character that has a meaning in patterns and before each blank.
-/

namespace TextGrammar

/-- The characters that mean something in a pattern or inside a set. -/
def metaChars : List Char :=
  ['(', ')', '[', ']', '{', '}', '?', '*', '+', '|', '^', '$', '\\', '.', '-', '#', '&', '~']

/-- Whether the character is written with a backslash. -/
def needsEscape (c : Char) : Bool := metaChars.contains c || isBlank c

/-- The pattern that matches exactly the given text. -/
def escapePattern (cs : List Char) : List Char :=
  cs.flatMap fun c => if needsEscape c then ['\\', c] else [c]

end TextGrammar
