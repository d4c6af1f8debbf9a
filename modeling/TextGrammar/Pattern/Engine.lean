import TextGrammar.Pattern.Error
import TextGrammar.Pattern.Escape
import TextGrammar.Pattern.Flags

/-!
# Engines

Rules leave their patterns to an engine. It refuses the text of a pattern or makes a compiled
form of it, which finds something at the front of a text or does not. Nothing else is known of
an engine but the facts in `PatternEngine` and `CompiledPattern`, so whatever is built on them
works with any.

What is found need not be the front of the text itself: a pattern may keep only a part of what
it has gone past. `CompiledPattern.TakesFront` says of a pattern that it does not.
-/

namespace TextGrammar

/-- What a pattern finds at the front of a text. -/
@[ext]
structure Found where
  text : List Char
  /-- How far the pattern has gone. -/
  length : Nat
  deriving DecidableEq, Repr

/-- So many characters from the front of a text. -/
def Found.front (text : List Char) (length : Nat) : Found := ⟨text.take length, length⟩

/-- A pattern that is ready to match, with the flags that hold for all of it. -/
structure CompiledPattern where
  bits : Nat
  find? : List Char → Option Found
  /-- No pattern goes past the end of the text. -/
  within : ∀ {text found}, find? text = some found → found.length ≤ text.length

/-- What the pattern finds is what it has gone past. -/
def CompiledPattern.TakesFront (p : CompiledPattern) : Prop :=
  ∀ text found, p.find? text = some found → found = .front text found.length

namespace CompiledPattern.TakesFront

variable {p : CompiledPattern} {text : List Char} {found : Found}

theorem text_eq (h : p.TakesFront) (hfound : p.find? text = some found) :
    found.text = text.take found.length :=
  congrArg Found.text (h text found hfound)

theorem length_text (h : p.TakesFront) (hfound : p.find? text = some found) :
    found.text.length = found.length := by
  rw [h.text_eq hfound, List.length_take_of_le (p.within hfound)]

end CompiledPattern.TakesFront

/-- The pattern of the white space that is skipped unless a caller says otherwise. -/
def defaultSpaceSource : String := "[ \\t\\r\\n]*"

/-- The characters that are skipped unless a caller says otherwise. -/
def usualSpaces : List Char := [' ', '\t', '\r', '\n']

/-- The usual white space that a text starts with. -/
def spaceAhead (text : List Char) : List Char := text.takeWhile fun c => decide (c ∈ usualSpaces)

/-- What compiles the text of a pattern under some flags. -/
class PatternEngine where
  compile : List Char → Nat → Except PatternFault CompiledPattern
  /-- The compiled form of a text that has been escaped. -/
  ofText : List Char → CompiledPattern
  compile_escapePattern (text : List Char) :
    compile (escapePattern text) Flags.none.bits = .ok (ofText text)
  /-- The compiled form of the usual white space. -/
  usualSpace : CompiledPattern
  compile_usualSpace : compile defaultSpaceSource.toList Flags.none.bits = .ok usualSpace
  /-- The usual white space matches everywhere, and takes the run of white space there. -/
  find?_usualSpace (text : List Char) :
    usualSpace.find? text = some ⟨spaceAhead text, (spaceAhead text).length⟩

end TextGrammar
