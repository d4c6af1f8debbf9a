import TextGrammar.Text.Numeral

/-!
# Faulty patterns

What can be wrong with a pattern, and how it is said. A position counts characters
from the start of the pattern; in a pattern of several lines the line and the column
are given as well.
-/

namespace TextGrammar

inductive PatternProblem where
  | unterminatedSet
  | missing (what : Char)
  | unbalancedParenthesis
  | nothingToRepeat
  | multipleRepeat
  | minAboveMax
  | countTooBig
  | badRange
  | escapeAtEnd
  | badEscape (c : Char)
  | incompleteEscape (text : List Char)
  | badHexEscape (text : List Char)
  | invalidGroup
  | unknownGroup
  | openGroup
  | missingGroupName
  | badGroupName
  | unknownExtension
  | noFlagsOff
  | flagOnAndOff
  | cannotTurnOff
  deriving DecidableEq, Repr

def PatternProblem.message : PatternProblem → String
  | .unterminatedSet => "unterminated character set"
  | .missing what => "missing " ++ String.singleton what
  | .unbalancedParenthesis => "unbalanced parenthesis"
  | .nothingToRepeat => "nothing to repeat"
  | .multipleRepeat => "multiple repeat"
  | .minAboveMax => "min repeat greater than max repeat"
  | .countTooBig => "repeat count too big"
  | .badRange => "bad character range"
  | .escapeAtEnd => "bad escape (end of pattern)"
  | .badEscape c => "bad escape \\" ++ String.singleton c
  | .incompleteEscape text => "incomplete escape \\" ++ String.ofList text
  | .badHexEscape text => "bad hex escape \\" ++ String.ofList text
  | .invalidGroup => "invalid group reference"
  | .unknownGroup => "unknown group"
  | .openGroup => "cannot refer to an open group"
  | .missingGroupName => "missing group name"
  | .badGroupName => "bad character in group name"
  | .unknownExtension => "unknown extension"
  | .noFlagsOff => "bad inline flags: no flags after '-'"
  | .flagOnAndOff => "bad inline flags: flag turned on and off"
  | .cannotTurnOff => "bad inline flags: cannot turn flags off"

structure PatternError where
  problem : PatternProblem
  position : Nat
  deriving DecidableEq, Repr

/-- Why a pattern is refused. -/
inductive PatternFault where
  | malformed (e : PatternError)
  /-- ASCII and Unicode rules were both asked for. -/
  | flagConflict
  /-- A number in the pattern cannot be read. -/
  | numeral (digits : List Char) (f : NumeralFault)
  deriving DecidableEq, Repr

/-- The number of characters after the last line feed. -/
def columnOf (before : List Char) : Nat := (before.reverse.takeWhile (· != '\n')).length

/-- The wording of an error in the given pattern. -/
def PatternError.message (source : List Char) (e : PatternError) : String :=
  let place := e.problem.message ++ " at position " ++ toString e.position
  if source.contains '\n' then
    let before := source.take e.position
    place ++ " (line " ++ toString (before.count '\n' + 1) ++ ", column "
      ++ toString (columnOf before + 1) ++ ")"
  else place

end TextGrammar
