import TextGrammar.Pattern.Error
import TextGrammar.Rule.Fault
import TextGrammar.Text.Quoted

/-!
# Faults in grammar text

A fault is a problem at an offset: the number of characters that had been read when
the problem was noticed.
-/

namespace TextGrammar

inductive GrammarProblem where
  | expectedName
  | expected (literal : String)
  | expectedCount
  | unterminatedPattern
  | unterminatedText
  | badPattern (source : List Char) (e : PatternError)
  | badBounds (f : RuleFault)
  | duplicateRule (name : String)
  | noRules
  | unexpected (c : Char)
  | unexpectedEnd
  deriving DecidableEq, Repr

def GrammarProblem.message : GrammarProblem → String
  | .expectedName => "expected NAME"
  | .expected literal => "expected " ++ quoted literal
  | .expectedCount => "expected count"
  | .unterminatedPattern => "unterminated regex"
  | .unterminatedText => "unterminated string"
  | .badPattern source e =>
    "bad regex /" ++ String.ofList source ++ "/: " ++ e.message source
  | .badBounds f => f.message
  | .duplicateRule name => "duplicate rule '" ++ name ++ "'"
  | .noRules => "empty grammar"
  | .unexpected c => "unexpected " ++ quoted (String.singleton c)
  | .unexpectedEnd => "unexpected end of input"

/-- A problem at an offset of a grammar text. -/
structure GrammarFault where
  offset : Nat
  problem : GrammarProblem
  deriving DecidableEq, Repr

def GrammarFault.message (f : GrammarFault) : String :=
  "grammar parse error at " ++ toString f.offset ++ ": " ++ f.problem.message

end TextGrammar
