/-!
# Faulty declarations

What can be wrong with a rule as a caller writes it.
-/

namespace TextGrammar

/-- Why a declaration is refused. -/
inductive RuleFault where
  /-- The value is no form of a rule. -/
  | unusable (typeName shown : String)
  /-- A tagged rule is written as a dictionary with one entry; this one has other keys. -/
  | tagCount (shownKeys : String)
  | negativeBound (bound : Int)
  | boundsOutOfOrder (min max : Nat)
  /-- A repetition was given both a count and bounds. -/
  | countWithBounds
  deriving DecidableEq, Repr

namespace RuleFault

def kind : RuleFault → String
  | .unusable _ _ | .tagCount _ => "TypeError"
  | .negativeBound _ | .boundsOutOfOrder _ _ | .countWithBounds => "ValueError"

def message : RuleFault → String
  | .unusable typeName shown => "cannot use " ++ typeName ++ " as a rule: " ++ shown
  | .tagCount keys => "tagged rule must have exactly one tag, got " ++ keys
  | .negativeBound bound => "repeat bound must be >= 0, got " ++ toString bound
  | .boundsOutOfOrder min max =>
    "repeat bounds out of order: min=" ++ toString min ++ " > max=" ++ toString max
  | .countWithBounds => "times(): pass either count or min/max, not both"

end RuleFault

end TextGrammar
