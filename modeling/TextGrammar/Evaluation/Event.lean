import TextGrammar.Rule.Basic
import TextGrammar.Value.Basic

/-!
# What happens during an evaluation

Every decision is recorded as an event, in the order in which it was taken. All
events but the calls of actions have a line in the log.
-/

namespace TextGrammar

/-- A decision, or the call of an action. -/
inductive Event where
  /-- A rule is looked up by name. -/
  | reference (name : String)
  | undefinedRule (name : String)
  | token (source : String)
  | taken (text : String)
  | noMatch
  | sequence (size : Nat)
  | tagged (tag : String)
  | choice (size : Nat)
  | alternative (index : Nat)
  | repetition (min max : Option Nat)
  /-- There were fewer rounds than the lower bound asks for. -/
  | tooFew (count min : Nat)
  | unknownRule (shown : String)
  /-- The action of a rule is called. -/
  | call (rule : String) (argument : Value)

/-- The line of the log that reports the event. -/
def Event.line? : Event → Option String
  | .reference name => some ("Reference rule: " ++ name)
  | .undefinedRule name => some ("-> undefined rule '" ++ name ++ "'")
  | .token source => some ("Token rule: /" ++ source ++ "/")
  | .taken text => some ("-> match: \"" ++ text ++ "\"")
  | .noMatch => some "-> no match"
  | .sequence size => some ("Sequence rule: " ++ toString size ++ " items")
  | .tagged tag => some ("Tagged rule: \x7b" ++ tag ++ ": ...\x7d")
  | .choice size => some ("Choice rule: " ++ toString size ++ " alternatives")
  | .alternative index => some ("-> alternative " ++ toString index ++ " matched")
  | .repetition min max =>
    some ("Repeat rule: min=" ++ Bounds.shownBound min ++ " max=" ++ Bounds.shownBound max)
  | .tooFew count min => some ("-> " ++ toString count ++ " < min " ++ toString min)
  | .unknownRule shown => some ("Unknown rule: " ++ shown)
  | .call _ _ => none

/-- The call that the event is, with the name of the rule and the argument. -/
def Event.call? : Event → Option (String × Value)
  | .call rule argument => some (rule, argument)
  | _ => none

def logLines (events : List Event) : List String := events.filterMap Event.line?

def actionCalls (events : List Event) : List (String × Value) := events.filterMap Event.call?

end TextGrammar
