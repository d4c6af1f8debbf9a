import TextGrammar.Value.Print

/-!
# Faults in the use of values

What goes wrong when a value is asked for something that it does not have. Most of
these name the types involved.
-/

namespace TextGrammar

inductive ValueFault where
  | missingKey (key : Key)
  | missingTag (tag : String)
  | listIndexRange
  | textIndexRange
  | indexTooLarge
  | listIndexType (typeName : String)
  | textIndexType (typeName : String)
  | notSubscriptable (typeName : String)
  | notIterable (typeName : String)
  | notSearchable (typeName : String)
  | textSearchType (typeName : String)
  | noLength (typeName : String)
  | unhashable (typeName : String)
  | noAttribute (typeName name : String)
  | hiddenAttribute (name : String)
  | noSetter (name : String)
  | readOnly (name : String)
  | zeroStep
  | notCallable (typeName : String)
  | unsupported (operator left right : String)
  | concatenation (left right : String)
  | multiplier (typeName : String)
  | tooFewItems (expected got : Nat)
  | tooManyItems (expected : Nat)
  | notUnpackable (typeName : String)
  deriving Repr

namespace ValueFault

def kind : ValueFault → String
  | .missingKey _ | .missingTag _ => "KeyError"
  | .listIndexRange | .textIndexRange | .indexTooLarge => "IndexError"
  | .noAttribute _ _ | .hiddenAttribute _ | .noSetter _ | .readOnly _ => "AttributeError"
  | .zeroStep | .tooFewItems _ _ | .tooManyItems _ => "ValueError"
  | .listIndexType _ | .textIndexType _ | .notSubscriptable _ | .notIterable _
  | .notSearchable _ | .textSearchType _ | .noLength _ | .unhashable _ | .notCallable _
  | .unsupported _ _ _ | .concatenation _ _ | .multiplier _ | .notUnpackable _ => "TypeError"

/-- The wording of a fault. A missing entry is said by what was looked for alone. -/
def message : ValueFault → String
  | .missingKey key => key.shown
  | .missingTag tag => quoted ("no tag " ++ quoted tag ++ " in match")
  | .listIndexRange => "list index out of range"
  | .textIndexRange => "string index out of range"
  | .indexTooLarge => "cannot fit 'int' into an index-sized integer"
  | .listIndexType t => "list indices must be integers or slices, not " ++ t
  | .textIndexType t => "string indices must be integers, not '" ++ t ++ "'"
  | .notSubscriptable t => "'" ++ t ++ "' object is not subscriptable"
  | .notIterable t => "'" ++ t ++ "' object is not iterable"
  | .notSearchable t => "argument of type '" ++ t ++ "' is not iterable"
  | .textSearchType t => "'in <string>' requires string as left operand, not " ++ t
  | .noLength t => "object of type '" ++ t ++ "' has no len()"
  | .unhashable t => "unhashable type: '" ++ t ++ "'"
  | .noAttribute t name => "'" ++ t ++ "' object has no attribute '" ++ name ++ "'"
  | .hiddenAttribute name => name
  | .noSetter name => "property '" ++ name ++ "' of 'Match' object has no setter"
  | .readOnly name => "'Match' object attribute '" ++ name ++ "' is read-only"
  | .zeroStep => "slice step cannot be zero"
  | .notCallable t => "'" ++ t ++ "' object is not callable"
  | .unsupported operator left right =>
    "unsupported operand type(s) for " ++ operator ++ ": '" ++ left ++ "' and '" ++ right ++ "'"
  | .concatenation left right =>
    "can only concatenate " ++ left ++ " (not \"" ++ right ++ "\") to " ++ left
  | .multiplier t => "can't multiply sequence by non-int of type '" ++ t ++ "'"
  | .tooFewItems expected got =>
    "not enough values to unpack (expected " ++ toString expected ++ ", got " ++ toString got ++ ")"
  | .tooManyItems expected =>
    "too many values to unpack (expected " ++ toString expected ++ ")"
  | .notUnpackable t => "cannot unpack non-iterable " ++ t ++ " object"

end ValueFault

end TextGrammar
