import TextGrammar.Value.Access

/-!
# Flattening

The text of a value with all structure taken away: the texts inside lists and matched
values, joined in order.
-/

namespace TextGrammar.Value

mutual

/-- The text of a value without its structure. -/
def flatten : Value → Except Fault String
  | .list vs => flattenAll vs
  | .matched raw _ => raw.flattenItems
  | v => .ok v.asText
termination_by structural v => v

def flattenItems : Value → Except Fault String
  | .list vs => flattenAll vs
  | .text s => .ok s
  | .dict entries => .ok (String.join (entries.map fun e => e.1.asText))
  | .matched raw _ => raw.flattenItems
  | .null => .error (.value (.notIterable "NoneType"))
  | .bool _ => .error (.value (.notIterable "bool"))
  | .int _ => .error (.value (.notIterable "int"))
termination_by structural v => v

def flattenAll : List Value → Except Fault String
  | [] => .ok ""
  | v :: rest => do
    let first ← v.flatten
    return first ++ (← flattenAll rest)
termination_by structural vs => vs

end

end TextGrammar.Value
