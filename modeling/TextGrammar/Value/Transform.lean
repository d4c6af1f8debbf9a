import TextGrammar.Value.Arithmetic
import TextGrammar.Value.Flatten

/-!
# Transforms

A small language of functions on values, from which actions are made.
-/

namespace TextGrammar

inductive Transform where
  | identity
  | raw
  | tags
  | keys
  | integer
  | asText
  | shown
  | length
  | items
  | flatten
  | getAttribute (name : String)
  | lookup (name : String) (default : Value)
  | item (key : Value)
  | contains (member : Value)
  /-- The sum of the parts `left` and `right`, or the part `atom` if there is no `left`. -/
  | leftPlusRight
  /-- A dictionary with one entry, from two items. -/
  | pair (key value : Value)
  | calculate
  | const (v : Value)
  | raise (kind text : String)
  | andThen (first second : Transform)

namespace Transform

def readValue (v : Value) : Except Fault Value :=
  match readInteger v.asText with
  | .ok n => .ok (.int n)
  | .error f => .error (.numeral v.asText f)

/-- The sum of the parts `left` and `right`, or the part `atom` if there is no `left`. -/
def sumOfParts (v : Value) : Except Fault Value := do
  match ← v.getAttribute "left" with
  | .null => v.getAttribute "atom"
  | left => left.add (← v.getAttribute "right")

/-- A dictionary with one entry, from two items of a value. -/
def pairOf (v key value : Value) : Except Fault Value := do
  let k ← v.item key
  let w ← v.item value
  match k.key? with
  | some k => return .dict [(k, w)]
  | none => throw (.value (.unhashable k.typeName))

/-- The answer of a transform where there is room for `capacity` items in a list. -/
def apply (capacity : Nat) : Transform → Value → Except Fault Value
  | .identity, v => .ok v
  | .raw, v => .ok v.raw
  | .tags, v => .ok (Tags.dict v.tags)
  | .keys, v => .ok (.list (v.tags.map fun e => .text e.1))
  | .integer, v => readValue v
  | .asText, v => .ok (.text v.asText)
  | .shown, v => .ok (.text v.shown)
  | .length, v => v.length.map fun n => .int n
  | .items, v => v.items.map .list
  | .flatten, v => v.flatten.map .text
  | .getAttribute name, v => v.getAttribute name
  | .lookup name default, v => v.lookup name default
  | .item key, v => v.item key
  | .contains member, v => (v.contains member).map .bool
  | .leftPlusRight, v => sumOfParts v
  | .pair key value, v => pairOf v key value
  | .calculate, v => v.calculate capacity
  | .const w, _ => .ok w
  | .raise kind text, _ => .error (.raised kind text)
  | .andThen first second, v => do second.apply capacity (← first.apply capacity v)

end Transform

end TextGrammar
