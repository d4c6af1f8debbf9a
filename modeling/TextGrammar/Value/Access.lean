import TextGrammar.Fault
import TextGrammar.Value.Equal

/-!
# Asking values

Attributes, items, slices, membership, length and iteration. A matched value looks
tags up by name and hands every other question on to its raw value.
-/

namespace TextGrammar

/-- The bound, `2 ^ 63`, from which on an index does not fit a machine word. -/
def indexLimit : Int := 0x8000000000000000

/-- The place that an index means in a sequence; a negative one counts from the end. -/
def resolveIndex (size : Nat) (index : Int) : Option Nat :=
  let place := if index < 0 then index + size else index
  if 0 ≤ place ∧ place < size then some place.toNat else none

/-- A bound of a slice, moved into the range from `low` to `high`. -/
def clampBound (size : Nat) (low high : Int) (bound : Int) : Int :=
  let place := if bound < 0 then bound + size else bound
  max low (min high place)

/-- The places of a slice, in order, or nothing if the step is zero. -/
def slicePlaces (size : Nat) (start stop step : Option Int) : Option (List Nat) :=
  let step := step.getD 1
  if step = 0 then none
  else
    let low : Int := if step < 0 then -1 else 0
    let high : Int := if step < 0 then size - 1 else size
    let first := match start with
      | some b => clampBound size low high b
      | none => if step < 0 then high else low
    let last := match stop with
      | some b => clampBound size low high b
      | none => if step < 0 then low else high
    let span : Int := if step < 0 then first - last else last - first
    let count := ((span + step.natAbs - 1) / step.natAbs).toNat
    some ((List.range count).map fun (i : Nat) => (first + i * step).toNat)

namespace Value

/-- The characters of a text, each as a text. -/
def characters (s : String) : List Value := s.toList.map fun c => .text (String.singleton c)

/-- The items of a value in order. A dictionary lists its keys, a text its characters. -/
def items : Value → Except Fault (List Value)
  | .list vs => .ok vs
  | .text s => .ok (characters s)
  | .dict entries => .ok (entries.map fun e => e.1.value)
  | .matched raw _ => raw.items
  | v => .error (.value (.notIterable v.typeName))

def length : Value → Except Fault Nat
  | .list vs => .ok vs.length
  | .text s => .ok s.length
  | .dict entries => .ok entries.length
  | .matched raw _ => raw.length
  | v => .error (.value (.noLength v.typeName))

/-- A sequence is true if it has items. -/
def isNonEmpty (v : Value) : Except Fault Bool := v.length.map (· != 0)

def index? (v : Value) : Option Int := v.number?

/-- The item of a sequence at an index, or the given fault. -/
def itemAt (items : List Value) (range : ValueFault) (index : Int) : Except Fault Value :=
  if index < -indexLimit ∨ indexLimit ≤ index then .error (.value .indexTooLarge)
  else
    match (resolveIndex items.length index).bind (items[·]?) with
    | some v => .ok v
    | none => .error (.value range)

def entryAt (entries : List (Key × Value)) (key : Value) : Except Fault Value :=
  match key.key? with
  | none => .error (.value (.unhashable key.typeName))
  | some k =>
    match Table.get? entries k with
    | some v => .ok v
    | none => .error (.value (.missingKey k))

/-- The item under a key. A text looks a tag up in a matched value. -/
def item : Value → Value → Except Fault Value
  | .list vs, key =>
    match key.index? with
    | some n => itemAt vs .listIndexRange n
    | none => .error (.value (.listIndexType key.typeName))
  | .text s, key =>
    match key.index? with
    | some n => itemAt (characters s) .textIndexRange n
    | none => .error (.value (.textIndexType key.typeName))
  | .dict entries, key => entryAt entries key
  | .matched _ tags, .text tag =>
    match Table.get? tags tag with
    | some v => .ok v
    | none => .error (.value (.missingTag tag))
  | .matched raw _, key => raw.item key
  | v, _ => .error (.value (.notSubscriptable v.typeName))

def slice (start stop step : Option Int) : Value → Except Fault Value
  | .list vs =>
    match slicePlaces vs.length start stop step with
    | some places => .ok (.list (places.filterMap (vs[·]?)))
    | none => .error (.value .zeroStep)
  | .text s =>
    let cs := s.toList
    match slicePlaces cs.length start stop step with
    | some places => .ok (.text (String.ofList (places.filterMap (cs[·]?))))
    | none => .error (.value .zeroStep)
  | .dict _ => .error (.value (.unhashable "slice"))
  | .matched raw _ => raw.slice start stop step
  | v => .error (.value (.notSubscriptable v.typeName))

/-- Whether a list of characters occurs in another without a gap. -/
def occursIn (needle : List Char) : List Char → Bool
  | [] => needle.isEmpty
  | c :: rest => needle.isPrefixOf (c :: rest) || occursIn needle rest

/-- Whether a key is present among those of a table. -/
def keyAmong (present : Key → Bool) (key : Value) : Except Fault Bool :=
  match key.key? with
  | some k => .ok (present k)
  | none => .error (.value (.unhashable key.typeName))

/-- Membership: a tag of a matched value, a part of a text, an item of a list, a key. -/
def contains (v member : Value) : Except Fault Bool :=
  match v with
  | .matched _ tags =>
    keyAmong (fun k => tags.any fun e => (Key.text e.1).same k) member
  | .dict entries => keyAmong (fun k => Table.has entries k) member
  | .list vs => .ok (vs.any fun w => w.same member)
  | .text s =>
    match member with
    | .text part => .ok (occursIn part.toList s.toList)
    | w => .error (.value (.textSearchType w.typeName))
  | w => .error (.value (.notSearchable w.typeName))

/--
An attribute. A matched value has its raw value, its tagged parts and its tags as
attributes; a tag that it does not have reads as null, but a hidden name is refused.
-/
def getAttribute (name : String) : Value → Except Fault Value
  | .matched raw tags =>
    if name = "raw" ∨ name = "_raw" then .ok raw
    else if name = "tags" ∨ name = "_tags" then .ok (Tags.dict tags)
    else if name.startsWith "_" then .error (.value (.hiddenAttribute name))
    else .ok ((Table.get? tags name).getD .null)
  | v => .error (.value (.noAttribute v.typeName name))

/-- The value of a tag or of a key, or the given value if it is absent. -/
def lookup (v : Value) (name : String) (default : Value) : Except Fault Value :=
  match v with
  | .matched _ tags => .ok ((Table.get? tags name).getD default)
  | .dict entries => .ok ((Table.get? entries (.text name)).getD default)
  | v => .error (.value (.noAttribute v.typeName "get"))

/-- The raw value of a matched value; any other value is its own raw value. -/
def raw : Value → Value
  | .matched r _ => r
  | v => v

/-- The tagged parts; only matched values have any. -/
def tags : Value → Tags
  | .matched _ ts => ts
  | _ => []

/-- Sets an attribute. Only the raw value and the tagged parts can be replaced. -/
def setAttribute (v : Value) (name : String) (new : Value) : Except Fault Value :=
  match v with
  | .matched r ts =>
    if name = "_raw" then .ok (.matched new ts)
    else if name = "_tags" then
      match new with
      | .dict entries => .ok (.matched r (entries.map fun (k, v) => (k.asText, v)))
      | _ => .ok (.matched r ts)
    else if name = "raw" ∨ name = "tags" then .error (.value (.noSetter name))
    else if name = "get" ∨ name = "keys" then .error (.value (.readOnly name))
    else .error (.value (.noAttribute v.typeName name))
  | _ => .error (.value (.noAttribute v.typeName name))

end Value

end TextGrammar
