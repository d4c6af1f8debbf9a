import TextGrammar.Value.Basic

/-!
# Equality of values

Numbers and truth values are equal as numbers. Lists are compared item by item.
Dictionaries and tagged parts are compared as finite maps: the order of the entries
does not count. A matched value equals matched values only.
-/

namespace TextGrammar.Value

/-- The number that a number or a truth value counts as. -/
def number? : Value → Option Int
  | .bool b => some (if b then 1 else 0)
  | .int n => some n
  | _ => none

mutual

def same : Value → Value → Bool
  | .null, .null => true
  | .bool a, w => w.number? == some (if a then 1 else 0)
  | .int a, w => w.number? == some a
  | .text a, .text b => a == b
  | .list a, .list b => sameItems a b
  | .dict a, .dict b => a.length == b.length && sameEntries a b
  | .matched r s, .matched r' s' => r.same r' && (s.length == s'.length && sameTags s s')
  | _, _ => false
termination_by structural v => v

/-- Whether two lists have equal items in the same order. -/
def sameItems : List Value → List Value → Bool
  | [], [] => true
  | v :: vs, w :: ws => v.same w && sameItems vs ws
  | _, _ => false
termination_by structural vs => vs

/-- Whether each entry has an equal one in the other dictionary. -/
def sameEntries : List (Key × Value) → List (Key × Value) → Bool
  | [], _ => true
  | (k, v) :: rest, other =>
    (match Table.get? other k with
      | some w => v.same w
      | none => false) && sameEntries rest other
termination_by structural es => es

/-- Whether each tagged part has an equal one among the others. -/
def sameTags : List (String × Value) → List (String × Value) → Bool
  | [], _ => true
  | (t, v) :: rest, other =>
    (match Table.get? other t with
      | some w => v.same w
      | none => false) && sameTags rest other
termination_by structural ts => ts

end

end TextGrammar.Value
