import TextGrammar.Table

/-!
# Values

What rules yield and actions work on. A text match yields a text, a sequence or a
repetition a list. When parts of a rule were tagged, the value of the rule is a
`matched` value: the raw value together with the tagged parts.
-/

namespace TextGrammar

/-- What an entry of a dictionary can be filed under. -/
inductive Key where
  | null
  | bool (b : Bool)
  | int (n : Int)
  | text (s : String)
  deriving Repr

/-- A truth value counts as one or zero. -/
def Key.number? : Key → Option Int
  | .bool b => some (if b then 1 else 0)
  | .int n => some n
  | .null | .text _ => none

/-- Whether two keys file under the same entry. Truth values and numbers are compared as numbers. -/
def Key.same : Key → Key → Bool
  | .null, .null => true
  | .text a, .text b => a == b
  | a, b =>
    match a.number?, b.number? with
    | some m, some n => m == n
    | _, _ => false

instance : BEq Key := ⟨Key.same⟩

inductive Value where
  | null
  | bool (b : Bool)
  | int (n : Int)
  | text (s : String)
  | list (items : List Value)
  | dict (entries : List (Key × Value))
  /-- A raw value with the tagged parts that were found inside it. -/
  | matched (raw : Value) (tags : List (String × Value))
  deriving Inhabited

/-- Tagged parts, in the order in which the tags were first met. -/
abbrev Tags := Table String Value

def Key.value : Key → Value
  | .null => .null
  | .bool b => .bool b
  | .int n => .int n
  | .text s => .text s

/-- The key that a value can serve as. Lists, dictionaries and matched values cannot. -/
def Value.key? : Value → Option Key
  | .null => some .null
  | .bool b => some (.bool b)
  | .int n => some (.int n)
  | .text s => some (.text s)
  | .list _ | .dict _ | .matched _ _ => none

/-- A raw value with its tagged parts: the raw value alone if there are none. -/
def Value.merge (raw : Value) (tags : Tags) : Value :=
  if tags.isEmpty then raw else .matched raw tags

def Tags.dict (tags : Tags) : Value := .dict (tags.map fun (t, v) => (.text t, v))

def Value.typeName : Value → String
  | .null => "NoneType"
  | .bool _ => "bool"
  | .int _ => "int"
  | .text _ => "str"
  | .list _ => "list"
  | .dict _ => "dict"
  | .matched _ _ => "Match"

@[simp] theorem Value.merge_nil (raw : Value) : raw.merge [] = raw := rfl

@[simp] theorem Value.merge_cons (raw : Value) (e : String × Value) (tags : Tags) :
    raw.merge (e :: tags) = .matched raw (e :: tags) := rfl

end TextGrammar
