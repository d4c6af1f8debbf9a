import TextGrammar.Value.Access

/-!
# Arithmetic on values

Numbers are added, subtracted and multiplied as integers, truth values counting as
one and zero. Texts and lists can be joined, and repeated as far as there is room for
`capacity` items.
-/

namespace TextGrammar.Value

def numbers? (a b : Value) : Option (Int × Int) :=
  match a.number?, b.number? with
  | some m, some n => some (m, n)
  | _, _ => none

/-- Neither numbers nor anything else that the operator takes. -/
def unsupported (operator : String) (a b : Value) : Except Fault Value :=
  .error (.value (.unsupported operator a.typeName b.typeName))

/-- The sum of two numbers, or two texts or lists joined. -/
def add (a b : Value) : Except Fault Value :=
  match a.numbers? b with
  | some (m, n) => .ok (.int (m + n))
  | none =>
    match a, b with
    | .text s, .text t => .ok (.text (s ++ t))
    | .list vs, .list ws => .ok (.list (vs ++ ws))
    | .text _, w => .error (.value (.concatenation "str" w.typeName))
    | .list _, w => .error (.value (.concatenation "list" w.typeName))
    | v, w => unsupported "+" v w

def subtract (a b : Value) : Except Fault Value :=
  match a.numbers? b with
  | some (m, n) => .ok (.int (m - n))
  | none => unsupported "-" a b

/-- A text or a list, repeated; a negative count leaves nothing of it. -/
def repeatSequence? (capacity : Nat) (v : Value) (n : Int) : Option (Except Fault Value) :=
  match v with
  | .text s =>
    match Fault.ofRepetition? capacity true s.length n with
    | some f => some (.error f)
    | none => some (.ok (.text (String.ofList (List.replicate n.toNat s.toList).flatten)))
  | .list vs =>
    match Fault.ofRepetition? capacity false vs.length n with
    | some f => some (.error f)
    | none => some (.ok (.list (List.replicate n.toNat vs).flatten))
  | _ => none

def isSequence : Value → Bool
  | .text _ | .list _ => true
  | _ => false

/-- The product of two numbers, or a text or a list repeated. -/
def multiply (capacity : Nat) (a b : Value) : Except Fault Value :=
  match a.numbers? b with
  | some (m, n) => .ok (.int (m * n))
  | none =>
    match b.number?.bind (a.repeatSequence? capacity),
      a.number?.bind (b.repeatSequence? capacity) with
    | some result, _ => result
    | none, some result => result
    | none, none =>
      if a.isSequence then .error (.value (.multiplier b.typeName))
      else if b.isSequence then .error (.value (.multiplier a.typeName))
      else unsupported "*" a b

/-- The two items of a value that has exactly two. -/
def twoItems (v : Value) : Except Fault (Value × Value) :=
  match v.items with
  | .error _ => .error (.value (.notUnpackable v.typeName))
  | .ok [a, b] => .ok (a, b)
  | .ok vs =>
    if vs.length < 2 then .error (.value (.tooFewItems 2 vs.length))
    else .error (.value (.tooManyItems 2))

/-- One step of a calculation: an operator sign and a number. Any other sign multiplies. -/
def applyStep (capacity : Nat) (total step : Value) : Except Fault Value := do
  let (sign, n) ← step.twoItems
  if sign.same (.text "+") then total.add n
  else if sign.same (.text "-") then total.subtract n
  else total.multiply capacity n

/-- A calculation from left to right: a first value and a list of steps. -/
def calculate (capacity : Nat) (v : Value) : Except Fault Value := do
  let first ← v.item (.int 0)
  let steps ← (← v.item (.int 1)).items
  steps.foldlM (applyStep capacity) first

end TextGrammar.Value
